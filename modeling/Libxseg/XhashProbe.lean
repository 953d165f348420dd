import Libxseg.FullPeriod
import Libxseg.Xhash

/-!
# The probe sequence meets every slot

`probe` is the sequence of slots that a walk visits. Once the hash has been shifted out of
`perturb` the sequence is `x ↦ 5 x + 1` modulo the size, which has the full period.
So a walk ends exactly when some slot stops it, and at the first such slot.
-/

namespace Libxseg

set_option autoImplicit false

universe u

def probeFrom (mask : Nat) : Nat → Nat → Nat → Nat
  | 0, idx, _ => idx
  | n + 1, idx, perturb =>
    probeFrom mask n (nextIdx mask idx perturb) (perturb >>> PERTURB_SHIFT)

variable {mask fuel idx perturb i : Nat} {stop : Nat → Bool}

theorem walk_eq_some (h : walk mask stop fuel idx perturb = some i) :
    ∃ n < fuel, probeFrom mask n idx perturb = i ∧ stop i = true ∧
      ∀ m < n, stop (probeFrom mask m idx perturb) = false := by
  induction fuel generalizing idx perturb with
  | zero => cases h
  | succ fuel ih =>
    rw [walk] at h
    cases hidx : stop idx with
    | true =>
      rw [if_pos hidx] at h
      cases h
      exact ⟨0, Nat.succ_pos _, rfl, hidx, fun m hm => absurd hm (Nat.not_lt_zero m)⟩
    | false =>
      rw [if_neg (by simp [hidx])] at h
      obtain ⟨n, hn, hi, hstop, hfirst⟩ := ih h
      refine ⟨n + 1, by omega, hi, hstop, fun m hm => ?_⟩
      cases m with
      | zero => exact hidx
      | succ m => exact hfirst m (by omega)

theorem walk_eq_none (h : walk mask stop fuel idx perturb = none) :
    ∀ n < fuel, stop (probeFrom mask n idx perturb) = false := by
  induction fuel generalizing idx perturb with
  | zero => exact fun n hn => absurd hn (Nat.not_lt_zero n)
  | succ fuel ih =>
    rw [walk] at h
    cases hidx : stop idx with
    | true =>
      rw [if_pos hidx] at h
      cases h
    | false =>
      rw [if_neg (by simp [hidx])] at h
      intro n hn
      cases n with
      | zero => exact hidx
      | succ n => exact ih h n (by omega)

theorem probeFrom_add (mask m n idx perturb : Nat) :
    probeFrom mask (m + n) idx perturb =
      probeFrom mask n (probeFrom mask m idx perturb) (perturb >>> (PERTURB_SHIFT * m)) := by
  induction m generalizing idx perturb with
  | zero => rw [Nat.zero_add]; rfl
  | succ m ih =>
    rw [Nat.succ_add, probeFrom, ih, probeFrom, ← Nat.shiftRight_add, Nat.mul_succ, Nat.add_comm]

theorem nextIdx_eq (shift idx perturb : Nat) :
    nextIdx (2 ^ shift - 1) idx perturb = (5 * idx + 1 + perturb) % 2 ^ shift := by
  have hfour : idx <<< 2 = 4 * idx := by rw [Nat.shiftLeft_eq]; omega
  rw [nextIdx, Nat.and_two_pow_sub_one_eq_mod, hfour]
  congr 1
  omega

/-- The source computes the next slot modulo 2^64 before it masks. -/
theorem nextIdx_wrap {shift : Nat} (hs : shift ≤ 64) (idx perturb : Nat) :
    (((idx <<< 2) + idx + 1 + perturb) % 2 ^ 64) &&& (2 ^ shift - 1) =
      nextIdx (2 ^ shift - 1) idx perturb := by
  rw [nextIdx, Nat.and_two_pow_sub_one_eq_mod, Nat.and_two_pow_sub_one_eq_mod]
  exact Nat.mod_mod_of_dvd _ (Nat.pow_dvd_pow 2 hs)

theorem probeFrom_lt {shift : Nat} (hidx : idx < 2 ^ shift) (n : Nat) :
    probeFrom (2 ^ shift - 1) n idx perturb < 2 ^ shift := by
  induction n generalizing idx perturb with
  | zero => exact hidx
  | succ n ih =>
    rw [probeFrom]
    apply ih
    rw [nextIdx_eq]
    exact Nat.mod_lt _ (Nat.two_pow_pos shift)

theorem probeFrom_unperturbed (shift n idx : Nat) :
    probeFrom (2 ^ shift - 1) n idx 0 ≡ quintic^[n] idx [MOD 2 ^ shift] := by
  induction n generalizing idx with
  | zero => rfl
  | succ n ih =>
    rw [probeFrom, Nat.zero_shiftRight, nextIdx_eq, Function.iterate_succ_apply]
    exact (ih _).trans (quintic_iterate_congr (Nat.mod_modEq _ _) n)

def probe (size : Nat) (hash : xhashidx) (n : Nat) : Nat :=
  let mask := size - 1
  probeFrom mask n (hash.toNat &&& mask) hash.toNat

section Coverage
variable {shift : Nat} {hash : xhashidx}

theorem probe_lt (shift : Nat) (hash : xhashidx) (n : Nat) :
    probe (2 ^ shift) hash n < 2 ^ shift := by
  apply probeFrom_lt
  rw [Nat.and_two_pow_sub_one_eq_mod]
  exact Nat.mod_lt _ (Nat.two_pow_pos shift)

theorem probe_covers (hash : xhashidx) (hi : i < 2 ^ shift) :
    ∃ n < 2 ^ shift + 13, probe (2 ^ shift) hash n = i := by
  have hempty : hash.toNat >>> (PERTURB_SHIFT * 13) = 0 := by
    have := hash.toNat_lt
    rw [Nat.shiftRight_eq_div_pow]
    exact Nat.div_eq_of_lt (by unfold PERTURB_SHIFT; omega)
  generalize hstart : probe (2 ^ shift) hash 13 = start
  obtain ⟨n, hn, hhit⟩ := quintic_full_period shift start i
  refine ⟨13 + n, by omega, ?_⟩
  have hmod := (probeFrom_unperturbed shift n start).trans hhit
  have hlt : probe (2 ^ shift) hash (13 + n) < 2 ^ shift := probe_lt shift hash _
  rw [probe] at hstart hlt ⊢
  rw [probeFrom_add, hempty, hstart] at hlt ⊢
  exact Nat.ModEq.eq_of_lt_of_lt hmod hlt hi

def nextWord (mask : xhashidx) (p : xhashidx × xhashidx) : xhashidx × xhashidx :=
  (((p.1 <<< 2) + p.1 + 1 + p.2) &&& mask, p.2 >>> 5)

def probeWord (size_shift : Nat) (hash : xhashidx) (n : Nat) : xhashidx × xhashidx :=
  let mask := (1 : xhashidx) <<< UInt64.ofNat size_shift - 1
  (nextWord mask)^[n] (hash &&& mask, hash)

theorem mask_toNat (hshift : shift < 64) :
    ((1 : xhashidx) <<< UInt64.ofNat shift - 1).toNat = 2 ^ shift - 1 := by
  have hpow : 2 ^ shift < 2 ^ 64 := Nat.pow_lt_pow_right (by decide) hshift
  have hword : (UInt64.ofNat shift).toNat = shift :=
    UInt64.toNat_ofNat_of_lt' (show shift < 2 ^ 64 by omega)
  have hsize : ((1 : xhashidx) <<< UInt64.ofNat shift).toNat = 2 ^ shift := by
    rw [UInt64.toNat_shiftLeft, hword, Nat.mod_eq_of_lt hshift, UInt64.toNat_one,
      Nat.one_shiftLeft, Nat.mod_eq_of_lt hpow]
  have hone : (1 : xhashidx) ≤ (1 : xhashidx) <<< UInt64.ofNat shift := by
    rw [UInt64.le_iff_toNat_le, hsize]
    exact Nat.one_le_two_pow
  rw [UInt64.toNat_sub_of_le _ _ hone, hsize, UInt64.toNat_one]

theorem nextWord_fst {mask : xhashidx} (hshift : shift ≤ 64) (hmask : mask.toNat = 2 ^ shift - 1)
    (p : xhashidx × xhashidx) :
    (nextWord mask p).1.toNat = nextIdx mask.toNat p.1.toNat p.2.toNat := by
  have hsum : ((p.1 <<< 2) + p.1 + 1 + p.2).toNat =
      ((p.1.toNat <<< 2) + p.1.toNat + 1 + p.2.toNat) % 2 ^ 64 := by
    have htwo : p.1.toNat <<< 2 = 4 * p.1.toNat := by rw [Nat.shiftLeft_eq]; omega
    have hword : (p.1 <<< 2).toNat = 4 * p.1.toNat % 2 ^ 64 := by
      rw [UInt64.toNat_shiftLeft, ← htwo]
      rfl
    simp only [UInt64.toNat_add, UInt64.toNat_one, hword, htwo]
    omega
  rw [nextWord, UInt64.toNat_and, hsum, hmask, nextIdx_wrap hshift]

theorem nextWord_iterate {mask : xhashidx} (hshift : shift ≤ 64)
    (hmask : mask.toNat = 2 ^ shift - 1) (n : Nat) (p : xhashidx × xhashidx) :
    ((nextWord mask)^[n] p).1.toNat = probeFrom mask.toNat n p.1.toNat p.2.toNat := by
  induction n generalizing p with
  | zero => rfl
  | succ n ih =>
    have hperturb : (nextWord mask p).2.toNat = p.2.toNat >>> PERTURB_SHIFT :=
      UInt64.toNat_shiftRight p.2 5
    rw [Function.iterate_succ_apply, ih, probeFrom, nextWord_fst hshift hmask, hperturb]

theorem probeWord_toNat (hshift : shift < 64) (hash : xhashidx) (n : Nat) :
    (probeWord shift hash n).1.toNat = probe (2 ^ shift) hash n := by
  have hmask := mask_toNat hshift
  unfold probeWord probe
  rw [nextWord_iterate hshift.le hmask, UInt64.toNat_and, hmask]

/-- The first `2 ^ shift + 13` slots of the sequence are all slots. -/
theorem probeWord_covers (hshift : shift < 64) (hash : xhashidx) {slot : xhashidx}
    (hslot : slot.toNat < 2 ^ shift) :
    ∃ n < 2 ^ shift + 13, (probeWord shift hash n).1 = slot := by
  obtain ⟨n, hn, hhit⟩ := probe_covers hash hslot
  refine ⟨n, hn, UInt64.toNat_inj.mp ?_⟩
  rw [probeWord_toNat hshift, hhit]

/-- Eight slots, and a hash with all its bits set. -/
theorem probeWord_covers_eight : ∃ n < 2 ^ 3 + 13, (probeWord 3 0xFFFFFFFFFFFFFFFF n).1 = 5 :=
  probeWord_covers (by decide) 0xFFFFFFFFFFFFFFFF (by decide)

end Coverage

namespace Xhash
variable {κ : Type u} {xhash new : Xhash κ} {hash : xhashidx} {n : Nat}

theorem size_eq (xhash : Xhash κ) : xhash.size = 2 ^ xhash.size_shift := Nat.one_shiftLeft _

theorem probe_lt_size (xhash : Xhash κ) (hash : xhashidx) (n : Nat) :
    probe xhash.size hash n < xhash.size := by
  rw [size_eq]
  exact probe_lt _ hash n

theorem walkFrom_eq_some (h : xhash.walkFrom hash stop = some i) :
    ∃ n, probe xhash.size hash n = i ∧ stop i = true ∧
      ∀ m < n, stop (probe xhash.size hash m) = false := by
  obtain ⟨n, -, hn⟩ := walk_eq_some h
  exact ⟨n, hn⟩

/-- The fuel is enough: a walk that has used it up would never end. -/
theorem walkFrom_eq_none (h : xhash.walkFrom hash stop = none) :
    ∀ n, stop (probe xhash.size hash n) = false := by
  intro n
  have hlt := xhash.probe_lt_size hash n
  generalize probe xhash.size hash n = slot at hlt
  have hsize := xhash.size_eq
  obtain ⟨m, hm, rfl⟩ := probe_covers hash (hsize ▸ hlt)
  rw [← hsize] at hm ⊢
  exact walk_eq_none h m hm

theorem walkFrom_ends (hash : xhashidx) (stop : Nat → Bool) {slot : Nat} (hlt : slot < xhash.size)
    (hstop : stop slot = true) :
    ∃ i, xhash.walkFrom hash stop = some i := by
  cases h : xhash.walkFrom hash stop with
  | some i => exact ⟨i, rfl⟩
  | none =>
    have hsize := xhash.size_eq
    obtain ⟨n, -, rfl⟩ := probe_covers hash (hsize ▸ hlt)
    rw [← hsize, walkFrom_eq_none h n] at hstop
    cases hstop

theorem walkFrom_eq_first {stop : Nat → Bool} (hstop : stop (probe xhash.size hash n) = true)
    (hfirst : ∀ m < n, stop (probe xhash.size hash m) = false) :
    xhash.walkFrom hash stop = some (probe xhash.size hash n) := by
  obtain ⟨i, hi⟩ := walkFrom_ends hash stop (xhash.probe_lt_size hash n) hstop
  obtain ⟨m, rfl, hm, hbefore⟩ := walkFrom_eq_some hi
  rcases Nat.lt_trichotomy m n with hlt | rfl | hgt
  · rw [hfirst m hlt] at hm
    cases hm
  · exact hi
  · rw [hbefore n hgt] at hstop
    cases hstop

theorem walkFrom_congr (hash : xhashidx) {stop stop' : Nat → Bool} (hsize : new.size = xhash.size)
    (h : ∀ i < xhash.size, stop' i = stop i) :
    new.walkFrom hash stop' = xhash.walkFrom hash stop := by
  have hstop (n : Nat) : stop' (probe xhash.size hash n) = stop (probe xhash.size hash n) :=
    h _ (xhash.probe_lt_size hash n)
  cases hwalk : xhash.walkFrom hash stop with
  | some i =>
    obtain ⟨n, rfl, hn, hfirst⟩ := walkFrom_eq_some hwalk
    rw [← hsize]
    apply walkFrom_eq_first
    · rw [hsize, hstop, hn]
    · intro m hm
      rw [hsize, hstop, hfirst m hm]
  | none =>
    cases hwalk' : new.walkFrom hash stop' with
    | none => rfl
    | some i =>
      obtain ⟨n, hi, hn, -⟩ := walkFrom_eq_some hwalk'
      rw [hsize] at hi
      rw [← hi, hstop, walkFrom_eq_none hwalk n] at hn
      cases hn

end Xhash

end Libxseg

import Libxseg.Xq

/-!
# Sizes and slots of an xq

`snap` yields an honest power of two only for sizes below 2^31. From there on the
sign-extended `int` makes the queue believe it is almost 2^64 elements long. The
mask still separates 2^31 neighbouring counters then, which is what `window` says;
`slot_ne_of_near` is the one fact about positions that the queue proofs need.
-/

namespace Libxseg

set_option autoImplicit false

/-- What `snap` can yield: a power of two below 2^31, or the sign-extended 2^31. -/
def snapOf (l : Nat) : UInt64 := if l < 31 then UInt64.ofNat (2 ^ l) else 0xFFFFFFFF80000000

theorem smod_thirtyTwo (b : BitVec 32) : (b.smod 32).toNat = b.toNat % 32 := by
  have h : (b.smod 32).toInt = b.toInt.fmod 32 := by
    rw [BitVec.toInt_smod]; rfl
  have hb := b.isLt
  have hs := (b.smod 32).isLt
  rw [BitVec.toInt_eq_toNat_cond, BitVec.toInt_eq_toNat_cond,
    Int.fmod_eq_emod_of_nonneg _ (by decide)] at h
  split at h <;> split at h <;> omega

theorem signExtend_shift (l : Nat) (hl : l < 32) :
    BitVec.signExtend 64 (1#32 <<< l) = (snapOf l).toBitVec := by
  revert l
  decide

theorem one_shift_toBitVec (w : UInt64) :
    ((1 : Int32) <<< w.toUInt32.toInt32).toBitVec = 1#32 <<< (w.toNat % 32) := by
  have hs : (w.toUInt32.toInt32.toBitVec.smod 32).toNat = w.toNat % 32 := by
    rw [smod_thirtyTwo]
    show (w.toNat % 2 ^ 32) % 32 = _
    omega
  rw [Int32.toBitVec_shiftLeft]
  simp only [BitVec.shiftLeft_eq', hs]
  rfl

theorem shift_one (w : UInt64) :
    ((1 : Int32) <<< w.toUInt32.toInt32).toInt64.toUInt64 = snapOf (w.toNat % 32) := by
  apply UInt64.toBitVec_inj.mp
  rw [Int64.toBitVec_toUInt64, Int32.toBitVec_toInt64, one_shift_toBitVec]
  exact signExtend_shift _ (Nat.mod_lt _ (by decide))

theorem snap_eq_snapOf [Builtins] {size : xqindex} (h : size ≠ 0) :
    ∃ l < 32, snap size = snapOf l := by
  refine ⟨(64 - builtinClz size.toUInt32 - 1).toNat % 32, Nat.mod_lt _ (by decide), ?_⟩
  rw [snap, if_neg h, shift_one]

/-- Below 2^32 the helper does what it is for, except at the top bit. -/
theorem snap_log [Builtins] {size : xqindex} (h0 : size ≠ 0) (h : size.toNat < 2 ^ 32) :
    snap size = snapOf size.toNat.log2 := by
  have hcut : size.toUInt32.toNat = size.toNat := Nat.mod_eq_of_lt h
  have hpos : size.toNat ≠ 0 := fun he => h0 (UInt64.toNat_inj.mp (by simpa using he))
  have hlog : size.toNat.log2 < 32 := (Nat.log2_lt hpos).mpr h
  have hne : size.toUInt32 ≠ 0 := by
    intro he
    rw [he] at hcut
    exact hpos hcut.symm
  rw [snap, if_neg h0, shift_one, builtinClz, if_neg hne, hcut]
  congr 1
  generalize size.toNat.log2 = l at hlog
  revert l
  decide

theorem snapOf_toNat {l : Nat} (hl : l < 31) : (snapOf l).toNat = 2 ^ l := by
  rw [snapOf, if_pos hl, UInt64.toNat_ofNat_of_lt']
  exact Nat.pow_lt_pow_right (a := 2) (by decide) (show l < 64 by omega)

theorem snap_two_pow [Builtins] {k : Nat} (hk : k < 31) {n : xqindex} (hn : n.toNat = 2 ^ k) :
    snap n = n := by
  have hlt : n.toNat < 2 ^ 32 := hn ▸ Nat.pow_lt_pow_right (by decide) (by omega)
  have h0 : n ≠ 0 := by
    rintro rfl
    exact absurd hn (Nat.two_pow_pos k).ne
  apply UInt64.toNat_inj.mp
  rw [snap_log h0 hlt, hn, Nat.log2_two_pow, snapOf_toNat hk]

def Snapped (size : xqindex) : Prop := size = 0 ∨ ∃ l < 32, size = snapOf l

theorem snapped_snap [Builtins] (size : xqindex) : Snapped (snap size) := by
  by_cases h : size = 0
  · exact Or.inl (by simp [snap, h])
  · exact Or.inr (snap_eq_snapOf h)

theorem Snapped.ne_noneidx {size : xqindex} (hs : Snapped size) : size ≠ Noneidx := by
  have hpowers : ∀ l < 32, snapOf l ≠ Noneidx := by decide
  rcases hs with rfl | ⟨l, hl, rfl⟩
  · decide
  · exact hpowers l hl

theorem snap_ne_noneidx [Builtins] (size : xqindex) : snap size ≠ Noneidx :=
  (snapped_snap size).ne_noneidx

/-- How many neighbouring counters the mask of a queue of this size tells apart. -/
def window (size : xqindex) : Nat := min size.toNat (2 ^ 31)

theorem window_snapOf {k : Nat} (hk : k ≤ 31) : window (snapOf k) = 2 ^ k := by
  rcases Nat.lt_or_eq_of_le hk with hk | rfl
  · have : 2 ^ k ≤ 2 ^ 31 := Nat.pow_le_pow_right (by decide) (by omega)
    rw [window, snapOf_toNat hk]
    omega
  · decide

theorem and_pred_two_pow (x : UInt64) {k : Nat} {n : UInt64} (hn : n.toNat = 2 ^ k) :
    (x &&& (n - 1)).toNat = x.toNat % 2 ^ k := by
  have h1 : (1 : UInt64) ≤ n := by
    rw [UInt64.le_iff_toNat_le, hn]
    exact Nat.one_le_two_pow
  rw [UInt64.toNat_and, UInt64.toNat_sub_of_le _ _ h1, hn]
  exact Nat.and_two_pow_sub_one_eq_mod _ _

theorem and_mask_bits (x : Nat) : (x &&& 0xFFFFFFFF7FFFFFFF) / 2 ^ 32 = x / 2 ^ 32 % 2 ^ 32 ∧
    (x &&& 0xFFFFFFFF7FFFFFFF) % 2 ^ 32 = x % 2 ^ 32 % 2 ^ 31 := by
  constructor
  · rw [Nat.and_div_two_pow]
    exact Nat.and_two_pow_sub_one_eq_mod _ 32
  · rw [Nat.and_mod_two_pow]
    exact Nat.and_two_pow_sub_one_eq_mod _ 31

theorem slot_ne_of_near {size : xqindex} (hs : Snapped size) (c : xqindex) {d : Nat}
    (h0 : 0 < d) (hd : d < window size) :
    (c + UInt64.ofNat d) &&& (size - 1) ≠ c &&& (size - 1) := by
  unfold window at hd
  have hdn : (UInt64.ofNat d).toNat = d := UInt64.toNat_ofNat_of_lt' (show d < 2 ^ 64 by omega)
  intro he
  have he := congrArg UInt64.toNat he
  rcases hs with rfl | ⟨l, hl, rfl⟩
  · simp at hd
  by_cases hl31 : l < 31
  · rw [snapOf_toNat hl31] at hd
    rw [and_pred_two_pow _ (snapOf_toNat hl31), and_pred_two_pow _ (snapOf_toNat hl31),
      UInt64.toNat_add, hdn, Nat.mod_mod_of_dvd _ (Nat.pow_dvd_pow 2 (by omega))] at he
    have hdiv : 2 ^ l ∣ d := by
      exact Nat.dvd_of_mod_eq_zero (by simpa using Nat.sub_mod_eq_zero_of_mod_eq he)
    exact absurd (Nat.le_of_dvd h0 hdiv) (by omega)
  · -- the mask clears bit 31 only, and two counters less than 2^31 apart differ in another bit
    have hM : (snapOf l - 1).toNat = 0xFFFFFFFF7FFFFFFF := by simp [snapOf, hl31]
    rw [UInt64.toNat_and, UInt64.toNat_and, hM, UInt64.toNat_add, hdn] at he
    have hx := and_mask_bits ((c.toNat + d) % 2 ^ 64)
    have hy := and_mask_bits c.toNat
    rw [he] at hx
    have := c.toNat_lt
    omega

end Libxseg

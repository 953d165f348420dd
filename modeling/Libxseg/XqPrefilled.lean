import Libxseg.XqDeque

/-!
# Pre-filled queues

The initialisers write the slots from 0 on, and the live counters are those from 1 on. Both
ranges are the same slots only when every slot is used.
-/

namespace Libxseg

set_option autoImplicit false

theorem le_snapOf {l : Nat} (hl : l < 32) : 2 ^ l ≤ (snapOf l).toNat := by
  have hle := Xq.window_le_size (snapOf l)
  rwa [window_snapOf (Nat.le_of_lt_succ hl)] at hle

theorem succ_mod_perm (n : Nat) : ((List.range n).map fun i => (i + 1) % n).Perm (List.range n) := by
  cases n with
  | zero => exact List.Perm.refl _
  | succ m =>
    have hfirst : (List.range m).map (fun i => (i + 1) % (m + 1)) = (List.range m).map Nat.succ := by
      apply List.map_congr_left
      intro i hi
      exact Nat.mod_eq_of_lt (Nat.succ_lt_succ (List.mem_range.mp hi))
    rw [List.range_succ, List.map_append, hfirst, List.map_singleton, Nat.mod_self,
      ← List.range_succ, List.range_succ_eq_map]
    exact List.perm_append_singleton 0 _

namespace Xq
variable {q : Xq} {n count : xqindex} {k l : Nat}

theorem count_popTail (h : q.count ≠ 0) : q.popTail.2.count.toNat + 1 = q.count.toNat := by
  have hcount : q.popTail.2.count = q.count - 1 := by
    rw [popTail, if_neg h]
    simp only [Xq.count]
    grind
  have hpos : q.count.toNat ≠ 0 := fun hzero => h (UInt64.toNat_inj.mp hzero)
  rw [hcount, UInt64.toNat_sub_of_le _ _ (by rw [UInt64.le_iff_toNat_le, UInt64.toNat_one]; omega),
    UInt64.toNat_one]
  omega

def drain (q : Xq) : List xqindex :=
  if q.count = 0 then []
  else q.popTail.1 :: drain q.popTail.2
termination_by q.count.toNat
decreasing_by
  have := count_popTail ‹_›
  omega

theorem drain_eq (q : Xq) : q.drain =
    (List.range q.count.toNat).map fun i => q.get (q.tail + 1 + UInt64.ofNat i) := by
  induction hn : q.count.toNat generalizing q with
  | zero =>
    rw [drain, if_pos (UInt64.toNat_inj.mp hn)]
    rfl
  | succ n ih =>
    have hne : q.count ≠ 0 := by
      intro hzero
      rw [hzero] at hn
      cases hn
    have hcount := count_popTail hne
    have hpop : q.popTail = (q.get (q.tail + 1), { q with tail := q.tail + 1 }) := by
      rw [popTail, if_neg hne]
    rw [drain, if_neg hne, ih _ (by omega), hpop, List.range_succ_eq_map, List.map_cons,
      List.map_map]
    congr 1
    · change q.get (q.tail + 1) = q.get (q.tail + 1 + 0)
      rw [UInt64.add_zero]
    · apply List.map_congr_left
      intro i _
      change q.get (q.tail + 1 + 1 + UInt64.ofNat i) = q.get (q.tail + 1 + UInt64.ofNat (i + 1))
      rw [UInt64.ofNat_add]
      congr 1
      grind

theorem elems_eq_drain (q : Xq) : q.elems = q.drain.reverse := by
  rw [elems, drain_eq, ← List.map_reverse, reverse_range_eq, List.map_map]
  apply List.map_congr_left
  intro i hi
  have hcount := ofNat_from_end (List.mem_range.mp hi)
  rw [UInt64.ofNat_toNat] at hcount
  change _ = q.get (q.tail + 1 + UInt64.ofNat (q.count.toNat - 1 - i))
  congr 1
  unfold Xq.count at hcount ⊢
  grind

/-- The queue holds the values, each as often as it is listed, and gives them back. -/
def Prefilled (q : Xq) (vals : List xqindex) : Prop := q.elems.Perm vals ∧ q.drain.Perm vals

theorem prefilled_iff {vals : List xqindex} : q.Prefilled vals ↔ q.drain.Perm vals := by
  unfold Prefilled
  rw [elems_eq_drain, and_iff_right_iff_imp]
  exact fun h => (List.reverse_perm _).trans h

def mapValues (mapfn : xqindex → xqindex) (size count : xqindex) : List xqindex :=
  (List.range (min count.toNat size.toNat)).map fun t => mapfn (UInt64.ofNat t)

def FillsAll [Builtins] (size count : xqindex) : Prop :=
  count = 0 ∨ if size.toNat ≤ 2 ^ 30 then size.toNat ≤ count.toNat
    else count.toNat = window (snap size)

section Init
variable [Builtins] {mapfn : xqindex → xqindex} {mem : xqindex → xqindex}

def written (size count : xqindex) : xqindex := if count > snap size then snap size else count

theorem drain_initMap (hsnap : snap n = snapOf l) (hl : l < 32)
    (hlt : (written n count).toNat < 2 ^ 32) :
    (initMap n count mapfn mem).drain = (List.range (written n count).toNat).map fun i =>
      if (i + 1) % 2 ^ l < (written n count).toNat then mapfn (UInt64.ofNat ((i + 1) % 2 ^ l))
      else mem (UInt64.ofNat ((i + 1) % 2 ^ l)) := by
  have hcount : (initMap n count mapfn mem).count = written n count := by
    change written n count + 1 - 0 - 1 = written n count
    grind
  rw [drain_eq, hcount]
  apply List.map_congr_left
  intro i hi
  have hi := List.mem_range.mp hi
  have hi64 : (0 + 1 + UInt64.ofNat i : UInt64).toNat = i + 1 := by
    rw [UInt64.toNat_add, UInt64.toNat_ofNat_of_lt' (show i < 2 ^ 64 by omega)]
    change (1 + i) % 2 ^ 64 = i + 1
    omega
  have hslot : (0 + 1 + UInt64.ofNat i : UInt64) &&& (snap n - 1) =
      UInt64.ofNat ((i + 1) % 2 ^ l) := by
    have hnat := slot_snapOf (Nat.le_of_lt_succ hl) (c := 0 + 1 + UInt64.ofNat i) (by omega)
    rw [hsnap, ← UInt64.ofNat_toNat (x := _ &&& _), hnat, hi64]
  have hsmall : (UInt64.ofNat ((i + 1) % 2 ^ l)).toNat = (i + 1) % 2 ^ l := by
    have hle := Nat.mod_le (i + 1) (2 ^ l)
    exact UInt64.toNat_ofNat_of_lt' (show _ < 2 ^ 64 by omega)
  change (if (0 + 1 + UInt64.ofNat i : UInt64) &&& (snap n - 1) < written n count then
      mapfn ((0 + 1 + UInt64.ofNat i) &&& (snap n - 1)) else
      mem ((0 + 1 + UInt64.ofNat i) &&& (snap n - 1))) = _
  rw [hslot]
  simp only [UInt64.lt_iff_toNat_lt, hsmall]

theorem prefilled_full (hsnap : snap n = snapOf l) (hl : l < 32)
    (hfull : (written n count).toNat = 2 ^ l) (hmin : min count.toNat n.toNat = 2 ^ l) :
    (initMap n count mapfn mem).Prefilled (mapValues mapfn n count) := by
  have hpow : 2 ^ l ≤ 2 ^ 31 := Nat.pow_le_pow_right (by decide) (Nat.le_of_lt_succ hl)
  rw [prefilled_iff, drain_initMap hsnap hl (by omega), mapValues, hfull, hmin]
  have hperm := (succ_mod_perm (2 ^ l)).map fun t => mapfn (UInt64.ofNat t)
  rw [List.map_map] at hperm
  refine List.Perm.trans (List.Perm.of_eq ?_) hperm
  apply List.map_congr_left
  intro i _
  exact if_pos (Nat.mod_lt _ (Nat.two_pow_pos l))

/-- In a queue with room a value is missing, and what the memory held stands for it. -/
theorem not_prefilled_partial (hsnap : snap n = snapOf l) (hl : l < 32)
    (hpos : 0 < count.toNat) (hpart : count.toNat < 2 ^ l) (hn : 0 < n.toNat) :
    ¬ (initSeq n count fun _ => 1).Prefilled (mapValues id n count) := by
  have hpow : 2 ^ l ≤ 2 ^ 31 := Nat.pow_le_pow_right (by decide) (Nat.le_of_lt_succ hl)
  have hle := le_snapOf hl
  have hwritten : written n count = count := by
    apply if_neg
    rw [gt_iff_lt, UInt64.lt_iff_toNat_lt, hsnap]
    omega
  intro h
  have hzero : (0 : xqindex) ∈ (initSeq n count fun _ => 1).drain := by
    apply (prefilled_iff.mp h).mem_iff.mpr
    exact List.mem_map.mpr ⟨0, List.mem_range.mpr (by omega), rfl⟩
  rw [initSeq, drain_initMap hsnap hl (by rw [hwritten]; omega), hwritten] at hzero
  obtain ⟨i, hi, heq⟩ := List.mem_map.mp hzero
  have hi := List.mem_range.mp hi
  rw [Nat.mod_eq_of_lt (by omega)] at heq
  split at heq
  · have hnat := congrArg UInt64.toNat heq
    rw [id, UInt64.toNat_ofNat_of_lt' (show i + 1 < 2 ^ 64 by omega)] at hnat
    cases hnat
  · cases heq

theorem not_prefilled_over (hsnap : snap n = snapOf l) (hl : l < 32) (hn : 2 ^ 31 ≤ n.toNat)
    (hover : 2 ^ l < count.toNat) :
    ¬ (initSeq n count mem).Prefilled (mapValues id n count) := by
  intro h
  have hperm := prefilled_iff.mp h
  have hcount : (initSeq n count mem).count = written n count := by
    change written n count + 1 - 0 - 1 = written n count
    grind
  rw [drain_eq, hcount] at hperm
  rcases Nat.lt_or_eq_of_le (Nat.le_of_lt_succ hl) with hlt | rfl
  · -- the queue has fewer slots than it was asked for
    have hpow : 2 ^ l < 2 ^ 31 := Nat.pow_lt_pow_right (by decide) hlt
    have hwritten : written n count = snap n := by
      apply if_pos
      rw [gt_iff_lt, UInt64.lt_iff_toNat_lt, hsnap, snapOf_toNat hlt]
      exact hover
    have hlen := hperm.length_eq
    rw [mapValues, List.length_map, List.length_map, List.length_range, List.length_range,
      hwritten, hsnap, snapOf_toNat hlt] at hlen
    omega
  · -- two live counters share a slot
    have hwritten : 2 ^ 31 < (written n count).toNat := by
      unfold written
      rw [hsnap]
      split
      · decide
      · exact hover
    have hnodup : (mapValues id n count).Nodup := by
      apply List.Nodup.map_on _ List.nodup_range
      intro i hi j hj heq
      have hi := List.mem_range.mp hi
      have hj := List.mem_range.mp hj
      have hlt := count.toNat_lt
      have hnat := congrArg UInt64.toNat heq
      rwa [id, id, UInt64.toNat_ofNat_of_lt' (show i < 2 ^ 64 by omega),
        UInt64.toNat_ofNat_of_lt' (show j < 2 ^ 64 by omega)] at hnat
    have hinj := List.inj_on_of_nodup_map (hperm.nodup_iff.mpr hnodup)
      (List.mem_range.mpr (show 0 < _ by omega)) (List.mem_range.mpr hwritten)
    have hslot : (initSeq n count mem).slot (0 + 1 + UInt64.ofNat 0) =
        (initSeq n count mem).slot (0 + 1 + UInt64.ofNat (2 ^ 31)) := by
      change _ &&& (snap n - 1) = _ &&& (snap n - 1)
      rw [hsnap]
      decide
    cases hinj (congrArg (initSeq n count mem).queue hslot)

theorem snap_window {k : Nat} (hn : n.toNat = 2 ^ k) (hsmall : n.toNat ≤ 2 ^ 30) :
    snap n = n ∧ window (snap n) = n.toNat := by
  have hk : k < 31 := by
    by_contra hk
    have hpow : 2 ^ 31 ≤ 2 ^ k := Nat.pow_le_pow_right (by decide) (Nat.le_of_not_lt hk)
    omega
  have hsnap := snap_two_pow hk hn
  refine ⟨hsnap, ?_⟩
  rw [hsnap, window]
  omega

theorem FillsAll.prefilled {k : Nat} (hn : n.toNat = 2 ^ k) (h : FillsAll n count) :
    (initMap n count mapfn mem).Prefilled (mapValues mapfn n count) := by
  have hne : n ≠ 0 := by
    rintro rfl
    exact (Nat.two_pow_pos k).ne hn
  obtain ⟨l, hl, hsnap⟩ := snap_eq_snapOf hne
  have hwindow : window (snap n) = 2 ^ l := by
    rw [hsnap, window_snapOf (Nat.le_of_lt_succ hl)]
  have hle := le_snapOf hl
  rcases h with rfl | h
  · have hzero : written n 0 = 0 := if_neg (UInt64.not_lt.mpr UInt64.zero_le)
    rw [prefilled_iff, drain_initMap hsnap hl (by rw [hzero]; decide), hzero, mapValues]
    exact List.Perm.of_eq (by simp)
  · split at h
    · rename_i hsmall
      obtain ⟨hsame, hsize⟩ := snap_window hn hsmall
      rw [hwindow] at hsize
      apply prefilled_full hsnap hl
      · unfold written
        rw [hsame]
        split
        · exact hsize.symm
        · rename_i hle
          rw [gt_iff_lt, UInt64.lt_iff_toNat_lt] at hle
          omega
      · omega
    · rename_i hlarge
      have hk : 31 ≤ k := by
        by_contra hk
        have hpow : 2 ^ k ≤ 2 ^ 30 := Nat.pow_le_pow_right (by decide) (by omega)
        omega
      have hpow : 2 ^ l ≤ 2 ^ k := Nat.pow_le_pow_right (by decide) (by omega)
      rw [hwindow] at h
      have hwritten : written n count = count := by
        apply if_neg
        rw [gt_iff_lt, UInt64.lt_iff_toNat_lt, hsnap]
        omega
      exact prefilled_full hsnap hl (by rw [hwritten, h]) (by omega)

theorem fillsAll_of_prefilled {k : Nat} (hn : n.toNat = 2 ^ k)
    (h : ∀ mem, (initSeq n count mem).Prefilled (mapValues id n count)) : FillsAll n count := by
  have hpos := Nat.two_pow_pos k
  have hne : n ≠ 0 := by
    rintro rfl
    exact hpos.ne hn
  obtain ⟨l, hl, hsnap⟩ := snap_eq_snapOf hne
  have hwindow : window (snap n) = 2 ^ l := by
    rw [hsnap, window_snapOf (Nat.le_of_lt_succ hl)]
  by_cases hzero : count.toNat = 0
  · exact Or.inl (UInt64.toNat_inj.mp hzero)
  · have hpart : ¬ count.toNat < 2 ^ l := fun hlt =>
      not_prefilled_partial hsnap hl (by omega) hlt (by omega) (h _)
    right
    split
    · rename_i hsmall
      have hsize := (snap_window hn hsmall).2
      omega
    · rename_i hlarge
      have hk : 31 ≤ k := by
        by_contra hk
        have hpow : 2 ^ k ≤ 2 ^ 30 := Nat.pow_le_pow_right (by decide) (by omega)
        omega
      have hpow : 2 ^ 31 ≤ 2 ^ k := Nat.pow_le_pow_right (by decide) hk
      have hover : ¬ 2 ^ l < count.toNat := fun hlt =>
        not_prefilled_over hsnap hl (by omega) hlt (h fun _ => 0)
      omega

/-- A pre-filled queue has what was asked for, whatever the memory held, exactly when it is empty
or completely full. -/
theorem prefilled_iff_fillsAll {k : Nat} (hn : n.toNat = 2 ^ k) (count : xqindex) :
    ((∀ mem, (initSeq n count mem).Prefilled (mapValues id n count)) ↔ FillsAll n count) ∧
      ((∀ mapfn mem, (initMap n count mapfn mem).Prefilled (mapValues mapfn n count)) ↔
        FillsAll n count) := by
  constructor
  · exact ⟨fillsAll_of_prefilled hn, fun h mem => h.prefilled hn⟩
  · exact ⟨fun h => fillsAll_of_prefilled hn (h id), fun h mapfn mem => h.prefilled hn⟩

end Init

/-- Four slots, completely filled. -/
theorem prefilled_iff_fillsAll_four : ∃ _ : Builtins,
    (∀ mem, (initSeq 4 4 mem).Prefilled (mapValues id 4 4)) ↔ FillsAll 4 4 :=
  ⟨⟨0⟩, (@prefilled_iff_fillsAll 4 ⟨0⟩ 2 rfl 4).1⟩

/-- Two of four slots: the queue gives back 1 and what the memory held. -/
theorem not_prefilled : ¬ ∀ [Builtins] (k : Nat) (n count : xqindex) (mem : xqindex → xqindex),
    n.toNat = 2 ^ k → (initSeq n count mem).Prefilled (mapValues id n count) := by
  intro hall
  let _ : Builtins := ⟨0⟩
  have hfour : snap 4 = snapOf 2 := snap_eq_of_two_pow (k := 2) rfl (by decide)
  exact not_prefilled_partial hfour (by decide) (by decide) (by decide) (by decide)
    (hall 2 4 2 (fun _ => 1) rfl)

end Xq

end Libxseg

import Mathlib.Data.Nat.Count
import Libxseg.XhashProbe

/-!
# The invariant of an xhash and what each operation does to it

`Tracked` says that the two counters count and that no unused slot stands before an
occupied one on its key's probe path: every call that returns keeps this. `Wf` adds
that an unused slot remains, and one lemma for each operation says that it returns
and keeps it.
-/

namespace Libxseg

set_option autoImplicit false

universe u

section Count
variable {n i : Nat} {p q : Nat → Bool}

theorem count_congr (h : ∀ j < n, q j = p j) :
    Nat.count (q · = true) n = Nat.count (p · = true) n := by
  induction n with
  | zero => simp
  | succ n ih =>
    rw [Nat.count_succ, Nat.count_succ, ih fun j hj => h j (by omega), h n (by omega)]

theorem count_flip (hi : i < n) (hp : p i = false) (hq : q i = true)
    (h : ∀ j, j ≠ i → q j = p j) :
    Nat.count (q · = true) n = Nat.count (p · = true) n + 1 := by
  induction n with
  | zero => omega
  | succ n ih =>
    rw [Nat.count_succ, Nat.count_succ]
    by_cases hin : i = n
    · subst hin
      rw [count_congr fun j hj => h j (by omega), hp, hq]
      simp
    · rw [ih (by omega), h n (by omega)]
      omega

/-- Where two disjoint kinds do not fill the range, something else is in it. -/
theorem exists_of_count_lt (h : Nat.count (p · = true) n + Nat.count (q · = true) n < n) :
    ∃ j < n, p j = false ∧ q j = false := by
  by_contra hnone
  push Not at hnone
  have hcover : ∀ j < n, (!p j) = true → q j = true := fun j hj hp => by
    have := hnone j hj (by simpa using hp)
    simpa using this
  clear hnone
  induction n with
  | zero => omega
  | succ n ih =>
    rw [Nat.count_succ, Nat.count_succ] at h
    apply ih _ fun j hj => hcover j (by omega)
    cases hp : p n with
    | true => simp [hp] at h; omega
    | false =>
      have := hcover n (by omega) (by simp [hp])
      simp [hp, this] at h
      omega

end Count

namespace Xhash
variable {κ : Type u} {tf : TypesFunctions κ} {xhash xhash' : Xhash κ} {i idx : Nat} {key : κ}
  {val : xhashidx}

def NotMark (val : xhashidx) : Prop := val ≠ DUMMY ∧ val ≠ UNUSED

instance (val : xhashidx) : Decidable (NotMark val) := inferInstanceAs (Decidable (_ ∧ _))

theorem itemValid_iff : xhash.itemValid i = true ↔ NotMark (xhash.vals i) := by
  simp [itemValid, itemDummy, itemUnused, NotMark]

theorem itemUnused_iff : xhash.itemUnused i = true ↔ xhash.vals i = UNUSED := by
  simp [itemUnused]

theorem itemDummy_iff : xhash.itemDummy i = true ↔ xhash.vals i = DUMMY := by
  simp [itemDummy]

theorem itemValid_of_unused (h : xhash.itemUnused i = true) : xhash.itemValid i = false := by
  simp [itemValid, h]

theorem itemValid_of_dummy (h : xhash.itemDummy i = true) : xhash.itemValid i = false := by
  simp [itemValid, h]

theorem not_dummy_of_unused (h : xhash.itemUnused i = true) : xhash.itemDummy i = false := by
  rw [itemUnused_iff] at h
  rw [itemDummy, h]
  decide

def Reaches (xhash : Xhash κ) (hash : xhashidx) (i : Nat) : Prop :=
  ∃ n, probe xhash.size hash n = i ∧
    ∀ m < n, xhash.itemUnused (probe xhash.size hash m) = false

structure Tracked (tf : TypesFunctions κ) (xhash : Xhash κ) : Prop where
  used : xhash.used = Nat.count (xhash.itemValid · = true) xhash.size
  dummies : xhash.dummies = Nat.count (xhash.itemDummy · = true) xhash.size
  chain : ∀ i < xhash.size, xhash.itemValid i = true →
    xhash.Reaches (tf.hash_fun (xhash.kvs i)) i

structure Wf (tf : TypesFunctions κ) (xhash : Xhash κ) : Prop where
  shift : 2 ≤ xhash.size_shift
  minsize : 2 ≤ xhash.minsize_shift
  used : xhash.used = Nat.count (xhash.itemValid · = true) xhash.size
  dummies : xhash.dummies = Nat.count (xhash.itemDummy · = true) xhash.size
  room : xhash.used + xhash.dummies < xhash.size
  chain : ∀ i < xhash.size, xhash.itemValid i = true →
    xhash.Reaches (tf.hash_fun (xhash.kvs i)) i

theorem Wf.tracked (hw : xhash.Wf tf) : xhash.Tracked tf := ⟨hw.used, hw.dummies, hw.chain⟩

def Absent (tf : TypesFunctions κ) (xhash : Xhash κ) (key : κ) : Prop :=
  ∀ i < xhash.size, xhash.itemValid i = true → tf.cmp_fun (xhash.kvs i) key = false

def Matches (tf : TypesFunctions κ) (xhash : Xhash κ) (key : κ) (i : Nat) : Prop :=
  i < xhash.size ∧ xhash.itemValid i = true ∧ tf.cmp_fun (xhash.kvs i) key = true

def FirstMatch (tf : TypesFunctions κ) (xhash : Xhash κ) (key : κ) (i : Nat) : Prop :=
  xhash.Matches tf key i ∧ ∃ n, probe xhash.size (tf.hash_fun key) n = i ∧
    ∀ m < n, ¬ xhash.Matches tf key (probe xhash.size (tf.hash_fun key) m)

/-- Slot `i` is free, and everything before it on the key's path is occupied by other keys. -/
def FreeSlot (tf : TypesFunctions κ) (xhash : Xhash κ) (key : κ) (i : Nat) : Prop :=
  xhash.itemValid i = false ∧ ∃ n, probe xhash.size (tf.hash_fun key) n = i ∧
    ∀ m < n, xhash.itemValid (probe xhash.size (tf.hash_fun key) m) = true ∧
      ¬ xhash.Matches tf key (probe xhash.size (tf.hash_fun key) m)

theorem FreeSlot.lt (h : xhash.FreeSlot tf key i) : i < xhash.size := by
  obtain ⟨-, n, rfl, -⟩ := h
  exact xhash.probe_lt_size _ n

theorem FreeSlot.reaches (h : xhash.FreeSlot tf key i) :
    xhash.Reaches (tf.hash_fun key) i := by
  obtain ⟨-, n, hn, hpath⟩ := h
  refine ⟨n, hn, fun m hm => ?_⟩
  by_contra hu
  rw [Bool.not_eq_false] at hu
  have hv := (hpath m hm).1
  rw [itemValid_of_unused hu] at hv
  cases hv

theorem absent_iff : xhash.Absent tf key ↔ ¬ ∃ i, xhash.Matches tf key i := by
  simp [Absent, Matches]

theorem matches_iff_stop (hi : i < xhash.size) : xhash.Matches tf key i ↔
    (if xhash.itemValid i then tf.cmp_fun (xhash.kvs i) key else false) = true := by
  unfold Matches
  cases xhash.itemValid i <;> simp [hi]

theorem matches_or_freeSlot (hwalk : xhash.walkFrom (tf.hash_fun key) (fun idx =>
      if xhash.itemValid idx then tf.cmp_fun (xhash.kvs idx) key else true) = some idx) :
    xhash.Matches tf key idx ∨ xhash.FreeSlot tf key idx := by
  obtain ⟨n, rfl, hstop, hfirst⟩ := walkFrom_eq_some hwalk
  cases hv : xhash.itemValid (probe xhash.size (tf.hash_fun key) n) with
  | true =>
    rw [hv, if_pos rfl] at hstop
    exact Or.inl ⟨xhash.probe_lt_size _ n, hv, hstop⟩
  | false =>
    refine Or.inr ⟨hv, n, rfl, fun m hm => ?_⟩
    have hm := hfirst m hm
    cases hvm : xhash.itemValid (probe xhash.size (tf.hash_fun key) m) with
    | true =>
      rw [hvm, if_pos rfl] at hm
      exact ⟨rfl, fun hmatch => by rw [hmatch.2.2] at hm; cases hm⟩
    | false =>
      rw [hvm] at hm
      cases hm

section Search
variable (ht : xhash.Tracked tf) (hroom : xhash.used + xhash.dummies < xhash.size)
include ht hroom

theorem Tracked.exists_unused : ∃ j < xhash.size, xhash.itemUnused j = true := by
  rw [ht.used, ht.dummies] at hroom
  obtain ⟨j, hj, hv, hd⟩ := exists_of_count_lt hroom
  exact ⟨j, hj, by simpa [itemValid, hd] using hv⟩

theorem Tracked.find (key : κ) :
    ∃ idx, xhash.walkFrom (tf.hash_fun key) (fun idx =>
        xhash.itemUnused idx || (!xhash.itemDummy idx && tf.cmp_fun (xhash.kvs idx) key)) =
          some idx ∧
      (xhash.itemUnused idx = true ∧ xhash.Absent tf key ∨
        xhash.itemUnused idx = false ∧ xhash.Matches tf key idx) := by
  obtain ⟨free, hfree, hunused⟩ := ht.exists_unused hroom
  obtain ⟨idx, hwalk⟩ := walkFrom_ends (tf.hash_fun key)
    (fun idx => xhash.itemUnused idx || (!xhash.itemDummy idx && tf.cmp_fun (xhash.kvs idx) key))
    hfree (by rw [hunused]; rfl)
  refine ⟨idx, hwalk, ?_⟩
  obtain ⟨n, rfl, hstop, hfirst⟩ := walkFrom_eq_some hwalk
  cases hu : xhash.itemUnused (probe xhash.size (tf.hash_fun key) n) with
  | false =>
    rw [hu, Bool.false_or, Bool.and_eq_true, Bool.not_eq_true'] at hstop
    exact Or.inr ⟨rfl, xhash.probe_lt_size _ n, by simp [itemValid, hu, hstop.1], hstop.2⟩
  | true =>
    refine Or.inl ⟨rfl, fun i hi hv => ?_⟩
    -- a match at `i` would have stopped the walk before it met the unused slot
    by_contra hcmp
    rw [Bool.not_eq_false] at hcmp
    obtain ⟨m, hm, hpath⟩ := ht.chain i hi hv
    rw [tf.hash_eq hcmp] at hm hpath
    rcases Nat.lt_trichotomy m n with hlt | heq | hgt
    · have hstop := hfirst m hlt
      rw [hm, hcmp, Bool.and_true, Bool.or_eq_false_iff, Bool.not_eq_false'] at hstop
      rw [itemValid_of_dummy hstop.2] at hv
      cases hv
    · rw [← heq, hm] at hu
      rw [itemValid_of_unused hu] at hv
      cases hv
    · rw [hpath n hgt] at hu
      cases hu

theorem Tracked.findSlot (key : κ) :
    ∃ idx, xhash.walkFrom (tf.hash_fun key) (fun idx =>
        if xhash.itemValid idx then tf.cmp_fun (xhash.kvs idx) key else true) = some idx ∧
      (xhash.Matches tf key idx ∨ xhash.FreeSlot tf key idx) := by
  obtain ⟨free, hfree, hunused⟩ := ht.exists_unused hroom
  obtain ⟨idx, hwalk⟩ := walkFrom_ends (tf.hash_fun key)
    (fun idx => if xhash.itemValid idx then tf.cmp_fun (xhash.kvs idx) key else true) hfree
    (by rw [itemValid_of_unused hunused]; rfl)
  exact ⟨idx, hwalk, matches_or_freeSlot hwalk⟩

end Search

section Write

@[simp] theorem setVal_size : (xhash.setVal idx key val).size = xhash.size := rfl
@[simp] theorem updSet_size : (xhash.updSet idx key val).size = xhash.size := rfl

theorem setVal_vals_self : (xhash.setVal idx key val).vals idx = val := by simp [setVal]

theorem setVal_vals_of_ne (h : i ≠ idx) :
    (xhash.setVal idx key val).vals i = xhash.vals i := by simp [setVal, h]

theorem setVal_kvs_self : (xhash.setVal idx key val).kvs idx = key := by simp [setVal]

theorem setVal_kvs_of_ne (h : i ≠ idx) :
    (xhash.setVal idx key val).kvs i = xhash.kvs i := by simp [setVal, h]

theorem incVal_eq_setVal :
    xhash.incVal idx val = xhash.setVal idx (xhash.kvs idx) (xhash.vals idx + val) := by
  rw [incVal, setVal, Function.update_eq_self]

/-- Reaching a slot takes only that no slot on the way turns unused. -/
theorem Reaches.mono {hash : xhashidx} (h : xhash.Reaches hash i)
    (hsize : xhash'.size = xhash.size)
    (hunused : ∀ j, xhash'.itemUnused j = true → xhash.itemUnused j = true) :
    xhash'.Reaches hash i := by
  obtain ⟨n, hn, hpath⟩ := h
  refine ⟨n, by rw [hsize, hn], fun m hm => ?_⟩
  have := hpath m hm
  rw [hsize]
  by_contra hu
  rw [Bool.not_eq_false] at hu
  rw [hunused _ hu] at this
  cases this

theorem setVal_itemValid_self (hval : NotMark val) :
    (xhash.setVal idx key val).itemValid idx = true := by
  rw [itemValid_iff, setVal_vals_self]
  exact hval

theorem setVal_itemValid_of_ne (h : i ≠ idx) :
    (xhash.setVal idx key val).itemValid i = xhash.itemValid i := by
  simp only [itemValid, itemDummy, itemUnused, setVal_vals_of_ne h]

theorem setVal_itemDummy_of_ne (h : i ≠ idx) :
    (xhash.setVal idx key val).itemDummy i = xhash.itemDummy i := by
  simp only [itemDummy, setVal_vals_of_ne h]

theorem setVal_itemDummy_self (hval : NotMark val) :
    (xhash.setVal idx key val).itemDummy idx = false := by
  rw [itemDummy, setVal_vals_self]
  simpa using hval.1

theorem setVal_unused (hval : NotMark val) (j : Nat)
    (h : (xhash.setVal idx key val).itemUnused j = true) : xhash.itemUnused j = true := by
  rw [itemUnused_iff] at h ⊢
  by_cases hj : j = idx
  · subst hj
    rw [setVal_vals_self] at h
    exact absurd h hval.2
  · rwa [setVal_vals_of_ne hj] at h

/-- Every valid slot is still reached when the new key reaches its slot. -/
theorem Tracked.chain_setVal (ht : xhash.Tracked tf) (hval : NotMark val)
    (hreach : xhash.Reaches (tf.hash_fun key) idx) (i : Nat) (hi : i < xhash.size)
    (hv : (xhash.setVal idx key val).itemValid i = true) :
    (xhash.setVal idx key val).Reaches
      (tf.hash_fun ((xhash.setVal idx key val).kvs i)) i := by
  by_cases hidx : i = idx
  · subst hidx
    rw [setVal_kvs_self]
    exact hreach.mono rfl (setVal_unused hval)
  · rw [setVal_kvs_of_ne hidx]
    rw [setVal_itemValid_of_ne hidx] at hv
    exact (ht.chain i hi hv).mono rfl (setVal_unused hval)

theorem Tracked.setVal (ht : xhash.Tracked tf) (hmatch : xhash.Matches tf key idx)
    (hval : NotMark val) : (xhash.setVal idx key val).Tracked tf := by
  obtain ⟨hidx, hv, hcmp⟩ := hmatch
  have hd : xhash.itemDummy idx = false := by
    rw [itemValid_iff] at hv
    simpa [itemDummy] using hv.1
  refine ⟨?_, ?_, ht.chain_setVal hval ?_⟩
  · refine ht.used.trans (count_congr fun j _ => ?_).symm
    by_cases hj : j = idx
    · rw [hj, setVal_itemValid_self hval, hv]
    · exact setVal_itemValid_of_ne hj
  · refine ht.dummies.trans (count_congr fun j _ => ?_).symm
    by_cases hj : j = idx
    · rw [hj, setVal_itemDummy_self hval, hd]
    · exact setVal_itemDummy_of_ne hj
  · rw [← tf.hash_eq hcmp]
    exact ht.chain idx hidx hv

theorem Tracked.updSet (ht : xhash.Tracked tf) (hfree : xhash.FreeSlot tf key idx)
    (hval : NotMark val) : (xhash.updSet idx key val).Tracked tf := by
  have hidx := hfree.lt
  have hused : xhash.used + 1 =
      Nat.count ((xhash.setVal idx key val).itemValid · = true) xhash.size := by
    rw [ht.used]
    exact (count_flip hidx hfree.1 (setVal_itemValid_self hval)
      fun j hj => setVal_itemValid_of_ne hj).symm
  have hdummies : (if xhash.itemDummy idx then xhash.dummies - 1 else xhash.dummies) =
      Nat.count ((xhash.setVal idx key val).itemDummy · = true) xhash.size := by
    rw [ht.dummies]
    cases hd : xhash.itemDummy idx with
    | true =>
      have hself : (xhash.setVal idx key val).itemDummy idx = false := setVal_itemDummy_self hval
      rw [if_pos rfl, count_flip hidx hself hd fun j hj => (setVal_itemDummy_of_ne hj).symm]
      rfl
    | false =>
      rw [if_neg (by decide)]
      refine (count_congr fun j _ => ?_).symm
      by_cases hj : j = idx
      · rw [hj, setVal_itemDummy_self hval, hd]
      · exact setVal_itemDummy_of_ne hj
  exact ⟨hused, hdummies, ht.chain_setVal hval hfree.reaches⟩

theorem Wf.setVal (hw : xhash.Wf tf) (hmatch : xhash.Matches tf key idx) (hval : NotMark val) :
    (xhash.setVal idx key val).Wf tf := by
  obtain ⟨hused, hdummies, hchain⟩ := hw.tracked.setVal hmatch hval
  exact ⟨hw.shift, hw.minsize, hused, hdummies, hw.room, hchain⟩

theorem Wf.updSet (hw : xhash.Wf tf) (hfree : xhash.FreeSlot tf key idx) (hval : NotMark val)
    (hroom : xhash.used + xhash.dummies + 1 < xhash.size) :
    (xhash.updSet idx key val).Wf tf := by
  obtain ⟨hused, hdummies, hchain⟩ := hw.tracked.updSet hfree hval
  refine ⟨hw.shift, hw.minsize, hused, hdummies, ?_, hchain⟩
  show xhash.used + 1 + (if xhash.itemDummy idx then xhash.dummies - 1 else xhash.dummies) <
    xhash.size
  split <;> omega

@[simp] theorem deleteAt_size : (xhash.deleteAt idx).size = xhash.size := rfl

theorem deleteAt_vals_self : (xhash.deleteAt idx).vals idx = DUMMY := by
  simp [deleteAt, setDummyItem]

theorem deleteAt_vals_of_ne (h : i ≠ idx) : (xhash.deleteAt idx).vals i = xhash.vals i := by
  simp [deleteAt, setDummyItem, h]

theorem deleteAt_itemValid :
    (xhash.deleteAt idx).itemValid i = true ↔ i ≠ idx ∧ xhash.itemValid i = true := by
  rw [itemValid_iff, itemValid_iff]
  by_cases hi : i = idx
  · subst hi
    rw [deleteAt_vals_self]
    simp [NotMark]
  · rw [deleteAt_vals_of_ne hi]
    simp [hi]

theorem Tracked.deleteAt (ht : xhash.Tracked tf) (hidx : idx < xhash.size)
    (hv : xhash.itemValid idx = true) : (xhash.deleteAt idx).Tracked tf := by
  have hd : xhash.itemDummy idx = false := by
    rw [itemValid_iff] at hv
    simpa [itemDummy] using hv.1
  have hself : (xhash.deleteAt idx).itemDummy idx = true := itemDummy_iff.mpr deleteAt_vals_self
  have hused : xhash.used = Nat.count ((xhash.deleteAt idx).itemValid · = true) xhash.size + 1 := by
    rw [ht.used]
    refine count_flip hidx (itemValid_of_dummy hself) hv fun j hj => ?_
    simp only [itemValid, itemDummy, itemUnused, deleteAt_vals_of_ne hj]
  have hdummies : xhash.dummies + 1 =
      Nat.count ((xhash.deleteAt idx).itemDummy · = true) xhash.size := by
    rw [ht.dummies]
    refine (count_flip hidx hd hself fun j hj => ?_).symm
    simp only [itemDummy, deleteAt_vals_of_ne hj]
  refine ⟨?_, hdummies, fun j hj hvj => ?_⟩
  · show xhash.used - 1 = _
    rw [hused]
    rfl
  · refine (ht.chain j hj (deleteAt_itemValid.mp hvj).2).mono rfl fun k hk => ?_
    rw [itemUnused_iff] at hk ⊢
    by_cases hk' : k = idx
    · subst hk'
      rw [deleteAt_vals_self] at hk
      exact absurd hk (by decide)
    · rwa [← deleteAt_vals_of_ne hk']

theorem Wf.deleteAt (hw : xhash.Wf tf) (hidx : idx < xhash.size)
    (hv : xhash.itemValid idx = true) : (xhash.deleteAt idx).Wf tf := by
  obtain ⟨hused, hdummies, hchain⟩ := hw.tracked.deleteAt hidx hv
  have hpos : 0 < xhash.used := by
    rw [hw.used]
    exact Nat.pos_of_ne_zero (Nat.count_ne_iff_exists.mpr ⟨idx, hidx, hv⟩)
  have hroom := hw.room
  refine ⟨hw.shift, hw.minsize, hused, hdummies, ?_, hchain⟩
  show xhash.used - 1 + (xhash.dummies + 1) < xhash.size
  omega

end Write

section Operations

theorem Tracked.lookup (ht : xhash.Tracked tf) (hroom : xhash.used + xhash.dummies < xhash.size)
    (key : κ) :
    (∃ i, xhash.Matches tf key i ∧ xhash.lookup tf key = some (0, some (xhash.vals i))) ∨
      xhash.Absent tf key ∧ xhash.lookup tf key = some (-XHASH_EEXIST, none) := by
  obtain ⟨idx, hwalk, ⟨hu, habsent⟩ | ⟨hu, hmatch⟩⟩ := ht.find hroom key
  · refine Or.inr ⟨habsent, ?_⟩
    rw [Xhash.lookup, lookupRaw, hwalk]
    simp [hu, XHASH_EEXIST]
  · refine Or.inl ⟨idx, hmatch, ?_⟩
    rw [Xhash.lookup, lookupRaw, hwalk]
    simp [hu]

theorem Wf.deleteRaw (hw : xhash.Wf tf) (key : κ) :
    xhash.Absent tf key ∧ xhash.deleteRaw tf key = some (-XHASH_ENOENT, xhash) ∨
      ∃ i, xhash.Matches tf key i ∧ xhash.deleteRaw tf key = some (0, xhash.deleteAt i) := by
  obtain ⟨idx, hwalk, ⟨hu, habsent⟩ | ⟨hu, hmatch⟩⟩ := hw.tracked.find hw.room key
  · refine Or.inl ⟨habsent, ?_⟩
    rw [Xhash.deleteRaw, hwalk]
    simp [hu]
  · refine Or.inr ⟨idx, hmatch, ?_⟩
    rw [Xhash.deleteRaw, hwalk]
    simp only [Option.map_some, hu]
    rfl

/-- A search and a deletion stop at the same slot, whatever the table holds. -/
theorem lookup_deleteRaw (tf : TypesFunctions κ) (xhash : Xhash κ) (key : κ) :
    xhash.lookup tf key = none ∧ xhash.deleteRaw tf key = none ∨
    xhash.lookup tf key = some (-XHASH_EEXIST, none) ∧
      xhash.deleteRaw tf key = some (-XHASH_ENOENT, xhash) ∨
    ∃ i, xhash.Matches tf key i ∧ xhash.lookup tf key = some (0, some (xhash.vals i)) ∧
      xhash.deleteRaw tf key = some (0, xhash.deleteAt i) := by
  rw [Xhash.lookup, lookupRaw, Xhash.deleteRaw]
  cases hwalk : xhash.walkFrom (tf.hash_fun key) (fun idx =>
      xhash.itemUnused idx || (!xhash.itemDummy idx && tf.cmp_fun (xhash.kvs idx) key)) with
  | none => exact Or.inl ⟨rfl, rfl⟩
  | some i =>
    obtain ⟨n, hn, hstop, -⟩ := walkFrom_eq_some hwalk
    have hlt : i < xhash.size := by
      rw [← hn]
      exact xhash.probe_lt_size _ n
    cases hu : xhash.itemUnused i with
    | true =>
      refine Or.inr (Or.inl ?_)
      rw [Option.map_some, Option.map_some, Option.map_some, if_pos hu, if_pos hu]
      exact ⟨rfl, rfl⟩
    | false =>
      rw [hu, Bool.false_or, Bool.and_eq_true, Bool.not_eq_true'] at hstop
      have hvalid : xhash.itemValid i = true := by
        rw [itemValid, hu, hstop.1]
        rfl
      refine Or.inr (Or.inr ⟨i, ⟨hlt, hvalid, hstop.2⟩, ?_⟩)
      have hnot : ¬ xhash.itemUnused i = true := by
        rw [hu]
        exact Bool.false_ne_true
      rw [Option.map_some, Option.map_some, Option.map_some, if_neg hnot, if_neg hnot]
      exact ⟨rfl, rfl⟩

/-- What was just inserted is found, whatever else the table holds. -/
theorem insertRaw_lookup (hval : NotMark val)
    (hins : xhash.insertRaw tf key val = some xhash') :
    xhash'.lookup tf key = some (0, some val) := by
  rw [Xhash.insertRaw, Xhash.phashUpdate, Option.map_eq_some_iff] at hins
  obtain ⟨i, hwalk, heq⟩ := hins
  obtain ⟨n, hn, hstop, hfirst⟩ := walkFrom_eq_some hwalk
  have hsize : xhash'.size = xhash.size := by
    rw [← heq]
    split <;> rfl
  have hvals : xhash'.vals = Function.update xhash.vals i val := by
    rw [← heq]
    split <;> rfl
  have hkvs : xhash'.kvs = Function.update xhash.kvs i key := by
    rw [← heq]
    split <;> rfl
  have hself : xhash'.vals i = val := by
    rw [hvals, Function.update_self]
  have hunused : xhash'.itemUnused i = false := by
    rw [itemUnused, hself]
    exact beq_false_of_ne hval.2
  have hdummy : xhash'.itemDummy i = false := by
    rw [itemDummy, hself]
    exact beq_false_of_ne hval.1
  -- the slots before it on the path are occupied by other keys, and are not written
  have hfound : xhash'.walkFrom (tf.hash_fun key) (fun idx =>
      xhash'.itemUnused idx || (!xhash'.itemDummy idx && tf.cmp_fun (xhash'.kvs idx) key)) =
        some i := by
    rw [← hn, ← hsize]
    apply walkFrom_eq_first
    · rw [hsize, hn, hunused, hdummy, hkvs, Function.update_self, tf.cmp_refl]
      rfl
    · intro m hm
      have hbefore := hfirst m hm
      rw [hsize]
      have hne : probe xhash.size (tf.hash_fun key) m ≠ i := by
        intro heq
        rw [heq, hstop] at hbefore
        cases hbefore
      generalize probe xhash.size (tf.hash_fun key) m = j at hbefore hne
      cases hv : xhash.itemValid j with
      | false =>
        rw [hv] at hbefore
        cases hbefore
      | true =>
        rw [hv, if_pos rfl] at hbefore
        have hmark := itemValid_iff.mp hv
        have hother : xhash'.vals j = xhash.vals j := by
          rw [hvals, Function.update_of_ne hne]
        have hunused : xhash'.itemUnused j = false := by
          rw [itemUnused, hother]
          exact beq_false_of_ne hmark.2
        rw [hunused, hkvs, Function.update_of_ne hne, hbefore, Bool.and_false]
        rfl
  rw [Xhash.lookup, lookupRaw, hfound, Option.map_some, Option.map_some, hunused]
  dsimp only
  rw [if_neg Bool.false_ne_true]
  dsimp only
  rw [if_pos rfl, hself]

theorem insert_lookup {r : Int} (hval : NotMark val)
    (hins : xhash.insert tf key val = some (r, xhash')) (hr : 0 ≤ r) :
    xhash'.lookup tf key = some (0, some val) := by
  unfold Xhash.insert at hins
  split at hins
  · cases hins
    exact absurd hr (by decide)
  split at hins
  · cases hins
    exact absurd hr (by decide)
  · obtain ⟨t, hraw, heq⟩ := Option.map_eq_some_iff.mp hins
    cases heq
    exact insertRaw_lookup hval hraw

theorem Tracked.phashUpdate (ht : xhash.Tracked tf)
    (hroom : xhash.used + xhash.dummies < xhash.size) (key : κ) (update set : Nat → Xhash κ) :
    ∃ i, xhash.Matches tf key i ∧ xhash.phashUpdate tf key update (some set) = some (update i) ∨
      xhash.FreeSlot tf key i ∧ xhash.phashUpdate tf key update (some set) = some (set i) := by
  obtain ⟨idx, hwalk, hmatch | hfree⟩ := ht.findSlot hroom key
  · refine ⟨idx, Or.inl ⟨hmatch, ?_⟩⟩
    simp only [Xhash.phashUpdate, Option.isSome_some, hwalk, Option.map_some, hmatch.2.1, if_true]
  · refine ⟨idx, Or.inr ⟨hfree, ?_⟩⟩
    simp only [Xhash.phashUpdate, Option.isSome_some, hwalk, Option.map_some, hfree.1]
    rfl

theorem Wf.insertRaw (hw : xhash.Wf tf) (key : κ) (val : xhashidx) :
    ∃ i, xhash.Matches tf key i ∧ xhash.insertRaw tf key val = some (xhash.setVal i key val) ∨
      xhash.FreeSlot tf key i ∧ xhash.insertRaw tf key val = some (xhash.updSet i key val) :=
  hw.tracked.phashUpdate hw.room key _ _

/-- What a call that has returned did, with nothing known of the table. -/
theorem phashUpdate_cases {update set : Nat → Xhash κ}
    (h : xhash.phashUpdate tf key update (some set) = some xhash') :
    ∃ i, xhash.Matches tf key i ∧ xhash' = update i ∨
      xhash.FreeSlot tf key i ∧ xhash' = set i := by
  rw [Xhash.phashUpdate, Option.map_eq_some_iff] at h
  obtain ⟨idx, hwalk, rfl⟩ := h
  rcases matches_or_freeSlot hwalk with hmatch | hfree
  · exact ⟨idx, Or.inl ⟨hmatch, by rw [hmatch.2.1, if_pos rfl]⟩⟩
  · exact ⟨idx, Or.inr ⟨hfree, by rw [hfree.1]; rfl⟩⟩

/-- An insertion that `growCheck` lets through leaves an unused slot. -/
theorem Wf.room_of_not_growCheck (hw : xhash.Wf tf) (h : xhash.growCheck = false) :
    xhash.used + xhash.dummies + 1 < xhash.size := by
  have hfour : 2 ^ 2 ≤ 2 ^ xhash.size_shift := Nat.pow_le_pow_right (by decide) hw.shift
  rw [growCheck, Nat.one_shiftLeft, decide_eq_false_iff_not] at h
  rw [size_eq]
  omega

end Operations

end Xhash

end Libxseg

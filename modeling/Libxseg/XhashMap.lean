import Libxseg.XhashTable

/-!
# An xhash as a finite map

`Holds` reads the table as a map. It is one when no two valid slots hold equal
keys (`Unique`). Rebuilding and deleting keep that; inserting keeps it when no
tombstone stands before the slot of a key that is present (`Direct`).
-/

namespace Libxseg

set_option autoImplicit false

universe u

namespace Xhash
variable {κ : Type u} {tf : TypesFunctions κ} {xhash new : Xhash κ} {i j idx : Nat} {key k : κ}
  {val v : xhashidx}

def Holds (tf : TypesFunctions κ) (xhash : Xhash κ) (key : κ) (val : xhashidx) : Prop :=
  ∃ i, xhash.Matches tf key i ∧ xhash.vals i = val

def Unique (tf : TypesFunctions κ) (xhash : Xhash κ) : Prop :=
  ∀ i j, i < xhash.size → j < xhash.size → xhash.itemValid i = true → xhash.itemValid j = true →
    tf.cmp_fun (xhash.kvs i) (xhash.kvs j) = true → i = j

def Direct (tf : TypesFunctions κ) (xhash : Xhash κ) (key : κ) : Prop :=
  ∀ i, xhash.Matches tf key i → ∃ n, probe xhash.size (tf.hash_fun key) n = i ∧
    ∀ m < n, xhash.itemValid (probe xhash.size (tf.hash_fun key) m) = true

theorem Unique.eq (hu : xhash.Unique tf) (hi : xhash.Matches tf key i)
    (hj : xhash.Matches tf key j) : i = j :=
  hu i j hi.1 hj.1 hi.2.1 hj.2.1 (tf.cmp_trans hi.2.2 (tf.cmp_symm hj.2.2))

theorem Unique.holds_inj (hu : xhash.Unique tf) (h : xhash.Holds tf key val)
    (h' : xhash.Holds tf key v) : val = v := by
  obtain ⟨i, hi, rfl⟩ := h
  obtain ⟨j, hj, rfl⟩ := h'
  rw [hu.eq hi hj]

theorem absent_iff_not_holds : xhash.Absent tf key ↔ ∀ val, ¬ xhash.Holds tf key val := by
  rw [absent_iff]
  constructor
  · rintro h val ⟨i, hi, -⟩
    exact h ⟨i, hi⟩
  · rintro h ⟨i, hi⟩
    exact h _ ⟨i, hi, rfl⟩

theorem Tracked.lookup_iff (ht : xhash.Tracked tf)
    (hroom : xhash.used + xhash.dummies < xhash.size) (hu : xhash.Unique tf) (key : κ) :
    (∀ val, xhash.Holds tf key val ↔ xhash.lookup tf key = some (0, some val)) ∧
      (xhash.Absent tf key ↔ xhash.lookup tf key = some (-XHASH_EEXIST, none)) := by
  rcases ht.lookup hroom key with ⟨i, hi, hl⟩ | ⟨ha, hl⟩
  · rw [hl]
    constructor
    · intro val
      constructor
      · intro h
        rw [hu.holds_inj h ⟨i, hi, rfl⟩]
      · intro h
        rw [Option.some.injEq, Prod.mk.injEq, Option.some.injEq] at h
        exact ⟨i, hi, h.2⟩
    · constructor
      · exact fun ha => absurd ⟨i, hi⟩ (absent_iff.mp ha)
      · intro h
        simp at h
  · rw [hl]
    constructor
    · intro val
      constructor
      · exact fun h => absurd h (absent_iff_not_holds.mp ha val)
      · intro h
        simp at h
    · exact ⟨fun _ => rfl, fun _ => ha⟩

theorem Wf.lookup_iff (hw : xhash.Wf tf) (hu : xhash.Unique tf) (key : κ) :
    (∀ val, xhash.Holds tf key val ↔ xhash.lookup tf key = some (0, some val)) ∧
      (xhash.Absent tf key ↔ xhash.lookup tf key = some (-XHASH_EEXIST, none)) :=
  hw.tracked.lookup_iff hw.room hu key

theorem Tracked.lookup_congr (ht : xhash.Tracked tf)
    (hroom : xhash.used + xhash.dummies < xhash.size) (hu : xhash.Unique tf)
    (ht' : new.Tracked tf) (hroom' : new.used + new.dummies < new.size) (hu' : new.Unique tf)
    (hholds : ∀ k v, new.Holds tf k v ↔ xhash.Holds tf k v) (key : κ) :
    new.lookup tf key = xhash.lookup tf key := by
  obtain ⟨hheld, habsent⟩ := ht.lookup_iff hroom hu key
  obtain ⟨hheld', habsent'⟩ := ht'.lookup_iff hroom' hu' key
  rcases ht.lookup hroom key with ⟨i, hi, hlookup⟩ | ⟨ha, hlookup⟩
  · rw [hlookup, ← hheld', hholds]
    exact ⟨i, hi, rfl⟩
  · rw [hlookup, ← habsent', absent_iff_not_holds]
    intro val hval
    exact absent_iff_not_holds.mp ha val ((hholds key val).mp hval)

theorem setVal_matches (hval : NotMark val) :
    (xhash.setVal idx key val).Matches tf k i ↔
      if i = idx then idx < xhash.size ∧ tf.cmp_fun key k = true else xhash.Matches tf k i := by
  by_cases hi : i = idx
  · subst hi
    rw [if_pos rfl, Matches, setVal_size, setVal_itemValid_self hval, setVal_kvs_self]
    simp
  · rw [if_neg hi, Matches, setVal_size, setVal_itemValid_of_ne hi, setVal_kvs_of_ne hi]
    rfl

/-- Writing a key over its only slot, or into a free slot when it has none. -/
theorem setVal_holds (hval : NotMark val) (hidx : idx < xhash.size)
    (hold : xhash.itemValid idx = true → tf.cmp_fun (xhash.kvs idx) key = true)
    (honly : ∀ j, xhash.Matches tf key j → j = idx) :
    (xhash.setVal idx key val).Holds tf k v ↔
      if tf.cmp_fun key k = true then v = val else xhash.Holds tf k v := by
  constructor
  · rintro ⟨i, hi, hv⟩
    rw [setVal_matches hval] at hi
    by_cases hidx : i = idx
    · rw [if_pos hidx] at hi
      rw [hidx, setVal_vals_self] at hv
      rw [if_pos hi.2, hv]
    · rw [if_neg hidx] at hi
      have hk : ¬ tf.cmp_fun key k = true := fun hk =>
        hidx (honly i ⟨hi.1, hi.2.1, tf.cmp_trans hi.2.2 (tf.cmp_symm hk)⟩)
      rw [setVal_vals_of_ne hidx] at hv
      rw [if_neg hk]
      exact ⟨i, hi, hv⟩
  · intro h
    split at h
    · rename_i hk
      refine ⟨idx, ?_, by rw [setVal_vals_self, h]⟩
      rw [setVal_matches hval, if_pos rfl]
      exact ⟨hidx, hk⟩
    · rename_i hk
      obtain ⟨i, hi, hv⟩ := h
      have hne : i ≠ idx := by
        rintro rfl
        exact hk (tf.cmp_trans (tf.cmp_symm (hold hi.2.1)) hi.2.2)
      refine ⟨i, ?_, by rw [setVal_vals_of_ne hne, hv]⟩
      rw [setVal_matches hval, if_neg hne]
      exact hi

theorem Unique.setVal (hu : xhash.Unique tf)
    (honly : ∀ j, xhash.Matches tf key j → j = idx) : (xhash.setVal idx key val).Unique tf := by
  intro i j hi hj hvi hvj hcmp
  by_cases hii : i = idx
  · by_cases hjj : j = idx
    · rw [hii, hjj]
    · rw [hii, setVal_kvs_self, setVal_kvs_of_ne hjj] at hcmp
      rw [setVal_itemValid_of_ne hjj] at hvj
      exact absurd (honly j ⟨hj, hvj, tf.cmp_symm hcmp⟩) hjj
  · rw [setVal_itemValid_of_ne hii] at hvi
    rw [setVal_kvs_of_ne hii] at hcmp
    by_cases hjj : j = idx
    · rw [hjj, setVal_kvs_self] at hcmp
      exact absurd (honly i ⟨hi, hvi, hcmp⟩) hii
    · rw [setVal_itemValid_of_ne hjj] at hvj
      rw [setVal_kvs_of_ne hjj] at hcmp
      exact hu i j hi hj hvi hvj hcmp

/-- A key that is not shadowed by a tombstone is absent when its walk ends at a free slot. -/
theorem FreeSlot.absent (h : xhash.FreeSlot tf key idx) (hd : xhash.Direct tf key) :
    xhash.Absent tf key := by
  rw [absent_iff]
  rintro ⟨i, hi⟩
  obtain ⟨hfree, n, rfl, hpath⟩ := h
  obtain ⟨m, rfl, hocc⟩ := hd i hi
  rcases Nat.lt_trichotomy m n with hlt | rfl | hgt
  · exact (hpath m hlt).2 hi
  · rw [hi.2.1] at hfree
    cases hfree
  · rw [hocc n hgt] at hfree
    cases hfree

structure Inserted (tf : TypesFunctions κ) (xhash : Xhash κ) (key : κ) (val : xhashidx)
    (new : Xhash κ) : Prop where
  wf : new.Wf tf
  unique : new.Unique tf
  size_shift : new.size_shift = xhash.size_shift
  minsize_shift : new.minsize_shift = xhash.minsize_shift
  limit : new.limit = xhash.limit
  used : (xhash.Absent tf key ∧ new.used = xhash.used + 1) ∨
    (¬ xhash.Absent tf key ∧ new.used = xhash.used)
  holds : ∀ k v, new.Holds tf k v ↔
    if tf.cmp_fun key k = true then v = val else xhash.Holds tf k v

theorem Wf.insertRaw_holds (hw : xhash.Wf tf) (hu : xhash.Unique tf) (hd : xhash.Direct tf key)
    (hval : NotMark val) (hroom : xhash.used + xhash.dummies + 1 < xhash.size) :
    ∃ new, xhash.insertRaw tf key val = some new ∧ xhash.Inserted tf key val new := by
  obtain ⟨i, ⟨hmatch, hins⟩ | ⟨hfree, hins⟩⟩ := hw.insertRaw key val
  · have honly (j : Nat) (hj : xhash.Matches tf key j) := hu.eq hj hmatch
    exact ⟨_, hins, hw.setVal hmatch hval, hu.setVal honly, rfl, rfl, rfl,
      Or.inr ⟨fun ha => absent_iff.mp ha ⟨i, hmatch⟩, rfl⟩,
      fun k v => setVal_holds hval hmatch.1 (fun _ => hmatch.2.2) honly⟩
  · have habsent := hfree.absent hd
    have honly (j : Nat) (hj : xhash.Matches tf key j) : j = i :=
      absurd ⟨j, hj⟩ (absent_iff.mp habsent)
    refine ⟨_, hins, hw.updSet hfree hval hroom, hu.setVal honly, rfl, rfl, rfl,
      Or.inl ⟨habsent, rfl⟩, fun k v => setVal_holds hval hfree.lt (fun hv => ?_) honly⟩
    rw [hfree.1] at hv
    cases hv

structure Deleted (tf : TypesFunctions κ) (xhash : Xhash κ) (key : κ) (new : Xhash κ) :
    Prop where
  wf : new.Wf tf
  unique : new.Unique tf
  size_shift : new.size_shift = xhash.size_shift
  minsize_shift : new.minsize_shift = xhash.minsize_shift
  limit : new.limit = xhash.limit
  used : new.used + 1 = xhash.used
  holds : ∀ k v, new.Holds tf k v ↔ tf.cmp_fun key k = false ∧ xhash.Holds tf k v

theorem Wf.deleteRaw_holds (hw : xhash.Wf tf) (hu : xhash.Unique tf) (key : κ) :
    xhash.Absent tf key ∧ xhash.deleteRaw tf key = some (-XHASH_ENOENT, xhash) ∨
      ¬ xhash.Absent tf key ∧
        ∃ new, xhash.deleteRaw tf key = some (0, new) ∧ xhash.Deleted tf key new := by
  rcases hw.deleteRaw key with h | ⟨i, hi, hdel⟩
  · exact Or.inl h
  · refine Or.inr ⟨fun ha => absent_iff.mp ha ⟨i, hi⟩, _, hdel, hw.deleteAt hi.1 hi.2.1, ?_,
      rfl, rfl, rfl, ?_, fun k v => ?_⟩
    · intro a b ha hb hva hvb
      exact hu a b ha hb (deleteAt_itemValid.mp hva).2 (deleteAt_itemValid.mp hvb).2
    · have hpos : 0 < xhash.used := by
        rw [hw.used]
        exact Nat.pos_of_ne_zero (Nat.count_ne_iff_exists.mpr ⟨i, hi.1, hi.2.1⟩)
      exact Nat.sub_add_cancel hpos
    · constructor
      · rintro ⟨j, ⟨hj, hvj, hk⟩, hv⟩
        obtain ⟨hne, hvj⟩ := deleteAt_itemValid.mp hvj
        rw [deleteAt_vals_of_ne hne] at hv
        have hkey : tf.cmp_fun key k = false := by
          by_contra hkey
          rw [Bool.not_eq_false] at hkey
          exact hne (hu.eq ⟨hj, hvj, tf.cmp_trans hk (tf.cmp_symm hkey)⟩ hi)
        exact ⟨hkey, j, ⟨hj, hvj, hk⟩, hv⟩
      · rintro ⟨hkey, j, ⟨hj, hvj, hk⟩, hv⟩
        have hne : j ≠ i := by
          rintro rfl
          rw [tf.cmp_trans (tf.cmp_symm hi.2.2) hk] at hkey
          cases hkey
        exact ⟨j, ⟨hj, deleteAt_itemValid.mpr ⟨hne, hvj⟩, hk⟩, by rw [deleteAt_vals_of_ne hne, hv]⟩

end Xhash

end Libxseg

import Libxseg.XhashMap

/-!
# Rebuilding an xhash

`resize` inserts the valid slots of the old table into a fresh one, in slot order.
It returns when the used slots fit the new size with one to spare, and the fresh
table has no tombstones at any time, so it holds the same map.
-/

namespace Libxseg

set_option autoImplicit false

universe u

theorem foldlM_range {σ : Type u} {I : Nat → σ → Prop} {f : σ → Nat → Option σ} {n : Nat}
    (step : ∀ i < n, ∀ s, I i s → ∃ t, f s i = some t ∧ I (i + 1) t) {s : σ} (hs : I 0 s) :
    ∃ t, (List.range n).foldlM f s = some t ∧ I n t := by
  induction n with
  | zero => exact ⟨s, rfl, hs⟩
  | succ n ih =>
    obtain ⟨t, ht, hI⟩ := ih fun i hi => step i (by omega)
    obtain ⟨u, hu, hI'⟩ := step n (Nat.lt_succ_self n) t hI
    refine ⟨u, ?_, hI'⟩
    rw [List.range_succ, List.foldlM_append, ht]
    simpa using hu

namespace Xhash
variable {κ : Type u} {tf : TypesFunctions κ} {xhash new : Xhash κ} {n shift limit : Nat}

/-- What holds of the empty table and is kept by each copy holds of the rebuilt table. -/
theorem resize_induct {P : Xhash κ → Prop} {kvs0 : Nat → κ}
    (hinit : P (initRaw shift xhash.minsize_shift limit kvs0))
    (hcopy : ∀ {s t : Xhash κ} i, i < xhash.size → xhash.itemValid i = true → P s →
      s.insertRaw tf (xhash.kvs i) (xhash.vals i) = some t → P t)
    (hres : xhash.resize tf shift limit kvs0 = some new) : P new := by
  suffices ∀ (l : List Nat) (s : Xhash κ), (∀ i ∈ l, i < xhash.size) → P s →
      l.foldlM (xhash.resizeCopy tf) s = some new → P new from
    this _ _ (fun i hi => List.mem_range.mp hi) hinit hres
  intro l
  induction l with
  | nil =>
    intro s _ hs heq
    cases heq
    exact hs
  | cons i l ih =>
    intro s hlt hs heq
    rw [List.foldlM_cons, Option.bind_eq_bind, Option.bind_eq_some_iff] at heq
    obtain ⟨t, hstep, heq⟩ := heq
    apply ih t (fun j hj => hlt j (List.mem_cons_of_mem _ hj)) _ heq
    unfold resizeCopy at hstep
    split at hstep
    · exact hcopy i (hlt i List.mem_cons_self) ‹_› hs hstep
    · cases hstep
      exact hs

section Fresh
variable {size_shift minsize_shift : Nat} (kvs0 : Nat → κ)

theorem initRaw_itemUnused (i : Nat) :
    (initRaw size_shift minsize_shift limit kvs0).itemUnused i = true := by
  simp [initRaw, itemUnused]

theorem tracked_initRaw : (initRaw size_shift minsize_shift limit kvs0).Tracked tf := by
  refine ⟨?_, ?_, fun i _ hv => ?_⟩
  · refine (Nat.count_iff_forall_not.mpr fun i _ => ?_).symm
    simp [itemValid_of_unused (initRaw_itemUnused kvs0 i)]
  · refine (Nat.count_iff_forall_not.mpr fun i _ => ?_).symm
    simp [not_dummy_of_unused (initRaw_itemUnused kvs0 i)]
  · rw [itemValid_of_unused (initRaw_itemUnused kvs0 i)] at hv
    cases hv

theorem wf_initRaw (hs : 2 ≤ size_shift) (hm : 2 ≤ minsize_shift) :
    (initRaw size_shift minsize_shift limit kvs0).Wf tf := by
  have hraw : (initRaw size_shift minsize_shift limit kvs0).Tracked tf := tracked_initRaw kvs0
  refine ⟨hs, hm, hraw.used, hraw.dummies, ?_, hraw.chain⟩
  rw [size_eq]
  exact Nat.two_pow_pos _

theorem initRaw_absent (key : κ) :
    (initRaw size_shift minsize_shift limit kvs0).Absent tf key := by
  intro i _ hv
  rw [itemValid_of_unused (initRaw_itemUnused kvs0 i)] at hv
  cases hv

theorem initRaw_unique : (initRaw size_shift minsize_shift limit kvs0).Unique tf := by
  intro i j _ _ hv
  rw [itemValid_of_unused (initRaw_itemUnused kvs0 i)] at hv
  cases hv

end Fresh

theorem Wf.direct_of_dummies_eq_zero (hw : xhash.Wf tf) (hd : xhash.dummies = 0) (key : κ) :
    xhash.Direct tf key := by
  intro i hi
  obtain ⟨n, hn, hpath⟩ := hw.chain i hi.1 hi.2.1
  rw [tf.hash_eq hi.2.2] at hn hpath
  refine ⟨n, hn, fun m hm => ?_⟩
  have hcount := hw.dummies
  rw [hd] at hcount
  have hdummy := Nat.count_iff_forall_not.mp hcount.symm _ (xhash.probe_lt_size (tf.hash_fun key) m)
  simp [itemValid, hpath m hm, hdummy]

structure Copied (tf : TypesFunctions κ) (xhash : Xhash κ) (shift limit n : Nat) (new : Xhash κ) :
    Prop where
  wf : new.Wf tf
  size_shift : new.size_shift = shift
  minsize_shift : new.minsize_shift = xhash.minsize_shift
  limit : new.limit = limit
  dummies : new.dummies = 0
  used : new.used ≤ Nat.count (xhash.itemValid · = true) n

theorem Copied.room (hw : xhash.Wf tf) (h : Copied tf xhash shift limit n new)
    (hfit : xhash.used < 2 ^ shift) (hn : n < xhash.size) (hv : xhash.itemValid n = true) :
    new.used + new.dummies + 1 < new.size := by
  have hle : Nat.count (xhash.itemValid · = true) (n + 1) ≤ xhash.used := by
    rw [hw.used]
    exact Nat.count_monotone _ hn
  rw [Nat.count_succ_eq_succ_count_iff.mpr hv] at hle
  have hused := h.used
  rw [size_eq, h.size_shift, h.dummies]
  omega

theorem Copied.step (hw : xhash.Wf tf) (h : Copied tf xhash shift limit n new)
    (hfit : xhash.used < 2 ^ shift) (hn : n < xhash.size) :
    ∃ new', xhash.resizeCopy tf new n = some new' ∧ Copied tf xhash shift limit (n + 1) new' := by
  have hused := h.used
  unfold resizeCopy
  cases hv : xhash.itemValid n with
  | false =>
    refine ⟨new, by simp, h.wf, h.size_shift, h.minsize_shift, h.limit, h.dummies, ?_⟩
    exact hused.trans (Nat.count_monotone _ (Nat.le_succ n))
  | true =>
    have hcount := (Nat.count_succ_eq_succ_count_iff (p := (xhash.itemValid · = true))).mpr hv
    have hval := itemValid_iff.mp hv
    rw [if_pos rfl]
    obtain ⟨i, ⟨hmatch, hins⟩ | ⟨hfree, hins⟩⟩ := h.wf.insertRaw (xhash.kvs n) (xhash.vals n)
    · exact ⟨_, hins, h.wf.setVal hmatch hval, h.size_shift, h.minsize_shift, h.limit, h.dummies,
        hused.trans (Nat.count_monotone _ (Nat.le_succ n))⟩
    · refine ⟨_, hins, h.wf.updSet hfree hval (h.room hw hfit hn hv), h.size_shift,
        h.minsize_shift, h.limit, ?_, ?_⟩
      · simp [updSet, h.dummies]
      · rw [hcount]
        exact Nat.succ_le_succ hused

theorem Wf.resize (hw : xhash.Wf tf) (hfit : xhash.used < 2 ^ shift) (hs : 2 ≤ shift)
    (limit : Nat) (kvs0 : Nat → κ) :
    ∃ new, xhash.resize tf shift limit kvs0 = some new ∧
      Copied tf xhash shift limit xhash.size new :=
  foldlM_range (fun _ hi _ h => h.step hw hfit hi)
    ⟨wf_initRaw kvs0 hs hw.minsize, rfl, rfl, rfl, rfl, Nat.zero_le _⟩

structure CopiedMap (tf : TypesFunctions κ) (xhash : Xhash κ) (n : Nat) (new : Xhash κ) :
    Prop where
  unique : new.Unique tf
  used : new.used = Nat.count (xhash.itemValid · = true) n
  holds : ∀ k v, new.Holds tf k v ↔ ∃ i < n, xhash.Matches tf k i ∧ xhash.vals i = v

theorem CopiedMap.skip (h : CopiedMap tf xhash n new) (hv : xhash.itemValid n = false) :
    CopiedMap tf xhash (n + 1) new where
  unique := h.unique
  used := by
    rw [h.used, eq_comm, Nat.count_succ_eq_count_iff, hv]
    decide
  holds k v := by
    rw [h.holds]
    constructor
    · rintro ⟨i, hi, hmatch⟩
      exact ⟨i, by omega, hmatch⟩
    · rintro ⟨i, hi, hmatch, hval⟩
      have hne : i ≠ n := by
        rintro rfl
        rw [hmatch.2.1] at hv
        cases hv
      exact ⟨i, by omega, hmatch, hval⟩

theorem CopiedMap.absent (hu : xhash.Unique tf) (hn : n < xhash.size)
    (hv : xhash.itemValid n = true) (h : CopiedMap tf xhash n new) :
    new.Absent tf (xhash.kvs n) := by
  rw [absent_iff_not_holds]
  intro v hheld
  obtain ⟨i, hi, hmatch, -⟩ := (h.holds _ v).mp hheld
  exact hi.ne (hu.eq hmatch ⟨hn, hv, tf.cmp_refl _⟩)

theorem CopiedMap.insert {i : Nat} (hu : xhash.Unique tf) (hn : n < xhash.size)
    (hv : xhash.itemValid n = true) (h : CopiedMap tf xhash n new)
    (hfree : new.FreeSlot tf (xhash.kvs n) i) :
    CopiedMap tf xhash (n + 1) (new.updSet i (xhash.kvs n) (xhash.vals n)) := by
  have honly (j : Nat) (hj : new.Matches tf (xhash.kvs n) j) : j = i :=
    absurd ⟨j, hj⟩ (absent_iff.mp (h.absent hu hn hv))
  have hholds (k : κ) (v : xhashidx) :
      (new.updSet i (xhash.kvs n) (xhash.vals n)).Holds tf k v ↔
        if tf.cmp_fun (xhash.kvs n) k = true then v = xhash.vals n else new.Holds tf k v := by
    apply setVal_holds (itemValid_iff.mp hv) hfree.lt _ honly
    intro hvi
    rw [hfree.1] at hvi
    cases hvi
  refine ⟨h.unique.setVal honly, ?_, fun k v => ?_⟩
  · rw [Nat.count_succ_eq_succ_count_iff.mpr hv, ← h.used]
    rfl
  · rw [hholds, h.holds]
    by_cases hk : tf.cmp_fun (xhash.kvs n) k = true
    · have hmatch : xhash.Matches tf k n := ⟨hn, hv, hk⟩
      rw [if_pos hk]
      constructor
      · rintro rfl
        exact ⟨n, Nat.lt_succ_self n, hmatch, rfl⟩
      · rintro ⟨i, -, hi, rfl⟩
        rw [hu.eq hi hmatch]
    · rw [if_neg hk]
      constructor
      · rintro ⟨i, hi, hmatch⟩
        exact ⟨i, by omega, hmatch⟩
      · rintro ⟨i, hi, hmatch, hval⟩
        have hne : i ≠ n := by
          rintro rfl
          exact hk hmatch.2.2
        exact ⟨i, by omega, hmatch, hval⟩

structure Rebuilt (tf : TypesFunctions κ) (xhash : Xhash κ) (shift limit : Nat) (new : Xhash κ) :
    Prop where
  wf : new.Wf tf
  unique : new.Unique tf
  size_shift : new.size_shift = shift
  minsize_shift : new.minsize_shift = xhash.minsize_shift
  limit : new.limit = limit
  used : new.used = xhash.used
  dummies : new.dummies = 0
  holds : ∀ k v, new.Holds tf k v ↔ xhash.Holds tf k v

/-- The new table, of any size, after the first `n` slots have been copied. -/
structure Refilled (tf : TypesFunctions κ) (xhash : Xhash κ) (shift limit n : Nat) (new : Xhash κ) :
    Prop extends CopiedMap tf xhash n new where
  tracked : new.Tracked tf
  size_shift : new.size_shift = shift
  minsize_shift : new.minsize_shift = xhash.minsize_shift
  limit : new.limit = limit
  dummies : new.dummies = 0

theorem Refilled.room (ht : xhash.Tracked tf) (h : Refilled tf xhash shift limit n new)
    (hfit : xhash.used < 2 ^ shift) (hn : n ≤ xhash.size) :
    new.used + new.dummies < new.size := by
  have hle : Nat.count (xhash.itemValid · = true) n ≤ xhash.used := by
    rw [ht.used]
    exact Nat.count_monotone _ hn
  rw [size_eq, h.size_shift, h.dummies, h.used]
  omega

theorem Refilled.step (ht : xhash.Tracked tf) (hu : xhash.Unique tf)
    (h : Refilled tf xhash shift limit n new) (hfit : xhash.used < 2 ^ shift)
    (hn : n < xhash.size) :
    ∃ new', xhash.resizeCopy tf new n = some new' ∧
      Refilled tf xhash shift limit (n + 1) new' := by
  unfold resizeCopy
  cases hv : xhash.itemValid n with
  | false =>
    exact ⟨new, rfl, h.toCopiedMap.skip hv, h.tracked, h.size_shift, h.minsize_shift, h.limit,
      h.dummies⟩
  | true =>
    rw [if_pos rfl]
    obtain ⟨i, ⟨hmatch, -⟩ | ⟨hfree, hins⟩⟩ := h.tracked.phashUpdate (h.room ht hfit hn.le)
      (xhash.kvs n) (new.setVal · (xhash.kvs n) (xhash.vals n))
      (new.updSet · (xhash.kvs n) (xhash.vals n))
    · exact absurd ⟨i, hmatch⟩ (absent_iff.mp (h.absent hu hn hv))
    · exact ⟨_, hins, h.insert hu hn hv hfree, h.tracked.updSet hfree (itemValid_iff.mp hv),
        h.size_shift, h.minsize_shift, h.limit, by simp [updSet, h.dummies]⟩

theorem Tracked.resize (ht : xhash.Tracked tf) (hu : xhash.Unique tf)
    (hfit : xhash.used < 2 ^ shift) (limit : Nat) (kvs0 : Nat → κ) :
    ∃ new, xhash.resize tf shift limit kvs0 = some new ∧
      Refilled tf xhash shift limit xhash.size new := by
  apply foldlM_range (I := fun n new => Refilled tf xhash shift limit n new)
    fun n hn new h => h.step ht hu hfit hn
  refine ⟨⟨initRaw_unique kvs0, rfl, fun k v => ?_⟩, tracked_initRaw kvs0, rfl, rfl, rfl, rfl⟩
  constructor
  · exact fun hheld => absurd hheld (absent_iff_not_holds.mp (initRaw_absent kvs0 k) v)
  · intro hnone
    obtain ⟨i, hi, -⟩ := hnone
    exact absurd hi (Nat.not_lt_zero i)

theorem Refilled.holds_iff (h : Refilled tf xhash shift limit xhash.size new) (k : κ)
    (v : xhashidx) : new.Holds tf k v ↔ xhash.Holds tf k v := by
  rw [h.holds]
  constructor
  · rintro ⟨i, -, hmatch⟩
    exact ⟨i, hmatch⟩
  · rintro ⟨i, hmatch⟩
    exact ⟨i, hmatch.1.1, hmatch⟩

theorem Wf.resize_holds (hw : xhash.Wf tf) (hu : xhash.Unique tf) (hfit : xhash.used < 2 ^ shift)
    (hs : 2 ≤ shift) (limit : Nat) (kvs0 : Nat → κ) :
    ∃ new, xhash.resize tf shift limit kvs0 = some new ∧ xhash.Rebuilt tf shift limit new := by
  obtain ⟨new, hnew, h⟩ := hw.tracked.resize hu hfit limit kvs0
  have hwf : new.Wf tf := by
    refine ⟨?_, ?_, h.tracked.used, h.tracked.dummies, h.room hw.tracked hfit le_rfl,
      h.tracked.chain⟩
    · rwa [h.size_shift]
    · rw [h.minsize_shift]
      exact hw.minsize
  exact ⟨new, hnew, hwf, h.unique, h.size_shift, h.minsize_shift, h.limit,
    h.used.trans hw.used.symm, h.dummies, h.holds_iff⟩

theorem Wf.growSizeShift (hw : xhash.Wf tf) :
    2 ≤ xhash.growSizeShift ∧ xhash.used < 2 ^ xhash.growSizeShift := by
  have hroom := hw.room
  have hs := hw.shift
  have hle : 2 ^ xhash.size_shift ≤ 2 ^ xhash.growSizeShift := by
    apply Nat.pow_le_pow_right (by decide)
    rw [Xhash.growSizeShift]
    split <;> omega
  rw [size_eq] at hroom
  refine ⟨?_, by omega⟩
  rw [Xhash.growSizeShift]
  split <;> omega

/-- After the rebuild that an insertion asks for, it does not ask again. -/
theorem Rebuilt.not_growCheck (hw : xhash.Wf tf)
    (h : xhash.Rebuilt tf xhash.growSizeShift limit new) : new.growCheck = false := by
  have hroom := hw.room
  have hpow := Nat.pow_succ (n := 2) (m := xhash.size_shift)
  rw [size_eq] at hroom
  rw [growCheck, h.used, h.dummies, h.size_shift, Xhash.growSizeShift, decide_eq_false_iff_not]
  simp only [Nat.one_shiftLeft]
  split <;> omega

theorem Wf.shrinkSizeShift (hw : xhash.Wf tf) (h : xhash.shrinkCheck = true) :
    2 ≤ xhash.shrinkSizeShift ∧ xhash.used < 2 ^ xhash.shrinkSizeShift := by
  have hm := hw.minsize
  rw [shrinkCheck, decide_eq_true_iff, Nat.one_shiftLeft] at h
  obtain ⟨s, hs⟩ := Nat.exists_eq_succ_of_ne_zero (show xhash.size_shift ≠ 0 by omega)
  have hshrink : xhash.shrinkSizeShift = s := by
    rw [Xhash.shrinkSizeShift, hs]
    simp only [Nat.succ_sub_one]
    split <;> omega
  rw [hs, Nat.pow_succ] at h
  rw [hshrink]
  omega

def Every (P : κ → xhashidx → Prop) (xhash : Xhash κ) : Prop :=
  ∀ i < xhash.size, xhash.itemValid i = true → P (xhash.kvs i) (xhash.vals i)

section Every
variable {P : κ → xhashidx → Prop} {key : κ} {val : xhashidx}

theorem every_initRaw (size_shift minsize_shift limit : Nat) (kvs0 : Nat → κ) :
    (initRaw size_shift minsize_shift limit kvs0).Every P := by
  intro i _ hv
  rw [itemValid_of_unused (initRaw_itemUnused kvs0 i)] at hv
  cases hv

theorem Every.setVal (h : xhash.Every P) (hp : P key val) (idx : Nat) :
    (xhash.setVal idx key val).Every P := by
  intro i hi hv
  by_cases hidx : i = idx
  · subst hidx
    rw [setVal_kvs_self, setVal_vals_self]
    exact hp
  · rw [setVal_itemValid_of_ne hidx] at hv
    rw [setVal_kvs_of_ne hidx, setVal_vals_of_ne hidx]
    exact h i hi hv

theorem Every.insertRaw (h : xhash.Every P) (hp : P key val)
    (hins : xhash.insertRaw tf key val = some new) : new.Every P := by
  rw [Xhash.insertRaw, phashUpdate, Option.map_eq_some_iff] at hins
  obtain ⟨idx, -, rfl⟩ := hins
  split
  · exact h.setVal hp idx
  · exact h.setVal hp idx

theorem Every.deleteRaw {r : Int} (h : xhash.Every P)
    (hdel : xhash.deleteRaw tf key = some (r, new)) : new.Every P := by
  rw [Xhash.deleteRaw, Option.map_eq_some_iff] at hdel
  obtain ⟨idx, -, heq⟩ := hdel
  split at heq
  · cases heq
    exact h
  · cases heq
    intro i hi hv
    obtain ⟨hne, hv⟩ := deleteAt_itemValid.mp hv
    rw [deleteAt_vals_of_ne hne]
    exact h i hi hv

theorem Every.resize {kvs0 : Nat → κ} (h : xhash.Every P)
    (hres : xhash.resize tf shift limit kvs0 = some new) : new.Every P :=
  resize_induct (every_initRaw _ _ _ _)
    (fun _ hi hv hs hins => hs.insertRaw (h _ hi hv) hins) hres

end Every

end Xhash

end Libxseg

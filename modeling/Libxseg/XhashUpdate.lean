import Libxseg.XhashRuns

/-!
# Updating the value of a key

`xhash_update` walks on at a free slot, so it ends only at a slot with an equal key. For a key that
is present this is the slot that `xhash_lookup` finds, and its value changes and nothing else. For
a key that is absent the walk does not end.
-/

namespace Libxseg

set_option autoImplicit false

universe u

namespace Xhash
variable {κ : Type u} {tf : TypesFunctions κ} {xhash new : Xhash κ} {key k : κ} {val : xhashidx}
  {idx n : Nat}

theorem update_absent (habsent : xhash.Absent tf key) (val : xhashidx) :
    xhash.update tf key val = none := by
  cases hupdate : xhash.update tf key val with
  | none => rfl
  | some r =>
    obtain ⟨i, hfirst, -⟩ := update_cases hupdate
    exact absurd ⟨i, hfirst.1⟩ (absent_iff.mp habsent)

theorem Tracked.lookup_first (ht : xhash.Tracked tf) (h : xhash.FirstMatch tf key idx) :
    xhash.lookup tf key = some (0, some (xhash.vals idx)) := by
  obtain ⟨hmatch, n, rfl, hfirst⟩ := h
  obtain ⟨hlt, hv, hcmp⟩ := hmatch
  have hused : xhash.itemUnused (probe xhash.size (tf.hash_fun key) n) = false := by
    cases hu : xhash.itemUnused (probe xhash.size (tf.hash_fun key) n) with
    | false => rfl
    | true =>
      rw [itemValid_of_unused hu] at hv
      cases hv
  have hdummy : xhash.itemDummy (probe xhash.size (tf.hash_fun key) n) = false := by
    cases hd : xhash.itemDummy (probe xhash.size (tf.hash_fun key) n) with
    | false => rfl
    | true =>
      rw [itemValid_of_dummy hd] at hv
      cases hv
  -- the slot is reached without an unused slot before it
  obtain ⟨r, hr, hpath⟩ := ht.chain _ hlt hv
  rw [tf.hash_eq hcmp] at hr hpath
  have hle : n ≤ r := by
    by_contra hlt'
    apply hfirst r (Nat.lt_of_not_le hlt')
    rw [hr]
    exact ⟨hlt, hv, hcmp⟩
  have hwalk : xhash.walkFrom (tf.hash_fun key) (fun idx =>
      xhash.itemUnused idx || (!xhash.itemDummy idx && tf.cmp_fun (xhash.kvs idx) key)) =
        some (probe xhash.size (tf.hash_fun key) n) :=
    walkFrom_eq_first (by simp [hdummy, hcmp]) (fun m hm => by
      have hu := hpath m (by omega)
      have hnot := hfirst m hm
      rw [matches_iff_stop (xhash.probe_lt_size _ m)] at hnot
      cases hd : xhash.itemDummy (probe xhash.size (tf.hash_fun key) m) with
      | true => simp [hu]
      | false => simpa [itemValid, hd, hu] using hnot)
  unfold Xhash.lookup lookupRaw
  rw [hwalk]
  simp [hused]

theorem FirstMatch.setVal (h : xhash.FirstMatch tf key idx) (hval : NotMark val) :
    (xhash.setVal idx key val).FirstMatch tf key idx := by
  obtain ⟨hmatch, n, hn, hfirst⟩ := h
  refine ⟨?_, n, hn, fun m hm hm' => ?_⟩
  · rw [setVal_matches hval, if_pos rfl]
    exact ⟨hmatch.1, tf.cmp_refl key⟩
  · rw [setVal_matches hval] at hm'
    split at hm'
    · rename_i hsame
      apply hfirst m hm
      have hsize : (xhash.setVal idx key val).size = xhash.size := setVal_size
      rw [← hsize, hsame]
      exact hmatch
    · exact hfirst m hm hm'

/-- The walks of the other keys pass the slot by, before and after. -/
theorem lookup_setVal_other (hmatch : xhash.Matches tf key idx) (hval : NotMark val)
    (hk : tf.cmp_fun key k = false) :
    (xhash.setVal idx key val).lookup tf k = xhash.lookup tf k := by
  obtain ⟨hidx, hv, hcmp⟩ := hmatch
  have hother : tf.cmp_fun (xhash.kvs idx) k = false := by
    by_contra heq
    rw [Bool.not_eq_false] at heq
    rw [tf.cmp_trans (tf.cmp_symm hcmp) heq] at hk
    cases hk
  have hunused : xhash.itemUnused idx = false := by
    by_contra hu
    rw [itemValid_of_unused (by simpa using hu)] at hv
    cases hv
  have hunused' : (xhash.setVal idx key val).itemUnused idx = false := by
    by_contra hu
    rw [setVal_unused hval idx (by simpa using hu)] at hunused
    cases hunused
  have hsame (i : Nat) (hi : i ≠ idx) :
      (xhash.setVal idx key val).itemUnused i = xhash.itemUnused i := by
    simp only [itemUnused, setVal_vals_of_ne hi]
  have hwalk : (xhash.setVal idx key val).walkFrom (tf.hash_fun k) (fun i =>
      (xhash.setVal idx key val).itemUnused i || (!(xhash.setVal idx key val).itemDummy i &&
        tf.cmp_fun ((xhash.setVal idx key val).kvs i) k)) =
      xhash.walkFrom (tf.hash_fun k) (fun i =>
        xhash.itemUnused i || (!xhash.itemDummy i && tf.cmp_fun (xhash.kvs i) k)) :=
    walkFrom_congr (tf.hash_fun k) rfl (fun i _ => by
      by_cases hi : i = idx
      · subst hi
        simp [hunused, hunused', setVal_kvs_self, hk, hother]
      · rw [hsame i hi, setVal_itemDummy_of_ne hi, setVal_kvs_of_ne hi])
  unfold Xhash.lookup lookupRaw
  rw [hwalk]
  cases hend : xhash.walkFrom (tf.hash_fun k) _ with
  | none => rfl
  | some i =>
    obtain ⟨n, rfl, hstop, -⟩ := walkFrom_eq_some hend
    have hi : probe xhash.size (tf.hash_fun k) n ≠ idx := by
      intro hi
      rw [hi, hunused, hother] at hstop
      simp at hstop
    simp only [Option.map_some, hsame _ hi]
    cases xhash.itemUnused (probe xhash.size (tf.hash_fun k) n) with
    | true => rfl
    | false => simp [setVal_vals_of_ne hi]

structure ValueChanged (tf : TypesFunctions κ) (xhash : Xhash κ) (key : κ) (val : xhashidx)
    (new : Xhash κ) : Prop where
  slot : ∃ i, xhash.Matches tf key i ∧ new.Matches tf key i ∧ new.vals i = val ∧
    ∀ j, j ≠ i → new.kvs j = xhash.kvs j ∧ new.vals j = xhash.vals j
  size_shift : new.size_shift = xhash.size_shift
  minsize_shift : new.minsize_shift = xhash.minsize_shift
  used : new.used = xhash.used
  dummies : new.dummies = xhash.dummies
  limit : new.limit = xhash.limit
  lookup : new.lookup tf key = some (0, some val)
  lookup_other : ∀ k, tf.cmp_fun key k = false → new.lookup tf k = xhash.lookup tf k

/-- An update returns, having changed the value of a present key, or nothing for an absent one. -/
def Updates (tf : TypesFunctions κ) (xhash : Xhash κ) (key : κ) (val : xhashidx) : Prop :=
  ∃ ret new, xhash.update tf key val = some (ret, new) ∧
    (¬ xhash.Absent tf key → xhash.ValueChanged tf key val new) ∧
    (xhash.Absent tf key → new = xhash)

theorem Tracked.valueChanged (ht : xhash.Tracked tf) (h : xhash.FirstMatch tf key idx)
    (hval : NotMark val) : xhash.ValueChanged tf key val (xhash.setVal idx key val) := by
  have ht' := ht.setVal h.1 hval
  have hfirst := h.setVal hval
  refine ⟨⟨idx, h.1, hfirst.1, setVal_vals_self, fun j hj => ?_⟩, rfl, rfl, rfl, rfl, rfl, ?_, ?_⟩
  · exact ⟨setVal_kvs_of_ne hj, setVal_vals_of_ne hj⟩
  · rw [ht'.lookup_first hfirst, setVal_vals_self]
  · exact fun k hk => lookup_setVal_other h.1 hval hk

theorem Tracked.updates_iff (ht : xhash.Tracked tf) (hval : NotMark val) :
    xhash.Updates tf key val ↔ ¬ xhash.Absent tf key := by
  constructor
  · intro hupdates habsent
    obtain ⟨ret, new, hupdate, -⟩ := hupdates
    rw [update_absent habsent] at hupdate
    cases hupdate
  · intro hpresent
    obtain ⟨i, hfirst, hupdate⟩ := update_present hpresent val
    exact ⟨1, _, hupdate, fun _ => ht.valueChanged hfirst hval, fun ha => absurd ha hpresent⟩

/-- On every reachable table an update does its work exactly for the keys that are present. -/
theorem run_updates_iff (type : XhashType) (minsize_shift limit : Nat) (kvs0 : Nat → type.Key)
    {as : List (XhashCall type.Key × Int)} {xhash : Xhash type.Key}
    (hrun : Run (Guarded (Step (typesFun type))
      fun xhash a => xhash.StoresPlain (typesFun type) a.1)
      (init minsize_shift limit kvs0) as xhash) (key : type.Key) {val : xhashidx}
    (hval : NotMark val) :
    xhash.Updates (typesFun type) key val ↔ ¬ xhash.Absent (typesFun type) key :=
  (tracked_run hrun).updates_iff hval

theorem run_updates_iff_insert :
    ∃ xhash : Xhash xhashidx, Run (Guarded (Step integerFunctions)
        fun xhash a => xhash.StoresPlain integerFunctions a.1)
        (init 2 0 fun _ => 0) [(.insert 7 70, 0)] xhash ∧
      (xhash.Updates integerFunctions 7 71 ↔ ¬ xhash.Absent integerFunctions 7) := by
  obtain ⟨xhash, hrun, -⟩ := insert_run
  have hplain := storesPlain_run hrun
  exact ⟨xhash, hplain, run_updates_iff .integer 2 0 (fun _ => 0) hplain 7 (by decide)⟩

/-- The update of a key in an empty table does not return. -/
theorem not_run_updates : ¬ ∀ (shift : Nat) (kvs0 : Nat → xhashidx)
    (as : List (XhashCall xhashidx × Int)) (xhash : Xhash xhashidx), 2 ≤ shift →
    Run (Guarded (Step integerFunctions) fun xhash a => xhash.StoresPlain integerFunctions a.1)
      (init shift 0 kvs0) as xhash →
    (∃ i < xhash.size, xhash.itemUnused i = true) →
    ∀ key val, NotMark val → xhash.Updates integerFunctions key val := by
  intro hall
  obtain ⟨ret, new, hupdate, -⟩ := hall 2 (fun _ => 0) [] _ (by decide) (.refl _)
    ⟨0, by decide, rfl⟩ 7 70 (by decide)
  have hnone : (init 2 0 fun _ => 0).update integerFunctions 7 70 = none :=
    update_absent (initRaw_absent _ 7) 70
  rw [hnone] at hupdate
  cases hupdate

end Xhash

end Libxseg

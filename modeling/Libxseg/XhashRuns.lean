import Libxseg.Transition
import Libxseg.XhashResize

/-!
# Whole runs of an xhash

First any calls of the module in any order: `lookup` always returns, and misses no
occupied slot. Then the callers' protocol, in which `-XHASH_ERESIZE` is answered by a
rebuild and one retry: the table is a dictionary for as long as no key is inserted
again behind a tombstone.
-/

namespace Libxseg

set_option autoImplicit false

universe u

inductive XhashCall (κ : Type u) where
  | insert (key : κ) (val : xhashidx)
  | delete (key : κ)
  | freqlUpdate (key : κ) (val : xhashidx)
  | update (key : κ) (val : xhashidx)
  | resize (new_size_shift new_limit : Nat) (kvs0 : Nat → κ)

namespace Xhash
variable {κ : Type u} {tf : TypesFunctions κ} {xhash xhash' : Xhash κ} {key : κ} {val : xhashidx}
  {limit : Nat}

def call (tf : TypesFunctions κ) (xhash : Xhash κ) : XhashCall κ → Option (Int × Xhash κ)
  | .insert key val => xhash.insert tf key val
  | .delete key => xhash.delete tf key
  | .freqlUpdate key val => xhash.freqlUpdate tf key val
  | .update key val => xhash.update tf key val
  | .resize shift limit kvs0 => (xhash.resize tf shift limit kvs0).map ((0, ·))

def Step (tf : TypesFunctions κ) (xhash : Xhash κ) (a : XhashCall κ × Int) (xhash' : Xhash κ) :
    Prop :=
  xhash.call tf a.1 = some (a.2, xhash')

/-- No value that is stored is a mark, keys that are updated are present, and a rebuild is one
that an insertion or a deletion has asked for. -/
def Admissible (tf : TypesFunctions κ) (xhash : Xhash κ) : XhashCall κ → Prop
  | .insert _ val => NotMark val
  | .delete _ => True
  | .freqlUpdate key val => NotMark val ∧ ∀ ret xhash',
      xhash.freqlUpdate tf key val = some (ret, xhash') →
        ∀ i, xhash.itemValid i = true → NotMark (xhash'.vals i)
  | .update key val => NotMark val ∧ ¬ xhash.Absent tf key
  | .resize shift _ _ =>
      xhash.growCheck = true ∧ shift = xhash.growSizeShift ∨
        xhash.shrinkCheck = true ∧ shift = xhash.shrinkSizeShift

theorem Wf.insert (hw : xhash.Wf tf) (hval : NotMark val) :
    ∃ ret xhash', xhash.insert tf key val = some (ret, xhash') ∧ xhash'.Wf tf := by
  rw [Xhash.insert]
  split
  · exact ⟨_, _, rfl, hw⟩
  · split
    · exact ⟨_, _, rfl, hw⟩
    · rename_i hgrow
      have hroom := hw.room_of_not_growCheck (Bool.eq_false_of_not_eq_true hgrow)
      obtain ⟨i, ⟨hmatch, hins⟩ | ⟨hfree, hins⟩⟩ := hw.insertRaw key val
      · exact ⟨0, _, by rw [hins, Option.map_some], hw.setVal hmatch hval⟩
      · exact ⟨0, _, by rw [hins, Option.map_some], hw.updSet hfree hval hroom⟩

theorem Wf.freqlUpdate (hw : xhash.Wf tf) (hadm : xhash.Admissible tf (.freqlUpdate key val)) :
    ∃ ret xhash', xhash.freqlUpdate tf key val = some (ret, xhash') ∧ xhash'.Wf tf := by
  obtain ⟨hval, hsum⟩ := hadm
  rw [Xhash.freqlUpdate] at hsum ⊢
  split
  · exact ⟨_, _, rfl, hw⟩
  · rename_i hgrow
    rw [if_neg hgrow] at hsum
    have hroom := hw.room_of_not_growCheck (Bool.eq_false_of_not_eq_true hgrow)
    obtain ⟨i, ⟨hmatch, hins⟩ | ⟨hfree, hins⟩⟩ := hw.tracked.phashUpdate hw.room key (xhash.incVal · val)
      (xhash.updSet · key val)
    · have hadd : NotMark (xhash.vals i + val) := by
        have := hsum 0 _ (by rw [freqlUpdateRaw, hins, Option.map_some]) i hmatch.2.1
        rwa [incVal_eq_setVal, setVal_vals_self] at this
      refine ⟨0, _, by rw [freqlUpdateRaw, hins, Option.map_some], ?_⟩
      rw [incVal_eq_setVal]
      exact hw.setVal ⟨hmatch.1, hmatch.2.1, tf.cmp_refl _⟩ hadd
    · exact ⟨0, _, by rw [freqlUpdateRaw, hins, Option.map_some], hw.updSet hfree hval hroom⟩

/-- An update that returns has written the first slot that holds the key. -/
theorem update_cases {ret : Int} (h : xhash.update tf key val = some (ret, xhash')) :
    ∃ i, xhash.FirstMatch tf key i ∧ xhash' = xhash.setVal i key val ∧ ret = 1 := by
  rw [Xhash.update, Xhash.phashUpdate] at h
  obtain ⟨new, hnew, heq⟩ := Option.map_eq_some_iff.mp h
  cases heq
  obtain ⟨i, hwalk, rfl⟩ := Option.map_eq_some_iff.mp hnew
  obtain ⟨n, rfl, hstop, hfirst⟩ := walkFrom_eq_some hwalk
  have hmatch := (matches_iff_stop (xhash.probe_lt_size _ n)).mpr hstop
  refine ⟨_, ⟨hmatch, n, rfl, fun m hm hm' => ?_⟩, by rw [hmatch.2.1, if_pos rfl], rfl⟩
  have hbefore := hfirst m hm
  rw [Option.isSome_none, (matches_iff_stop (xhash.probe_lt_size _ m)).mp hm'] at hbefore
  cases hbefore

theorem update_present (hpresent : ¬ xhash.Absent tf key) (val : xhashidx) :
    ∃ i, xhash.FirstMatch tf key i ∧
      xhash.update tf key val = some (1, xhash.setVal i key val) := by
  rw [absent_iff, Classical.not_not] at hpresent
  obtain ⟨slot, hslot⟩ := hpresent
  obtain ⟨i, hwalk⟩ := walkFrom_ends (tf.hash_fun key)
    (fun idx => if xhash.itemValid idx then tf.cmp_fun (xhash.kvs idx) key else false) hslot.1
    ((matches_iff_stop hslot.1).mp hslot)
  obtain ⟨⟨ret, new⟩, hret⟩ : ∃ r, xhash.update tf key val = some r := by
    rw [Xhash.update, Xhash.phashUpdate]
    simp only [Option.isSome_none, hwalk, Option.map_some]
    exact ⟨_, rfl⟩
  obtain ⟨i, hfirst, rfl, rfl⟩ := update_cases hret
  exact ⟨i, hfirst, hret⟩

theorem Wf.update (hw : xhash.Wf tf) (hval : NotMark val) (hpresent : ¬ xhash.Absent tf key) :
    ∃ ret xhash', xhash.update tf key val = some (ret, xhash') ∧ xhash'.Wf tf := by
  obtain ⟨i, hfirst, hupdate⟩ := update_present hpresent val
  exact ⟨1, _, hupdate, hw.setVal hfirst.1 hval⟩

theorem Wf.delete (hw : xhash.Wf tf) (key : κ) :
    ∃ ret xhash', xhash.delete tf key = some (ret, xhash') ∧ xhash'.Wf tf := by
  rw [Xhash.delete]
  split
  · exact ⟨_, _, rfl, hw⟩
  · rcases hw.deleteRaw key with ⟨-, hdel⟩ | ⟨i, hi, hdel⟩
    · exact ⟨_, _, hdel, hw⟩
    · exact ⟨_, _, hdel, hw.deleteAt hi.1 hi.2.1⟩

theorem Wf.call (hw : xhash.Wf tf) {c : XhashCall κ} (hadm : xhash.Admissible tf c) :
    ∃ ret xhash', xhash.call tf c = some (ret, xhash') ∧ xhash'.Wf tf := by
  cases c with
  | insert key val => exact hw.insert hadm
  | delete key => exact hw.delete key
  | freqlUpdate key val => exact hw.freqlUpdate hadm
  | update key val => exact hw.update hadm.1 hadm.2
  | resize shift limit kvs0 =>
    have hfit : 2 ≤ shift ∧ xhash.used < 2 ^ shift := by
      rcases hadm with ⟨-, rfl⟩ | ⟨hshrink, rfl⟩
      · exact hw.growSizeShift
      · exact hw.shrinkSizeShift hshrink
    obtain ⟨new, hnew, hcopied⟩ := hw.resize hfit.2 hfit.1 limit kvs0
    exact ⟨0, new, by rw [Xhash.call, hnew, Option.map_some], hcopied.wf⟩

theorem wf_run {minsize_shift : Nat} (hs : 2 ≤ minsize_shift) (kvs0 : Nat → κ)
    {as : List (XhashCall κ × Int)}
    (hrun : Run (Guarded (Step tf) fun xhash a => xhash.Admissible tf a.1)
      (init minsize_shift limit kvs0) as xhash) : xhash.Wf tf := by
  refine hrun.invariant (I := fun xhash => xhash.Wf tf) ?_ (wf_initRaw kvs0 hs hs)
  rintro xhash a xhash' hw ⟨hadm, hstep⟩
  obtain ⟨ret, new, hcall, hnew⟩ := hw.call hadm
  rw [Step, hcall] at hstep
  cases hstep
  exact hnew

def StoresPlain (tf : TypesFunctions κ) (xhash : Xhash κ) : XhashCall κ → Prop
  | .insert _ val => NotMark val
  | .delete _ => True
  | .freqlUpdate key val => NotMark val ∧ ∀ ret xhash',
      xhash.freqlUpdate tf key val = some (ret, xhash') →
        ∀ i, xhash.itemValid i = true → NotMark (xhash'.vals i)
  | .update _ val => NotMark val
  | .resize _ _ _ => True

theorem Admissible.storesPlain {c : XhashCall κ} (h : xhash.Admissible tf c) :
    xhash.StoresPlain tf c := by
  cases c with
  | insert key val => exact h
  | delete key => exact h
  | freqlUpdate key val => exact h
  | update key val => exact h.1
  | resize shift limit kvs0 => exact trivial

theorem storesPlain_run {as : List (XhashCall κ × Int)} {start : Xhash κ}
    (hrun : Run (Guarded (Step tf) fun xhash a => xhash.Admissible tf a.1) start as xhash) :
    Run (Guarded (Step tf) fun xhash a => xhash.StoresPlain tf a.1) start as xhash :=
  hrun.mono fun h => ⟨h.1.storesPlain, h.2⟩

theorem Tracked.insertRaw (ht : xhash.Tracked tf) (hval : NotMark val)
    (h : xhash.insertRaw tf key val = some xhash') : xhash'.Tracked tf := by
  obtain ⟨i, ⟨hmatch, rfl⟩ | ⟨hfree, rfl⟩⟩ := phashUpdate_cases h
  · exact ht.setVal hmatch hval
  · exact ht.updSet hfree hval

theorem Tracked.freqlUpdate {ret : Int} (ht : xhash.Tracked tf)
    (hplain : xhash.StoresPlain tf (.freqlUpdate key val))
    (h : xhash.freqlUpdate tf key val = some (ret, xhash')) : xhash'.Tracked tf := by
  obtain ⟨hval, hsum⟩ := hplain
  have hsum := hsum ret xhash' h
  unfold Xhash.freqlUpdate at h
  split at h
  · cases h
    exact ht
  · obtain ⟨new, hraw, heq⟩ := Option.map_eq_some_iff.mp h
    cases heq
    obtain ⟨i, ⟨hmatch, rfl⟩ | ⟨hfree, rfl⟩⟩ := phashUpdate_cases hraw
    · have hadd := hsum i hmatch.2.1
      rw [incVal_eq_setVal, setVal_vals_self] at hadd
      rw [incVal_eq_setVal]
      exact ht.setVal ⟨hmatch.1, hmatch.2.1, tf.cmp_refl _⟩ hadd
    · exact ht.updSet hfree hval

theorem deleteRaw_cases {ret : Int} (h : xhash.deleteRaw tf key = some (ret, xhash')) :
    xhash' = xhash ∨ ∃ i, xhash.Matches tf key i ∧ xhash' = xhash.deleteAt i := by
  rw [Xhash.deleteRaw] at h
  obtain ⟨i, hwalk, heq⟩ := Option.map_eq_some_iff.mp h
  obtain ⟨n, rfl, hstop, -⟩ := walkFrom_eq_some hwalk
  split at heq
  · cases heq
    exact Or.inl rfl
  · rename_i hu
    cases heq
    rw [Bool.not_eq_true] at hu
    rw [hu, Bool.false_or, Bool.and_eq_true, Bool.not_eq_true'] at hstop
    exact Or.inr ⟨_, ⟨xhash.probe_lt_size _ n, by simp [itemValid, hu, hstop.1], hstop.2⟩, rfl⟩

/-- A call that returns leaves the counters right and every key in reach. -/
theorem Tracked.call {ret : Int} {c : XhashCall κ} (ht : xhash.Tracked tf)
    (hplain : xhash.StoresPlain tf c) (h : xhash.call tf c = some (ret, xhash')) :
    xhash'.Tracked tf := by
  cases c with
  | insert key val =>
    rw [Xhash.call, Xhash.insert] at h
    split at h
    · cases h
      exact ht
    · split at h
      · cases h
        exact ht
      · obtain ⟨new, hraw, heq⟩ := Option.map_eq_some_iff.mp h
        cases heq
        exact ht.insertRaw hplain hraw
  | delete key =>
    rw [Xhash.call, Xhash.delete] at h
    split at h
    · cases h
      exact ht
    · obtain rfl | ⟨i, hi, rfl⟩ := deleteRaw_cases h
      · exact ht
      · exact ht.deleteAt hi.1 hi.2.1
  | freqlUpdate key val => exact ht.freqlUpdate hplain h
  | update key val =>
    obtain ⟨i, hfirst, rfl, -⟩ := update_cases h
    exact ht.setVal hfirst.1 hplain
  | resize shift limit kvs0 =>
    obtain ⟨new, hres, heq⟩ := Option.map_eq_some_iff.mp h
    cases heq
    exact resize_induct (tracked_initRaw kvs0)
      (fun i _ hv hs hins => hs.insertRaw (itemValid_iff.mp hv) hins) hres

theorem tracked_run {minsize_shift : Nat} {kvs0 : Nat → κ} {as : List (XhashCall κ × Int)}
    (hrun : Run (Guarded (Step tf) fun xhash a => xhash.StoresPlain tf a.1)
      (init minsize_shift limit kvs0) as xhash) : xhash.Tracked tf := by
  refine hrun.invariant (I := fun xhash => xhash.Tracked tf) ?_ (tracked_initRaw kvs0)
  intro xhash a xhash' ht hstep
  exact ht.call hstep.1 hstep.2

/-- `lookup` returns on every reachable table and for every key; it finds a slot with an equal
key if there is one, and every occupied slot is on its key's path before any unused slot. -/
theorem run_lookup (type : XhashType) {minsize_shift : Nat} (hs : 2 ≤ minsize_shift) (limit : Nat)
    (kvs0 : Nat → type.Key) {as : List (XhashCall type.Key × Int)} {xhash : Xhash type.Key}
    (hrun : Run (Guarded (Step (typesFun type)) fun xhash a => xhash.Admissible (typesFun type) a.1)
      (init minsize_shift limit kvs0) as xhash) :
    (∀ key, (∃ i, xhash.Matches (typesFun type) key i ∧
          xhash.lookup (typesFun type) key = some (0, some (xhash.vals i))) ∨
        (¬ ∃ i, xhash.Matches (typesFun type) key i) ∧
          xhash.lookup (typesFun type) key = some (-XHASH_EEXIST, none)) ∧
      ∀ i < xhash.size, xhash.itemValid i = true →
        xhash.Reaches ((typesFun type).hash_fun (xhash.kvs i)) i := by
  have hw := wf_run hs kvs0 hrun
  refine ⟨fun key => ?_, hw.chain⟩
  rw [← absent_iff]
  exact hw.tracked.lookup hw.room key

theorem insert_run : ∃ xhash : Xhash xhashidx, Run (Guarded (Step integerFunctions)
    fun xhash a => xhash.Admissible integerFunctions a.1)
    (init 2 0 fun _ => 0) [(.insert 7 70, 0)] xhash ∧
    xhash.lookup integerFunctions 7 = some (0, some 70) ∧ xhash.Unique integerFunctions ∧
    xhash.used = 1 := by
  have hval : NotMark 70 := by decide
  have hw : (init 2 0 fun _ => (0 : xhashidx)).Wf integerFunctions := wf_initRaw _ le_rfl le_rfl
  obtain ⟨xhash, hraw, h⟩ := hw.insertRaw_holds (initRaw_unique _)
    (hw.direct_of_dummies_eq_zero rfl 7) hval (by decide)
  have hins : (init 2 0 fun _ => 0).insert integerFunctions 7 70 = some (0, xhash) := by
    rw [Xhash.insert, if_neg (by decide), if_neg (by decide), hraw]
    rfl
  refine ⟨xhash, .single ⟨hval, hins⟩, ?_, h.unique, ?_⟩
  · apply ((h.wf.lookup_iff h.unique 7).1 70).mp
    rw [h.holds, if_pos (integerFunctions.cmp_refl 7)]
  · rcases h.used with ⟨-, hused⟩ | ⟨hpresent, -⟩
    · exact hused
    · exact absurd (initRaw_absent _ 7) hpresent

theorem run_lookup_insert :
    ∃ xhash : Xhash xhashidx, Run (Guarded (Step integerFunctions)
        fun xhash a => xhash.Admissible integerFunctions a.1)
        (init 2 0 fun _ => 0) [(.insert 7 70, 0)] xhash ∧
      ((∃ i, xhash.Matches integerFunctions 7 i ∧
          xhash.lookup integerFunctions 7 = some (0, some (xhash.vals i))) ∨
        (¬ ∃ i, xhash.Matches integerFunctions 7 i) ∧
          xhash.lookup integerFunctions 7 = some (-XHASH_EEXIST, none)) := by
  obtain ⟨xhash, hrun, -⟩ := insert_run
  exact ⟨xhash, hrun, (run_lookup .integer (by decide) 0 (fun _ => 0) hrun).1 7⟩

/-- The counters of every reachable table count its slots, and an unused slot remains. -/
theorem run_counts (type : XhashType) {minsize_shift : Nat} (hs : 2 ≤ minsize_shift) (limit : Nat)
    (kvs0 : Nat → type.Key) {as : List (XhashCall type.Key × Int)} {xhash : Xhash type.Key}
    (hrun : Run (Guarded (Step (typesFun type)) fun xhash a => xhash.Admissible (typesFun type) a.1)
      (init minsize_shift limit kvs0) as xhash) :
    xhash.used = Nat.count (xhash.itemValid · = true) xhash.size ∧
      xhash.dummies = Nat.count (xhash.itemDummy · = true) xhash.size ∧
      xhash.used + xhash.dummies < 2 ^ xhash.size_shift ∧
      ∃ i < xhash.size, xhash.itemUnused i = true := by
  have hw := wf_run hs kvs0 hrun
  have hroom := hw.room
  rw [size_eq] at hroom
  exact ⟨hw.used, hw.dummies, hroom, hw.tracked.exists_unused hw.room⟩

theorem run_counts_insert :
    ∃ xhash : Xhash xhashidx, Run (Guarded (Step integerFunctions)
        fun xhash a => xhash.Admissible integerFunctions a.1)
        (init 2 0 fun _ => 0) [(.insert 7 70, 0)] xhash ∧
      xhash.used = Nat.count (xhash.itemValid · = true) xhash.size ∧
      ∃ i < xhash.size, xhash.itemUnused i = true := by
  obtain ⟨xhash, hrun, -⟩ := insert_run
  obtain ⟨hused, -, -, hunused⟩ := run_counts .integer (by decide) 0 (fun _ => 0) hrun
  exact ⟨xhash, hrun, hused, hunused⟩

def sizeofXhash : UInt64 := 64

def getAllocSize (size_shift : xhashidx) : UInt64 :=
  let nr_items := (1 : UInt64) <<< size_shift
  let keys_size := nr_items * 8
  sizeofXhash + keys_size <<< 1

inductive Resized (κ : Type u) where
  | null
  /-- A shift by 64 or more, or slots of the new table outside the memory. -/
  | undefined
  | table (new : Xhash κ)

/-- `xhash_resize`. The memory `new` of the caller has room for the new table; that of the allocator
has the size that `xhash_new__` asked for. -/
def resizeInto (tf : TypesFunctions κ) (xhash : Xhash κ) (new_size_shift : xhashidx)
    (new_limit : Nat) (new malloc : Option (Nat → κ)) : Option (Resized κ) :=
  if 64 ≤ new_size_shift then some .undefined
  else
    match new with
    | some kvs0 => (xhash.resize tf new_size_shift.toNat new_limit kvs0).map .table
    | none =>
      match malloc with
      | none => some .null
      | some kvs0 =>
        if (getAllocSize new_size_shift).toNat < sizeofXhash.toNat + 16 * 2 ^ new_size_shift.toNat
        then some .undefined
        else (xhash.resize tf new_size_shift.toNat new_limit kvs0).map .table

/-- The call returned a table of the size asked for that answers every lookup as before, or no
table since there was no memory for one. -/
def Preserves (tf : TypesFunctions κ) (xhash : Xhash κ) (shift : xhashidx)
    (mem malloc : Option (Nat → κ)) (out : Option (Resized κ)) : Prop :=
  (out = some .null ∧ mem = none ∧ malloc = none) ∨
    ∃ new, out = some (.table new) ∧ new.size_shift = shift.toNat ∧ new.used = xhash.used ∧
      new.dummies = 0 ∧ ∀ key, new.lookup tf key = xhash.lookup tf key

theorem getAllocSize_lt_iff {shift : xhashidx} (hs : shift < 64) :
    (getAllocSize shift).toNat < sizeofXhash.toNat + 16 * 2 ^ shift.toNat ↔ 60 ≤ shift := by
  obtain ⟨n, hn, rfl⟩ : ∃ n < 64, shift = UInt64.ofNat n := by
    refine ⟨shift.toNat, ?_, (UInt64.ofNat_toNat ..).symm⟩
    rw [UInt64.lt_iff_toNat_lt] at hs
    exact hs
  revert n
  decide +kernel

theorem undefined_not_preserves {shift : xhashidx} {mem malloc : Option (Nat → κ)} :
    ¬ xhash.Preserves tf shift mem malloc (some .undefined) := by
  rintro (⟨hnull, -⟩ | ⟨new, htable, -⟩)
  · cases hnull
  · cases htable

/-- `xhash_resize` keeps the map, whatever the allocator answers, exactly if the shift is below 60
or the caller gives the memory. -/
theorem run_resizeInto (type : XhashType) {minsize_shift : Nat} (hs : 2 ≤ minsize_shift)
    (limit : Nat) (kvs0 : Nat → type.Key) {as : List (XhashCall type.Key × Int)}
    {xhash : Xhash type.Key}
    (hrun : Run (Guarded (Step (typesFun type)) fun xhash a => xhash.Admissible (typesFun type) a.1)
      (init minsize_shift limit kvs0) as xhash) (hu : xhash.Unique (typesFun type))
    {shift : xhashidx} (hfit : xhash.used < 2 ^ shift.toNat) (new_limit : Nat)
    (mem : Option (Nat → type.Key)) :
    (∀ malloc, xhash.Preserves (typesFun type) shift mem malloc
      (xhash.resizeInto (typesFun type) shift new_limit mem malloc)) ↔
        shift < 60 ∨ mem ≠ none ∧ shift < 64 := by
  have hw := wf_run hs kvs0 hrun
  have hkeeps (kvs1 : Nat → type.Key) (malloc : Option (Nat → type.Key)) :
      xhash.Preserves (typesFun type) shift mem malloc
        ((xhash.resize (typesFun type) shift.toNat new_limit kvs1).map .table) := by
    obtain ⟨new, hnew, h⟩ := hw.tracked.resize hu hfit new_limit kvs1
    refine .inr ⟨new, by rw [hnew, Option.map_some], h.size_shift, h.used.trans hw.used.symm,
      h.dummies, fun key => ?_⟩
    exact hw.tracked.lookup_congr hw.room hu h.tracked (h.room hw.tracked hfit le_rfl) h.unique
      h.holds_iff key
  have hsmall (h60 : shift < 60) : shift < 64 := by
    rw [UInt64.lt_iff_toNat_lt] at h60 ⊢
    exact h60.trans (by decide)
  unfold resizeInto
  by_cases h64 : shift < 64
  · have hnot : ¬ 64 ≤ shift := UInt64.not_le.mpr h64
    cases mem with
    | some kvs1 =>
      refine iff_of_true (fun malloc => ?_) (.inr ⟨Option.some_ne_none _, h64⟩)
      rw [if_neg hnot]
      exact hkeeps kvs1 malloc
    | none =>
      rw [or_iff_left fun h => h.1 rfl]
      by_cases h60 : shift < 60
      · refine iff_of_true (fun malloc => ?_) h60
        rw [if_neg hnot]
        cases malloc with
        | none => exact .inl ⟨rfl, rfl, rfl⟩
        | some kvs1 =>
          dsimp only
          rw [if_neg ((getAllocSize_lt_iff h64).not.mpr (UInt64.not_le.mpr h60))]
          exact hkeeps kvs1 _
      · refine iff_of_false (fun hall => ?_) h60
        have hbad := hall (some kvs0)
        rw [if_neg hnot] at hbad
        dsimp only at hbad
        rw [if_pos ((getAllocSize_lt_iff h64).mpr (UInt64.not_lt.mp h60))] at hbad
        exact undefined_not_preserves hbad
  · refine iff_of_false (fun hall => ?_) fun h => h.elim (fun h60 => h64 (hsmall h60)) fun h => h64 h.2
    have hbad := hall none
    rw [if_pos (UInt64.not_lt.mp h64)] at hbad
    exact undefined_not_preserves hbad

theorem run_resizeInto_insert :
    ∃ xhash : Xhash xhashidx, Run (Guarded (Step integerFunctions)
        fun xhash a => xhash.Admissible integerFunctions a.1)
        (init 2 0 fun _ => 0) [(.insert 7 70, 0)] xhash ∧
      ∃ new, xhash.resizeInto integerFunctions 1 0 none (some fun _ => 0) = some (.table new) ∧
        new.lookup integerFunctions 7 = some (0, some 70) := by
  obtain ⟨xhash, hrun, hlookup, hu, hused⟩ := insert_run
  have hfit : xhash.used < 2 ^ (1 : xhashidx).toNat := by rw [hused]; decide
  rcases (run_resizeInto .integer (by decide) 0 (fun _ => 0) hrun hu hfit 0 none).mpr
    (.inl (by decide)) (some fun _ => 0) with ⟨-, -, hnone⟩ | ⟨new, hnew, -, -, -, hsame⟩
  · cases hnone
  · exact ⟨xhash, hrun, new, hnew, (hsame 7).trans hlookup⟩

/-- A table with one key is to get 2^60 slots: `malloc` is asked for the header only. -/
theorem not_run_resizeInto : ¬ ∀ (xhash : Xhash xhashidx) (as : List (XhashCall xhashidx × Int)),
    Run (Guarded (Step integerFunctions) fun xhash a => xhash.Admissible integerFunctions a.1)
      (init 2 0 fun _ => 0) as xhash → xhash.Unique integerFunctions → xhash.used < 2 ^ 60 →
    ∀ mem malloc, xhash.Preserves integerFunctions 60 mem malloc
      (xhash.resizeInto integerFunctions 60 0 mem malloc) := by
  intro hall
  obtain ⟨xhash, hrun, -, hu, hused⟩ := insert_run
  have hbad := hall xhash _ hrun hu (by rw [hused]; decide) none (some fun _ => 0)
  unfold resizeInto at hbad
  rw [if_neg (by decide)] at hbad
  dsimp only at hbad
  rw [if_pos ((getAllocSize_lt_iff (by decide)).mpr (by decide))] at hbad
  exact undefined_not_preserves hbad

end Xhash

inductive XhashEvent (κ : Type u) where
  | insert (key : κ) (val : xhashidx) (ret : Int)
  | delete (key : κ) (ret : Int)
  | lookup (key : κ) (ret : Int) (val : Option xhashidx)

def lastValue {κ : Type u} (tf : TypesFunctions κ) (key : κ) (evs : List (XhashEvent κ)) :
    Option xhashidx :=
  evs.foldl (fun last ev =>
    match ev with
    | .insert k val ret => if ret = 0 ∧ tf.cmp_fun k key = true then some val else last
    | .delete k ret => if ret = 0 ∧ tf.cmp_fun k key = true then none else last
    | .lookup _ _ _ => last) none

namespace Xhash
variable {κ : Type u} {tf : TypesFunctions κ} {xhash xhash' : Xhash κ} {key : κ} {val : xhashidx}
  {evs : List (XhashEvent κ)}

/-- An operation as callers use it: one retry after a rebuild, if there is memory for one. -/
def callRetrying (tf : TypesFunctions κ) (op : Xhash κ → Option (Int × Xhash κ))
    (shift : Xhash κ → Nat) (mem : Option (Nat → κ)) (xhash : Xhash κ) :
    Option (Int × Xhash κ) :=
  (op xhash).bind fun (ret, xhash) =>
    if ret = -XHASH_ERESIZE then
      match mem with
      | none => some (ret, xhash)
      | some kvs0 => (xhash.resize tf (shift xhash) 0 kvs0).bind op
    else some (ret, xhash)

section Retrying
variable {op : Xhash κ → Option (Int × Xhash κ)} {shift : Xhash κ → Nat} {new mid : Xhash κ}
  {ret : Int}

theorem callRetrying_done (h : op xhash = some (ret, new)) (hret : ret ≠ -XHASH_ERESIZE)
    (mem : Option (Nat → κ)) : xhash.callRetrying tf op shift mem = some (ret, new) := by
  simp only [callRetrying, h, Option.bind_some, if_neg hret]

theorem callRetrying_noMem (h : op xhash = some (-XHASH_ERESIZE, xhash)) :
    xhash.callRetrying tf op shift none = some (-XHASH_ERESIZE, xhash) := by
  simp only [callRetrying, h, Option.bind_some, if_true]

theorem callRetrying_retry (h : op xhash = some (-XHASH_ERESIZE, xhash)) {kvs0 : Nat → κ}
    (hmid : xhash.resize tf (shift xhash) 0 kvs0 = some mid) :
    xhash.callRetrying tf op shift (some kvs0) = op mid := by
  simp only [callRetrying, h, hmid, Option.bind_some, if_true]

theorem callRetrying_ret {P : Int → Prop} (hop : ∀ s r t, op s = some (r, t) → P r)
    {mem : Option (Nat → κ)} (h : xhash.callRetrying tf op shift mem = some (ret, new)) : P ret := by
  rw [callRetrying, Option.bind_eq_some_iff] at h
  obtain ⟨⟨r, t⟩, hfirst, h⟩ := h
  dsimp only at h
  by_cases hr : r = -XHASH_ERESIZE
  · rw [if_pos hr] at h
    cases mem with
    | none =>
      cases h
      exact hop _ _ _ hfirst
    | some kvs0 =>
      obtain ⟨mid, -, hsecond⟩ := Option.bind_eq_some_iff.mp h
      exact hop _ _ _ hsecond
  · rw [if_neg hr] at h
    cases h
    exact hop _ _ _ hfirst

end Retrying

theorem insert_ret {ret : Int} (h : xhash.insert tf key val = some (ret, xhash')) : ret ≤ 0 := by
  unfold Xhash.insert at h
  split at h
  · cases h
    decide
  · split at h
    · cases h
      decide
    · obtain ⟨new, -, heq⟩ := Option.map_eq_some_iff.mp h
      cases heq
      decide

def callInsert (tf : TypesFunctions κ) (xhash : Xhash κ) (key : κ) (val : xhashidx)
    (mem : Option (Nat → κ)) : Option (Int × Xhash κ) :=
  xhash.callRetrying tf (·.insert tf key val) growSizeShift mem

def callDelete (tf : TypesFunctions κ) (xhash : Xhash κ) (key : κ) (mem : Option (Nat → κ)) :
    Option (Int × Xhash κ) :=
  xhash.callRetrying tf (·.delete tf key) shrinkSizeShift mem

def CallStep (tf : TypesFunctions κ) (xhash : Xhash κ) : XhashEvent κ → Xhash κ → Prop
  | .insert key val ret, xhash' => ∃ mem, xhash.callInsert tf key val mem = some (ret, xhash')
  | .delete key ret, xhash' => ∃ mem, xhash.callDelete tf key mem = some (ret, xhash')
  | .lookup key ret val, xhash' => xhash.lookup tf key = some (ret, val) ∧ xhash' = xhash

def Storable : XhashEvent κ → Prop
  | .insert _ val _ => NotMark val
  | _ => True

instance (ev : XhashEvent κ) : Decidable (Storable ev) :=
  match ev with
  | .insert _ val _ => inferInstanceAs (Decidable (NotMark val))
  | .delete _ _ => .isTrue trivial
  | .lookup _ _ _ => .isTrue trivial

/-- An insertion that does not rebuild the table first finds its key absent, or no tombstone
before its slot. -/
def Unshadowed (tf : TypesFunctions κ) (xhash : Xhash κ) : XhashEvent κ → Prop
  | .insert key _ _ => xhash.growCheck = false → xhash.Direct tf key
  | _ => True

def Answers (tf : TypesFunctions κ) (evs : List (XhashEvent κ)) (xhash : Xhash κ) : Prop :=
  ∀ key, xhash.lookup tf key = match lastValue tf key evs with
    | some val => some (0, some val)
    | none => some (-XHASH_EEXIST, none)

structure Dict (tf : TypesFunctions κ) (xhash : Xhash κ) : Prop where
  wf : xhash.Wf tf
  unique : xhash.Unique tf
  limit : xhash.limit = 0

theorem Dict.insert (hx : xhash.Dict tf) (hgrow : xhash.growCheck = false)
    (hdirect : xhash.Direct tf key) (hval : NotMark val) :
    ∃ new, xhash.insert tf key val = some (0, new) ∧ new.Dict tf ∧
      xhash.Inserted tf key val new := by
  obtain ⟨new, hins, hnew⟩ := hx.wf.insertRaw_holds hx.unique hdirect hval
    (hx.wf.room_of_not_growCheck hgrow)
  refine ⟨new, ?_, ⟨hnew.wf, hnew.unique, hnew.limit.trans hx.limit⟩, hnew⟩
  rw [Xhash.insert, if_neg (by simp [hx.limit]), hgrow, hins]
  rfl

theorem Dict.rebuild (hx : xhash.Dict tf) {shift : Nat} (hs : 2 ≤ shift)
    (hfit : xhash.used < 2 ^ shift) (kvs0 : Nat → κ) :
    ∃ new, xhash.resize tf shift 0 kvs0 = some new ∧ new.Dict tf ∧
      xhash.Rebuilt tf shift 0 new := by
  obtain ⟨new, hnew, hr⟩ := hx.wf.resize_holds hx.unique hfit hs 0 kvs0
  exact ⟨new, hnew, ⟨hr.wf, hr.unique, hr.limit⟩, hr⟩

theorem Dict.insert_asks (hx : xhash.Dict tf) (hgrow : xhash.growCheck = true) :
    xhash.insert tf key val = some (-XHASH_ERESIZE, xhash) := by
  rw [Xhash.insert, if_neg (by simp [hx.limit]), hgrow]
  rfl

/-- Insertion under the protocol returns, and writes the key exactly when it says so. -/
theorem Dict.callInsert (hx : xhash.Dict tf) (hval : NotMark val)
    (hdirect : xhash.growCheck = false → xhash.Direct tf key) (mem : Option (Nat → κ)) :
    ∃ ret new, xhash.callInsert tf key val mem = some (ret, new) ∧ new.Dict tf ∧
      ∀ k v, new.Holds tf k v ↔
        if ret = 0 ∧ tf.cmp_fun key k = true then v = val else xhash.Holds tf k v := by
  cases hgrow : xhash.growCheck with
  | false =>
    obtain ⟨new, hins, hnew, hdone⟩ := hx.insert hgrow (hdirect hgrow) hval
    exact ⟨0, new, callRetrying_done hins (by decide) mem, hnew, by simpa using hdone.holds⟩
  | true =>
    have hasks : xhash.insert tf key val = some (-XHASH_ERESIZE, xhash) := hx.insert_asks hgrow
    cases mem with
    | none => exact ⟨_, xhash, callRetrying_noMem hasks, hx, fun k v => by simp [XHASH_ERESIZE]⟩
    | some kvs0 =>
      obtain ⟨mid, hmid, hdict, hr⟩ :=
        hx.rebuild hx.wf.growSizeShift.1 hx.wf.growSizeShift.2 kvs0
      obtain ⟨new, hins, hnew, hdone⟩ := hdict.insert (hr.not_growCheck hx.wf)
        (hr.wf.direct_of_dummies_eq_zero hr.dummies key) hval
      refine ⟨0, new, (callRetrying_retry hasks hmid).trans hins, hnew, fun k v => ?_⟩
      simp only [hdone.holds, hr.holds, true_and]

theorem Dict.delete (hx : xhash.Dict tf) (key : κ) :
    ∃ ret new, xhash.delete tf key = some (ret, new) ∧ new.Dict tf ∧
      ∀ k v, new.Holds tf k v ↔
        if ret = 0 ∧ tf.cmp_fun key k = true then False else xhash.Holds tf k v := by
  rw [Xhash.delete]
  split
  · exact ⟨_, xhash, rfl, hx, fun k v => by simp [XHASH_ERESIZE]⟩
  · rcases hx.wf.deleteRaw_holds hx.unique key with ⟨-, hdel⟩ | ⟨-, new, hdel, hd⟩
    · exact ⟨_, xhash, hdel, hx, fun k v => by simp [XHASH_ENOENT]⟩
    · refine ⟨0, new, hdel, ⟨hd.wf, hd.unique, hd.limit.trans hx.limit⟩, fun k v => ?_⟩
      rw [hd.holds]
      cases tf.cmp_fun key k <;> simp

theorem Dict.delete_present (hx : xhash.Dict tf) (hshrink : xhash.shrinkCheck = false)
    (hpresent : ¬ xhash.Absent tf key) :
    ∃ new, xhash.delete tf key = some (0, new) ∧ new.Dict tf ∧ xhash.Deleted tf key new := by
  rw [Xhash.delete, hshrink]
  rcases hx.wf.deleteRaw_holds hx.unique key with ⟨habsent, -⟩ | ⟨-, new, hdel, hd⟩
  · exact absurd habsent hpresent
  · exact ⟨new, hdel, ⟨hd.wf, hd.unique, hd.limit.trans hx.limit⟩, hd⟩

theorem delete_asks (hshrink : xhash.shrinkCheck = true) (key : κ) :
    xhash.delete tf key = some (-XHASH_ERESIZE, xhash) := by
  rw [Xhash.delete, hshrink]
  rfl

theorem Dict.callDelete (hx : xhash.Dict tf) (key : κ) (mem : Option (Nat → κ)) :
    ∃ ret new, xhash.callDelete tf key mem = some (ret, new) ∧ new.Dict tf ∧
      ∀ k v, new.Holds tf k v ↔
        if ret = 0 ∧ tf.cmp_fun key k = true then False else xhash.Holds tf k v := by
  cases hshrink : xhash.shrinkCheck with
  | false =>
    obtain ⟨ret, new, hdel, hnew, hholds⟩ := hx.delete key
    have hret : ret ≠ -XHASH_ERESIZE := by
      rw [Xhash.delete, hshrink] at hdel
      rcases hx.wf.deleteRaw key with ⟨-, h⟩ | ⟨i, -, h⟩
      · rw [if_neg (by decide), h] at hdel
        cases hdel
        decide
      · rw [if_neg (by decide), h] at hdel
        cases hdel
        decide
    exact ⟨ret, new, callRetrying_done hdel hret mem, hnew, hholds⟩
  | true =>
    have hasks : xhash.delete tf key = some (-XHASH_ERESIZE, xhash) := delete_asks hshrink key
    cases mem with
    | none => exact ⟨_, xhash, callRetrying_noMem hasks, hx, fun k v => by simp [XHASH_ERESIZE]⟩
    | some kvs0 =>
      obtain ⟨hs, hfit⟩ := hx.wf.shrinkSizeShift hshrink
      obtain ⟨mid, hmid, hdict, hr⟩ := hx.rebuild hs hfit kvs0
      obtain ⟨ret, new, hdel, hnew, hholds⟩ := hdict.delete key
      refine ⟨ret, new, (callRetrying_retry hasks hmid).trans hdel, hnew, fun k v => ?_⟩
      simp only [hholds, hr.holds]

theorem lastValue_snoc (ev : XhashEvent κ) : lastValue tf key (evs ++ [ev]) =
    match ev with
    | .insert k val ret =>
        if ret = 0 ∧ tf.cmp_fun k key = true then some val else lastValue tf key evs
    | .delete k ret => if ret = 0 ∧ tf.cmp_fun k key = true then none else lastValue tf key evs
    | .lookup _ _ _ => lastValue tf key evs := by
  rw [lastValue, List.foldl_append]
  rfl

theorem Dict.step {xhash' : Xhash κ} {ev : XhashEvent κ} (hx : xhash.Dict tf)
    (hmap : ∀ k v, xhash.Holds tf k v ↔ lastValue tf k evs = some v) (hval : Storable ev)
    (hdirect : xhash.Unshadowed tf ev) (hstep : xhash.CallStep tf ev xhash') :
    xhash'.Dict tf ∧ ∀ k v, xhash'.Holds tf k v ↔ lastValue tf k (evs ++ [ev]) = some v := by
  simp only [lastValue_snoc]
  cases ev with
  | insert key val ret =>
    obtain ⟨mem, hcall⟩ := hstep
    obtain ⟨ret', new, hcall', hnew, hholds⟩ := hx.callInsert hval hdirect mem
    rw [hcall'] at hcall
    cases hcall
    refine ⟨hnew, fun k v => ?_⟩
    rw [hholds]
    dsimp only
    split
    · rw [Option.some.injEq, eq_comm]
    · exact hmap k v
  | delete key ret =>
    obtain ⟨mem, hcall⟩ := hstep
    obtain ⟨ret', new, hcall', hnew, hholds⟩ := hx.callDelete key mem
    rw [hcall'] at hcall
    cases hcall
    refine ⟨hnew, fun k v => ?_⟩
    rw [hholds]
    dsimp only
    split
    · simp
    · exact hmap k v
  | lookup key ret val =>
    obtain ⟨-, rfl⟩ := hstep
    exact ⟨hx, hmap⟩

theorem Dict.answers (hx : xhash.Dict tf)
    (hmap : ∀ k v, xhash.Holds tf k v ↔ lastValue tf k evs = some v) : Answers tf evs xhash := by
  intro key
  obtain ⟨hheld, habsent⟩ := hx.wf.lookup_iff hx.unique key
  cases hlast : lastValue tf key evs with
  | some val => exact (hheld val).mp ((hmap key val).mpr hlast)
  | none =>
    refine habsent.mp (absent_iff_not_holds.mpr fun val h => ?_)
    rw [hmap, hlast] at h
    cases h

/-- Integer-keyed tables are dictionaries in every run that never inserts behind a tombstone. -/
theorem run_answers {shift : Nat} (hs : 2 ≤ shift) (kvs0 : Nat → xhashidx)
    {evs : List (XhashEvent xhashidx)} {xhash : Xhash xhashidx}
    (hrun : Run (Guarded (CallStep integerFunctions) fun xhash ev =>
      Storable ev ∧ xhash.Unshadowed integerFunctions ev) (init shift 0 kvs0) evs xhash) :
    Answers integerFunctions evs xhash := by
  have hinv := hrun.history (I := fun evs xhash => xhash.Dict integerFunctions ∧
      ∀ k v, xhash.Holds integerFunctions k v ↔ lastValue integerFunctions k evs = some v)
    (fun ⟨hx, hmap⟩ ⟨⟨hval, hdirect⟩, hstep⟩ => hx.step hmap hval hdirect hstep)
    ⟨⟨wf_initRaw kvs0 hs hs, initRaw_unique kvs0, rfl⟩, fun k v => by
      constructor
      · exact fun h => absurd h (absent_iff_not_holds.mp (initRaw_absent kvs0 k) v)
      · intro h
        cases h⟩
  exact hinv.1.answers hinv.2

theorem run_answers_insert :
    ∃ xhash, Run (Guarded (CallStep integerFunctions) fun xhash ev =>
        Storable ev ∧ xhash.Unshadowed integerFunctions ev)
        (init 2 0 fun _ => 0) [.insert 7 70 0] xhash ∧
      Answers integerFunctions [.insert 7 70 0] xhash := by
  have hret : ((init 2 0 fun _ => 0).callInsert integerFunctions 7 70 none).map Prod.fst =
      some 0 := by decide +kernel
  obtain ⟨⟨ret, xhash⟩, hins, rfl⟩ := Option.map_eq_some_iff.mp hret
  have hrun : Run (Guarded (CallStep integerFunctions) fun xhash ev =>
      Storable ev ∧ xhash.Unshadowed integerFunctions ev)
      (init 2 0 fun _ => 0) [.insert 7 70 0] xhash := by
    refine .single ⟨⟨show NotMark 70 by decide, fun _ => ?_⟩, none, hins⟩
    exact (wf_initRaw _ (by decide) (by decide)).direct_of_dummies_eq_zero rfl 7
  exact ⟨xhash, hrun, run_answers (by decide) _ hrun⟩

/-- The table after a call that ends with the given result, without memory for a rebuild. -/
def perform (tf : TypesFunctions κ) (xhash : Xhash κ) : XhashEvent κ → Option (Xhash κ)
  | .insert key val ret => (xhash.callInsert tf key val none).bind fun (r, xhash) =>
      if r = ret then some xhash else none
  | .delete key ret => (xhash.callDelete tf key none).bind fun (r, xhash) =>
      if r = ret then some xhash else none
  | .lookup key ret val => if xhash.lookup tf key = some (ret, val) then some xhash else none

theorem perform_step {ev : XhashEvent κ} (h : xhash.perform tf ev = some xhash') :
    xhash.CallStep tf ev xhash' := by
  cases ev with
  | lookup key ret val =>
    rw [perform, Option.ite_none_right_eq_some] at h
    exact ⟨h.1, (Option.some.inj h.2).symm⟩
  | insert key val ret =>
    obtain ⟨⟨r, new⟩, hcall, hret⟩ := Option.bind_eq_some_iff.mp h
    rw [Option.ite_none_right_eq_some] at hret
    obtain ⟨rfl, hnew⟩ := hret
    cases hnew
    exact ⟨none, hcall⟩
  | delete key ret =>
    obtain ⟨⟨r, new⟩, hcall, hret⟩ := Option.bind_eq_some_iff.mp h
    rw [Option.ite_none_right_eq_some] at hret
    obtain ⟨rfl, hnew⟩ := hret
    cases hnew
    exact ⟨none, hcall⟩

theorem perform_run (h : evs.foldlM (perform tf) xhash = some xhash')
    (hval : ∀ ev ∈ evs, Storable ev) :
    Run (Guarded (CallStep tf) fun _ ev => Storable ev) xhash evs xhash' := by
  induction evs generalizing xhash with
  | nil =>
    cases h
    exact .refl _
  | cons ev evs ih =>
    rw [List.foldlM_cons] at h
    obtain ⟨mid, hev, h⟩ := Option.bind_eq_some_iff.mp h
    exact .cons ⟨hval ev (by simp), perform_step hev⟩ (ih h fun ev hev => hval ev (by simp [hev]))

/-- The keys 0 and 4 start at the same slot. With 0 deleted, the second insertion of 4 fills the
tombstone, and the deletion of 4 brings its first value back. -/
theorem not_run_answers : ¬ ∀ (shift : Nat) (kvs0 : Nat → xhashidx)
    (evs : List (XhashEvent xhashidx)) (xhash : Xhash xhashidx), 2 ≤ shift →
    Run (Guarded (CallStep integerFunctions) fun _ ev => Storable ev) (init shift 0 kvs0) evs xhash →
    Answers integerFunctions evs xhash := by
  intro h
  let evs : List (XhashEvent xhashidx) :=
    [.insert 0 10 0, .insert 4 40 0, .delete 0 0, .insert 4 41 0, .delete 4 0]
  have hlookup : ((evs.foldlM (perform integerFunctions) (init 2 0 fun _ => 0)).bind
      (lookup integerFunctions · 4)) = some (0, some 40) := by decide +kernel
  obtain ⟨xhash, hrun, hlookup⟩ := Option.bind_eq_some_iff.mp hlookup
  have hval : ∀ ev ∈ evs, Storable ev := by decide
  have hanswer := h 2 _ evs xhash (by decide) (perform_run hrun hval) 4
  rw [hlookup, show lastValue integerFunctions 4 evs = none by decide] at hanswer
  cases hanswer

end Xhash

end Libxseg

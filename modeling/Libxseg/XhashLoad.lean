import Libxseg.XhashRuns

/-!
# The load of an xhash

A table asks for a rebuild when a third of it is free at most, or when less than a quarter of
it is used and it may shrink. One rebuild is enough for the caller who is asked: growing leaves
room because tombstones are not copied, and a table is never more than one entry below the load
at which a deletion asks for a smaller one (`Loaded`).

A value that is one of the two marks of a free slot is counted and then lost by a rebuild, so a
run that stores such values can need two.
-/

namespace Libxseg

set_option autoImplicit false

universe u

namespace Xhash
variable {κ : Type u} {tf : TypesFunctions κ} {xhash xhash' new : Xhash κ} {key : κ}
  {val : xhashidx} {limit : Nat}

def Loaded (xhash : Xhash κ) : Prop :=
  xhash.minsize_shift < xhash.size_shift → 2 ^ xhash.size_shift ≤ 4 * (xhash.used + 1)

theorem shrinkCheck_eq_false : xhash.shrinkCheck = false ↔
    (xhash.minsize_shift < xhash.size_shift → 2 ^ xhash.size_shift ≤ 4 * xhash.used) := by
  rw [shrinkCheck, decide_eq_false_iff_not, Nat.one_shiftLeft, and_comm, not_and, Nat.not_lt]

theorem loaded_init (shift limit : Nat) (kvs0 : Nat → κ) : (init shift limit kvs0).Loaded :=
  fun h => absurd h (Nat.lt_irrefl shift)

theorem Loaded.inserted (hl : xhash.Loaded) (h : xhash.Inserted tf key val new) :
    new.Loaded := by
  intro hlt
  rw [h.size_shift, h.minsize_shift] at hlt
  have hload := hl hlt
  rw [h.size_shift]
  rcases h.used with ⟨-, hused⟩ | ⟨-, hused⟩ <;> omega

theorem Loaded.deleted (h : xhash.Deleted tf key new) (hs : xhash.shrinkCheck = false) :
    new.Loaded := by
  intro hlt
  rw [h.size_shift, h.minsize_shift] at hlt
  have hload := shrinkCheck_eq_false.mp hs hlt
  rw [h.size_shift, h.used]
  exact hload

/-- A larger table is asked for only by entries enough to load it. -/
theorem Loaded.grown (hl : xhash.Loaded)
    (h : xhash.Rebuilt tf xhash.growSizeShift limit new) : new.Loaded := by
  intro hlt
  rw [h.size_shift, h.minsize_shift] at hlt
  rw [h.size_shift, h.used]
  rw [growSizeShift] at hlt ⊢
  split at hlt
  · rename_i hgrow
    rw [if_pos hgrow, Nat.pow_succ]
    rw [Nat.one_shiftLeft] at hgrow
    omega
  · rename_i hgrow
    rw [if_neg hgrow]
    exact hl hlt

/-- After the rebuild that a deletion asks for, it does not ask again. -/
theorem Loaded.not_shrinkCheck (hw : xhash.Wf tf) (hl : xhash.Loaded)
    (hs : xhash.shrinkCheck = true) (h : xhash.Rebuilt tf xhash.shrinkSizeShift limit new) :
    new.shrinkCheck = false := by
  rw [shrinkCheck, decide_eq_true_iff, Nat.one_shiftLeft] at hs
  have hload := hl hs.2
  have hm := hw.minsize
  rw [shrinkCheck_eq_false, h.size_shift, h.minsize_shift, h.used]
  intro hlt
  have hshift : xhash.shrinkSizeShift + 1 = xhash.size_shift := by
    rw [shrinkSizeShift] at hlt ⊢
    split <;> omega
  have hfour : 2 ^ 2 ≤ 2 ^ xhash.shrinkSizeShift := Nat.pow_le_pow_right (by decide) (by omega)
  rw [← hshift, Nat.pow_succ] at hload
  omega

theorem Loaded.of_not_shrinkCheck (hs : xhash.shrinkCheck = false) : xhash.Loaded := by
  intro hlt
  have hload := shrinkCheck_eq_false.mp hs hlt
  omega

theorem Wf.insert_returns (hw : xhash.Wf tf) (hgrow : xhash.growCheck = false) (key : κ)
    (val : xhashidx) :
    ∃ ret new, xhash.insert tf key val = some (ret, new) ∧ ret ≠ -XHASH_ERESIZE := by
  rw [Xhash.insert, hgrow]
  split
  · exact ⟨_, _, rfl, by decide⟩
  · obtain ⟨i, ⟨-, hins⟩ | ⟨-, hins⟩⟩ := hw.insertRaw key val
    · exact ⟨0, _, by rw [hins]; rfl, by decide⟩
    · exact ⟨0, _, by rw [hins]; rfl, by decide⟩

theorem Wf.delete_returns (hw : xhash.Wf tf) (hshrink : xhash.shrinkCheck = false) (key : κ) :
    ∃ ret new, xhash.delete tf key = some (ret, new) ∧ ret ≠ -XHASH_ERESIZE := by
  rw [Xhash.delete, hshrink]
  rcases hw.deleteRaw key with ⟨-, hdel⟩ | ⟨i, -, hdel⟩
  · exact ⟨_, _, hdel, by decide⟩
  · exact ⟨_, _, hdel, by decide⟩

/-- Keys are inserted when they are absent, and a rebuild is one that was asked for. -/
def InsertsAbsent (tf : TypesFunctions κ) (xhash : Xhash κ) : XhashCall κ → Prop
  | .insert key _ => xhash.Absent tf key
  | .delete _ => True
  | .resize shift _ _ =>
      xhash.growCheck = true ∧ shift = xhash.growSizeShift ∨
        xhash.shrinkCheck = true ∧ shift = xhash.shrinkSizeShift
  | .freqlUpdate _ _ | .update _ _ => False

instance (xhash : Xhash κ) (key : κ) : Decidable (xhash.Absent tf key) :=
  inferInstanceAs (Decidable (∀ i < xhash.size,
    xhash.itemValid i = true → tf.cmp_fun (xhash.kvs i) key = false))

instance (xhash : Xhash κ) (c : XhashCall κ) : Decidable (xhash.InsertsAbsent tf c) :=
  match c with
  | .insert key _ => inferInstanceAs (Decidable (xhash.Absent tf key))
  | .delete _ => .isTrue trivial
  | .resize _ _ _ => inferInstanceAs (Decidable (_ ∧ _ ∨ _ ∧ _))
  | .freqlUpdate _ _ | .update _ _ => .isFalse id

def StoresNoMark : XhashCall κ → Prop
  | .insert _ val => NotMark val
  | _ => True

def OneResize (tf : TypesFunctions κ) (xhash : Xhash κ) (op : Xhash κ → Option (Int × Xhash κ))
    (shift : Nat) : Prop :=
  op xhash = some (-XHASH_ERESIZE, xhash) → ∀ limit kvs0, ∃ mid ret new,
    xhash.resize tf shift limit kvs0 = some mid ∧ op mid = some (ret, new) ∧ ret ≠ -XHASH_ERESIZE

structure Bounded (tf : TypesFunctions κ) (xhash : Xhash κ) : Prop where
  wf : xhash.Wf tf
  unique : xhash.Unique tf
  loaded : xhash.Loaded

theorem bounded_init {shift : Nat} (hs : 2 ≤ shift) (limit : Nat) (kvs0 : Nat → κ) :
    (init shift limit kvs0).Bounded tf :=
  ⟨wf_initRaw kvs0 hs hs, initRaw_unique kvs0, loaded_init shift limit kvs0⟩

section Steps
variable (h : xhash.Bounded tf)
include h

theorem Bounded.insert (habsent : xhash.Absent tf key) (hval : NotMark val) {ret : Int}
    (hins : xhash.insert tf key val = some (ret, xhash')) : xhash'.Bounded tf := by
  rw [Xhash.insert] at hins
  split at hins
  · cases hins
    exact h
  · split at hins
    · cases hins
      exact h
    · rename_i hgrow
      have hdirect : xhash.Direct tf key := fun i hi => absurd ⟨i, hi⟩ (absent_iff.mp habsent)
      obtain ⟨new, hnew, hdone⟩ := h.wf.insertRaw_holds h.unique hdirect hval
        (h.wf.room_of_not_growCheck (Bool.eq_false_of_not_eq_true hgrow))
      rw [hnew] at hins
      cases hins
      exact ⟨hdone.wf, hdone.unique, h.loaded.inserted hdone⟩

theorem Bounded.delete {ret : Int} (hdel : xhash.delete tf key = some (ret, xhash')) :
    xhash'.Bounded tf := by
  rw [Xhash.delete] at hdel
  split at hdel
  · cases hdel
    exact h
  · rename_i hshrink
    rcases h.wf.deleteRaw_holds h.unique key with ⟨-, hraw⟩ | ⟨-, new, hraw, hdone⟩
    · rw [hraw] at hdel
      cases hdel
      exact h
    · rw [hraw] at hdel
      cases hdel
      exact ⟨hdone.wf, hdone.unique, .deleted hdone (Bool.eq_false_of_not_eq_true hshrink)⟩

theorem Bounded.grow (limit : Nat) (kvs0 : Nat → κ) :
    ∃ new, xhash.resize tf xhash.growSizeShift limit kvs0 = some new ∧ new.Bounded tf ∧
      new.growCheck = false := by
  obtain ⟨hs, hfit⟩ := h.wf.growSizeShift
  obtain ⟨new, hnew, hr⟩ := h.wf.resize_holds h.unique hfit hs limit kvs0
  exact ⟨new, hnew, ⟨hr.wf, hr.unique, h.loaded.grown hr⟩, hr.not_growCheck h.wf⟩

theorem Bounded.shrink (hshrink : xhash.shrinkCheck = true) (limit : Nat) (kvs0 : Nat → κ) :
    ∃ new, xhash.resize tf xhash.shrinkSizeShift limit kvs0 = some new ∧ new.Bounded tf ∧
      new.shrinkCheck = false := by
  obtain ⟨hs, hfit⟩ := h.wf.shrinkSizeShift hshrink
  obtain ⟨new, hnew, hr⟩ := h.wf.resize_holds h.unique hfit hs limit kvs0
  have hdone := h.loaded.not_shrinkCheck h.wf hshrink hr
  exact ⟨new, hnew, ⟨hr.wf, hr.unique, .of_not_shrinkCheck hdone⟩, hdone⟩

theorem Bounded.step {a : XhashCall κ × Int} (hadm : xhash.InsertsAbsent tf a.1)
    (hval : StoresNoMark a.1) (hstep : xhash.Step tf a xhash') : xhash'.Bounded tf := by
  obtain ⟨c, ret⟩ := a
  cases c with
  | insert key val => exact h.insert hadm hval hstep
  | delete key => exact h.delete hstep
  | freqlUpdate key val => exact hadm.elim
  | update key val => exact hadm.elim
  | resize shift limit kvs0 =>
    obtain ⟨new, hnew, heq⟩ := Option.map_eq_some_iff.mp hstep
    cases heq
    rcases hadm with ⟨-, rfl⟩ | ⟨hshrink, rfl⟩
    · obtain ⟨mid, hmid, hdone, -⟩ := h.grow limit kvs0
      rw [hmid] at hnew
      cases hnew
      exact hdone
    · obtain ⟨mid, hmid, hdone, -⟩ := h.shrink hshrink limit kvs0
      rw [hmid] at hnew
      cases hnew
      exact hdone

theorem Bounded.insert_oneResize (key : κ) (val : xhashidx) :
    xhash.OneResize tf (·.insert tf key val) xhash.growSizeShift := by
  intro _ limit kvs0
  obtain ⟨mid, hmid, hdone, hgrow⟩ := h.grow limit kvs0
  obtain ⟨ret, new, hins, hret⟩ := hdone.wf.insert_returns hgrow key val
  exact ⟨mid, ret, new, hmid, hins, hret⟩

theorem Bounded.delete_oneResize (key : κ) :
    xhash.OneResize tf (·.delete tf key) xhash.shrinkSizeShift := by
  intro hasks limit kvs0
  cases hshrink : xhash.shrinkCheck with
  | true =>
    obtain ⟨mid, hmid, hdone, hnot⟩ := h.shrink hshrink limit kvs0
    obtain ⟨ret, new, hdel, hret⟩ := hdone.wf.delete_returns hnot key
    exact ⟨mid, ret, new, hmid, hdel, hret⟩
  | false =>
    obtain ⟨ret, new, hdel, hret⟩ := h.wf.delete_returns hshrink key
    have heq := hdel.symm.trans hasks
    cases heq
    exact absurd rfl hret

end Steps

/-- One rebuild is enough for whoever is asked for one, in every run that stores no marks. -/
theorem run_oneResize {shift : Nat} (hs : 2 ≤ shift) (kvs0 : Nat → κ)
    {as : List (XhashCall κ × Int)}
    (hrun : Run (Guarded (Step tf) fun xhash a => xhash.InsertsAbsent tf a.1 ∧ StoresNoMark a.1)
      (init shift 0 kvs0) as xhash) :
    (∀ key val, xhash.OneResize tf (·.insert tf key val) xhash.growSizeShift) ∧
      ∀ key, xhash.OneResize tf (·.delete tf key) xhash.shrinkSizeShift := by
  have h : xhash.Bounded tf := hrun.invariant (I := (·.Bounded tf))
    (fun h hstep => h.step hstep.1.1 hstep.1.2 hstep.2) (bounded_init hs 0 kvs0)
  exact ⟨h.insert_oneResize, h.delete_oneResize⟩

instance (c : XhashCall κ) : Decidable (StoresNoMark c) :=
  match c with
  | .insert _ val => inferInstanceAs (Decidable (NotMark val))
  | .delete _ | .resize _ _ _ | .freqlUpdate _ _ | .update _ _ => .isTrue trivial

def performCall (tf : TypesFunctions κ) (xhash : Xhash κ) (a : XhashCall κ × Int) :
    Option (Xhash κ) :=
  (xhash.call tf a.1).bind fun (ret, xhash) => if ret = a.2 then some xhash else none

theorem performCall_step {a : XhashCall κ × Int} (h : xhash.performCall tf a = some xhash') :
    xhash.Step tf a xhash' := by
  obtain ⟨⟨ret, new⟩, hcall, hret⟩ := Option.bind_eq_some_iff.mp h
  obtain ⟨rfl, rfl⟩ := of_ite_some hret
  exact hcall

/-- The fourth insertion asks, and is not asked again. -/
theorem run_oneResize_four : ∃ xhash : Xhash xhashidx,
    Run (Guarded (Step integerFunctions)
        fun xhash a => xhash.InsertsAbsent integerFunctions a.1 ∧ StoresNoMark a.1)
      (init 2 0 fun _ => 0) [(.insert 0 1, 0), (.insert 1 1, 0), (.insert 2 1, 0)] xhash ∧
    xhash.insert integerFunctions 3 1 = some (-XHASH_ERESIZE, xhash) ∧
    xhash.OneResize integerFunctions (·.insert integerFunctions 3 1) xhash.growSizeShift := by
  have hexec : (execute (performCall integerFunctions)
      (fun xhash a => xhash.InsertsAbsent integerFunctions a.1 ∧ StoresNoMark a.1)
      (init 2 0 fun _ => 0) [(.insert 0 1, 0), (.insert 1 1, 0), (.insert 2 1, 0)]).any
      (fun xhash => xhash.limit = 0 ∧ xhash.growCheck = true) = true := by decide +kernel
  obtain ⟨xhash, hrun, hend⟩ := Run.of_execute_any (fun _ _ _ => performCall_step) hexec
  obtain ⟨hlimit, hgrow⟩ := of_decide_eq_true hend
  refine ⟨xhash, hrun, ?_, (run_oneResize (by decide) _ hrun).1 3 1⟩
  rw [Xhash.insert, if_neg fun hfull => hfull.1 hlimit, hgrow]
  rfl

/-- Nine insertions of a mark, with the rebuilds that they ask for, leave sixteen slots that are
all free. A deletion asks for eight, and with eight it asks for four. -/
theorem not_run_oneResize : ¬ ∀ (shift : Nat) (kvs0 : Nat → xhashidx)
    (as : List (XhashCall xhashidx × Int)) (xhash : Xhash xhashidx), 2 ≤ shift →
    Run (Guarded (Step integerFunctions) fun xhash a => xhash.InsertsAbsent integerFunctions a.1)
      (init shift 0 kvs0) as xhash →
    ∀ key, xhash.OneResize integerFunctions (·.delete integerFunctions key)
      xhash.shrinkSizeShift := by
  intro hall
  let insert (key : xhashidx) : XhashCall xhashidx × Int := (.insert key UNUSED, 0)
  let as : List (XhashCall xhashidx × Int) :=
    [insert 0, insert 1, insert 2, (.resize 3 0 fun _ => 0, 0),
      insert 0, insert 1, insert 2, insert 3, insert 4, insert 5, (.resize 4 0 fun _ => 0, 0)]
  have hexec : (execute (performCall integerFunctions)
      (fun xhash a => xhash.InsertsAbsent integerFunctions a.1) (init 2 0 fun _ => 0) as).any
      (fun xhash => xhash.shrinkCheck = true ∧ xhash.shrinkSizeShift = 3 ∧
        ((xhash.resize integerFunctions 3 0 fun _ => 0).any (·.shrinkCheck)) = true) = true := by
    decide +kernel
  obtain ⟨xhash, hrun, hend⟩ := Run.of_execute_any (fun _ _ _ => performCall_step) hexec
  obtain ⟨hasks, hshift, hagain⟩ := of_decide_eq_true hend
  obtain ⟨mid, ret, new, hmid, hdel, hret⟩ :=
    hall 2 _ as xhash (by decide) hrun 0 (delete_asks hasks 0) 0 fun _ => 0
  rw [hshift] at hmid
  rw [hmid] at hagain
  have heq := hdel.symm.trans (delete_asks hagain 0)
  cases heq
  exact hret rfl

end Xhash

end Libxseg

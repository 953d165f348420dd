import Libxseg.XhashLoad

/-!
# The data of a request

A peer keeps one word for a request in an integer-keyed xhash: `xseg_set_req_data`
inserts it and `xseg_get_req_data` takes it out. Both rebuild the table once when it
asks for that, and try once more. One retry is enough for a deletion because the
table is never more than one entry below the load at which a deletion asks for a
smaller one (`Xhash.Loaded`).
-/

namespace Libxseg

set_option autoImplicit false

universe u

namespace Xhash
variable {κ : Type u} {tf : TypesFunctions κ} {xhash new : Xhash κ} {key : κ} {val : xhashidx}

theorem Dict.callInsert_absent (hx : xhash.Dict tf) (hl : xhash.Loaded)
    (habsent : xhash.Absent tf key) (hval : NotMark val) (kvs0 : Nat → κ) :
    ∃ new, xhash.callInsert tf key val (some kvs0) = some (0, new) ∧ new.Dict tf ∧ new.Loaded ∧
      ∀ k v, new.Holds tf k v ↔
        if tf.cmp_fun key k = true then v = val else xhash.Holds tf k v := by
  cases hgrow : xhash.growCheck with
  | false =>
    have hdirect : xhash.Direct tf key := fun i hi => absurd ⟨i, hi⟩ (absent_iff.mp habsent)
    obtain ⟨new, hins, hnew, hdone⟩ := hx.insert hgrow hdirect hval
    exact ⟨new, callRetrying_done hins (by decide) _, hnew, hl.inserted hdone, hdone.holds⟩
  | true =>
    obtain ⟨mid, hmid, hdict, hr⟩ := hx.rebuild hx.wf.growSizeShift.1 hx.wf.growSizeShift.2 kvs0
    obtain ⟨new, hins, hnew, hdone⟩ := hdict.insert (hr.not_growCheck hx.wf)
      (hr.wf.direct_of_dummies_eq_zero hr.dummies key) hval
    refine ⟨new, (callRetrying_retry (hx.insert_asks hgrow) hmid).trans hins, hnew,
      (hl.grown hr).inserted hdone, fun k v => ?_⟩
    rw [hdone.holds, hr.holds]

theorem Dict.callDelete_present (hx : xhash.Dict tf) (hl : xhash.Loaded)
    (hpresent : ¬ xhash.Absent tf key) (kvs0 : Nat → κ) :
    ∃ new, xhash.callDelete tf key (some kvs0) = some (0, new) ∧ new.Dict tf ∧ new.Loaded ∧
      ∀ k v, new.Holds tf k v ↔ tf.cmp_fun key k = false ∧ xhash.Holds tf k v := by
  cases hshrink : xhash.shrinkCheck with
  | false =>
    obtain ⟨new, hdel, hnew, hdone⟩ := hx.delete_present hshrink hpresent
    exact ⟨new, callRetrying_done hdel (by decide) _, hnew, Loaded.deleted hdone hshrink,
      hdone.holds⟩
  | true =>
    obtain ⟨hs, hfit⟩ := hx.wf.shrinkSizeShift hshrink
    obtain ⟨mid, hmid, hdict, hr⟩ := hx.rebuild hs hfit kvs0
    have hmids := hl.not_shrinkCheck hx.wf hshrink hr
    have hkey : ¬ mid.Absent tf key := by
      rw [absent_iff_not_holds] at hpresent ⊢
      simp only [hr.holds]
      exact hpresent
    obtain ⟨new, hdel, hnew, hdone⟩ := hdict.delete_present hmids hkey
    refine ⟨new, (callRetrying_retry (delete_asks hshrink key) hmid).trans hdel, hnew,
      Loaded.deleted hdone hmids, fun k v => ?_⟩
    rw [hdone.holds, hr.holds]

end Xhash

/-- `mem` is the memory that the allocator gives to a rebuild, if it gives any. -/
def setReqData (req_data : Xhash xhashidx) (xreq data : xhashidx)
    (mem : Option (Nat → xhashidx)) : Option (Int × Xhash xhashidx) :=
  if xreq = 0 then some (-1, req_data)
  else req_data.callInsert integerFunctions xreq data mem

/-- What is written to `*data`, if anything is, comes with the result. `val0` is what the local
variable held before the lookup. -/
def getReqData (req_data : Xhash xhashidx) (xreq val0 : xhashidx)
    (mem : Option (Nat → xhashidx)) : Option (Int × Option xhashidx × Xhash xhashidx) :=
  if xreq = 0 then some (-1, none, req_data)
  else
    (req_data.lookup integerFunctions xreq).bind fun (r, val) =>
      let data := val.getD val0
      if r ≥ 0 then
        (req_data.callDelete integerFunctions xreq mem).map fun (r, req_data) =>
          (r, some data, req_data)
      else some (r, some data, req_data)

def dataOf (req_data : Xhash xhashidx) (xreq : xhashidx) : Option xhashidx :=
  (req_data.lookup integerFunctions xreq).bind Prod.snd

namespace ReqData

inductive Event where
  | set (xreq data : xhashidx) (ret : Int)
  | get (xreq : xhashidx) (ret : Int) (data : Option xhashidx)

/-- The table, and for every request what was set for it and not yet taken. -/
structure World where
  req_data : Xhash xhashidx
  pending : xhashidx → Option xhashidx

def World.init (kvs0 : Nat → xhashidx) : World where
  req_data := Xhash.init 3 0 kvs0
  pending := fun _ => none

def record (pending : xhashidx → Option xhashidx) : Event → xhashidx → Option xhashidx
  | .set xreq data ret => if ret = 0 then Function.update pending xreq (some data) else pending
  | .get xreq ret _ => if ret = 0 then Function.update pending xreq none else pending

def World.Step (w : World) (e : Event) (w' : World) : Prop :=
  w'.pending = record w.pending e ∧
    match e with
    | .set xreq data ret =>
        ∃ kvs0, setReqData w.req_data xreq data (some kvs0) = some (ret, w'.req_data)
    | .get xreq ret data =>
        ∃ val0 kvs0, getReqData w.req_data xreq val0 (some kvs0) = some (ret, data, w'.req_data)

def Allowed (w : World) : Event → Prop
  | .set xreq data _ => Xhash.NotMark data ∧ w.pending xreq = none
  | .get _ _ _ => True

instance (w : World) (e : Event) : Decidable (Allowed w e) :=
  match e with
  | .set xreq data _ => inferInstanceAs (Decidable (Xhash.NotMark data ∧ w.pending xreq = none))
  | .get _ _ _ => .isTrue trivial

structure World.Delivers (w : World) : Prop where
  found : dataOf w.req_data = w.pending
  set : ∀ xreq data, xreq ≠ 0 → Xhash.NotMark data → w.pending xreq = none → ∀ kvs0, ∃ req_data,
    setReqData w.req_data xreq data (some kvs0) = some (0, req_data) ∧
      dataOf req_data = Function.update w.pending xreq (some data)
  get : ∀ xreq data, w.pending xreq = some data → ∀ val0 kvs0, ∃ req_data,
    getReqData w.req_data xreq val0 (some kvs0) = some (0, some data, req_data) ∧
      dataOf req_data = Function.update w.pending xreq none
  refuse : ∀ xreq, xreq ≠ 0 → w.pending xreq = none → ∀ val0 kvs0,
    getReqData w.req_data xreq val0 (some kvs0) =
      some (-XHASH_EEXIST, some val0, w.req_data)

/-- The table is a dictionary of what is pending, loaded well enough for one retry. -/
structure Keeps (req_data : Xhash xhashidx) (pending : xhashidx → Option xhashidx) : Prop where
  dict : req_data.Dict integerFunctions
  loaded : req_data.Loaded
  holds : ∀ xreq data, req_data.Holds integerFunctions xreq data ↔ pending xreq = some data
  null : pending 0 = none

variable {req_data : Xhash xhashidx} {pending : xhashidx → Option xhashidx} {xreq data : xhashidx}

theorem Keeps.absent (h : Keeps req_data pending) :
    req_data.Absent integerFunctions xreq ↔ pending xreq = none := by
  rw [Xhash.absent_iff_not_holds, Option.eq_none_iff_forall_ne_some]
  simp only [h.holds, ne_eq]

theorem Keeps.dataOf (h : Keeps req_data pending) : dataOf req_data = pending := by
  funext xreq
  obtain ⟨hheld, habsent⟩ := h.dict.wf.lookup_iff h.dict.unique xreq
  unfold Libxseg.dataOf
  cases hp : pending xreq with
  | none =>
    rw [habsent.mp (h.absent.mpr hp)]
    rfl
  | some data =>
    rw [(hheld data).mp ((h.holds xreq data).mpr hp)]
    rfl

theorem cmp_integer {a b : xhashidx} : integerFunctions.cmp_fun a b = true ↔ b = a :=
  (beq_iff_eq (a := a) (b := b)).trans eq_comm

theorem Keeps.set (h : Keeps req_data pending) (hreq : xreq ≠ 0) (hdata : Xhash.NotMark data)
    (hp : pending xreq = none) (kvs0 : Nat → xhashidx) : ∃ new,
    setReqData req_data xreq data (some kvs0) = some (0, new) ∧
      Keeps new (Function.update pending xreq (some data)) := by
  obtain ⟨new, hcall, hdict, hloaded, hholds⟩ :=
    h.dict.callInsert_absent h.loaded (h.absent.mpr hp) hdata kvs0
  refine ⟨new, ?_, hdict, hloaded, fun k v => ?_, ?_⟩
  · rw [setReqData, if_neg hreq, hcall]
  · rw [hholds, h.holds]
    by_cases hk : k = xreq
    · rw [if_pos (cmp_integer.mpr hk), hk, Function.update_self, Option.some.injEq, eq_comm]
    · rw [if_neg (mt cmp_integer.mp hk), Function.update_of_ne hk]
  · rw [Function.update_of_ne hreq.symm]
    exact h.null

theorem Keeps.get (h : Keeps req_data pending) (hp : pending xreq = some data) (val0 : xhashidx)
    (kvs0 : Nat → xhashidx) : ∃ new,
    getReqData req_data xreq val0 (some kvs0) = some (0, some data, new) ∧
      Keeps new (Function.update pending xreq none) := by
  have hreq : xreq ≠ 0 := by
    rintro rfl
    rw [h.null] at hp
    cases hp
  have hpresent : ¬ req_data.Absent integerFunctions xreq := by
    rw [h.absent, hp]
    exact Option.some_ne_none data
  obtain ⟨new, hcall, hdict, hloaded, hholds⟩ := h.dict.callDelete_present h.loaded hpresent kvs0
  have hlookup := ((h.dict.wf.lookup_iff h.dict.unique xreq).1 data).mp ((h.holds xreq data).mpr hp)
  refine ⟨new, ?_, hdict, hloaded, fun k v => ?_, ?_⟩
  · rw [getReqData, if_neg hreq, hlookup, Option.bind_some]
    dsimp only
    rw [if_pos (Int.le_refl 0), hcall]
    rfl
  · rw [hholds, h.holds]
    by_cases hk : k = xreq
    · simp [hk, cmp_integer.mpr]
    · rw [Function.update_of_ne hk, Bool.eq_false_iff]
      exact and_iff_right (mt cmp_integer.mp hk)
  · rw [Function.update_of_ne hreq.symm]
    exact h.null

theorem Keeps.refuse (h : Keeps req_data pending) (hreq : xreq ≠ 0) (hp : pending xreq = none)
    (val0 : xhashidx) (mem : Option (Nat → xhashidx)) :
    getReqData req_data xreq val0 mem = some (-XHASH_EEXIST, some val0, req_data) := by
  have hlookup := (h.dict.wf.lookup_iff h.dict.unique xreq).2.mp (h.absent.mpr hp)
  rw [getReqData, if_neg hreq, hlookup]
  rfl

theorem keeps_init (kvs0 : Nat → xhashidx) : Keeps (Xhash.init 3 0 kvs0) fun _ => none where
  dict := ⟨Xhash.wf_initRaw kvs0 (by decide) (by decide), Xhash.initRaw_unique kvs0, rfl⟩
  loaded := Xhash.loaded_init 3 0 kvs0
  holds xreq data := by
    constructor
    · exact fun h => absurd h (Xhash.absent_iff_not_holds.mp (Xhash.initRaw_absent kvs0 xreq) data)
    · intro h
      cases h
  null := rfl

theorem Keeps.step {w w' : World} {e : Event} (h : Keeps w.req_data w.pending)
    (hallowed : Allowed w e) (hstep : w.Step e w') : Keeps w'.req_data w'.pending := by
  obtain ⟨req_data', pending'⟩ := w'
  obtain ⟨rfl, hcall⟩ := hstep
  cases e with
  | set xreq data ret =>
    obtain ⟨kvs0, hcall⟩ := hcall
    by_cases hreq : xreq = 0
    · rw [setReqData, if_pos hreq] at hcall
      cases hcall
      exact h
    · obtain ⟨new, hset, hnew⟩ := h.set hreq hallowed.1 hallowed.2 kvs0
      rw [hset] at hcall
      cases hcall
      exact hnew
  | get xreq ret data =>
    obtain ⟨val0, kvs0, hcall⟩ := hcall
    cases hp : w.pending xreq with
    | some d =>
      obtain ⟨new, hget, hnew⟩ := h.get hp val0 kvs0
      rw [hget] at hcall
      cases hcall
      exact hnew
    | none =>
      by_cases hreq : xreq = 0
      · rw [getReqData, if_pos hreq] at hcall
        cases hcall
        exact h
      · rw [h.refuse hreq hp] at hcall
        cases hcall
        exact h

theorem Keeps.delivers {w : World} (h : Keeps w.req_data w.pending) : w.Delivers where
  found := h.dataOf
  set xreq data hreq hdata hp kvs0 := by
    obtain ⟨new, hcall, hnew⟩ := h.set hreq hdata hp kvs0
    exact ⟨new, hcall, hnew.dataOf⟩
  get xreq data hp val0 kvs0 := by
    obtain ⟨new, hcall, hnew⟩ := h.get hp val0 kvs0
    exact ⟨new, hcall, hnew.dataOf⟩
  refuse xreq hreq hp val0 kvs0 := h.refuse hreq hp val0 (some kvs0)

theorem run_delivers {kvs0 : Nat → xhashidx} {es : List Event} {w : World}
    (hrun : Run (Guarded World.Step Allowed) (World.init kvs0) es w) : w.Delivers :=
  (hrun.invariant (I := fun w => Keeps w.req_data w.pending)
    (fun hkeeps hstep => hkeeps.step hstep.1 hstep.2) (keeps_init kvs0)).delivers

def World.perform (w : World) (e : Event) : Option World :=
  match e with
  | .set xreq data ret =>
      (setReqData w.req_data xreq data (some fun _ => 0)).bind fun (r, req_data) =>
        if r = ret then some ⟨req_data, record w.pending e⟩ else none
  | .get xreq ret data =>
      (getReqData w.req_data xreq 0 (some fun _ => 0)).bind fun (r, d, req_data) =>
        if r = ret ∧ d = data then some ⟨req_data, record w.pending e⟩ else none

theorem World.step_of_perform {w w' : World} {e : Event} (h : w.perform e = some w') :
    w.Step e w' := by
  cases e with
  | set xreq data ret =>
    obtain ⟨⟨r, req_data⟩, hcall, h⟩ := Option.bind_eq_some_iff.mp h
    obtain ⟨rfl, rfl⟩ := of_ite_some h
    exact ⟨rfl, _, hcall⟩
  | get xreq ret data =>
    obtain ⟨⟨r, d, req_data⟩, hcall, h⟩ := Option.bind_eq_some_iff.mp h
    obtain ⟨⟨rfl, rfl⟩, rfl⟩ := of_ite_some h
    exact ⟨rfl, _, _, hcall⟩

theorem run_delivers_last : ∃ w, Run (Guarded World.Step Allowed) (World.init fun _ => 0)
    [.set 64 7 0, .set 128 8 0, .get 64 0 (some 7), .get 64 (-XHASH_EEXIST) (some 0)] w ∧
      w.Delivers := by
  have hexec : (execute World.perform Allowed (World.init fun _ => 0)
      [.set 64 7 0, .set 128 8 0, .get 64 0 (some 7), .get 64 (-XHASH_EEXIST) (some 0)]).any
        (fun _ => true) = true := by decide +kernel
  obtain ⟨w, hrun, -⟩ := Run.of_execute_any (fun _ _ _ => World.step_of_perform) hexec
  exact ⟨w, hrun, run_delivers hrun⟩

end ReqData

end Libxseg

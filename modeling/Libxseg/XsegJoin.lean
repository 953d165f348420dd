import Libxseg.Transition
import Libxseg.XsegSegment

/-!
# Joining and leaving a segment

`xseg_join` counts the join before it does anything else, and of its five cleanup labels only
the two that come after the table of request data count it back. `xseg_leave` unmaps the
segment when the count comes down to 0. Both run under `xseg_joinref_mutex` from beginning to
end.

The answers of what the two functions call come in as an argument. Messages to the log are left
out, and so is what a join copies into its descriptor and neither function looks at again.
-/

namespace Libxseg

set_option autoImplicit false

def EFAULT : Int := 14
def EINVAL : Int := 22
def EPROTO : Int := 71

/-- What a join reads of a mapped segment; pointers are relative to its start. -/
structure MappedSegment where
  addr : UInt64
  version : UInt64
  segment_size : UInt64
  max_peer_types : UInt32
  object_handlers : xptr
  request_h : xptr
  port_h : xptr
  ports : xptr
  heap : xptr
  shared : xptr

structure XsegHandle where
  self : UInt64
  segment : UInt64
  segment_size : UInt64
  object_handlers : UInt64
  request_h : UInt64
  port_h : UInt64
  ports : UInt64
  heap : UInt64
  shared : UInt64
  deriving DecidableEq

/-- What a join is answered: whether the types are found, and for an allocation or a mapping the
result or the `errno`. -/
structure JoinCalls where
  peertype : Bool
  segtype : Bool
  xseg : Except Int UInt64
  priv : Except Int UInt64
  page : Except Int MappedSegment
  segment : Except Int MappedSegment
  req_data : Bool
  peer_types : Except Int UInt64
  peer_type_data : Except Int UInt64

inductive JoinBlock where
  | xseg
  | priv
  | req_data
  | peer_types
  deriving DecidableEq

/-- What is given back by a leave, and by a join behind its cleanup labels. -/
inductive JoinCall where
  | unmap (segment size : UInt64)
  | free (what : JoinBlock)
  deriving DecidableEq

/-- The cleanup labels; the last two are reached with the segment mapped. -/
inductive JoinLabel where
  | err
  | err_seg
  | err_priv
  | err_unmap (segment size : UInt64)
  | err_free_types (segment size : UInt64)

/-- How a join fails. `err_no` is not always set, and `memset` may be given a null pointer. -/
inductive JoinStop where
  | goto (label : JoinLabel) (err_no : Option Int)
  | crash

def pointerOk (ptr base size : UInt64) : Int := if base ≤ ptr ∧ ptr < base + size then 0 else 1

def validatePointers (xseg : XsegHandle) : Int :=
  let ok (field : UInt64) : Int := pointerOk field xseg.segment xseg.segment_size
  ok xseg.object_handlers + ok xseg.request_h + ok xseg.port_h + ok xseg.ports + ok xseg.heap +
    ok xseg.shared

def orGoto {α : Type} (label : JoinLabel) (answer : Except Int α) : Except JoinStop α :=
  answer.mapError fun err_no => .goto label (some err_no)

def stopIf (failed : Prop) [Decidable failed] (stop : JoinStop) : Except JoinStop Unit :=
  if failed then .error stop else .ok ()

/-- `xseg_join` up to its table of request data: the new descriptor, the segment and its size.
`version` is `XSEG_VERSION`. -/
def joinMap (version : UInt64) (calls : JoinCalls) :
    Except JoinStop (UInt64 × MappedSegment × UInt64) := do
  stopIf (calls.peertype = false) (.goto .err (some EINVAL))
  stopIf (calls.segtype = false) (.goto .err (some EINVAL))
  let self ← orGoto .err calls.xseg
  let _ ← orGoto .err_seg calls.priv
  let page ← orGoto .err_priv calls.page
  stopIf (page.version ≠ version) (.goto .err_priv (some EPROTO))
  let size := page.segment_size
  let seg ← orGoto .err_priv calls.segment
  -- this failure sets `errno` and not `err_no`
  stopIf (calls.req_data = false) (.goto .err_priv none)
  return (self, seg, size)

def fillHandle (self : UInt64) (seg : MappedSegment) (size : UInt64) : XsegHandle where
  self := self
  segment := seg.addr
  segment_size := size
  object_handlers := seg.addr + seg.object_handlers
  request_h := seg.addr + seg.request_h
  port_h := seg.addr + seg.port_h
  ports := seg.addr + seg.ports
  heap := seg.addr + seg.heap
  shared := seg.addr + seg.shared

/-- The rest of `xseg_join`. -/
def joinFill (calls : JoinCalls) (self : UInt64) (seg : MappedSegment) (size : UInt64) :
    Except JoinStop XsegHandle := do
  let _ ← orGoto (.err_unmap seg.addr size) calls.peer_types
  -- the test after this allocation looks at the one before it
  stopIf (calls.peer_type_data.isOk = false ∧ seg.max_peer_types ≠ 0) .crash
  let xseg := fillHandle self seg size
  stopIf (validatePointers xseg ≠ 0) (.goto (.err_free_types seg.addr size) (some EFAULT))
  return xseg

def joinSteps (version : UInt64) (calls : JoinCalls) : Except JoinStop XsegHandle := do
  let (self, seg, size) ← joinMap version calls
  joinFill calls self seg size

/-- From `err_unmap` on. -/
def errUnmap (segment size : UInt64) (ref : Int32) : Int32 × List JoinCall :=
  let ref := ref - 1
  (ref, (if ref = 0 then [.unmap segment size] else []) ++
    [.free .req_data, .free .priv, .free .xseg])

def cleanup (ref : Int32) : JoinLabel → Int32 × List JoinCall
  | .err => (ref, [])
  | .err_seg => (ref, [.free .xseg])
  | .err_priv => (ref, [.free .priv, .free .xseg])
  | .err_unmap segment size => errUnmap segment size ref
  | .err_free_types segment size =>
    ((errUnmap segment size ref).1, .free .peer_types :: (errUnmap segment size ref).2)

/-- The result, which is `err_no` for a null pointer, the count and what was given back. -/
structure JoinResult where
  ret : Except (Option Int) XsegHandle
  xseg_join_ref : Int32
  calls : List JoinCall

/-- `none` is for a crash. -/
def xsegJoin (version : UInt64) (calls : JoinCalls) (ref : Int32) : Option JoinResult :=
  let ref := ref + 1
  match joinSteps version calls with
  | .ok xseg => some ⟨.ok xseg, ref, []⟩
  | .error (.goto label err_no) =>
    some ⟨.error err_no, (cleanup ref label).1, (cleanup ref label).2⟩
  | .error .crash => none

structure LeaveResult where
  xseg_join_ref : Int32
  held : Bool
  calls : List JoinCall

/-- `found` says whether the type that the configuration of the segment names is there. -/
def xsegLeave (found : Bool) (xseg : XsegHandle) (ref : Int32) : LeaveResult :=
  let ref := ref - 1
  if ref ≠ 0 then ⟨ref, false, []⟩
  else if found = false then ⟨ref, true, []⟩
  else ⟨ref, false, [.unmap xseg.segment xseg.segment_size, .free .xseg]⟩

structure JoinWorld where
  xseg_join_ref : Int32
  held : Bool
  joined : List XsegHandle
  deriving DecidableEq

inductive JoinEvent where
  | join (calls : JoinCalls)
  | leave (xseg : XsegHandle) (found : Bool)

def JoinCalls.counted (version : UInt64) (calls : JoinCalls) : Bool :=
  calls.peertype && calls.segtype && calls.xseg.isOk && calls.priv.isOk &&
    calls.page.toOption.any (·.version == version) && calls.segment.isOk && calls.req_data

def JoinLabel.lowers : JoinLabel → Bool
  | .err_unmap _ _ => true
  | .err_free_types _ _ => true
  | _ => false

namespace JoinWorld

def start : JoinWorld := ⟨0, false, []⟩

def joinedAfter (w : JoinWorld) : Except (Option Int) XsegHandle → List XsegHandle
  | .ok xseg => xseg :: w.joined
  | .error _ => w.joined

/-- A call waits for ever when the mutex is taken; what is left was joined. -/
def perform (version : UInt64) (w : JoinWorld) : JoinEvent → Option JoinWorld
  | .join calls =>
    if w.held then none
    else (xsegJoin version calls w.xseg_join_ref).map fun r =>
      ⟨r.xseg_join_ref, false, w.joinedAfter r.ret⟩
  | .leave xseg found =>
    if w.held ∨ xseg ∉ w.joined then none
    else
      let r := xsegLeave found xseg w.xseg_join_ref
      some ⟨r.xseg_join_ref, r.held, w.joined.erase xseg⟩

def Step (version : UInt64) (w : JoinWorld) (e : JoinEvent) (w' : JoinWorld) : Prop :=
  w.perform version e = some w'

end JoinWorld

section Stops
variable {α β : Type} {p : JoinStop → Prop} {m : Except JoinStop α} {f : α → Except JoinStop β}
  {version : UInt64} {calls : JoinCalls}

def StopsAt (p : JoinStop → Prop) (m : Except JoinStop α) : Prop := ∀ stop, m = .error stop → p stop

theorem StopsAt.bind (hm : StopsAt p m) (hf : ∀ a, StopsAt p (f a)) : StopsAt p (m >>= f) := by
  intro stop h
  cases m with
  | error e =>
    obtain rfl := Except.error.inj h
    exact hm e rfl
  | ok a => exact hf a stop h

theorem stopsAt_ok (a : α) : StopsAt p (.ok a) := by
  intro stop h
  cases h

theorem stopsAt_stopIf {failed : Prop} [Decidable failed] {stop : JoinStop} (h : p stop) :
    StopsAt p (stopIf failed stop) := by
  intro stop' hstop
  unfold stopIf at hstop
  split at hstop
  · cases hstop
    exact h
  · cases hstop

theorem stopsAt_orGoto {label : JoinLabel} {answer : Except Int α}
    (h : ∀ err_no, p (.goto label err_no)) : StopsAt p (orGoto label answer) := by
  intro stop hstop
  cases answer with
  | error e =>
    cases hstop
    exact h _
  | ok a => cases hstop

def JoinStop.Lowers (lowers : Bool) : JoinStop → Prop
  | .goto label _ => label.lowers = lowers
  | .crash => True

theorem joinMap_stops (version : UInt64) (calls : JoinCalls) :
    StopsAt (JoinStop.Lowers false) (joinMap version calls) := by
  unfold joinMap
  refine StopsAt.bind (stopsAt_stopIf rfl) fun _ => ?_
  refine StopsAt.bind (stopsAt_stopIf rfl) fun _ => ?_
  refine StopsAt.bind (stopsAt_orGoto fun _ => rfl) fun self => ?_
  refine StopsAt.bind (stopsAt_orGoto fun _ => rfl) fun priv => ?_
  refine StopsAt.bind (stopsAt_orGoto fun _ => rfl) fun page => ?_
  refine StopsAt.bind (stopsAt_stopIf rfl) fun _ => ?_
  refine StopsAt.bind (stopsAt_orGoto fun _ => rfl) fun seg => ?_
  refine StopsAt.bind (stopsAt_stopIf rfl) fun _ => ?_
  exact stopsAt_ok _

theorem joinFill_stops (calls : JoinCalls) (self : UInt64) (seg : MappedSegment) (size : UInt64) :
    StopsAt (JoinStop.Lowers true) (joinFill calls self seg size) := by
  unfold joinFill
  refine StopsAt.bind (stopsAt_orGoto fun _ => rfl) fun peer_types => ?_
  refine StopsAt.bind (stopsAt_stopIf trivial) fun _ => ?_
  refine StopsAt.bind (stopsAt_stopIf rfl) fun _ => ?_
  exact stopsAt_ok _

theorem isOk_stopIf {failed : Prop} [Decidable failed] (stop : JoinStop)
    (f : Unit → Except JoinStop β) :
    (stopIf failed stop >>= f).isOk = (decide (¬ failed) && (f ()).isOk) := by
  unfold stopIf
  split
  · rename_i h
    rw [decide_eq_false (not_not_intro h)]
    rfl
  · rename_i h
    rw [decide_eq_true h]
    rfl

theorem isOk_orGoto (label : JoinLabel) (answer : Except Int α) (f : α → Except JoinStop β) :
    (orGoto label answer >>= f).isOk = answer.toOption.any fun a => (f a).isOk := by
  cases answer with
  | error e => rfl
  | ok a => rfl

theorem any_toOption (answer : Except Int α) (b : Bool) :
    (answer.toOption.any fun _ => b) = (answer.isOk && b) := by
  cases answer with
  | error e => rfl
  | ok a => rfl

theorem any_and (o : Option α) (q : α → Bool) (b : Bool) :
    (o.any fun a => q a && b) = (o.any q && b) := by
  cases o with
  | none => rfl
  | some a => rfl

theorem joinMap_isOk (version : UInt64) (calls : JoinCalls) :
    (joinMap version calls).isOk = calls.counted version := by
  have hreturn (r : UInt64 × MappedSegment × UInt64) :
      (pure r : Except JoinStop _).isOk = true := rfl
  unfold joinMap JoinCalls.counted
  simp only [isOk_stopIf, isOk_orGoto, hreturn, Bool.and_true, Bool.not_eq_false, ne_eq,
    Decidable.not_not, Bool.decide_eq_true, any_toOption, any_and, beq_eq_decide, Bool.and_assoc]

/-- A join that fails counts itself back exactly when it got its table of request data. -/
theorem joinSteps_stops (version : UInt64) (calls : JoinCalls) :
    StopsAt (JoinStop.Lowers (calls.counted version)) (joinSteps version calls) := by
  intro stop h
  have hcounted := joinMap_isOk version calls
  cases hmap : joinMap version calls with
  | error stop' =>
    rw [joinSteps, hmap] at h
    obtain rfl := Except.error.inj h
    rw [hmap] at hcounted
    rw [← hcounted]
    exact joinMap_stops version calls stop' hmap
  | ok mapped =>
    rw [joinSteps, hmap] at h
    rw [hmap] at hcounted
    rw [← hcounted]
    exact joinFill_stops calls mapped.1 mapped.2.1 mapped.2.2 stop h

theorem counted_of_joinSteps {xseg : XsegHandle} (h : joinSteps version calls = .ok xseg) :
    calls.counted version = true := by
  rw [← joinMap_isOk]
  cases hmap : joinMap version calls with
  | error stop =>
    rw [joinSteps, hmap] at h
    cases h
  | ok mapped => rfl

end Stops

section Count
variable {version : UInt64} {calls : JoinCalls} {ref : Int32} {r : JoinResult} {w w' : JoinWorld}
  {e : JoinEvent} {es : List JoinEvent} {xseg : XsegHandle} {n d : Nat}

theorem cleanup_fst (ref : Int32) (label : JoinLabel) :
    (cleanup ref label).1 = if label.lowers then ref - 1 else ref := by
  cases label <;> rfl

theorem xsegJoin_cases (h : xsegJoin version calls ref = some r) :
    (∃ xseg, r.ret = .ok xseg ∧ calls.counted version = true ∧ r.xseg_join_ref = ref + 1) ∨
      ∃ err_no, r.ret = .error err_no ∧
        r.xseg_join_ref = if calls.counted version then ref else ref + 1 := by
  have hstops := joinSteps_stops version calls
  unfold xsegJoin at h
  cases hsteps : joinSteps version calls with
  | error stop =>
    rw [hsteps] at h
    have hlowers := hstops stop hsteps
    cases stop with
    | crash => cases h
    | goto label err_no =>
      obtain rfl := Option.some.inj h
      refine Or.inr ⟨err_no, rfl, ?_⟩
      have hback : label.lowers = calls.counted version := hlowers
      rw [cleanup_fst, hback, Int32.add_sub_cancel]
  | ok xseg =>
    rw [hsteps] at h
    obtain rfl := Option.some.inj h
    exact Or.inl ⟨xseg, rfl, counted_of_joinSteps hsteps, rfl⟩

theorem xsegLeave_fst (found : Bool) (xseg : XsegHandle) (ref : Int32) :
    (xsegLeave found xseg ref).xseg_join_ref = ref - 1 := by
  unfold xsegLeave
  dsimp only
  split
  · rfl
  · split <;> rfl

theorem unmap_mem_xsegLeave {found : Bool} :
    .unmap xseg.segment xseg.segment_size ∈ (xsegLeave found xseg ref).calls ↔
      ref = 1 ∧ found = true := by
  have hlast : ref - 1 = 0 ↔ ref = 1 := Int32.sub_eq_iff_eq_add
  unfold xsegLeave
  dsimp only
  split
  · rename_i hmore
    exact ⟨fun h => absurd h List.not_mem_nil, fun h => absurd (hlast.mpr h.1) hmore⟩
  · rename_i hmore
    have href : ref = 1 := hlast.mp (not_not.mp hmore)
    split
    · rename_i hfound
      exact ⟨fun h => absurd h List.not_mem_nil, fun h => by rw [hfound] at h; cases h.2⟩
    · rename_i hfound
      exact ⟨fun _ => ⟨href, (Bool.not_eq_false found).mp hfound⟩, fun _ => List.mem_cons_self⟩

def JoinEvent.leaks (version : UInt64) : JoinEvent → Bool
  | .join calls => !calls.counted version
  | .leave _ _ => false

theorem leaks_join (calls : JoinCalls) :
    (JoinEvent.join calls).leaks version = !calls.counted version := rfl

namespace JoinWorld

/-- What a call that returns has done: a join that succeeds or fails, or a leave. -/
theorem step_cases (hstep : Step version w e w') :
    (w'.xseg_join_ref = w.xseg_join_ref + 1 ∧ w'.joined.length = w.joined.length + 1 ∧
      e.leaks version = false) ∨
    (w'.xseg_join_ref = (if e.leaks version then w.xseg_join_ref + 1 else w.xseg_join_ref) ∧
      w'.joined.length = w.joined.length) ∨
    (w'.xseg_join_ref = w.xseg_join_ref - 1 ∧ w.joined.length = w'.joined.length + 1 ∧
      e.leaks version = false) := by
  cases e with
  | join calls =>
    obtain ⟨-, hjoin⟩ := Option.ite_none_left_eq_some.mp hstep
    obtain ⟨r, hr, rfl⟩ := Option.map_eq_some_iff.mp hjoin
    rw [leaks_join]
    rcases xsegJoin_cases hr with ⟨xseg, hret, hcounted, href⟩ | ⟨err_no, hret, href⟩
    · have hjoined : w.joinedAfter r.ret = xseg :: w.joined := by rw [hret]; rfl
      refine Or.inl ⟨href, ?_, ?_⟩
      · rw [hjoined, List.length_cons]
      · rw [hcounted]
        rfl
    · have hjoined : w.joinedAfter r.ret = w.joined := by rw [hret]; rfl
      refine Or.inr (Or.inl ⟨?_, congrArg List.length hjoined⟩)
      rw [href]
      cases calls.counted version <;> rfl
  | leave xseg found =>
    obtain ⟨hfree, hleave⟩ := Option.ite_none_left_eq_some.mp hstep
    obtain ⟨-, hmem⟩ := not_or.mp hfree
    have hmem : xseg ∈ w.joined := not_not.mp hmem
    obtain rfl := Option.some.inj hleave
    have hlen : w.joined.length = (w.joined.erase xseg).length + 1 := by
      have hpos := List.length_pos_of_mem hmem
      rw [List.length_erase_of_mem hmem]
      omega
    exact Or.inr (Or.inr ⟨xsegLeave_fst found xseg w.xseg_join_ref, hlen, rfl⟩)

def Excess (n : Nat) (w : JoinWorld) : Prop :=
  w.xseg_join_ref = Int32.ofNat (w.joined.length + n)

theorem Excess.step (h : w.Excess n) (hstep : Step version w e w') :
    w'.Excess (n + if e.leaks version then 1 else 0) := by
  unfold Excess at h ⊢
  rcases step_cases hstep with ⟨href, hlen, hleaks⟩ | ⟨href, hlen⟩ | ⟨href, hlen, hleaks⟩
  · rw [href, hlen, hleaks, h, Nat.add_right_comm]
    exact (Int32.ofNat_add _ 1).symm
  · rw [href, hlen, h]
    cases e.leaks version with
    | false => rfl
    | true => exact (Int32.ofNat_add _ 1).symm
  · rw [href, hleaks, h, hlen, Nat.add_right_comm, Int32.ofNat_add]
    exact Int32.add_sub_cancel _ 1

theorem joined_add_leaks_le (hstep : Step version w e w') :
    w'.joined.length + (if e.leaks version then 1 else 0) ≤ w.joined.length + 1 := by
  rcases step_cases hstep with ⟨-, hlen, hleaks⟩ | ⟨-, hlen⟩ | ⟨-, hlen, hleaks⟩
  · rw [hlen, hleaks]
    exact le_rfl
  · rw [hlen]
    split <;> omega
  · rw [hleaks, hlen]
    exact Nat.le_add_right_of_le (Nat.le_add_right _ 1)

/-- In every run the count is off by the joins that failed before they had their table of request
data. -/
theorem run_excess (hrun : Run (Step version) start es w) :
    w.Excess (es.countP (JoinEvent.leaks version)) ∧
      w.joined.length + es.countP (JoinEvent.leaks version) ≤ es.length := by
  refine hrun.history (I := fun es w => w.Excess (es.countP (JoinEvent.leaks version)) ∧
    w.joined.length + es.countP (JoinEvent.leaks version) ≤ es.length) ?_ ⟨rfl, le_rfl⟩
  intro es s e t ⟨hexcess, hle⟩ hstep
  have hcount : (es ++ [e]).countP (JoinEvent.leaks version) =
      es.countP (JoinEvent.leaks version) + if e.leaks version then 1 else 0 := by
    rw [List.countP_append, List.countP_singleton]
  rw [hcount]
  refine ⟨hexcess.step hstep, ?_⟩
  have hone := joined_add_leaks_le hstep
  rw [List.length_append, List.length_singleton]
  omega

/-- The count of a run that is not too long is right exactly when no join leaked. -/
theorem run_toInt_iff (hrun : Run (Step version) start es w) (hshort : es.length < 2 ^ 31) :
    w.xseg_join_ref.toInt = w.joined.length ↔ ∀ e ∈ es, e.leaks version = false := by
  obtain ⟨hexcess, hle⟩ := run_excess hrun
  have htoInt : w.xseg_join_ref.toInt =
      ((w.joined.length + es.countP (JoinEvent.leaks version) : Nat) : Int) := by
    rw [hexcess]
    exact Int32.toInt_ofNat_of_lt (hle.trans_lt hshort)
  have hnone : es.countP (JoinEvent.leaks version) = 0 ↔ ∀ e ∈ es, e.leaks version = false := by
    rw [List.countP_eq_zero]
    exact forall₂_congr fun e _ => Bool.eq_false_iff.symm
  rw [← hnone, htoInt]
  omega

/-- What the counting needs of a call: a join gets as far as its table of request data, and the
leave that closes the last join finds the type of the segment. -/
def Sound (version : UInt64) (w : JoinWorld) : JoinEvent → Prop
  | .join calls => calls.counted version = true ∧ w.joined.length < 2 ^ 31 - 1
  | .leave xseg found => w.joined = [xseg] → found = true

def UnmapsLast (w : JoinWorld) : JoinEvent → Prop
  | .join _ => True
  | .leave xseg found => w.joined = [xseg] →
    .unmap xseg.segment xseg.segment_size ∈ (xsegLeave found xseg w.xseg_join_ref).calls

def Exact (w : JoinWorld) : Prop := w.Excess 0 ∧ w.joined.length < 2 ^ 31

theorem Exact.toInt (h : w.Exact) : w.xseg_join_ref.toInt = w.joined.length := by
  obtain ⟨hexcess, hlt⟩ := h
  rw [hexcess]
  exact Int32.toInt_ofNat_of_lt hlt

theorem Exact.step (h : w.Exact) (hstep : Guarded (Step version) (Sound version) w e w') :
    w'.Exact := by
  obtain ⟨hexcess, hlt⟩ := h
  obtain ⟨hsound, hstep⟩ := hstep
  have hkeep := hexcess.step hstep
  have hle := joined_add_leaks_le hstep
  cases e with
  | join calls =>
    obtain ⟨hcounted, hroom⟩ := hsound
    rw [leaks_join, hcounted] at hkeep hle
    exact ⟨hkeep, hle.trans_lt (Nat.add_lt_of_lt_sub hroom)⟩
  | leave xseg found =>
    refine ⟨hkeep, ?_⟩
    obtain ⟨-, hleave⟩ := Option.ite_none_left_eq_some.mp hstep
    obtain rfl := Option.some.inj hleave
    exact List.length_erase_le.trans_lt hlt

theorem Exact.unmapsLast (h : w.Exact) (hsound : Sound version w e) : UnmapsLast w e := by
  cases e with
  | join calls => trivial
  | leave xseg found =>
    intro hlast
    have href : w.xseg_join_ref = 1 := by rw [h.1, hlast]; rfl
    exact unmap_mem_xsegLeave.mpr ⟨href, hsound hlast⟩

theorem run_joins_exact
    (hrun : Run (Guarded (Step version) (Sound version)) start es w) :
    w.xseg_join_ref.toInt = w.joined.length ∧
      Run (Guarded (Step version) UnmapsLast) start es w := by
  have hstart : start.Exact := ⟨rfl, by decide⟩
  have hexact : w.Exact := hrun.invariant Exact.step hstart
  refine ⟨hexact.toInt, ?_⟩
  obtain ⟨w', hrun', -, rfl⟩ := hrun.simulate (T := Guarded (Step version) UnmapsLast)
    (R := fun s s' => s.Exact ∧ s = s')
    (by
      rintro s e t s' ⟨hs, rfl⟩ hstep
      exact ⟨t, ⟨hs.unmapsLast hstep.1, hstep.2⟩, hs.step hstep, rfl⟩)
    ⟨hstart, rfl⟩
  exact hrun'

def anySegment : MappedSegment :=
  ⟨0x100000, 1, 0x8000, 4, 0x1000, 0x2000, 0x3000, 0x4000, 0x5000, 0x6000⟩

def anyJoin : JoinCalls :=
  ⟨true, true, .ok 0x10, .ok 0x20, .ok anySegment, .ok anySegment, true, .ok 0x30, .ok 0x40⟩

def anyHandle : XsegHandle := fillHandle 0x10 anySegment 0x8000

def joinAndLeave : List JoinEvent :=
  [.join anyJoin, .join { anyJoin with peer_types := .error 12 }, .leave anyHandle true]

def missJoinAndLeave : List JoinEvent := [.join { anyJoin with peertype := false },
  .join anyJoin, .leave anyHandle true]

theorem run_joinAndLeave :
    Run (Guarded (Step 1) (Sound 1)) start joinAndLeave ⟨0, false, []⟩ := by
  have hjoin : start.perform 1 (.join anyJoin) = some ⟨1, false, [anyHandle]⟩ := by decide +kernel
  have hfail : perform 1 ⟨1, false, [anyHandle]⟩
      (.join { anyJoin with peer_types := .error 12 }) = some ⟨1, false, [anyHandle]⟩ := by
    decide +kernel
  have hleave : perform 1 ⟨1, false, [anyHandle]⟩ (.leave anyHandle true) =
      some ⟨0, false, []⟩ := by decide +kernel
  refine .cons ⟨⟨rfl, by decide⟩, hjoin⟩ ?_
  exact .cons ⟨⟨rfl, by decide⟩, hfail⟩ (.single ⟨fun _ => rfl, hleave⟩)

theorem run_missJoinAndLeave : Run (Step 1) start missJoinAndLeave ⟨1, false, []⟩ := by
  have hmiss : start.perform 1 (.join { anyJoin with peertype := false }) =
      some ⟨1, false, []⟩ := by decide +kernel
  have hjoin : perform 1 ⟨1, false, []⟩ (.join anyJoin) = some ⟨2, false, [anyHandle]⟩ := by
    decide +kernel
  have hleave : perform 1 ⟨2, false, [anyHandle]⟩ (.leave anyHandle true) =
      some ⟨1, false, []⟩ := by decide +kernel
  exact .cons hmiss (.cons hjoin (.single hleave))

theorem run_joins_exact_joinAndLeave :
    (0 : Int32).toInt = 0 ∧ Run (Guarded (Step 1) UnmapsLast) start joinAndLeave ⟨0, false, []⟩ :=
  run_joins_exact run_joinAndLeave

/-- A join that does not find its peer type is counted for good. -/
theorem not_run_joins_exact : ¬ ∀ (version : UInt64) (es : List JoinEvent) (w : JoinWorld),
    Run (Step version) start es w →
    w.xseg_join_ref.toInt = w.joined.length ∧
      Run (Guarded (Step version) UnmapsLast) start es w := by
  intro hall
  have hcount := (hall 1 missJoinAndLeave ⟨1, false, []⟩ run_missJoinAndLeave).1
  exact absurd hcount (by decide)

end JoinWorld

end Count

end Libxseg

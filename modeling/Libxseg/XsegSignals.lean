import Libxseg.Doorbell
import Libxseg.XsegSignalTypes
import Libxseg.XsegSources

/-!
# Signals between the peers of a segment

The loop of `cmd_finish`, and of the commands that wait for replies: after
`xseg_init_local_signal` a thread calls `xseg_prepare_wait`, then looks into the queue of its
port, and if there is nothing it sleeps in `xseg_wait_signal`. Whoever adds a request to a queue
calls `xseg_signal` next. Reading a slot of the descriptor and sending the signal are steps of
their own. (`cmd_wait` looks first and prepares afterwards, so it relies on its timeout.)
-/

namespace Libxseg

set_option autoImplicit false

open Xseg

/-- The threads of the peers. A thread that waits for its port has a slot of the descriptor that
no other thread has which waits for this port. -/
structure Threads (ι σ : Type) where
  tid : ι → pid_t
  process : ι → pid_t
  port : ι → Option xport
  slot : ι → σ
  /-- the queue that the threads of a port look into -/
  queue : xport → QueueKind
  tid_ne : ∀ i, tid i ≠ 0
  slot_inj : ∀ {i j p}, port i = some p → port j = some p → slot i = slot j → i = j
  queue_ne : ∀ p, queue p ≠ .free

inductive Signaller (σ : Type) where
  | away
  | lookup (p : xport)
  | scanning (p : xport) (slots : List σ)
  | killing (p : xport) (cue : pid_t)

def Signaller.port {σ : Type} : Signaller σ → Option xport
  | .away => none
  | .lookup p => some p
  | .scanning p _ => some p
  | .killing p _ => some p

/-- `pids i` is the thread id that `local_signal_init` has left for thread `i`, and `pending i` says
that SIGIO is pending for it. A thread counts as asleep from the look on that found nothing. -/
structure SignalWorld (ι D σ : Type) where
  world : World ι
  pids : ι → pid_t
  desc : xport → D
  pending : ι → Bool
  sleepers : ι → Sleeper
  signallers : ι → Signaller σ

inductive SignalEvent where
  | call (e : Event)
  | localSignalInit
  /-- a call on the queue of the port that finds nothing, after `xseg_prepare_wait` -/
  | look (e : Event)
  | prepareWait
  | cancelWait
  /-- `sigtimedwait` returns with the signal -/
  | wake
  | timeout
  | signal (p : xport)
  /-- the next step in `xseg_signal` -/
  | signalStep

def Event.posted : Event → Option xport
  | submit _ _ _ r => if r = NoPort then none else some r
  | forward _ _ _ _ r => if r = NoPort then none else some r
  | respond _ _ _ r => if r = NoPort then none else some r
  | _ => none

/-- The call waits for the lock of the queue, and finds the queue empty. -/
inductive Event.FindsNothing : Event → xport → QueueKind → Prop
  | accept {p flags} : flags &&& X_NONBLOCK = 0 → FindsNothing (.accept p flags none) p .request
  | receive {p flags} : flags &&& X_NONBLOCK = 0 → FindsNothing (.receive p flags none) p .reply

namespace SignalWorld
variable {ι D σ : Type} [DecidableEq ι] [DecidableEq σ]

def setSignaller (w : SignalWorld ι D σ) (i : ι) (s : Signaller σ) : SignalWorld ι D σ :=
  { w with signallers := Function.update w.signallers i s }

def signalStep (type : SignalType D σ) (th : Threads ι σ) (w : SignalWorld ι D σ) (i : ι) :
    SignalWorld ι D σ :=
  match w.signallers i with
  | .away => w
  | .lookup p =>
    if (w.world.seg.getPort p).isSome then w.setSignaller i (.scanning p type.slots)
    else w.setSignaller i .away
  | .scanning _ [] => w.setSignaller i .away
  | .scanning p (s :: slots) =>
    let cue := type.cue (w.desc p) s
    w.setSignaller i (if cue ≠ 0 then .killing p cue else .scanning p slots)
  | .killing _ cue =>
    { w.setSignaller i .away with pending := fun j => th.tid j = cue || w.pending j }

/-- Thread `i` has called `local_signal_init`. Where the id is left in a variable of the process,
every thread of the process has it from now on. -/
def localSignalInit (type : SignalType D σ) (th : Threads ι σ) (w : SignalWorld ι D σ) (i : ι) :
    SignalWorld ι D σ :=
  { w with
    pids := fun j =>
      if j = i ∨ type.shared = true ∧ th.process j = th.process i then th.tid i else w.pids j }

inductive Step [Builtins] (type : SignalType D σ) (th : Threads ι σ) (w : SignalWorld ι D σ) :
    ι × SignalEvent → SignalWorld ι D σ → Prop
  | call {i e world} :
      w.signallers i = .away → w.world.Step (i, e) world →
      Step type th w (i, .call e)
        ({ w with world := world }.setSignaller i (e.posted.elim .away .lookup))
  | look {i e world p} :
      w.sleepers i = .signed → th.port i = some p → e.FindsNothing p (th.queue p) →
      w.world.Step (i, e) world →
      Step type th w (i, .look e)
        { w with world := world, sleepers := Function.update w.sleepers i .asleep }
  | localSignalInit {i} :
      Step type th w (i, .localSignalInit) (w.localSignalInit type th i)
  | prepareWait {i p} :
      th.port i = some p →
      Step type th w (i, .prepareWait)
        { w with
          desc := Function.update w.desc p (type.prepareWait (w.desc p) (th.slot i) (w.pids i))
          sleepers := Function.update w.sleepers i .signed }
  | cancelWait {i p} :
      th.port i = some p →
      Step type th w (i, .cancelWait)
        { w with
          desc := Function.update w.desc p (type.cancelWait (w.desc p) (th.slot i) (w.pids i))
          sleepers := Function.update w.sleepers i .awake }
  | wake {i} :
      w.sleepers i = .asleep → w.pending i = true →
      Step type th w (i, .wake)
        { w with
          pending := Function.update w.pending i false
          sleepers := Function.update w.sleepers i .awake }
  | timeout {i} :
      w.sleepers i = .asleep →
      Step type th w (i, .timeout) { w with sleepers := Function.update w.sleepers i .awake }
  | signal {i p} :
      w.signallers i = .away → Step type th w (i, .signal p) (w.setSignaller i (.lookup p))
  | signalStep {i} :
      w.signallers i ≠ .away → Step type th w (i, .signalStep) (w.signalStep type th i)

/-- The threads of a port wait for a request that is there, and nobody is going to wake them. -/
structure Stuck (th : Threads ι σ) (w : SignalWorld ι D σ) (p : xport) : Prop where
  work : w.world.seg.bag p (th.queue p) ≠ 0
  asleep : ∀ i, th.port i = some p → w.sleepers i = .asleep ∧ w.pending i = false
  unsignalled : ∀ k, (w.signallers k).port ≠ some p

end SignalWorld

namespace Xseg
variable {s s' : Xseg} {p : xport}

theorem empty_of_popHead {kind : QueueKind} {port : Port} {q : Xq} (hs : s.Wf)
    (hport : s.getPort p = some port) (hne : ∀ x ∈ s.bag p kind, x ≠ Noneidx)
    (hpop : (port.queue kind).popHead = (Noneidx, q)) : s.bag p kind = 0 := by
  have hq := hs.queues hport kind
  rw [bag_eq hport] at hne ⊢
  cases hl : (port.queue kind).elems with
  | nil => rfl
  | cons x l =>
    rw [hl] at hq hne
    obtain ⟨q', hpop', -, -⟩ := hq.popHead
    have hx : x = Noneidx := congrArg Prod.fst (hpop'.symm.trans hpop)
    exact absurd hx (hne x (Multiset.mem_coe.mpr List.mem_cons_self))

theorem bag_unmapped {kind : QueueKind} (h : s.getPort p = none) : s.bag p kind = 0 := by
  rw [bag, h]

theorem empty_of_accept (hs : s.Wf) (hne : ∀ x ∈ s.bag p .request, x ≠ Noneidx)
    (h : s.accept p = (none, s')) : s.bag p .request = 0 := by
  simp only [accept] at h
  split at h
  · rename_i hport
    exact bag_unmapped hport
  · rename_i port hport
    split at h
    · rename_i hpop
      exact empty_of_popHead hs hport hne (Prod.ext_iff.mpr ⟨hpop, rfl⟩)
    · cases congrArg Prod.fst h

theorem empty_of_receive (hs : s.Wf) (hne : ∀ x ∈ s.bag p .reply, x ≠ Noneidx)
    (h : s.receive p = (.null, s')) : s.bag p .reply = 0 := by
  simp only [receive] at h
  split at h
  · rename_i hport
    exact bag_unmapped hport
  · rename_i port hport
    split at h
    · rename_i hpop
      exact empty_of_popHead hs hport hne (Prod.ext_iff.mpr ⟨hpop, rfl⟩)
    · split at h
      · cases congrArg Prod.fst h
      · cases congrArg Prod.fst h

end Xseg

theorem Event.FindsNothing.posted {e : Event} {p : xport} {kind : QueueKind}
    (h : e.FindsNothing p kind) : e.posted = none := by
  cases h with
  | accept _ => rfl
  | receive _ => rfl

section Queues
variable {ι : Type} {w w' : World ι} {a a' : Flow ι} {i : ι} {e : Event} {p : xport}
  {kind : QueueKind} {x : xptr}

theorem FlowStep.arrives (h : FlowStep a (i, e) a') (hkind : kind ≠ .free)
    (hx : a'.place x = some (.queue p kind)) :
    a.place x = some (.queue p kind) ∨ e.posted = some p := by
  have hlist : (Place.queue p kind : Place ι) ≠ .list := by simp
  have hmoved {b : Flow ι} {y : xptr} {q : Place ι} {l : List xport} {t : xport}
      (hq : q ≠ .queue p kind) (hm : (b.move y q l t).place x = some (.queue p kind)) :
      b.place x = some (.queue p kind) := by
    by_cases hxy : x = y
    · rw [hxy, Flow.place_move_self] at hm
      exact absurd (Option.some.inj hm) hq
    · rwa [Flow.place_move_of_ne hxy] at hm
  have hsent {y : xptr} {r : xport} {kind' : QueueKind} {l : List xport} {t : xport}
      (hm : (a.move y (.queue r kind') l t).place x = some (.queue p kind)) :
      a.place x = some (.queue p kind) ∨ r = p := by
    by_cases hr : r = p
    · exact .inr hr
    · exact .inl (hmoved (fun hq => hr (Place.queue.inj hq).1) hm)
  have hlost {y : xptr} (hm : (a.lose y).place x = some (.queue p kind)) :
      a.place x = some (.queue p kind) := by
    by_cases hxy : x = y
    · simp [Flow.lose, hxy] at hm
    · simpa [Flow.lose, hxy] using hm
  cases h with
  | still _ => exact .inl hx
  | got _ _ _ => exact .inl (Flow.place_of_extend hlist (hmoved (by simp) hx))
  | refused _ _ _ => exact .inl (Flow.place_of_extend hlist (hmoved (by simp) hx))
  | lost _ => exact .inl (hlost hx)
  | drop _ _ => exact .inl (hlost hx)
  | accept _ => exact .inl (hmoved (by simp) hx)
  | receive _ _ => exact .inl (hmoved (by simp) hx)
  | trim _ _ => exact .inl (hmoved (by simp) hx)
  | putFull _ => exact .inl (hmoved (by simp) hx)
  | putObj _ => exact .inl (hmoved (by simp) hx)
  | put _ => exact .inl (hmoved (fun hq => hkind (Place.queue.inj hq).2.symm) hx)
  | submit _ hr => exact (hsent hx).imp_right fun h => (if_neg hr).trans (congrArg some h)
  | forward _ hr => exact (hsent hx).imp_right fun h => (if_neg hr).trans (congrArg some h)
  | respond _ _ hr _ => exact (hsent hx).imp_right fun h => (if_neg hr).trans (congrArg some h)

variable [DecidableEq ι] [Builtins]

theorem World.Step.arrives (h : Refines w a) (hsized : w.seg.Sized) (hstep : w.Step (i, e) w')
    (hkind : kind ≠ .free) (hwork : w'.seg.bag p kind ≠ 0) :
    w.seg.bag p kind ≠ 0 ∨ e.posted = some p := by
  obtain ⟨a', hflow, h'⟩ := hstep.simulates h hsized
  obtain ⟨x, hx⟩ := Multiset.exists_mem_of_ne_zero hwork
  have hplace : a'.place x = some (.queue p kind) := h'.mem_iff.mp hx
  refine (hflow.arrives hkind hplace).imp_left fun hbefore hzero => ?_
  have hmem : x ∈ w.seg.bag p kind := h.mem_iff.mpr hbefore
  rw [hzero] at hmem
  exact Multiset.notMem_zero x hmem

theorem World.Step.empty (h : Refines w a) (hstep : w.Step (i, e) w')
    (hnothing : e.FindsNothing p kind) : w.seg.bag p kind = 0 := by
  have hne : ∀ x ∈ w.seg.bag p kind, x ≠ Noneidx := fun x hx =>
    h.ne_noneidx_of_mem (p := .queue p kind) hx
  cases hnothing with
  | accept hblock =>
    cases hstep with
    | accept _ hcall => exact empty_of_accept h.wf hne hcall
    | acceptBusy _ hbusy => exact absurd hblock hbusy
  | receive hblock =>
    cases hstep with
    | receiveNull _ hcall => exact empty_of_receive h.wf hne hcall
    | receiveBusy _ hbusy => exact absurd hblock hbusy

end Queues

section Board
variable {ι D σ : Type}

/-- What a thread in `xseg_signal` does for the threads of port `p`. -/
def Signaller.ringer (slots : List σ) (p : xport) : Signaller σ → Ringer σ pid_t
  | .away => .away
  | .lookup q => if q = p then .reading slots else .away
  | .scanning q rest => if q = p then .reading rest else .away
  | .killing q cue => if q = p then .ringing cue else .away

theorem Signaller.ringer_ne {s : Signaller σ} {slots : List σ} {p : xport} (h : s.port ≠ some p) :
    s.ringer slots p = .away := by
  cases s with
  | away => rfl
  | lookup q => exact if_neg fun hq => h (congrArg some hq)
  | scanning q rest => exact if_neg fun hq => h (congrArg some hq)
  | killing q cue => exact if_neg fun hq => h (congrArg some hq)

abbrev Threads.At (th : Threads ι σ) (p : xport) : Type := { i : ι // th.port i = some p }

def Threads.register (th : Threads ι σ) (p : xport) : Register (th.At p) σ pid_t where
  slot i := th.slot i
  name i := th.tid i
  slot_injective i j h := Subtype.ext (th.slot_inj i.2 j.2 h)

namespace SignalWorld
variable [DecidableEq σ]

def waiterOf (cue : pid_t) : Option pid_t := if cue = 0 then none else some cue

def bell (type : SignalType D σ) (th : Threads ι σ) (w : SignalWorld ι D σ) (p : xport) :
    Doorbell (th.At p) ι σ pid_t where
  work := w.world.seg.bag p (th.queue p) ≠ 0
  board s := waiterOf (type.cue (w.desc p) s)
  sleepers i := w.sleepers i
  rung i := w.pending i = true
  ringers k := (w.signallers k).ringer type.slots p

variable {type : SignalType D σ} {th : Threads ι σ} {w : SignalWorld ι D σ} {p : xport}

theorem Stuck.not_heard (h : Stuck th w p)
    (hheard : Doorbell.Heard (th.register p) (w.bell type th p)) : False := by
  rcases hheard.work h.work with ⟨i, hi⟩ | ⟨i, hi⟩ | ⟨k, hk⟩
  · exact hi (h.asleep i i.2).1
  · exact absurd hi (Bool.eq_false_iff.mp (h.asleep i i.2).2)
  · have hreach : Doorbell.Reaches (th.register p) ((w.signallers k).ringer type.slots p) := hk
    rw [Signaller.ringer_ne (h.unsignalled k)] at hreach
    exact hreach

section Updates
variable [DecidableEq ι] {i : ι} {q : xport}

omit [DecidableEq σ] in
theorem update_at {α : Type} (g : ι → α) (hi : th.port i = some p) (v : α) :
    (fun j : th.At p => Function.update g i v j) =
      Function.update (fun j : th.At p => g j) ⟨i, hi⟩ v :=
  Function.update_comp_eq_of_injective' g Subtype.val_injective ⟨i, hi⟩ v

omit [DecidableEq σ] in
theorem update_elsewhere {α : Type} (g : ι → α) (hi : th.port i ≠ some p) (v : α) :
    (fun j : th.At p => Function.update g i v j) = fun j : th.At p => g j :=
  Function.update_comp_eq_of_forall_ne' g v fun j hj => hi (hj ▸ j.2)

theorem bell_setSignaller (i : ι) (s : Signaller σ) : (w.setSignaller i s).bell type th p =
    (w.bell type th p).setRinger i (s.ringer type.slots p) := by
  unfold bell setSignaller Doorbell.setRinger
  congr 1
  funext k
  exact Function.apply_update (fun _ s => Signaller.ringer type.slots p s) w.signallers i s k

def setDesc (w : SignalWorld ι D σ) (i : ι) (q : xport) (desc : D) (s : Sleeper) :
    SignalWorld ι D σ :=
  { w with
    desc := Function.update w.desc q desc
    sleepers := Function.update w.sleepers i s }

theorem bell_setDesc_of_ne (hi : th.port i = some q) (hq : q ≠ p) (desc : D) (s : Sleeper) :
    (w.setDesc i q desc s).bell type th p = w.bell type th p := by
  have hport : th.port i ≠ some p := by
    rw [hi]
    exact fun h => hq (Option.some.inj h)
  have hdesc : Function.update w.desc q desc p = w.desc p := Function.update_of_ne hq.symm ..
  unfold bell setDesc
  congr 1
  · funext t
    exact congrArg (fun d => waiterOf (type.cue d t)) hdesc
  · exact update_elsewhere w.sleepers hport s

theorem bell_setDesc (hi : th.port i = some p) {desc : D} {cue : pid_t}
    (hcue : type.cue desc = Function.update (type.cue (w.desc p)) (th.slot i) cue) (s : Sleeper) :
    (w.setDesc i p desc s).bell type th p =
      { w.bell type th p with
        board := Function.update (w.bell type th p).board (th.slot i) (waiterOf cue)
        sleepers := Function.update (w.bell type th p).sleepers ⟨i, hi⟩ s } := by
  have hdesc : Function.update w.desc p desc p = desc := Function.update_self ..
  unfold bell setDesc
  congr 1
  · funext t
    have hslot := Function.apply_update (fun _ c => waiterOf c) (type.cue (w.desc p)) (th.slot i)
      cue t
    rw [← hcue] at hslot
    exact (congrArg (fun d => waiterOf (type.cue d t)) hdesc).trans hslot
  · exact update_at w.sleepers hi s

end Updates

end SignalWorld

namespace SignalWorld
variable [DecidableEq ι] [DecidableEq σ] {type : SignalType D σ} {th : Threads ι σ}
  {w w' : SignalWorld ι D σ} {p q : xport} {i : ι}

def Heard (type : SignalType D σ) (th : Threads ι σ) (w : SignalWorld ι D σ) (p : xport) : Prop :=
  Doorbell.Heard (th.register p) (w.bell type th p)

theorem Heard.prepareWait (h : Heard type th w p) (hi : th.port i = some q) :
    Heard type th
      (w.setDesc i q (type.prepareWait (w.desc q) (th.slot i) (th.tid i)) .signed) p := by
  unfold Heard
  by_cases hq : q = p
  · subst hq
    rw [bell_setDesc hi (type.cue_prepareWait _ _ (th.tid_ne i)), waiterOf, if_neg (th.tid_ne i)]
    exact Doorbell.Heard.sign h ⟨i, hi⟩
  · rw [bell_setDesc_of_ne hi hq]
    exact h

theorem Heard.wake (h : Heard type th w p) (i : ι) (pending : Bool) :
    Heard type th { w with
      pending := Function.update w.pending i pending
      sleepers := Function.update w.sleepers i .awake } p := by
  unfold Heard
  by_cases hi : th.port i = some p
  · have heq : bell type th { w with
        pending := Function.update w.pending i pending
        sleepers := Function.update w.sleepers i .awake } p =
        (w.bell type th p).wake ⟨i, hi⟩ (pending = true) := by
      unfold bell Doorbell.wake
      congr 1
      · exact update_at w.sleepers hi .awake
      · funext j
        rw [← Function.apply_update (fun _ b => b = true)]
        exact congrArg (· = true) (congrFun (update_at w.pending hi pending) j)
    rw [heq]
    exact Doorbell.Heard.wake h ⟨i, hi⟩ _
  · have heq : bell type th { w with
        pending := Function.update w.pending i pending
        sleepers := Function.update w.sleepers i .awake } p = w.bell type th p := by
      unfold bell
      congr 1
      · exact update_elsewhere w.sleepers hi .awake
      · funext j
        exact congrArg (· = true) (congrFun (update_elsewhere w.pending hi pending) j)
    rw [heq]
    exact h

theorem Heard.timeout (h : Heard type th w p) (i : ι) :
    Heard type th { w with sleepers := Function.update w.sleepers i .awake } p := by
  have hwake := h.wake i (w.pending i)
  rw [Function.update_eq_self] at hwake
  exact hwake

theorem Heard.cancelWait (h : Heard type th w p) (hi : th.port i = some q) (pid : pid_t) :
    Heard type th (w.setDesc i q (type.cancelWait (w.desc q) (th.slot i) pid) .awake) p := by
  by_cases hq : q = p
  · subst hq
    unfold Heard
    rcases type.cue_cancelWait (w.desc q) (th.slot i) pid with hcue | hcue
    · -- `pthread_cancel_wait` without an id leaves the name where it is
      have hupdate : type.cue (type.cancelWait (w.desc q) (th.slot i) pid) =
          Function.update (type.cue (w.desc q)) (th.slot i) (type.cue (w.desc q) (th.slot i)) := by
        rw [hcue, Function.update_eq_self]
      have hboard : (w.bell type th q).board (th.slot i) =
          waiterOf (type.cue (w.desc q) (th.slot i)) := rfl
      have hrung : (w.bell type th q).rung = Function.update (w.bell type th q).rung ⟨i, hi⟩
          ((w.bell type th q).rung ⟨i, hi⟩) := (Function.update_eq_self ..).symm
      rw [bell_setDesc hi hupdate, ← hboard, Function.update_eq_self]
      have hwake := Doorbell.Heard.wake h ⟨i, hi⟩ ((w.bell type th q).rung ⟨i, hi⟩)
      rw [Doorbell.wake, ← hrung] at hwake
      exact hwake
    · rw [bell_setDesc hi hcue, waiterOf, if_pos rfl]
      exact Doorbell.Heard.wipe h ⟨i, hi⟩
  · unfold Heard
    rw [bell_setDesc_of_ne hi hq]
    exact h

theorem Heard.setSignaller (h : Heard type th w p) {s : Signaller σ}
    (hreach : w.world.seg.bag p (th.queue p) ≠ 0 → (∀ j : th.At p, w.sleepers j = .asleep) →
      Doorbell.Reaches (th.register p) ((w.signallers i).ringer type.slots p) →
      Doorbell.Reaches (th.register p) (s.ringer type.slots p)) :
    Heard type th (w.setSignaller i s) p := by
  unfold Heard
  rw [bell_setSignaller]
  exact Doorbell.Heard.goOn h hreach

/-- Whoever signals another port does nothing for the threads of port `p`. -/
theorem Heard.elsewhere (h : Heard type th w p) (hport : (w.signallers i).port ≠ some p)
    (s : Signaller σ) : Heard type th (w.setSignaller i s) p := by
  refine h.setSignaller fun _ _ hreach => ?_
  rw [Signaller.ringer_ne hport] at hreach
  exact absurd hreach id

theorem Heard.lookup (h : Heard type th w p) (hs : w.signallers i = .lookup q) :
    Heard type th (if (w.world.seg.getPort q).isSome then w.setSignaller i (.scanning q type.slots)
      else w.setSignaller i .away) p := by
  by_cases hq : q = p
  · subst hq
    split
    · refine h.setSignaller fun _ _ hreach => ?_
      rw [hs] at hreach
      exact hreach
    · rename_i hport
      exact h.setSignaller fun hwork _ _ =>
        absurd (bag_unmapped (Option.not_isSome_iff_eq_none.mp hport)) hwork
  · have hport : (w.signallers i).port ≠ some p := by
      rw [hs]
      exact fun he => hq (Option.some.inj he)
    split
    · exact h.elsewhere hport _
    · exact h.elsewhere hport _

theorem Heard.scan (h : Heard type th w p) {s : σ} {slots : List σ}
    (hs : w.signallers i = .scanning q (s :: slots)) :
    Heard type th (w.setSignaller i (if type.cue (w.desc q) s ≠ 0 then
      .killing q (type.cue (w.desc q) s) else .scanning q slots)) p := by
  by_cases hq : q = p
  · subst hq
    have hreading : (w.bell type th q).ringers i = .reading (s :: slots) :=
      (congrArg (Signaller.ringer type.slots q) hs).trans (if_pos rfl)
    have hread := Doorbell.Heard.read h hreading
    unfold Heard
    rw [bell_setSignaller]
    have hboard : (w.bell type th q).board s = waiterOf (type.cue (w.desc q) s) := rfl
    rw [hboard] at hread
    by_cases hcue : type.cue (w.desc q) s = 0
    · rw [waiterOf, if_pos hcue] at hread
      rw [if_neg (not_not_intro hcue), Signaller.ringer, if_pos rfl]
      exact hread
    · rw [waiterOf, if_neg hcue] at hread
      rw [if_pos hcue, Signaller.ringer, if_pos rfl]
      exact hread
  · refine h.elsewhere ?_ _
    rw [hs]
    exact fun he => hq (Option.some.inj he)

theorem Heard.nobody (h : Heard type th w p) (hs : w.signallers i = .scanning q []) :
    Heard type th (w.setSignaller i .away) p := by
  by_cases hq : q = p
  · subst hq
    unfold Heard
    rw [bell_setSignaller]
    exact Doorbell.Heard.leave h ((congrArg (Signaller.ringer type.slots q) hs).trans (if_pos rfl))
  · refine h.elsewhere ?_ _
    rw [hs]
    exact fun he => hq (Option.some.inj he)

theorem Heard.kill (h : Heard type th w p) {cue : pid_t} (hs : w.signallers i = .killing q cue) :
    Heard type th { w.setSignaller i .away with
      pending := fun j => th.tid j = cue || w.pending j } p := by
  have hring := Doorbell.Heard.ring (k := i) (n := cue) h fun hreach => by
    have hreach : Doorbell.Reaches (th.register p) ((w.signallers i).ringer type.slots p) := hreach
    rw [hs, Signaller.ringer] at hreach
    split at hreach
    · exact hreach
    · exact absurd hreach id
  have heq : bell type th { w.setSignaller i .away with
      pending := fun j => th.tid j = cue || w.pending j } p =
      (w.bell type th p).ring (th.register p) i cue := by
    unfold bell Doorbell.ring
    congr 1
    · funext j
      simp [Threads.register]
    · exact congrArg Doorbell.ringers (bell_setSignaller i .away)
  unfold Heard
  rw [heq]
  exact hring

theorem Heard.signalStep (h : Heard type th w p) (i : ι) :
    Heard type th (w.signalStep type th i) p := by
  unfold SignalWorld.signalStep
  cases hs : w.signallers i with
  | away => exact h
  | lookup q => exact h.lookup hs
  | scanning q slots =>
    cases slots with
    | nil => exact h.nobody hs
    | cons s slots => exact h.scan hs
  | killing q cue => exact h.kill hs

variable {world : World ι} {a : Flow ι} {e : Event}

omit [DecidableEq ι] in
theorem bell_world (type : SignalType D σ) (th : Threads ι σ) (w : SignalWorld ι D σ)
    (world : World ι) (p : xport) : bell type th { w with world := world } p =
      { w.bell type th p with work := world.seg.bag p (th.queue p) ≠ 0 } := rfl

theorem signalStep_world (i : ι) : (w.signalStep type th i).world = w.world := by
  unfold SignalWorld.signalStep
  cases w.signallers i with
  | away => rfl
  | lookup q =>
    dsimp only
    split
    · rfl
    · rfl
  | scanning q slots =>
    cases slots with
    | nil => rfl
    | cons s slots => rfl
  | killing q cue => rfl

variable [Builtins]

theorem Heard.call (h : Heard type th w p) (j : th.At p) (hr : Refines w.world a)
    (hsized : w.world.seg.Sized) (haway : w.signallers i = .away)
    (hstep : w.world.Step (i, e) world) :
    Heard type th ({ w with world := world }.setSignaller i (e.posted.elim .away .lookup)) p := by
  unfold Heard
  rw [bell_setSignaller, bell_world]
  by_cases hposted : e.posted = some p
  · have hslots : ∃ i, (th.register p).slot i ∈ type.slots := ⟨j, type.mem_slots _⟩
    rw [hposted, Option.elim_some, Signaller.ringer, if_pos rfl]
    exact Doorbell.Heard.post h hslots _
  · have htake := Doorbell.Heard.take h fun hwork =>
      (hstep.arrives hr hsized (th.queue_ne p) hwork).resolve_right hposted
    refine htake.goOn fun _ _ hreach => ?_
    have hreach : Doorbell.Reaches (th.register p) ((w.signallers i).ringer type.slots p) := hreach
    rw [haway] at hreach
    exact absurd hreach id

theorem Heard.look (h : Heard type th w p) (hr : Refines w.world a) (hsized : w.world.seg.Sized)
    (hsigned : w.sleepers i = .signed) (hi : th.port i = some q)
    (hnothing : e.FindsNothing q (th.queue q)) (hstep : w.world.Step (i, e) world) :
    Heard type th { w with
      world := world, sleepers := Function.update w.sleepers i .asleep } p := by
  have hposted : e.posted ≠ some p := by
    rw [hnothing.posted]
    exact (Option.some_ne_none p).symm
  have hwork : world.seg.bag p (th.queue p) ≠ 0 → w.world.seg.bag p (th.queue p) ≠ 0 :=
    fun hwork => (hstep.arrives hr hsized (th.queue_ne p) hwork).resolve_right hposted
  have htake := Doorbell.Heard.take h hwork
  unfold Heard
  by_cases hq : q = p
  · subst hq
    have heq : bell type th { w with
        world := world, sleepers := Function.update w.sleepers i .asleep } q =
        Doorbell.sleep { w.bell type th q with work := world.seg.bag q (th.queue q) ≠ 0 }
          ⟨i, hi⟩ := by
      unfold bell Doorbell.sleep
      congr 1
      exact update_at w.sleepers hi .asleep
    rw [heq]
    exact htake.sleep hsigned fun hw => hwork hw (hstep.empty hr hnothing)
  · have hport : th.port i ≠ some p := by
      rw [hi]
      exact fun he => hq (Option.some.inj he)
    have heq : bell type th { w with
        world := world, sleepers := Function.update w.sleepers i .asleep } p =
        { w.bell type th p with work := world.seg.bag p (th.queue p) ≠ 0 } := by
      unfold bell
      congr 1
      exact update_elsewhere w.sleepers hport .asleep
    rw [heq]
    exact htake

def Orderly (w : SignalWorld ι D σ) (b : ι × SignalEvent) : Prop :=
  w.world.seg.Sized ∧ match b.2 with
    | .call e => e.Mapped w.world.seg
    | .look e => e.Mapped w.world.seg
    | .prepareWait => w.pids b.1 ≠ 0
    | _ => True

def Owned (th : Threads ι σ) (w : SignalWorld ι D σ) : Prop :=
  ∀ i, w.pids i = 0 ∨ w.pids i = th.tid i

omit [Builtins] in
theorem signalStep_pids (i : ι) : (w.signalStep type th i).pids = w.pids := by
  unfold SignalWorld.signalStep
  cases w.signallers i with
  | away => rfl
  | lookup q =>
    dsimp only
    split
    · rfl
    · rfl
  | scanning q slots =>
    cases slots with
    | nil => rfl
    | cons s slots => rfl
  | killing q cue => rfl

omit [Builtins] in
theorem Owned.localSignalInit (h : Owned th w)
    (hone : type.shared = true → Function.Injective th.process) (i : ι) :
    Owned th (w.localSignalInit type th i) := by
  intro j
  unfold SignalWorld.localSignalInit
  dsimp only
  split
  · rename_i hj
    rcases hj with rfl | ⟨hshared, hprocess⟩
    · exact .inr rfl
    · rw [hone hshared hprocess]
      exact .inr rfl
  · exact h j

theorem Step.owned {b : ι × SignalEvent} (h : Owned th w)
    (hone : type.shared = true → Function.Injective th.process) (hstep : Step type th w b w') :
    Owned th w' := by
  cases hstep with
  | @localSignalInit i => exact h.localSignalInit hone i
  | @signalStep i _ =>
    intro j
    rw [signalStep_pids]
    exact h j
  | _ => exact h

theorem Step.heard {b : ι × SignalEvent} (h : Heard type th w p) (j : th.At p)
    (hr : Refines w.world a) (howned : Owned th w) (hok : w.Orderly b)
    (hstep : Step type th w b w') : Heard type th w' p := by
  cases hstep with
  | call haway hstep => exact h.call j hr hok.1 haway hstep
  | look hsigned hi hnothing hstep => exact h.look hr hok.1 hsigned hi hnothing hstep
  | localSignalInit => exact h
  | @prepareWait i _ hi =>
    have hpid : w.pids i = th.tid i := (howned i).resolve_left hok.2
    rw [hpid]
    exact h.prepareWait hi
  | @cancelWait i _ hi => exact h.cancelWait hi (w.pids i)
  | @wake i _ _ => exact h.wake i false
  | @timeout i _ => exact h.timeout i
  | signal haway => exact h.elsewhere (by rw [haway]; exact (Option.some_ne_none p).symm) _
  | @signalStep i _ => exact h.signalStep i

theorem Step.keeping {b : ι × SignalEvent} (h : Keeping w.world a) (hok : w.Orderly b)
    (hstep : Step type th w b w') : ∃ a', Keeping w'.world a' := by
  cases hstep with
  | call _ hstep => exact h.step hok.1 hok.2 hstep
  | look _ _ _ hstep => exact h.step hok.1 hok.2 hstep
  | @signalStep i _ =>
    rw [signalStep_world]
    exact ⟨a, h⟩
  | _ => exact ⟨a, h⟩

structure Start (type : SignalType D σ) (w : SignalWorld ι D σ) : Prop where
  world : Libxseg.Start w.world
  pids : ∀ i, w.pids i = 0
  desc : ∀ p, w.desc p = type.init
  sleepers : ∀ i, w.sleepers i = .awake

omit [DecidableEq ι] in
theorem Start.heard (h : Start type w) (p : xport) : Heard type th w p := by
  refine Doorbell.heard_start (fun s => ?_) (fun i => h.sleepers i) fun hwork => ?_
  · have hcue : type.cue (w.desc p) s = 0 := by
      rw [h.desc p, type.cue_init]
    exact if_pos hcue
  · exact hwork (h.world.bag p _)

/-- In every run, no thread that waits for its port sleeps while there is a request for it, unless
some thread of the port is awake or SIGIO is pending for one, or somebody is about to signal the
port. Where the thread id is left in a variable of the process, a process has one thread. -/
theorem run_not_stuck {bs : List (ι × SignalEvent)} (hs : Start type w)
    (hone : type.shared = true → Function.Injective th.process)
    (h : Run (Guarded (Step type th) Orderly) w bs w') (hi : th.port i = some p) :
    ¬ Stuck th w' p := by
  have hinv := h.invariant
    (I := fun w => (∃ a, Keeping w.world a) ∧ Owned th w ∧ Heard type th w p)
    (by
      rintro s b t ⟨⟨a, ha⟩, howned, hheard⟩ ⟨hok, hstep⟩
      exact ⟨Step.keeping ha hok hstep, Step.owned howned hone hstep,
        Step.heard hheard ⟨i, hi⟩ ha.refines howned hok hstep⟩)
    ⟨⟨Flow.start w.world, hs.world.keeping⟩, fun i => .inl (hs.pids i), hs.heard p⟩
  exact fun hstuck => hstuck.not_heard hinv.2.2

end SignalWorld

end Board

namespace SignalWorld

def twoThreads : Threads Bool Unit where
  tid i := if i then 101 else 100
  process i := if i then 101 else 100
  port i := if i then none else some 1
  slot _ := ()
  queue _ := .request
  tid_ne := by decide
  slot_inj {i j p} hi hj _ := by
    cases i with
    | true => cases hi
    | false =>
      cases j with
      | true => cases hj
      | false => rfl
  queue_ne _ := by decide

theorem twoThreads_process : Function.Injective twoThreads.process := by
  intro i j h
  cases i with
  | true =>
    cases j with
    | true => rfl
    | false => exact absurd h (by decide)
  | false =>
    cases j with
    | true => exact absurd h (by decide)
    | false => rfl

/-- Thread `true` gets a request for port 0 and sends it to port 1, while thread `false` does
nothing. -/
theorem two_steps [Builtins] {s0 : Xseg} (hs0 : s0 = madeSeg 4 1024) (w : World Bool)
    (hw : w.seg = s0) (hpeer : w.peers true = ⟨[], .idle⟩) : ∃ w₁ w₂ w₃,
    w.Step (true, .miss 0 1 0) w₁ ∧ w₁.Step (true, .got 0 1 0 4096) w₂ ∧
      w₂.Step (true, .submit 4096 0 0 1) w₃ ∧ w₁.seg = s0 ∧ w₂.seg.Sized ∧
      w₃.seg.bag 1 .request ≠ 0 := by
  have h0 : s0.getPort 0 = some madePort := by rw [hs0]; exact madeSeg_getPort (by decide)
  obtain ⟨s1, s2, s3, q3, hget, hdone, hsub, -, hk2, hother2, hch3, hq3, -⟩ :=
    submitted_calls 0 hs0
  obtain rfl := hw
  refine ⟨_, _, _, miss_step (by decide) hpeer h0 (madePort_holding .free).repr 1,
    got_step (act_peers_self ..) h0 (by simp) hget hdone,
    submit_step 0 (act_peers_self ..) (List.mem_singleton_self _) (by decide) hsub, rfl,
    sized_of_others hs0 hk2 rfl hother2, ?_⟩
  have hbag : s3.bag 1 .request = ↑[(4096 : xptr)] := by
    rw [bag_eq hch3.port, Port.queue_setQueue, hq3.repr.elems_eq]
  rw [act_seg, hbag]
  intro hzero
  exact Multiset.notMem_zero (4096 : xptr) (hzero ▸ Multiset.mem_coe.mpr List.mem_cons_self)

/-- Thread `false` has gone to sleep when thread `true` sends a request to port 1. -/
theorem run_not_stuck_two : ∃ _ : Builtins, ∃ bs, ∃ w w' : SignalWorld Bool _ _,
    Start xsegPosix w ∧ Run (Guarded (Step xsegPosix twoThreads) Orderly) w bs w' ∧
    w'.world.seg.bag 1 .request ≠ 0 ∧ w'.sleepers false = .asleep ∧ w'.pending false = false ∧
    ¬ Stuck twoThreads w' 1 := by
  let _ : Builtins := ⟨0⟩
  obtain ⟨w, hw⟩ : ∃ w : World Bool, w = ⟨madeSeg 4 1024, fun _ => ⟨[], .idle⟩⟩ := ⟨_, rfl⟩
  have hseg : w.seg = madeSeg 4 1024 := by rw [hw]
  have hpeer (i : Bool) : w.peers i = ⟨[], .idle⟩ := by rw [hw]
  have hsized : w.seg.Sized := by rw [hseg]; exact madeSeg_sized
  have hport (p : xport) (hp : p < 4) : w.seg.getPort p = some madePort := by
    rw [hseg]
    exact madeSeg_getPort hp
  have hmapped : (w.seg.getPort 0).isSome ∧ (w.seg.getPort 1).isSome := by
    simp [hport 0 (by decide), hport 1 (by decide)]
  have haccept : w.seg.accept 1 = (none, w.seg) := by
    simp only [accept, hport 1 (by decide), (madePort_holding .request).repr.popHead_nil,
      setPort_self (hport 1 (by decide)), if_true]
  have hidle : (w.peers false).pc = .idle := by rw [hpeer]
  obtain ⟨w₀, hlook, hseg₀, hpeer₀⟩ : ∃ w₀, w.Step (false, .accept 1 0 none) w₀ ∧
      w₀.seg = w.seg ∧ w₀.peers true = ⟨[], .idle⟩ :=
    ⟨_, .accept hidle haccept, rfl, (act_peers_of_ne (by decide) _ _).trans (hpeer true)⟩
  obtain ⟨w₁, w₂, w₃, hmiss, hgot, hsubmit, hseg₁, hsized₂, hwork⟩ :=
    two_steps hseg w₀ hseg₀ hpeer₀
  have hstart : Start xsegPosix (⟨w, fun _ => 0, fun _ => ⟨0⟩,
      fun _ => false, fun _ => .awake, fun _ => .away⟩ : SignalWorld Bool _ _) := by
    refine ⟨?_, fun _ => rfl, fun _ => rfl, fun _ => rfl⟩
    rw [hw]
    exact madeSeg_start (by decide)
  have hready {s : Xseg} (hs : s = w.seg) :
      s.Sized ∧ (s.getPort 0).isSome ∧ (s.getPort 1).isSome := by
    rw [hs]
    exact ⟨hsized, hmapped⟩
  have hrun : Run (Guarded (Step xsegPosix twoThreads) Orderly)
      (⟨w, fun _ => 0, fun _ => ⟨0⟩, fun _ => false, fun _ => .awake,
        fun _ => .away⟩ : SignalWorld Bool _ _)
      [(false, .localSignalInit), (false, .prepareWait), (false, .look (.accept 1 0 none)),
        (true, .call (.miss 0 1 0)), (true, .call (.got 0 1 0 4096)),
        (true, .call (.submit 4096 0 0 1))] _ :=
    .cons ⟨⟨hsized, trivial⟩, .localSignalInit⟩ <|
    .cons ⟨⟨hsized, show (100 : pid_t) ≠ 0 by decide⟩, .prepareWait rfl⟩ <|
    .cons ⟨⟨hsized, trivial⟩, .look rfl rfl (.accept rfl) hlook⟩ <|
    .cons ⟨hready hseg₀, .call rfl hmiss⟩ <|
    .cons ⟨hready hseg₁, .call rfl hgot⟩ <|
    .single ⟨⟨hsized₂, trivial⟩, .call rfl hsubmit⟩
  exact ⟨⟨0⟩, _, _, _, hstart, hrun, hwork, rfl, rfl,
    run_not_stuck hstart (fun _ => twoThreads_process) hrun (i := false) rfl⟩

end SignalWorld

end Libxseg

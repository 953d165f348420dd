import Mathlib.Logic.Function.Basic
import Libxseg.Transition
import Libxseg.Xobj

/-!
# xseg_posixfd: signals through a flag and a named pipe

The owner of a port says in a flag whether it wants to be signalled and sleeps on a
pipe. The receiver is the loop of `cmd_finish`: it sets the flag, drains the pipe and
only then looks into its queue. A sender enqueues first and reads the flag then.

Every access to the flag, to the pipe and to the queue is a step of its own; the queue
has its own lock, so one that takes or adds a request is one step. The pipe is open at
both ends (the receiver has it open for reading and writing), opening and closing it
once more changes nothing. The results of the calls are left out, the loop ignores them.
-/

namespace Libxseg

set_option autoImplicit false

/-- A pipe has room for a byte at least, and its descriptors do not block. -/
structure Pipe where
  capacity : Nat
  bytes : Nat
  room : 0 < capacity

namespace Pipe

/-- `read` of up to `size` bytes; an empty pipe gives -1 and EAGAIN. -/
def read (pipe : Pipe) (size : Nat) : Pipe × Option Nat :=
  if pipe.bytes = 0 then (pipe, none)
  else ({ pipe with bytes := pipe.bytes - min size pipe.bytes }, some (min size pipe.bytes))

def write (pipe : Pipe) : Pipe :=
  if pipe.bytes < pipe.capacity then { pipe with bytes := pipe.bytes + 1 } else pipe

theorem write_bytes_pos (pipe : Pipe) : 0 < pipe.write.bytes := by
  unfold write
  split
  · exact Nat.succ_pos _
  · have hroom := pipe.room
    omega

end Pipe

structure PosixfdPort where
  flag : Int32
  pipe : Pipe
  request_queue : List xptr

inductive PosixfdReceiver where
  /-- at `psd->flag = 1` in `posixfd_prepare_wait` -/
  | prepareWait
  /-- at the `read` in `posixfd_prepare_wait` -/
  | prepareDrain
  /-- at `xseg_accept` -/
  | accept
  /-- at `psd->flag = 0` in `posixfd_cancel_wait` -/
  | cancelWait (req : xptr)
  /-- at the `read` in `posixfd_cancel_wait` -/
  | cancelDrain (req : xptr)
  | process (req : xptr)
  /-- at the `select` in `posixfd_wait_signal` -/
  | select
  /-- at the `read` in `posixfd_wait_signal` -/
  | waitDrain
  deriving DecidableEq, Repr

inductive PosixfdSender where
  | outside
  /-- at the test of `psd->flag` in `posixfd_signal` -/
  | signal
  /-- at the `write` in `posixfd_signal` -/
  | write
  deriving DecidableEq, Repr

namespace PosixfdPort

def drain (port : PosixfdPort) (again done : PosixfdReceiver) : PosixfdPort × PosixfdReceiver :=
  let (pipe, len) := port.pipe.read 512
  ({ port with pipe := pipe }, if len = some 512 then again else done)

def receive (port : PosixfdPort) : PosixfdReceiver → PosixfdPort × PosixfdReceiver
  | .prepareWait => ({ port with flag := 1 }, .prepareDrain)
  | .prepareDrain => port.drain .prepareDrain .accept
  | .accept =>
    match port.request_queue with
    | [] => (port, .select)
    | req :: rest => ({ port with request_queue := rest }, .cancelWait req)
  | .cancelWait req => ({ port with flag := 0 }, .cancelDrain req)
  | .cancelDrain req => port.drain (.cancelDrain req) (.process req)
  | .process _ => (port, .prepareWait)
  | .select => (port, if port.pipe.bytes = 0 then .select else .waitDrain)
  | .waitDrain => port.drain .waitDrain .prepareWait

theorem drain_receiver (port : PosixfdPort) (again done : PosixfdReceiver) :
    (port.drain again done).2 = again ∨ (port.drain again done).2 = done := by
  unfold drain
  dsimp only
  split
  · exact .inl rfl
  · exact .inr rfl

end PosixfdPort

inductive PosixfdEvent (θ : Type) where
  /-- the next step of the receiver -/
  | receive
  /-- the `select` is interrupted or its time is over -/
  | timeout
  /-- `xseg_submit` by a sender that goes on to `xseg_signal` -/
  | submit (t : θ) (req : xptr)
  /-- the next step of a sender in `posixfd_signal` -/
  | signal (t : θ)

structure PosixfdWorld (θ : Type) where
  port : PosixfdPort
  receiver : PosixfdReceiver
  senders : θ → PosixfdSender

namespace PosixfdWorld
variable {θ : Type}

/-- The receiver sleeps although there is a request for it, and nobody is going to wake it. -/
def Lost (w : PosixfdWorld θ) : Prop :=
  w.receiver = .select ∧ w.port.pipe.bytes = 0 ∧ w.port.request_queue ≠ [] ∧
    ∀ t, w.senders t = .outside

def init (port : PosixfdPort) : PosixfdWorld θ := ⟨port, .prepareWait, fun _ => .outside⟩

def advance (w : PosixfdWorld θ) : PosixfdWorld θ :=
  let (port, receiver) := w.port.receive w.receiver
  { w with port := port, receiver := receiver }

/-- The flag is up from before the last look on, and what came after that look has a byte in the
pipe or a sender who will write one. -/
structure Inv (w : PosixfdWorld θ) : Prop where
  flagged : w.receiver = .prepareDrain ∨ w.receiver = .accept ∨ w.receiver = .select →
    w.port.flag = 1
  woken : w.receiver = .select → w.port.request_queue ≠ [] →
    0 < w.port.pipe.bytes ∨ ∃ t, w.senders t ≠ .outside

theorem Inv.not_lost {w : PosixfdWorld θ} (h : Inv w) : ¬ w.Lost := by
  rintro ⟨hselect, hempty, hqueue, houtside⟩
  rcases h.woken hselect hqueue with hbytes | ⟨t, ht⟩
  · omega
  · exact ht (houtside t)

theorem inv_init (port : PosixfdPort) : Inv (init (θ := θ) port) := by
  constructor
  · rintro (hplace | hplace | hplace) <;> cases hplace
  · intro hselect
    cases hselect

/-- A place that is neither the sleep nor on the way from the flag to it. -/
theorem inv_awake {w : PosixfdWorld θ} (hprepare : w.receiver ≠ .prepareDrain)
    (haccept : w.receiver ≠ .accept) (hselect : w.receiver ≠ .select) : Inv w := by
  constructor
  · rintro (hplace | hplace | hplace)
    · exact absurd hplace hprepare
    · exact absurd hplace haccept
    · exact absurd hplace hselect
  · exact fun hplace => absurd hplace hselect

theorem inv_flagged {w : PosixfdWorld θ} (hflag : w.port.flag = 1)
    (hselect : w.receiver ≠ .select) : Inv w :=
  ⟨fun _ => hflag, fun hplace => absurd hplace hselect⟩

theorem advance_receiver {w : PosixfdWorld θ} {place : PosixfdReceiver} (h : w.receiver = place) :
    w.advance.receiver = (w.port.receive place).2 := by
  subst h
  rfl

theorem advance_port {w : PosixfdWorld θ} {place : PosixfdReceiver} (h : w.receiver = place) :
    w.advance.port = (w.port.receive place).1 := by
  subst h
  rfl

theorem Inv.advance {w : PosixfdWorld θ} (h : Inv w) : Inv w.advance := by
  cases hplace : w.receiver with
  | prepareWait =>
    have hport := advance_port hplace
    have hreceiver := advance_receiver hplace
    apply inv_flagged
    · rw [hport]
      rfl
    · rw [hreceiver]
      exact PosixfdReceiver.noConfusion
  | prepareDrain =>
    have hport := advance_port hplace
    apply inv_flagged
    · rw [hport]
      exact h.flagged (.inl hplace)
    · rw [advance_receiver hplace]
      rcases w.port.drain_receiver .prepareDrain .accept with hnext | hnext
      · exact ne_of_eq_of_ne hnext PosixfdReceiver.noConfusion
      · exact ne_of_eq_of_ne hnext PosixfdReceiver.noConfusion
  | accept =>
    have hflag : w.port.flag = 1 := h.flagged (.inr (.inl hplace))
    have hport := advance_port hplace
    have hreceiver := advance_receiver hplace
    unfold PosixfdPort.receive at hport hreceiver
    cases hqueue : w.port.request_queue with
    | nil =>
      rw [hqueue] at hport hreceiver
      constructor
      · rw [hport]
        exact fun _ => hflag
      · rw [hport]
        exact fun _ hne => absurd hqueue hne
    | cons req rest =>
      rw [hqueue] at hport hreceiver
      apply inv_flagged
      · rw [hport]
        exact hflag
      · rw [hreceiver]
        exact PosixfdReceiver.noConfusion
  | cancelWait req =>
    have hreceiver := advance_receiver hplace
    apply inv_awake <;> rw [hreceiver] <;> exact PosixfdReceiver.noConfusion
  | cancelDrain req =>
    have hreceiver := advance_receiver hplace
    rcases w.port.drain_receiver (.cancelDrain req) (.process req) with hnext | hnext
    · apply inv_awake <;> exact ne_of_eq_of_ne (hreceiver.trans hnext) PosixfdReceiver.noConfusion
    · apply inv_awake <;> exact ne_of_eq_of_ne (hreceiver.trans hnext) PosixfdReceiver.noConfusion
  | process req =>
    have hreceiver := advance_receiver hplace
    apply inv_awake <;> rw [hreceiver] <;> exact PosixfdReceiver.noConfusion
  | select =>
    have hreceiver := advance_receiver hplace
    by_cases hbytes : w.port.pipe.bytes = 0
    · have hport : w.advance.port = w.port := advance_port hplace
      constructor
      · rw [hport]
        exact fun _ => h.flagged (.inr (.inr hplace))
      · rw [hport]
        exact fun _ hqueue => h.woken hplace hqueue
    · have hwake : w.advance.receiver = .waitDrain := hreceiver.trans (if_neg hbytes)
      apply inv_awake <;> rw [hwake] <;> exact PosixfdReceiver.noConfusion
  | waitDrain =>
    have hreceiver := advance_receiver hplace
    rcases w.port.drain_receiver .waitDrain .prepareWait with hnext | hnext
    · apply inv_awake <;> exact ne_of_eq_of_ne (hreceiver.trans hnext) PosixfdReceiver.noConfusion
    · apply inv_awake <;> exact ne_of_eq_of_ne (hreceiver.trans hnext) PosixfdReceiver.noConfusion

section Steps
variable [DecidableEq θ]

def setSender (w : PosixfdWorld θ) (t : θ) (place : PosixfdSender) : PosixfdWorld θ :=
  { w with senders := Function.update w.senders t place }

def perform (w : PosixfdWorld θ) : PosixfdEvent θ → Option (PosixfdWorld θ)
  | .receive => some w.advance
  | .timeout => if w.receiver = .select then some { w with receiver := .prepareWait } else none
  | .submit t req =>
    if w.senders t = .outside then
      let port := { w.port with request_queue := w.port.request_queue ++ [req] }
      some ({ w with port := port }.setSender t .signal)
    else none
  | .signal t =>
    match w.senders t with
    | .outside => none
    | .signal => some (w.setSender t (if w.port.flag = 0 then .outside else .write))
    | .write => some ({ w with port := { w.port with pipe := w.port.pipe.write } }.setSender t
        .outside)

def Step (w : PosixfdWorld θ) (e : PosixfdEvent θ) (w' : PosixfdWorld θ) : Prop :=
  w.perform e = some w'

theorem setSender_same (w : PosixfdWorld θ) (t : θ) (place : PosixfdSender) :
    (w.setSender t place).senders t = place := Function.update_self ..

theorem Inv.step {w w' : PosixfdWorld θ} {e : PosixfdEvent θ} (h : Inv w) (hstep : w.Step e w') :
    Inv w' := by
  cases e with
  | receive =>
    obtain rfl := Option.some.inj hstep
    exact h.advance
  | timeout =>
    obtain ⟨-, rfl⟩ := of_ite_some hstep
    apply inv_awake <;> exact PosixfdReceiver.noConfusion
  | submit t req =>
    obtain ⟨-, rfl⟩ := of_ite_some hstep
    constructor
    · exact h.flagged
    · intro _ _
      refine .inr ⟨t, ?_⟩
      rw [setSender_same]
      exact PosixfdSender.noConfusion
  | signal t =>
    unfold Step perform at hstep
    dsimp only at hstep
    cases hsender : w.senders t with
    | outside =>
      rw [hsender] at hstep
      cases hstep
    | signal =>
      rw [hsender] at hstep
      obtain rfl := Option.some.inj hstep
      constructor
      · exact h.flagged
      · -- the flag is up while the receiver sleeps, so the sender goes on to the write
        intro hselect _
        have hflag : w.port.flag = 1 := h.flagged (.inr (.inr hselect))
        have hup : w.port.flag ≠ 0 := by
          rw [hflag]
          decide
        refine .inr ⟨t, ?_⟩
        rw [setSender_same, if_neg hup]
        exact PosixfdSender.noConfusion
    | write =>
      rw [hsender] at hstep
      obtain rfl := Option.some.inj hstep
      exact ⟨h.flagged, fun _ _ => .inl w.port.pipe.write_bytes_pos⟩

theorem run_not_lost {port : PosixfdPort} {es : List (PosixfdEvent θ)} {w : PosixfdWorld θ}
    (hrun : Run Step (init port) es w) : ¬ w.Lost :=
  (hrun.invariant (I := Inv) (fun h hstep => h.step hstep) (inv_init port)).not_lost

/-- A sender comes between the look and the sleep. -/
theorem run_not_lost_late : ∃ w : PosixfdWorld (Fin 1),
    Run Step (init ⟨0, ⟨4096, 0, by decide⟩, []⟩)
      [.receive, .receive, .receive, .submit 0 64, .receive, .signal 0, .signal 0] w ∧
    w.port.request_queue = [64] ∧ ¬ w.Lost := by
  have hexec : (execute perform (fun _ _ => True) (init ⟨0, ⟨4096, 0, by decide⟩, []⟩)
      [.receive, .receive, .receive, .submit (0 : Fin 1) 64, .receive, .signal 0, .signal 0]).any
      (fun w => w.port.request_queue = [64]) = true := by decide
  obtain ⟨w, hrun, hqueue⟩ := Run.of_execute_any (fun _ _ _ h => (h : Step _ _ _)) hexec
  have hsteps := hrun.mono fun h => h.2
  exact ⟨w, hsteps, of_decide_eq_true hqueue, run_not_lost hsteps⟩

end Steps

end PosixfdWorld

end Libxseg

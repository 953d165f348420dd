import Libxseg.Transition
import Libxseg.XqDoubling

/-!
# xwaitq: the wait queue of xtypes/xwaitq.c

Works wait in the queue for a condition. Whoever makes it true calls `xwaitq_signal`. Each
test, each try or release of `wq->lock` and each queue operation is one step of one thread.
A job is run with the lock released and may itself enqueue, or make the condition true and
signal, so a thread is a stack of calls.
-/

namespace Libxseg

set_option autoImplicit false

namespace Xwaitq

def XWAIT_SIGNAL_ONE : UInt32 := 1

inductive Frame where
  /-- at `if (__check_cond(wq))` -/
  | check (work : xqindex)
  /-- in the job that `xwaitq_enqueue` runs itself -/
  | direct (work : xqindex)
  /-- at `xlock_acquire` in `xwaitq_enqueue` -/
  | acquire (work : xqindex)
  /-- at `__xwaitq_enqueue` -/
  | append (work : xqindex)
  /-- at `xlock_release` in `xwaitq_enqueue`, before the call of `xwaitq_signal` -/
  | appended
  /-- at `if (!xq_count(wq->q))` -/
  | test
  /-- at one of the two places that take the lock, by a try or a wait -/
  | lock
  /-- at `xq_count(wq->q)` in the condition of the loop -/
  | count
  /-- at `__check_cond(wq)` in the condition of the loop -/
  | cond
  /-- at `__xq_pop_head` -/
  | pop
  /-- at the `xlock_release` before the job -/
  | start (work : xqindex)
  /-- in the job that `xwaitq_signal` runs -/
  | job (work : xqindex)
  /-- at the last `xlock_release`, because the queue was empty or the condition false -/
  | leave (empty : Bool)
  deriving DecidableEq

def Frame.runs : Frame → Bool
  | .direct _ | .job _ => true
  | _ => false

def Frame.appends : Frame → Bool
  | .append _ => true
  | _ => false

/-- The queue, the lock with its owner, the condition, the flags and the calls of each thread,
the innermost first. `enqueued` lists the works whose enqueue succeeded and `executed` those
whose job was called. -/
structure World (θ : Type) where
  q : Xq
  lock : Option θ
  cond : Bool
  flags : UInt32
  stack : θ → List Frame
  enqueued : List xqindex
  executed : List xqindex

inductive Event (θ : Type) where
  /-- a call of `xwaitq_enqueue` -/
  | enqueue (t : θ) (work : xqindex)
  /-- the next step of the innermost call, with what malloc returns for a larger queue -/
  | run (t : θ) (array : Option (xqindex → xqindex))
  /-- the condition is made true, and `xwaitq_signal` is called next -/
  | makeTrue (t : θ)
  | makeFalse

namespace World
variable {θ : Type} [DecidableEq θ]

def init [Builtins] (θ : Type) (cond : Bool) (flags : UInt32) (mem : xqindex → xqindex) :
    World θ :=
  { q := Xq.initEmpty 8 mem, lock := none, cond := cond, flags := flags, stack := fun _ => [],
    enqueued := [], executed := [] }

def setStack (w : World θ) (t : θ) (s : List Frame) : World θ :=
  { w with stack := Function.update w.stack t s }

def CanCall (w : World θ) (t : θ) : Prop := ∀ f ∈ (w.stack t).head?, f.runs

instance (w : World θ) (t : θ) : Decidable (w.CanCall t) :=
  inferInstanceAs (Decidable (∀ f ∈ (w.stack t).head?, f.runs))

/-- What the innermost call of a thread does next; `s` are the calls below it. A wait for the
lock is a step that is not possible yet. -/
def next [Builtins] (w : World θ) (t : θ) (array : Option (xqindex → xqindex)) (s : List Frame) :
    Frame → Option (World θ)
  | .check work =>
    if w.cond then
      some { w.setStack t (.direct work :: s) with
        enqueued := w.enqueued ++ [work], executed := w.executed ++ [work] }
    else some (w.setStack t (.acquire work :: s))
  | .direct _ => some (w.setStack t s)
  | .acquire work =>
    if w.lock = none then some { w.setStack t (.append work :: s) with lock := some t } else none
  | .append work =>
    some { w.setStack t (.appended :: s) with
      q := (w.q.appendDoubling work array).2
      enqueued := if (w.q.appendDoubling work array).1 = Noneidx then w.enqueued
        else w.enqueued ++ [work] }
  | .appended => some { w.setStack t (.test :: s) with lock := none }
  | .test => some (w.setStack t (if w.q.count = 0 then s else .lock :: s))
  | .lock =>
    if w.lock = none then some { w.setStack t (.count :: s) with lock := some t }
    else if w.flags &&& XWAIT_SIGNAL_ONE ≠ 0 then some (w.setStack t s)
    else none
  | .count => some (w.setStack t (if w.q.count = 0 then .leave true :: s else .cond :: s))
  | .cond => some (w.setStack t (if w.cond then .pop :: s else .leave false :: s))
  | .pop =>
    some { w.setStack t (if w.q.popHead.1 = Noneidx then .leave true :: s
        else .start w.q.popHead.1 :: s) with q := w.q.popHead.2 }
  | .start work =>
    some { w.setStack t (.job work :: s) with
      lock := none, executed := w.executed ++ [work] }
  | .job _ => some (w.setStack t (.lock :: s))
  | .leave _ => some { w.setStack t s with lock := none }

end World

variable {θ : Type} [DecidableEq θ]

inductive Step [Builtins] (w : World θ) : Event θ → World θ → Prop where
  | enqueue {t work} : w.CanCall t → work ≠ Noneidx →
      Step w (.enqueue t work) (w.setStack t (.check work :: w.stack t))
  | run {t array f s w'} : w.stack t = f :: s → w.next t array s f = some w' →
      Step w (.run t array) w'
  | makeTrue {t} : w.CanCall t →
      Step w (.makeTrue t) { w.setStack t (.test :: w.stack t) with cond := true }
  | makeFalse : Step w .makeFalse { w with cond := false }

def World.perform [Builtins] (w : World θ) : Event θ → Option (World θ)
  | .enqueue t work =>
    if w.CanCall t ∧ work ≠ Noneidx then some (w.setStack t (.check work :: w.stack t)) else none
  | .run t array =>
    match w.stack t with
    | f :: s => w.next t array s f
    | [] => none
  | .makeTrue t =>
    if w.CanCall t then some { w.setStack t (.test :: w.stack t) with cond := true } else none
  | .makeFalse => some { w with cond := false }

theorem World.step_of_perform [Builtins] {w w' : World θ} {e : Event θ}
    (h : w.perform e = some w') : Step w e w' := by
  cases e with
  | enqueue t work =>
    obtain ⟨⟨hcall, hwork⟩, rfl⟩ := of_ite_some h
    exact .enqueue hcall hwork
  | run t array =>
    simp only [perform] at h
    cases hstack : w.stack t with
    | nil =>
      rw [hstack] at h
      cases h
    | cons f s =>
      rw [hstack] at h
      exact .run hstack h
  | makeTrue t =>
    obtain ⟨hcall, rfl⟩ := of_ite_some h
    exact .makeTrue hcall
  | makeFalse =>
    obtain rfl := Option.some.inj h
    exact .makeFalse

def World.Quiet (w : World θ) : Prop := ∀ t, w.stack t = []

/-- When all calls have returned and the condition is true, the queue is empty and each work
has run as often as it was enqueued. -/
def World.ServesAll (w : World θ) : Prop :=
  w.Quiet → w.cond = true → w.q.count = 0 ∧ w.executed.Perm w.enqueued

/-- The owner of the lock has seen the condition false and is about to release the lock. -/
def World.GivenUp (w : World θ) : Prop :=
  ∃ u ∈ w.lock, (w.stack u).head? = some (.leave false)

/-- An append finds fewer than 2^30 works, so the doubled size still is what it should be. -/
def Event.Roomy (w : World θ) : Event θ → Prop
  | .run t _ => (w.stack t).head?.any Frame.appends = true → w.q.count < 0x40000000
  | _ => True

/-- No try of the lock fails on an owner that has given up, while the condition is true. -/
def Event.Heard (w : World θ) : Event θ → Prop
  | .run t _ => w.flags &&& XWAIT_SIGNAL_ONE ≠ 0 → (w.stack t).head? = some .lock →
      ¬ (w.GivenUp ∧ w.cond = true)
  | _ => True

instance (w : World θ) : Decidable w.GivenUp :=
  inferInstanceAs (Decidable (∃ u ∈ w.lock, (w.stack u).head? = some (.leave false)))

instance (w : World θ) (e : Event θ) : Decidable (e.Roomy w) := by
  cases e <;> unfold Event.Roomy <;> infer_instance

instance (w : World θ) (e : Event θ) : Decidable (e.Heard w) := by
  cases e <;> unfold Event.Heard <;> infer_instance

end Xwaitq

end Libxseg

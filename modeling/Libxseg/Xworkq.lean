import Mathlib.Data.Finset.Basic
import Libxseg.Transition
import Libxseg.XqDoubling

/-!
# xworkq: the work queue of xtypes/xworkq.c

Any number of threads enqueue works and signal. A section under `wq->q_lock` is one step, and
so is each read of the count, each try of `wq->lock` and each release; between two steps of a
thread the others take theirs. A job is run inside `xworkq_signal` and may enqueue and signal
itself, so a thread is a stack of calls.
-/

namespace Libxseg

set_option autoImplicit false

namespace Xworkq

inductive Frame where
  /-- `xworkq_enqueue` has returned, `xworkq_signal` comes next -/
  | enqueued
  /-- at `while (xq_count(wq->q))` -/
  | test
  /-- at `if (wq->lock && !xlock_try_lock(wq->lock))` -/
  | tryLock
  /-- at one of the two sections that pop the head -/
  | pop
  /-- in `w->job_fn(wq, w->job)` -/
  | job (work : xqindex)
  /-- at `if (wq->lock) xlock_release(wq->lock)` -/
  | release
  deriving DecidableEq

def Frame.work : Frame → Option xqindex
  | .job work => some work
  | _ => none

/-- The call is between its `xlock_try_lock` and its `xlock_release`. -/
def Frame.Holds : Frame → Prop
  | .pop | .job _ | .release => True
  | _ => False

/-- The queue, the lock (`none` for a null `wq->lock`, `some none` for a free one), the calls of
each thread with the innermost first, and the blocks that malloc has handed out. Jobs are
numbered as they enter the queue: `works` says whose `struct work` is at an address, `enqueued`
counts them and `executed` lists those whose function was called. -/
structure World (θ : Type) where
  q : Xq
  lock : Option (Option θ)
  stack : θ → List Frame
  live : Finset xqindex
  works : xqindex → Nat
  enqueued : Nat
  executed : List Nat

inductive Event (θ : Type) where
  /-- with what malloc returned for the work and for a queue of twice the size -/
  | enqueue (t : θ) (work : Option xqindex) (array : Option (xqindex → xqindex))
  | signal (t : θ)
  | test (t : θ)
  | tryLock (t : θ)
  | pop (t : θ)
  | returns (t : θ)
  | release (t : θ)

namespace World
variable {θ : Type} [DecidableEq θ]

def init [Builtins] (θ : Type) (lock : Bool) (mem : xqindex → xqindex) : World θ :=
  { q := Xq.initEmpty 8 mem, lock := if lock then some none else none, stack := fun _ => [],
    live := ∅, works := fun _ => 0, enqueued := 0, executed := [] }

def setStack (w : World θ) (t : θ) (s : List Frame) : World θ :=
  { w with stack := Function.update w.stack t s }

def CanCall (w : World θ) (t : θ) : Prop := ∀ f ∈ (w.stack t).head?, f.work.isSome

instance (w : World θ) (t : θ) : Decidable (w.CanCall t) :=
  inferInstanceAs (Decidable (∀ f ∈ (w.stack t).head?, f.work.isSome))

/-- `wq->lock && !xlock_try_lock(wq->lock)` fails, with the lock after it. -/
def tryLock (w : World θ) (t : θ) : Bool × Option (Option θ) :=
  match w.lock with
  | none => (true, none)
  | some none => (true, some (some t))
  | some (some u) => (false, some (some u))

/-- The section of `__xworkq_enqueue`. -/
def enqueue [Builtins] (w : World θ) (work : xqindex) (array : Option (xqindex → xqindex)) :
    World θ :=
  match w.q.appendDoubling work array with
  | (r, q) =>
    if r = Noneidx then { w with q := q, live := insert work w.live }
    else
      { w with q := q, live := insert work w.live,
               works := Function.update w.works work w.enqueued, enqueued := w.enqueued + 1 }

def pop (w : World θ) (t : θ) (s : List Frame) : World θ :=
  match w.q.popHead with
  | (xqi, q) =>
    if xqi = Noneidx then { w.setStack t (.release :: s) with q := q }
    else { w.setStack t (.job xqi :: s) with q := q, executed := w.executed ++ [w.works xqi] }

end World

variable {θ : Type} [DecidableEq θ]

/-- One step of one thread. malloc returns no block that is in use, nor `Noneidx`. -/
inductive Step [Builtins] (w : World θ) : Event θ → World θ → Prop where
  | enqueueFails {t array} : w.CanCall t →
      Step w (.enqueue t none array) (w.setStack t (.enqueued :: w.stack t))
  | enqueue {t work array} : w.CanCall t → work ∉ w.live → work ≠ Noneidx →
      Step w (.enqueue t (some work) array)
        ((w.enqueue work array).setStack t (.enqueued :: w.stack t))
  | signal {t s} : w.stack t = .enqueued :: s → Step w (.signal t) (w.setStack t (.test :: s))
  | test {t s} : w.stack t = .test :: s →
      Step w (.test t) (w.setStack t (if w.q.count = 0 then s else .tryLock :: s))
  | tryLock {t s} : w.stack t = .tryLock :: s →
      Step w (.tryLock t) { w.setStack t (if (w.tryLock t).1 then .pop :: s else s) with
        lock := (w.tryLock t).2 }
  | pop {t s} : w.stack t = .pop :: s → Step w (.pop t) (w.pop t s)
  | returns {t work s} : w.stack t = .job work :: s →
      Step w (.returns t) { w.setStack t (.pop :: s) with live := w.live.erase work }
  | release {t s} : w.stack t = .release :: s →
      Step w (.release t) { w.setStack t (.test :: s) with lock := w.lock.map fun _ => none }

namespace World

def perform [Builtins] (w : World θ) : Event θ → Option (World θ)
  | .enqueue t none _ =>
    if w.CanCall t then some (w.setStack t (.enqueued :: w.stack t)) else none
  | .enqueue t (some work) array =>
    if w.CanCall t ∧ work ∉ w.live ∧ work ≠ Noneidx then
      some ((w.enqueue work array).setStack t (.enqueued :: w.stack t))
    else none
  | .signal t =>
    match w.stack t with
    | .enqueued :: s => some (w.setStack t (.test :: s))
    | _ => none
  | .test t =>
    match w.stack t with
    | .test :: s => some (w.setStack t (if w.q.count = 0 then s else .tryLock :: s))
    | _ => none
  | .tryLock t =>
    match w.stack t with
    | .tryLock :: s =>
      some { w.setStack t (if (w.tryLock t).1 then .pop :: s else s) with
        lock := (w.tryLock t).2 }
    | _ => none
  | .pop t =>
    match w.stack t with
    | .pop :: s => some (w.pop t s)
    | _ => none
  | .returns t =>
    match w.stack t with
    | .job work :: s => some { w.setStack t (.pop :: s) with live := w.live.erase work }
    | _ => none
  | .release t =>
    match w.stack t with
    | .release :: s => some { w.setStack t (.test :: s) with lock := w.lock.map fun _ => none }
    | _ => none

theorem step_of_perform [Builtins] {w w' : World θ} {e : Event θ} (h : w.perform e = some w') :
    Step w e w' := by
  unfold perform at h
  split at h
  · obtain ⟨hcall, rfl⟩ := of_ite_some h
    exact .enqueueFails hcall
  · obtain ⟨⟨hcall, hlive, hwork⟩, rfl⟩ := of_ite_some h
    exact .enqueue hcall hlive hwork
  all_goals
    split at h
    · rename_i hstack
      obtain rfl := Option.some.inj h
      constructor
      exact hstack
    · cases h

end World

def Event.Allocated : Event θ → Prop
  | .enqueue _ work array => work.isSome ∧ array.isSome
  | _ => True

/-- An enqueue finds fewer than 2^30 works, so the doubled size still is what it should be. -/
def Event.Roomy (w : World θ) : Event θ → Prop
  | .enqueue .. => w.q.count < 0x40000000
  | _ => True

instance (e : Event θ) : Decidable e.Allocated := by
  cases e <;> unfold Event.Allocated <;> infer_instance

instance (w : World θ) (e : Event θ) : Decidable (e.Roomy w) := by
  cases e <;> unfold Event.Roomy <;> infer_instance

def World.Quiet (w : World θ) : Prop := ∀ t, w.stack t = []

/-- No job was executed twice, and none is left when all threads are through. -/
structure World.ExecutesOnce (w : World θ) : Prop where
  once : w.executed.Nodup
  only : ∀ j ∈ w.executed, j < w.enqueued
  all : w.Quiet → w.q.count = 0 ∧ ∀ j < w.enqueued, j ∈ w.executed

end Xworkq

end Libxseg

import Libxseg.LockOrder
import Libxseg.XqMove

/-!
# The locks of two queues

`xq_head_to_tail` and `xq_resize` work on two queues and take the lock of each. The first of
them begins with the queue at the higher address, the second one with its first argument. A
lock is named by the address of its queue; what a call returns is for its caller only and has
no place here.
-/

namespace Libxseg

set_option autoImplicit false

open Relation (TransGen)

abbrev Queues := UInt64 → Xq

inductive QueueCall where
  | headToTail (headq tailq : UInt64) (nr : xqindex)
  | resize (xq newxq : UInt64)

namespace QueueCall

def moveSection (headq tailq : UInt64) (nr : xqindex) (queues : Queues) : Queues :=
  let (_, hq, tq) := (queues headq).headToTail (queues tailq) nr
  Function.update (Function.update queues headq hq) tailq tq

def resizeSection (xq newxq : UInt64) (queues : Queues) : Queues :=
  let (_, newq) := (queues xq).resize (queues newxq)
  Function.update queues newxq newq

/-- The steps of a call. The early exit of `xq_head_to_tail` releases the same locks. -/
def ops : QueueCall → List (LockOp UInt64 Queues)
  | headToTail headq tailq nr =>
    (if headq ≥ tailq then [.acquire headq, .acquire tailq]
      else [.acquire tailq, .acquire headq]) ++
      [.act (moveSection headq tailq nr), .release headq, .release tailq]
  | resize xq newxq =>
    [.acquire xq, .acquire newxq, .act (resizeSection xq newxq), .release newxq, .release xq]

def firstLock : QueueCall → UInt64
  | headToTail headq tailq _ => if headq ≥ tailq then headq else tailq
  | resize xq _ => xq

def secondLock : QueueCall → UInt64
  | headToTail headq tailq _ => if headq ≥ tailq then tailq else headq
  | resize _ newxq => newxq

def body : QueueCall → List (LockOp UInt64 Queues)
  | headToTail headq tailq nr =>
    [.act (moveSection headq tailq nr), .release headq, .release tailq]
  | resize xq newxq => [.act (resizeSection xq newxq), .release newxq, .release xq]

def Distinct : QueueCall → Prop
  | headToTail headq tailq _ => headq ≠ tailq
  | resize xq newxq => xq ≠ newxq

/-- The order of `xq_head_to_tail`, which `xq_resize` has only for some arguments. -/
def Descends : QueueCall → Prop
  | headToTail _ _ _ => True
  | resize xq newxq => newxq ≤ xq

theorem body_takesNoMore (c : QueueCall) (l : UInt64) : LockOp.acquire l ∉ c.body := by
  cases c with
  | headToTail => simp [body]
  | resize => simp [body]

def twoLocks (c : QueueCall) : TwoLocks UInt64 Queues :=
  { first := c.firstLock, second := c.secondLock, body := c.body,
    takesNoMore := c.body_takesNoMore }

theorem ops_eq (c : QueueCall) : c.ops = c.twoLocks.ops := by
  cases c with
  | headToTail headq tailq nr =>
    by_cases h : headq ≥ tailq
    · simp [ops, twoLocks, TwoLocks.ops, firstLock, secondLock, body, h]
    · simp [ops, twoLocks, TwoLocks.ops, firstLock, secondLock, body, h]
  | resize => rfl

theorem secondLock_lt (c : QueueCall) (hne : c.Distinct) (hdown : c.Descends) :
    c.secondLock.toNat < c.firstLock.toNat := by
  have hlt : ∀ {a b : UInt64}, a ≤ b → b ≠ a → a.toNat < b.toNat := by
    intro a b hle hne
    exact Nat.lt_of_le_of_ne (UInt64.le_iff_toNat_le.mp hle) fun h =>
      hne (UInt64.toNat_inj.mp h).symm
  cases c with
  | headToTail headq tailq nr =>
    by_cases h : headq ≥ tailq
    · rw [secondLock, firstLock, if_pos h, if_pos h]
      exact hlt h hne
    · rw [secondLock, firstLock, if_neg h, if_neg h]
      exact UInt64.lt_iff_toNat_lt.mp (UInt64.not_le.mp h)
  | resize xq newxq => exact hlt hdown hne

end QueueCall

section Runs
variable {θ : Type} [DecidableEq θ] {calls : θ → QueueCall} {queues : Queues}

def QueueCall.start (calls : θ → QueueCall) (queues : Queues) : Contention θ UInt64 Queues :=
  Contention.start (fun t => (calls t).ops) queues

omit [DecidableEq θ] in
theorem QueueCall.start_eq : start calls queues =
    Contention.start (fun t => (calls t).twoLocks.ops) queues := by
  simp only [start, QueueCall.ops_eq]

/-- Calls on two queues each, all in the order of the addresses, never wait in a circle. -/
theorem descending_deadlockFree (hne : ∀ t, (calls t).Distinct) (hdown : ∀ t, (calls t).Descends)
    {as : List θ} {s : Contention θ UInt64 Queues}
    (h : Run ThreadStep (QueueCall.start calls queues) as s) : ¬ s.Deadlock := by
  intro hdead
  rw [QueueCall.start_eq] at h
  have hlt : ∀ t, (calls t).secondLock.toNat < (calls t).firstLock.toNat :=
    fun t => (calls t).secondLock_lt (hne t) (hdown t)
  exact not_cycle_of_lt (fun t => (calls t).twoLocks) UInt64.toNat hlt (cycle_of_deadlock h hdead)

/-- Threads can come to wait for one another in a circle exactly when there is a circle of
calls each of which takes second the lock that the next one takes first. -/
theorem calls_deadlockFree_iff [Finite θ] (calls : θ → QueueCall) (queues : Queues) :
    (∀ as s, Run ThreadStep (QueueCall.start calls queues) as s → ¬ s.Deadlock) ↔
      ¬ ∃ t, TransGen (fun t u => (calls t).secondLock = (calls u).firstLock) t t := by
  rw [QueueCall.start_eq]
  exact deadlockFree_iff fun t => (calls t).twoLocks

end Runs

def agreeing : Bool → QueueCall
  | false => .headToTail 4096 8192 1
  | true => .resize 8192 4096

def crossing : Bool → QueueCall
  | false => .resize 4096 8192
  | true => .resize 8192 4096

def emptyQueues : Queues := fun _ => { head := 1, tail := 0, size := 8, queue := fun _ => 0 }

/-- Both threads begin with the same lock. -/
theorem calls_deadlockFree_iff_agreeing :
    (agreeing false).firstLock = (agreeing true).firstLock ∧
      ∀ as s, Run ThreadStep (QueueCall.start agreeing emptyQueues) as s → ¬ s.Deadlock := by
  refine ⟨by decide, ?_⟩
  apply (calls_deadlockFree_iff agreeing emptyQueues).mpr
  apply not_cycle_of_lt (fun t => (agreeing t).twoLocks) UInt64.toNat
  intro t
  apply (agreeing t).secondLock_lt
  · cases t with
    | false => exact (by decide : (4096 : UInt64) ≠ 8192)
    | true => exact (by decide : (8192 : UInt64) ≠ 4096)
  · cases t with
    | false => trivial
    | true => exact (by decide : (4096 : UInt64) ≤ 8192)

/-- Two threads resize in opposite directions. -/
theorem not_calls_deadlockFree : ¬ ∀ (θ : Type) [Finite θ] [DecidableEq θ] (calls : θ → QueueCall)
    (queues : Queues), (∀ t, (calls t).Distinct) →
      ∀ as s, Run ThreadStep (QueueCall.start calls queues) as s →
        ¬ s.Deadlock := by
  intro hfree
  have hthere : (crossing false).twoLocks.LeadsTo (crossing true).twoLocks := rfl
  have hback : (crossing true).twoLocks.LeadsTo (crossing false).twoLocks := rfl
  obtain ⟨as, s, hrun, hdead⟩ := exists_deadlock (fun t => (crossing t).twoLocks) emptyQueues
    ⟨false, .tail (.single hthere) hback⟩
  rw [← QueueCall.start_eq] at hrun
  apply hfree Bool crossing emptyQueues _ as s hrun hdead
  intro t
  cases t with
  | false => exact (by decide : (4096 : UInt64) ≠ 8192)
  | true => exact (by decide : (8192 : UInt64) ≠ 4096)

end Libxseg

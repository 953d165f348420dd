import Mathlib.Algebra.Group.Int.Defs
import Mathlib.Algebra.Group.Nat.Defs
import Mathlib.Logic.Function.Basic
import Libxseg.Transition

/-!
# xlock: the lock word of xlock.h

The word says who has the lock: 16 bits of the process id, 16 bits of the thread id
and 32 bits of the program counter, with 0 for nobody. A thread takes the lock by a
read that finds 0 and a compare-and-swap of 0 for its own word; every access to the
word is a step of its own. Congestion messages are left out, they read the word only.

Two threads that both have the lock are possible only because a word may come out as
0: the swap then succeeds and leaves the lock free.
-/

namespace Libxseg

set_option autoImplicit false

abbrev xlock_owner_t := UInt64

def XLOCK_NOONE : xlock_owner_t := 0

def PID_BITS : UInt64 := 16
def TID_BITS : UInt64 := 16
def PC_BITS : UInt64 := 32

/-- The conversion of a `pid_t` to an unsigned 64-bit word. -/
def pidWord (pid : Int32) : UInt64 := pid.toInt64.toUInt64

/-- `pid &= mask` for a `pid_t`. -/
def pidMask (pid : Int32) (mask : UInt64) : Int32 := (pidWord pid &&& mask).toUInt32.toInt32

def xlockPackOwner (pid tid : Int32) (ip : UInt64) : xlock_owner_t :=
  let owner : xlock_owner_t := 0
  let pc := ip
  let pid := pidMask pid (((1 : UInt64) <<< PID_BITS) - 1)
  let tid := pidMask tid (((1 : UInt64) <<< TID_BITS) - 1)
  let pc := pc &&& (((1 : UInt64) <<< PC_BITS) - 1)
  let owner := owner ||| pidWord pid
  let owner := owner <<< TID_BITS
  let owner := owner ||| pidWord tid
  let owner := owner <<< PC_BITS
  owner ||| pc

def Anonymous (pid tid : Int32) (ip : UInt64) : Prop :=
  pid.toInt % 2 ^ 16 = 0 ∧ tid.toInt % 2 ^ 16 = 0 ∧ ip.toNat % 2 ^ 32 = 0

instance (pid tid : Int32) (ip : UInt64) : Decidable (Anonymous pid tid ip) :=
  inferInstanceAs (Decidable (_ ∧ _ ∧ _))

theorem pidWord_toNat (pid : Int32) : ((pidWord pid).toNat : Int) = pid.toInt % 2 ^ 64 := by
  have hsign : (pidWord pid).toNat = (pid.toBitVec.signExtend 64).toNat := rfl
  have hint : pid.toInt = pid.toBitVec.toInt := rfl
  have hlt := pid.toBitVec.isLt
  rw [hsign, hint, BitVec.toNat_signExtend, BitVec.toInt_eq_msb_cond, BitVec.toNat_setWidth]
  split <;> omega

theorem toInt_toInt32_of_lt {p : UInt64} (hp : p.toNat < 2 ^ 16) :
    p.toUInt32.toInt32.toInt = p.toNat := by
  have hint : p.toUInt32.toInt32.toInt = (p.toBitVec.setWidth 32).toInt := rfl
  have hnat : (p.toBitVec.setWidth 32).toNat = p.toNat := by
    rw [BitVec.toNat_setWidth, UInt64.toNat_toBitVec]
    omega
  rw [hint, BitVec.toInt_eq_toNat_cond, hnat]
  split <;> omega

theorem pidWord_pidMask (pid : Int32) :
    ((pidWord (pidMask pid (((1 : UInt64) <<< PID_BITS) - 1))).toNat : Int) =
      pid.toInt % 2 ^ 16 := by
  have hmask : ((1 : UInt64) <<< PID_BITS) - 1 = 0xFFFF := by decide
  have hlow : (pidWord pid &&& 0xFFFF).toNat = (pidWord pid).toNat % 2 ^ 16 := by
    rw [UInt64.toNat_and]
    exact Nat.and_two_pow_sub_one_eq_mod _ 16
  have hword := pidWord_toNat pid
  rw [hmask, pidMask, pidWord_toNat, toInt_toInt32_of_lt (by omega), hlow]
  omega

theorem shiftLeft_or_toNat {x y n : UInt64} {k m : Nat} (hk : n.toNat % 64 = k) (hm : m + k ≤ 64)
    (hx : x.toNat < 2 ^ m) (hy : y.toNat < 2 ^ k) :
    (x <<< n ||| y).toNat = x.toNat * 2 ^ k + y.toNat := by
  have hlt : x.toNat * 2 ^ k < 2 ^ 64 := calc
    x.toNat * 2 ^ k < 2 ^ m * 2 ^ k := Nat.mul_lt_mul_of_pos_right hx (Nat.two_pow_pos k)
    _ = 2 ^ (m + k) := (Nat.pow_add 2 m k).symm
    _ ≤ 2 ^ 64 := Nat.pow_le_pow_right (by decide) hm
  rw [UInt64.toNat_or, UInt64.toNat_shiftLeft, hk, Nat.shiftLeft_eq, Nat.mod_eq_of_lt hlt,
    ← Nat.shiftLeft_eq, ← Nat.shiftLeft_add_eq_or_of_lt hy, Nat.shiftLeft_eq]

/-- A word as a number: the process id above the thread id above the program counter. -/
theorem xlockPackOwner_toNat (pid tid : Int32) (ip : UInt64) :
    ((xlockPackOwner pid tid ip).toNat : Int) =
      pid.toInt % 2 ^ 16 * 2 ^ 48 + tid.toInt % 2 ^ 16 * 2 ^ 32 + ip.toNat % 2 ^ 32 := by
  have hpid := pidWord_pidMask pid
  have htid := pidWord_pidMask tid
  have hpc : (ip &&& (((1 : UInt64) <<< PC_BITS) - 1)).toNat = ip.toNat % 2 ^ 32 := by
    rw [UInt64.toNat_and]
    exact Nat.and_two_pow_sub_one_eq_mod _ 32
  have hbits : (TID_BITS : UInt64) = PID_BITS := rfl
  unfold xlockPackOwner
  dsimp only
  rw [UInt64.zero_or, hbits]
  generalize pidWord (pidMask pid (((1 : UInt64) <<< PID_BITS) - 1)) = pidField at *
  generalize pidWord (pidMask tid (((1 : UInt64) <<< PID_BITS) - 1)) = tidField at *
  have hupper : (pidField <<< PID_BITS ||| tidField).toNat =
      pidField.toNat * 2 ^ 16 + tidField.toNat :=
    shiftLeft_or_toNat (m := 16) rfl (by decide) (by omega) (by omega)
  rw [shiftLeft_or_toNat (k := 32) (m := 32) rfl (by decide) (by omega) (by omega), hupper, hpc]
  omega

theorem xlockPackOwner_eq_noone {pid tid : Int32} {ip : UInt64} :
    xlockPackOwner pid tid ip = XLOCK_NOONE ↔ Anonymous pid tid ip := by
  have hword := xlockPackOwner_toNat pid tid ip
  have hzero : XLOCK_NOONE.toNat = 0 := rfl
  rw [← UInt64.toNat_inj, hzero, Anonymous]
  omega

structure Xlock where
  owner : xlock_owner_t
  pc : UInt64

/-- Where a thread is, with its word and its program counter. -/
inductive LockPc where
  | outside
  /-- at the read in the inner loop of `xlock_acquire` -/
  | spin (who : xlock_owner_t) (pc : UInt64)
  /-- at the compare-and-swap of `xlock_acquire` -/
  | swap (who : xlock_owner_t) (pc : UInt64)
  /-- at the read in `xlock_try_lock` -/
  | look (who : xlock_owner_t) (pc : UInt64)
  /-- at the compare-and-swap of `xlock_try_lock` -/
  | trySwap (who : xlock_owner_t) (pc : UInt64)
  /-- at `lock->pc = pc` after a swap that succeeded -/
  | store (pc : UInt64)
  | inside
  /-- at `lock->owner = XLOCK_NOONE` in `xlock_release` -/
  | clear
  deriving DecidableEq, Repr

/-- From the swap that takes the lock to the store that frees it. -/
def LockPc.Holds : LockPc → Prop
  | .store _ | .inside | .clear => True
  | _ => False

/-- The word that the thread is going to swap in. -/
def LockPc.who : LockPc → Option xlock_owner_t
  | .spin who _ | .swap who _ | .look who _ | .trySwap who _ => some who
  | _ => none

def Xlock.access (lock : Xlock) : LockPc → Xlock × LockPc
  | .spin who pc => (lock, if lock.owner ≠ XLOCK_NOONE then .spin who pc else .swap who pc)
  | .swap who pc =>
    if lock.owner = XLOCK_NOONE then ({ lock with owner := who }, .store pc)
    else (lock, .spin who pc)
  | .look who pc => (lock, if lock.owner = XLOCK_NOONE then .trySwap who pc else .outside)
  | .trySwap who pc =>
    if lock.owner = XLOCK_NOONE then ({ lock with owner := who }, .store pc)
    else (lock, .outside)
  | .store pc => ({ lock with pc := pc }, .inside)
  | .clear => ({ lock with owner := XLOCK_NOONE }, .outside)
  | .outside => (lock, .outside)
  | .inside => (lock, .inside)

inductive LockEvent where
  /-- `xlock_acquire` is called -/
  | acquire (pid tid : Int32) (ip : UInt64)
  /-- `xlock_try_lock` is called -/
  | tryLock (pid tid : Int32) (ip : UInt64)
  /-- the first store of `xlock_release`, called by a thread that has the lock -/
  | release
  /-- the next access of the call -/
  | access

structure LockWorld (θ : Type) where
  lock : Xlock
  threads : θ → LockPc

namespace LockWorld
variable {θ : Type} [DecidableEq θ]

def setThread (w : LockWorld θ) (t : θ) (lock : Xlock) (pc : LockPc) : LockWorld θ where
  lock := lock
  threads := Function.update w.threads t pc

def init (pc : UInt64) : LockWorld θ := ⟨⟨XLOCK_NOONE, pc⟩, fun _ => .outside⟩

def perform (w : LockWorld θ) : θ × LockEvent → Option (LockWorld θ)
  | (t, .acquire pid tid ip) =>
    if w.threads t = .outside then
      some (w.setThread t w.lock (.spin (xlockPackOwner pid tid ip) ip))
    else none
  | (t, .tryLock pid tid ip) =>
    if w.threads t = .outside then
      some (w.setThread t w.lock (.look (xlockPackOwner pid tid ip) ip))
    else none
  | (t, .release) =>
    if w.threads t = .inside then some (w.setThread t { w.lock with pc := 0 } .clear) else none
  | (t, .access) =>
    let (lock, pc) := w.lock.access (w.threads t)
    some (w.setThread t lock pc)

def Step (w : LockWorld θ) (e : θ × LockEvent) (w' : LockWorld θ) : Prop :=
  w.perform e = some w'

def Exclusive (w : LockWorld θ) : Prop :=
  ∀ t u, (w.threads t).Holds → (w.threads u).Holds → t = u

def Named (_ : LockWorld θ) : θ × LockEvent → Prop
  | (_, .acquire pid tid ip) => ¬ Anonymous pid tid ip
  | (_, .tryLock pid tid ip) => ¬ Anonymous pid tid ip
  | _ => True

instance (w : LockWorld θ) (e : θ × LockEvent) : Decidable (w.Named e) :=
  match e with
  | (_, .acquire ..) | (_, .tryLock ..) | (_, .release) | (_, .access) => by
    unfold Named
    infer_instance

/-- Words that are to be swapped in are not 0, and neither is the word of a lock that a thread
has. -/
structure Inv (w : LockWorld θ) : Prop where
  exclusive : w.Exclusive
  taken : ∀ t, (w.threads t).Holds → w.lock.owner ≠ XLOCK_NOONE
  named : ∀ t, (w.threads t).who ≠ some XLOCK_NOONE

section Threads
variable {w : LockWorld θ} {t u : θ} {lock : Xlock} {pc : LockPc}

theorem setThread_same (w : LockWorld θ) (t : θ) (lock : Xlock) (pc : LockPc) :
    (w.setThread t lock pc).threads t = pc := Function.update_self ..

theorem setThread_other (lock : Xlock) (pc : LockPc) (h : u ≠ t) :
    (w.setThread t lock pc).threads u = w.threads u := Function.update_of_ne h ..

theorem Inv.stay (h : Inv w) (hholds : pc.Holds → (w.threads t).Holds)
    (howner : lock.owner = w.lock.owner) (hwho : pc.who ≠ some XLOCK_NOONE) :
    Inv (w.setThread t lock pc) := by
  have hbefore (u : θ) (hu : ((w.setThread t lock pc).threads u).Holds) :
      (w.threads u).Holds := by
    by_cases hut : u = t
    · subst hut
      rw [setThread_same] at hu
      exact hholds hu
    · rwa [setThread_other _ _ hut] at hu
  constructor
  · intro u v hu hv
    exact h.exclusive u v (hbefore u hu) (hbefore v hv)
  · intro u hu
    apply ne_of_eq_of_ne howner
    exact h.taken u (hbefore u hu)
  · intro u
    by_cases hut : u = t
    · subst hut
      rwa [setThread_same]
    · rw [setThread_other _ _ hut]
      exact h.named u

theorem Inv.take (h : Inv w) (hfree : w.lock.owner = XLOCK_NOONE)
    (hlock : lock.owner ≠ XLOCK_NOONE) (ip : UInt64) :
    Inv (w.setThread t lock (.store ip)) := by
  have honly (u : θ) (hu : ((w.setThread t lock (.store ip)).threads u).Holds) : u = t := by
    by_contra hut
    rw [setThread_other _ _ hut] at hu
    exact h.taken u hu hfree
  constructor
  · intro u v hu hv
    exact (honly u hu).trans (honly v hv).symm
  · exact fun _ _ => hlock
  · intro u
    by_cases hut : u = t
    · subst hut
      rw [setThread_same]
      exact (Option.some_ne_none _).symm
    · rw [setThread_other _ _ hut]
      exact h.named u

theorem Exclusive.outside (h : w.Exclusive) (hheld : (w.threads t).Holds) (lock : Xlock) (u : θ) :
    ¬ ((w.setThread t lock .outside).threads u).Holds := by
  intro hu
  by_cases hut : u = t
  · subst hut
    rw [setThread_same] at hu
    exact hu
  · rw [setThread_other _ _ hut] at hu
    exact hut (h u t hu hheld)

theorem Inv.giveUp (h : Inv w) (hheld : (w.threads t).Holds) (lock : Xlock) :
    Inv (w.setThread t lock .outside) := by
  have hnone := h.exclusive.outside hheld lock
  constructor
  · exact fun u _ hu => absurd hu (hnone u)
  · exact fun u hu => absurd hu (hnone u)
  · intro u
    by_cases hut : u = t
    · subst hut
      rw [setThread_same]
      exact (Option.some_ne_none _).symm
    · rw [setThread_other _ _ hut]
      exact h.named u

theorem Inv.access (h : Inv w) (t : θ) :
    Inv (w.setThread t (w.lock.access (w.threads t)).1 (w.lock.access (w.threads t)).2) := by
  have hnamed := h.named t
  cases hpc : w.threads t with
  | outside => exact h.stay (fun hh => hh.elim) rfl (Option.some_ne_none _).symm
  | spin who ip =>
    rw [hpc] at hnamed
    apply h.stay _ rfl
    · unfold Xlock.access
      dsimp only
      split <;> exact hnamed
    · unfold Xlock.access
      dsimp only
      split <;> exact False.elim
  | swap who ip =>
    rw [hpc] at hnamed
    by_cases hfree : w.lock.owner = XLOCK_NOONE
    · unfold Xlock.access
      dsimp only
      rw [if_pos hfree]
      exact h.take hfree (fun hwho => hnamed (congrArg some hwho)) ip
    · unfold Xlock.access
      dsimp only
      rw [if_neg hfree]
      exact h.stay (fun hh => hh.elim) rfl hnamed
  | look who ip =>
    rw [hpc] at hnamed
    by_cases hfree : w.lock.owner = XLOCK_NOONE
    · unfold Xlock.access
      dsimp only
      rw [if_pos hfree]
      exact h.stay (fun hh => hh.elim) rfl hnamed
    · unfold Xlock.access
      dsimp only
      rw [if_neg hfree]
      exact h.stay (fun hh => hh.elim) rfl (Option.some_ne_none _).symm
  | trySwap who ip =>
    rw [hpc] at hnamed
    by_cases hfree : w.lock.owner = XLOCK_NOONE
    · unfold Xlock.access
      dsimp only
      rw [if_pos hfree]
      exact h.take hfree (fun hwho => hnamed (congrArg some hwho)) ip
    · unfold Xlock.access
      dsimp only
      rw [if_neg hfree]
      exact h.stay (fun hh => hh.elim) rfl (Option.some_ne_none _).symm
  | store ip =>
    refine h.stay ?_ rfl (Option.some_ne_none _).symm
    intro
    rw [hpc]
    trivial
  | inside =>
    refine h.stay ?_ rfl (Option.some_ne_none _).symm
    intro
    rw [hpc]
    trivial
  | clear =>
    apply h.giveUp
    rw [hpc]
    trivial

end Threads

theorem Inv.step {w w' : LockWorld θ} {e : θ × LockEvent} (h : Inv w) (hnamed : w.Named e)
    (hstep : w.Step e w') : Inv w' := by
  obtain ⟨t, e⟩ := e
  cases e with
  | acquire pid tid ip =>
    obtain ⟨-, rfl⟩ := of_ite_some hstep
    refine h.stay (fun hh => hh.elim) rfl ?_
    exact fun hwho => hnamed (xlockPackOwner_eq_noone.mp (Option.some.inj hwho))
  | tryLock pid tid ip =>
    obtain ⟨-, rfl⟩ := of_ite_some hstep
    refine h.stay (fun hh => hh.elim) rfl ?_
    exact fun hwho => hnamed (xlockPackOwner_eq_noone.mp (Option.some.inj hwho))
  | release =>
    obtain ⟨hpc, rfl⟩ := of_ite_some hstep
    refine h.stay ?_ rfl (Option.some_ne_none _).symm
    intro
    rw [hpc]
    trivial
  | access =>
    cases hstep
    exact h.access t

omit [DecidableEq θ] in
theorem inv_init (pc : UInt64) : Inv (init (θ := θ) pc) :=
  ⟨fun _ _ hh => hh.elim, fun _ hh => hh.elim, fun _ => (Option.some_ne_none _).symm⟩

theorem run_exclusive {pc : UInt64} {es : List (θ × LockEvent)} {w : LockWorld θ}
    (hrun : Run (Guarded Step Named) (init pc) es w) : w.Exclusive :=
  (hrun.invariant (I := Inv) (fun h hstep => h.step hstep.1 hstep.2) (inv_init pc)).exclusive

/-- Two threads, each of which reads, swaps and stores. -/
theorem run_exclusive_two : ∃ w : LockWorld (Fin 2),
    Run (Guarded Step Named) (init 0) [(0, .acquire 1 1 64), (0, .access), (1, .tryLock 1 2 64),
      (0, .access), (1, .access)] w ∧ w.Exclusive := by
  have hexec : (execute perform Named (init 0) [((0 : Fin 2), LockEvent.acquire 1 1 64),
      (0, .access), (1, .tryLock 1 2 64), (0, .access), (1, .access)]).any
      (fun _ => true) = true := by decide
  obtain ⟨w, hrun, -⟩ := Run.of_execute_any (fun _ _ _ h => (h : Step _ _ _)) hexec
  exact ⟨w, hrun, run_exclusive hrun⟩

/-- Two threads of a process whose ids are multiples of 2^16, at a program counter of 2^32: both take
the lock. -/
theorem not_run_exclusive : ∃ (es : List (Fin 2 × LockEvent)) (w : LockWorld (Fin 2)),
    Run Step (init 0) es w ∧ ¬ w.Exclusive := by
  have hexec : (execute perform (fun _ _ => True) (init 0)
      [((0 : Fin 2), LockEvent.acquire 65536 65536 4294967296), (0, .access), (0, .access),
        (0, .access), (1, .acquire 65536 131072 4294967296), (1, .access), (1, .access),
        (1, .access)]).any
      (fun w => w.threads 0 = .inside ∧ w.threads 1 = .inside) = true := by decide
  obtain ⟨w, hrun, hend⟩ := Run.of_execute_any (fun _ _ _ h => (h : Step _ _ _)) hexec
  obtain ⟨hzero, hone⟩ := of_decide_eq_true hend
  refine ⟨_, w, hrun.mono fun h => h.2, ?_⟩
  intro hexclusive
  have heq := hexclusive 0 1 (by rw [hzero]; trivial) (by rw [hone]; trivial)
  exact absurd heq (by decide)

end LockWorld

end Libxseg

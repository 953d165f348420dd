import Mathlib.Data.Fin.VecNotation
import Libxseg.Xlock

/-!
# Freeing the locks of a dead process

`check_and_unlock` of xseg-tool.c, which `cmd_recoverlocks` calls for every lock of a
segment, reads the process id out of the lock word and frees the lock if that is the id
that was asked for. The word has only 16 bits of the id, the id asked for has all of them:
the lock of a process with a larger id is never freed, and the lock of another process may
be. What is printed is left out, but whether it is printed.
-/

namespace Libxseg

set_option autoImplicit false

def xlockUnpackOwner (owner : xlock_owner_t) : Int32 × Int32 × UInt64 :=
  let pc := owner &&& (((1 : UInt64) <<< PC_BITS) - 1)
  let owner := owner >>> PC_BITS
  let tid := (owner &&& (((1 : UInt64) <<< TID_BITS) - 1)).toUInt32.toInt32
  let owner := owner >>> TID_BITS
  let pid := (owner &&& (((1 : UInt64) <<< PID_BITS) - 1)).toUInt32.toInt32
  (pid, tid, pc)

def xlockRelease (lock : Xlock) : Xlock :=
  let lock := { lock with pc := 0 }
  { lock with owner := XLOCK_NOONE }

def checkAndUnlock (lock : Xlock) (pid : Int32) : Bool × Xlock :=
  let (owner_pid, _, _) := xlockUnpackOwner lock.owner
  if owner_pid = pid then (true, xlockRelease lock) else (false, lock)

theorem xlockUnpackOwner_pid (owner : xlock_owner_t) :
    (xlockUnpackOwner owner).1.toInt = owner.toNat / 2 ^ 48 := by
  have hlt := owner.toNat_lt
  have hfield : ((owner >>> PC_BITS >>> TID_BITS) &&& (((1 : UInt64) <<< PID_BITS) - 1)).toNat =
      owner.toNat / 2 ^ 48 := by
    have hpc : PC_BITS.toNat % 64 = 32 := rfl
    have htid : TID_BITS.toNat % 64 = 16 := rfl
    have hmask : (((1 : UInt64) <<< PID_BITS) - 1).toNat = 2 ^ 16 - 1 := rfl
    rw [UInt64.toNat_and, UInt64.toNat_shiftRight, UInt64.toNat_shiftRight, hpc, htid, hmask,
      Nat.and_two_pow_sub_one_eq_mod, Nat.shiftRight_eq_div_pow, Nat.shiftRight_eq_div_pow]
    omega
  have hint := toInt_toInt32_of_lt (p := (owner >>> PC_BITS >>> TID_BITS) &&&
    (((1 : UInt64) <<< PID_BITS) - 1)) (by omega)
  exact hint.trans (congrArg Nat.cast hfield)

/-- What is read out of a word are the low bits of the process id that went in. -/
theorem unpack_pack_pid (pid tid : Int32) (ip : UInt64) :
    (xlockUnpackOwner (xlockPackOwner pid tid ip)).1.toInt = pid.toInt % 2 ^ 16 := by
  have hword := xlockPackOwner_toNat pid tid ip
  rw [xlockUnpackOwner_pid]
  omega

namespace LockWorld
variable {θ : Type} {pids : θ → Int32} {p : Int32} {w w' : LockWorld θ}

def OfProcess (pids : θ → Int32) : θ × LockEvent → Prop
  | (t, .acquire pid _ _) => pid = pids t
  | (t, .tryLock pid _ _) => pid = pids t
  | _ => True

def HeldBy (pids : θ → Int32) (p : Int32) (w : LockWorld θ) : Prop :=
  ∃ t, (w.threads t).Holds ∧ pids t = p

/-- The lock is freed exactly if the process has it, and is as it was otherwise. -/
structure Recovers (pids : θ → Int32) (p : Int32) (w : LockWorld θ) : Prop where
  exact : (checkAndUnlock w.lock p).1 = true ↔ w.HeldBy pids p
  freed : (checkAndUnlock w.lock p).1 = true →
    (checkAndUnlock w.lock p).2.owner = XLOCK_NOONE
  untouched : (checkAndUnlock w.lock p).1 = false → (checkAndUnlock w.lock p).2 = w.lock

def WordOf (pid : Int32) (who : xlock_owner_t) : Prop :=
  ∃ tid ip, who = xlockPackOwner pid tid ip

/-- Threads wait with words of their own processes, and the word of the lock is that of the
thread that has it, as long as there is no other. -/
structure Signed (pids : θ → Int32) (w : LockWorld θ) : Prop where
  waiting : ∀ t who, (w.threads t).who = some who → WordOf (pids t) who
  holder : w.Exclusive → ∀ t, (w.threads t).Holds → WordOf (pids t) w.lock.owner
  free : (∀ t, ¬ (w.threads t).Holds) → w.lock.owner = XLOCK_NOONE

theorem checkAndUnlock_fst (lock : Xlock) (p : Int32) :
    (checkAndUnlock lock p).1 = true ↔ (xlockUnpackOwner lock.owner).1.toInt = p.toInt := by
  unfold checkAndUnlock
  dsimp only
  rw [Int32.toInt_inj]
  split <;> simp_all

theorem recovers_iff_exact :
    w.Recovers pids p ↔ ((checkAndUnlock w.lock p).1 = true ↔ w.HeldBy pids p) := by
  constructor
  · exact Recovers.exact
  · intro hexact
    refine ⟨hexact, ?_, ?_⟩
    · intro hfreed
      unfold checkAndUnlock at hfreed ⊢
      dsimp only at hfreed ⊢
      split at hfreed
      · next hpid =>
        rw [if_pos hpid]
        rfl
      · exact absurd hfreed Bool.false_ne_true
    · intro hkept
      unfold checkAndUnlock at hkept ⊢
      dsimp only at hkept ⊢
      split at hkept
      · exact absurd hkept.symm Bool.false_ne_true
      · next hpid => rw [if_neg hpid]

/-- With the word that of the holder, only the bits that are kept decide. -/
theorem Signed.recovers_iff (h : w.Signed pids) (hexclusive : w.Exclusive) (hp : 0 < p.toInt) :
    w.Recovers pids p ↔
      ∀ t, (w.threads t).Holds → ((pids t).toInt % 2 ^ 16 = p.toInt ↔ pids t = p) := by
  rw [recovers_iff_exact, checkAndUnlock_fst]
  by_cases hheld : ∃ t, (w.threads t).Holds
  · obtain ⟨t, ht⟩ := hheld
    obtain ⟨tid, ip, howner⟩ := h.holder hexclusive t ht
    have hby : w.HeldBy pids p ↔ pids t = p := by
      constructor
      · rintro ⟨u, hu, hpid⟩
        rwa [hexclusive t u ht hu]
      · exact fun hpid => ⟨t, ht, hpid⟩
    rw [howner, unpack_pack_pid, hby]
    constructor
    · intro hiff u hu
      rwa [← hexclusive t u ht hu]
    · exact fun hall => hall t ht
  · have hnone (t : θ) : ¬ (w.threads t).Holds := fun ht => hheld ⟨t, ht⟩
    have hzero : (xlockUnpackOwner XLOCK_NOONE).1.toInt = 0 := by decide
    rw [h.free hnone, hzero]
    constructor
    · exact fun _ t ht => absurd ht (hnone t)
    · intro
      constructor
      · intro heq
        omega
      · rintro ⟨t, ht, -⟩
        exact absurd ht (hnone t)

theorem wordOf_none {pid : Int32} (who : xlock_owner_t)
    (hwho : (none : Option xlock_owner_t) = some who) : WordOf pid who :=
  absurd hwho.symm (Option.some_ne_none who)

variable [DecidableEq θ] {t : θ} {lock : Xlock} {pc : LockPc}

theorem Signed.setThread_waiting (h : w.Signed pids)
    (hwho : ∀ who, pc.who = some who → WordOf (pids t) who) (u : θ) (who : xlock_owner_t)
    (hu : ((w.setThread t lock pc).threads u).who = some who) : WordOf (pids u) who := by
  by_cases hut : u = t
  · subst hut
    rw [setThread_same] at hu
    exact hwho who hu
  · rw [setThread_other _ _ hut] at hu
    exact h.waiting u who hu

theorem Signed.stay (h : w.Signed pids) (hholds : pc.Holds ↔ (w.threads t).Holds)
    (howner : lock.owner = w.lock.owner)
    (hwho : ∀ who, pc.who = some who → WordOf (pids t) who) :
    (w.setThread t lock pc).Signed pids := by
  have hsame (u : θ) : ((w.setThread t lock pc).threads u).Holds ↔ (w.threads u).Holds := by
    by_cases hut : u = t
    · subst hut
      rw [setThread_same, hholds]
    · rw [setThread_other _ _ hut]
  constructor
  · exact h.setThread_waiting hwho
  · intro hexclusive u hu
    have hbefore : w.Exclusive := fun a b ha hb =>
      hexclusive a b ((hsame a).mpr ha) ((hsame b).mpr hb)
    have hword := h.holder hbefore u ((hsame u).mp hu)
    rwa [← howner] at hword
  · intro hnone
    have hfree := h.free fun u hu => hnone u ((hsame u).mpr hu)
    exact howner.trans hfree

theorem Signed.take (h : w.Signed pids) (hword : WordOf (pids t) lock.owner) (ip : UInt64) :
    (w.setThread t lock (.store ip)).Signed pids := by
  have ht : ((w.setThread t lock (.store ip)).threads t).Holds := by
    rw [setThread_same]
    trivial
  constructor
  · exact h.setThread_waiting wordOf_none
  · intro hexclusive u hu
    rwa [hexclusive u t hu ht]
  · exact fun hnone => absurd ht (hnone t)

/-- A thread gives the lock up: the word is 0, and nobody has the lock if that thread had it
alone. -/
theorem Signed.giveUp (h : w.Signed pids) (hexclusive : w.Exclusive)
    (hheld : (w.threads t).Holds) (hfree : lock.owner = XLOCK_NOONE) :
    (w.setThread t lock .outside).Signed pids := by
  have hnone := hexclusive.outside hheld lock
  constructor
  · exact h.setThread_waiting wordOf_none
  · exact fun _ u hu => absurd hu (hnone u)
  · exact fun _ => hfree

theorem Signed.access (h : w.Signed pids) (hexclusive : w.Exclusive) (t : θ) :
    (w.setThread t (w.lock.access (w.threads t)).1 (w.lock.access (w.threads t)).2).Signed
      pids := by
  have hword := h.waiting t
  cases hpc : w.threads t with
  | outside | inside | store =>
    refine h.stay ?_ rfl wordOf_none
    rw [hpc]
    rfl
  | clear =>
    refine h.giveUp hexclusive ?_ rfl
    rw [hpc]
    trivial
  | spin who ip =>
    rw [hpc] at hword
    unfold Xlock.access
    dsimp only
    split
    · refine h.stay ?_ rfl hword
      rw [hpc]
    · refine h.stay ?_ rfl hword
      rw [hpc]
      rfl
  | look who ip =>
    rw [hpc] at hword
    unfold Xlock.access
    dsimp only
    split
    · refine h.stay ?_ rfl hword
      rw [hpc]
      rfl
    · refine h.stay ?_ rfl wordOf_none
      rw [hpc]
      rfl
  | swap who ip =>
    rw [hpc] at hword
    unfold Xlock.access
    dsimp only
    split
    · exact h.take (hword who rfl) ip
    · refine h.stay ?_ rfl hword
      rw [hpc]
      rfl
  | trySwap who ip =>
    rw [hpc] at hword
    unfold Xlock.access
    dsimp only
    split
    · exact h.take (hword who rfl) ip
    · refine h.stay ?_ rfl wordOf_none
      rw [hpc]
      rfl

theorem Signed.step {e : θ × LockEvent} (h : w.Signed pids) (hexclusive : w.Exclusive)
    (hpid : OfProcess pids e) (hstep : w.Step e w') : w'.Signed pids := by
  obtain ⟨t, e⟩ := e
  cases e with
  | acquire pid tid ip =>
    obtain ⟨hpc, rfl⟩ := of_ite_some hstep
    obtain rfl : pid = pids t := hpid
    refine h.stay ?_ rfl ?_
    · rw [hpc]
      rfl
    · rintro _ ⟨⟩
      exact ⟨tid, ip, rfl⟩
  | tryLock pid tid ip =>
    obtain ⟨hpc, rfl⟩ := of_ite_some hstep
    obtain rfl : pid = pids t := hpid
    refine h.stay ?_ rfl ?_
    · rw [hpc]
      rfl
    · rintro _ ⟨⟩
      exact ⟨tid, ip, rfl⟩
  | release =>
    obtain ⟨hpc, rfl⟩ := of_ite_some hstep
    refine h.stay ?_ rfl ?_
    · rw [hpc]
      rfl
    · exact wordOf_none
  | access =>
    cases hstep
    exact h.access hexclusive t

omit [DecidableEq θ] in
theorem signed_init (ip : UInt64) : (init (θ := θ) ip).Signed pids where
  waiting _ := wordOf_none
  holder _ _ ht := ht.elim
  free _ := rfl

theorem run_recovers_iff {ip : UInt64} {es : List (θ × LockEvent)}
    (hrun : Run (Guarded Step fun w e => w.Exclusive ∧ OfProcess pids e) (init ip) es w)
    (hexclusive : w.Exclusive) (hp : 0 < p.toInt) :
    w.Recovers pids p ↔
      ∀ t, (w.threads t).Holds → ((pids t).toInt % 2 ^ 16 = p.toInt ↔ pids t = p) := by
  have hsigned : w.Signed pids :=
    hrun.invariant (fun h hstep => h.step hstep.1.1 hstep.1.2 hstep.2) (signed_init ip)
  exact hsigned.recovers_iff hexclusive hp

section Pair

def pairPids (pid : Int32) : Fin 2 → Int32 := ![pid, 7]

def pairCalls (pid : Int32) : List (Fin 2 × LockEvent) :=
  [(0, .acquire pid 3 64), (0, .access), (1, .tryLock 7 8 64), (0, .access), (0, .access),
    (1, .access)]

instance (pc : LockPc) : Decidable pc.Holds :=
  match pc with
  | .store _ | .inside | .clear => isTrue trivial
  | .outside | .spin .. | .swap .. | .look .. | .trySwap .. => isFalse id

instance (w : LockWorld (Fin 2)) : Decidable w.Exclusive :=
  inferInstanceAs (Decidable (∀ t u, (w.threads t).Holds → (w.threads u).Holds → t = u))

instance (pids : Fin 2 → Int32) (e : Fin 2 × LockEvent) : Decidable (OfProcess pids e) :=
  match e with
  | (_, .acquire ..) | (_, .tryLock ..) | (_, .release) | (_, .access) => by
    unfold OfProcess
    infer_instance

theorem run_pairCalls (pid : Int32)
    (hexec : (execute perform (fun w e => w.Exclusive ∧ OfProcess (pairPids pid) e) (init 0)
      (pairCalls pid)).any (fun w => w.Exclusive ∧ w.threads 0 = .inside) = true) :
    ∃ w : LockWorld (Fin 2),
      Run (Guarded Step fun w e => w.Exclusive ∧ OfProcess (pairPids pid) e) (init 0)
        (pairCalls pid) w ∧ w.Exclusive ∧ w.threads 0 = .inside := by
  obtain ⟨w, hrun, hend⟩ := Run.of_execute_any (fun _ _ _ h => (h : Step _ _ _)) hexec
  exact ⟨w, hrun, of_decide_eq_true hend⟩

theorem run_recovers_pair : ∃ w : LockWorld (Fin 2),
    Run (Guarded Step fun w e => w.Exclusive ∧ OfProcess (pairPids 5) e) (init 0)
      (pairCalls 5) w ∧ w.Recovers (pairPids 5) 5 := by
  obtain ⟨w, hrun, hexclusive, hzero⟩ := run_pairCalls 5 (by decide)
  refine ⟨w, hrun, (run_recovers_iff hrun hexclusive (by decide)).mpr ?_⟩
  intro t ht
  obtain rfl : t = 0 := hexclusive t 0 ht (by rw [hzero]; trivial)
  decide

/-- The process 5 is dead, the process 65541 has the lock: it is freed. -/
theorem not_run_recovers : ∃ (p : Int32) (w : LockWorld (Fin 2)),
    1 ≤ p.toInt ∧ p.toInt ≤ 2 ^ 22 ∧
      Run (Guarded Step fun w e => w.Exclusive ∧ OfProcess (pairPids 65541) e) (init 0)
        (pairCalls 65541) w ∧ w.Exclusive ∧ ¬ w.Recovers (pairPids 65541) p := by
  obtain ⟨w, hrun, hexclusive, hzero⟩ := run_pairCalls 65541 (by decide)
  refine ⟨5, w, by decide, by decide, hrun, hexclusive, ?_⟩
  have hsigned : w.Signed (pairPids 65541) :=
    hrun.invariant (fun h hstep => h.step hstep.1.1 hstep.1.2 hstep.2) (signed_init 0)
  rw [hsigned.recovers_iff hexclusive (by decide)]
  intro hall
  have hiff := hall 0 (by rw [hzero]; trivial)
  exact absurd hiff (by decide)

end Pair

end LockWorld

end Libxseg

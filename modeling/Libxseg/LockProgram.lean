import Mathlib.Data.Finset.Basic

/-!
# Programs that take and release locks

A program works on data and on the set of locks that are taken. It has no result when it
waits for a lock that is taken, or when a loop of it has no end; a loop is given the turns
it may take. `Frees` is what a caller wants: the program returns, with every lock free.
-/

namespace Libxseg

set_option autoImplicit false

structure Locked (ι σ : Type) where
  data : σ
  held : Finset ι

abbrev LockM (ι σ : Type) := StateT (Locked ι σ) Option

namespace LockM

section Operations
variable {ι σ α β : Type} [DecidableEq ι]

def acquire (l : ι) : LockM ι σ Unit := fun s =>
  if l ∈ s.held then none else some ((), { s with held := insert l s.held })

def release (l : ι) : LockM ι σ Unit := fun s => some ((), { s with held := s.held.erase l })

def tryLock (l : ι) : LockM ι σ Bool := fun s =>
  if l ∈ s.held then some (false, s) else some (true, { s with held := insert l s.held })

def act (f : σ → α × σ) : LockM ι σ α := fun s => some ((f s.data).1, { s with data := (f s.data).2 })

def look : LockM ι σ σ := fun s => some (s.data, s)

def diverge : LockM ι σ α := fun _ => none

def critical (l : ι) (f : σ → α × σ) : LockM ι σ α := do
  acquire l
  let a ← act f
  release l
  return a

end Operations

section Rules
variable {ι σ α β : Type} {s s' : Locked ι σ} {d : σ} {held : Finset ι}

def Frees (m : LockM ι σ α) (s : Locked ι σ) : Prop := ∃ a d, m s = some (a, ⟨d, ∅⟩)

theorem frees_pure_iff (a : α) : Frees (pure a : LockM ι σ α) s ↔ s.held = ∅ := by
  constructor
  · rintro ⟨b, d, h⟩
    have hs : s = ⟨d, ∅⟩ := (Prod.mk.inj (Option.some.inj h)).2
    rw [hs]
  · intro h
    refine ⟨a, s.data, ?_⟩
    rw [← h]
    rfl

theorem run_bind {m : LockM ι σ α} {a : α} (h : m s = some (a, s')) (f : α → LockM ι σ β) :
    (m >>= f) s = f a s' := by
  change (m s).bind (fun p => f p.1 p.2) = _
  rw [h]
  rfl

theorem run_bind_none {m : LockM ι σ α} (h : m s = none) (f : α → LockM ι σ β) :
    (m >>= f) s = none := by
  change (m s).bind (fun p => f p.1 p.2) = _
  rw [h]
  rfl

theorem frees_bind {m : LockM ι σ α} {a : α} (h : m s = some (a, s')) (f : α → LockM ι σ β) :
    Frees (m >>= f) s ↔ Frees (f a) s' := by
  unfold Frees
  rw [run_bind h]

theorem frees_diverge : ¬ Frees (diverge : LockM ι σ α) s := by
  rintro ⟨a, d, h⟩
  cases h

theorem frees_look_bind (f : σ → LockM ι σ β) :
    Frees (look >>= f) ⟨d, held⟩ ↔ Frees (f d) ⟨d, held⟩ :=
  frees_bind rfl f

theorem frees_act_bind (g : σ → α × σ) (f : α → LockM ι σ β) :
    Frees (act g >>= f) ⟨d, held⟩ ↔ Frees (f (g d).1) ⟨(g d).2, held⟩ :=
  frees_bind rfl f

end Rules

section Free
variable {ι σ α β : Type} [DecidableEq ι] {d : σ} {l : ι}

omit [DecidableEq ι] in
theorem frees_pure (a : α) (d : σ) : Frees (pure a : LockM ι σ α) ⟨d, ∅⟩ :=
  (frees_pure_iff a).mpr rfl

omit [DecidableEq ι] in
/-- A program that returns with every lock free may be followed by any such program. -/
theorem Frees.bind {m : LockM ι σ α} {f : α → LockM ι σ β} (hm : Frees m ⟨d, ∅⟩)
    (hf : ∀ a d, Frees (f a) ⟨d, ∅⟩) : Frees (m >>= f) ⟨d, ∅⟩ := by
  obtain ⟨a, d', h⟩ := hm
  exact (frees_bind h f).mpr (hf a d')

theorem run_acquire (l : ι) (d : σ) :
    (acquire l : LockM ι σ Unit) ⟨d, ∅⟩ = some ((), ⟨d, {l}⟩) :=
  if_neg (Finset.notMem_empty l)

theorem run_tryLock (l : ι) (d : σ) :
    (tryLock l : LockM ι σ Bool) ⟨d, ∅⟩ = some (true, ⟨d, {l}⟩) :=
  if_neg (Finset.notMem_empty l)

theorem run_release (l : ι) (d : σ) :
    (release l : LockM ι σ Unit) ⟨d, {l}⟩ = some ((), ⟨d, ∅⟩) := by
  unfold release
  dsimp only
  rw [Finset.erase_singleton]

theorem run_critical (l : ι) (g : σ → α × σ) (d : σ) :
    critical l g ⟨d, ∅⟩ = some ((g d).1, ⟨(g d).2, ∅⟩) := by
  unfold critical
  rw [run_bind (run_acquire l d), run_bind rfl, run_bind (run_release l _)]
  rfl

theorem frees_acquire_bind (f : Unit → LockM ι σ β) :
    Frees (acquire l >>= f) ⟨d, ∅⟩ ↔ Frees (f ()) ⟨d, {l}⟩ :=
  frees_bind (run_acquire l d) f

theorem frees_tryLock_bind (f : Bool → LockM ι σ β) :
    Frees (tryLock l >>= f) ⟨d, ∅⟩ ↔ Frees (f true) ⟨d, {l}⟩ :=
  frees_bind (run_tryLock l d) f

theorem frees_release_bind (f : Unit → LockM ι σ β) :
    Frees (release l >>= f) ⟨d, {l}⟩ ↔ Frees (f ()) ⟨d, ∅⟩ :=
  frees_bind (run_release l d) f

theorem frees_critical (l : ι) (g : σ → α × σ) (d : σ) : Frees (critical l g) ⟨d, ∅⟩ :=
  ⟨_, _, run_critical l g d⟩

theorem frees_critical_bind (l : ι) (g : σ → α × σ) {f : α → LockM ι σ β}
    (hf : ∀ a d, Frees (f a) ⟨d, ∅⟩) : Frees (critical l g >>= f) ⟨d, ∅⟩ :=
  (frees_critical l g d).bind hf

end Free

end LockM

end Libxseg

import Mathlib.Data.Fintype.Card
import Mathlib.Data.Set.Finite.Basic
import Mathlib.Logic.Relation
import Mathlib.Order.WellFounded
import Libxseg.Transition

/-!
# Threads that take two locks each

Every thread runs a program that takes one lock, then a second one, and no lock after that.
The locks spin: a thread at a taken lock makes no step. Threads may come to wait for one
another in a circle, and whether they can is decided by the programs alone: there has to be
a circle of programs each of which takes second the lock that the next one takes first.
-/

namespace Libxseg

set_option autoImplicit false

open Relation (TransGen ReflTransGen)

inductive LockOp (ι δ : Type) where
  | acquire (l : ι)
  | release (l : ι)
  | act (f : δ → δ)

structure TwoLocks (ι δ : Type) where
  first : ι
  second : ι
  body : List (LockOp ι δ)
  takesNoMore : ∀ l, LockOp.acquire l ∉ body

structure Contention (θ ι δ : Type) where
  rest : θ → List (LockOp ι δ)
  owner : ι → Option θ
  data : δ

namespace TwoLocks
variable {ι δ : Type}

def ops (p : TwoLocks ι δ) : List (LockOp ι δ) :=
  .acquire p.first :: .acquire p.second :: p.body

def LeadsTo (p p' : TwoLocks ι δ) : Prop := p.second = p'.first

inductive Stage (p : TwoLocks ι δ) (owned : ι → Prop) : List (LockOp ι δ) → Prop where
  | start : (∀ l, ¬ owned l) → Stage p owned p.ops
  | half : (∀ l, owned l → l = p.first) → Stage p owned (.acquire p.second :: p.body)
  | past {ops : List (LockOp ι δ)} : (∀ l, LockOp.acquire l ∉ ops) → Stage p owned ops

variable {p : TwoLocks ι δ} {owned owned' : ι → Prop} {ops : List (LockOp ι δ)} {l m : ι}

theorem Stage.mono (h : Stage p owned ops) (hsub : ∀ l, owned' l → owned l) :
    Stage p owned' ops := by
  cases h with
  | start hnone => exact .start fun l hl => hnone l (hsub l hl)
  | half honly => exact .half fun l hl => honly l (hsub l hl)
  | past hno => exact .past hno

theorem Stage.acquire (h : Stage p owned (.acquire l :: ops))
    (hnew : ∀ m, owned' m → m = l ∨ owned m) : Stage p owned' ops := by
  generalize hall : LockOp.acquire l :: ops = all at h
  cases h with
  | start hnone =>
    obtain ⟨hl, rfl⟩ := List.cons.inj hall
    obtain rfl := LockOp.acquire.inj hl
    exact .half fun m hm => (hnew m hm).resolve_right (hnone m)
  | half =>
    obtain ⟨-, rfl⟩ := List.cons.inj hall
    exact .past p.takesNoMore
  | past hno => exact absurd (hall ▸ List.mem_cons_self) (hno l)

theorem Stage.tail {op : LockOp ι δ} (h : Stage p owned (op :: ops))
    (hop : ∀ l, op ≠ .acquire l) : Stage p owned' ops := by
  generalize hall : op :: ops = all at h
  cases h with
  | start => exact absurd (List.cons.inj hall).1 (hop p.first)
  | half => exact absurd (List.cons.inj hall).1 (hop p.second)
  | past hno =>
    subst hall
    exact .past fun l hl => hno l (List.mem_cons_of_mem op hl)

/-- A thread that has one lock and is at another is between its two locks. -/
theorem Stage.between (h : Stage p owned (.acquire l :: ops)) (hm : owned m) :
    l = p.second ∧ m = p.first := by
  generalize hall : LockOp.acquire l :: ops = all at h
  cases h with
  | start hnone => exact absurd hm (hnone m)
  | half honly => exact ⟨LockOp.acquire.inj (List.cons.inj hall).1, honly m hm⟩
  | past hno => exact absurd (hall ▸ List.mem_cons_self) (hno l)

end TwoLocks

namespace Contention
variable {θ ι δ : Type}

def start (programs : θ → List (LockOp ι δ)) (data : δ) : Contention θ ι δ :=
  { rest := programs, owner := fun _ => none, data := data }

def advance [DecidableEq θ] (s : Contention θ ι δ) (t : θ) (ops : List (LockOp ι δ)) :
    Contention θ ι δ := { s with rest := Function.update s.rest t ops }

def setOwner [DecidableEq ι] (s : Contention θ ι δ) (l : ι) (o : Option θ) : Contention θ ι δ :=
  { s with owner := Function.update s.owner l o }

section Fields
variable [DecidableEq θ] [DecidableEq ι] {s : Contention θ ι δ} {t u : θ} {l m : ι}
  {ops : List (LockOp ι δ)} {o : Option θ}

omit [DecidableEq ι] in
theorem advance_self : (s.advance t ops).rest t = ops := Function.update_self ..

omit [DecidableEq ι] in
theorem advance_of_ne (h : u ≠ t) : (s.advance t ops).rest u = s.rest u :=
  Function.update_of_ne h _ _

omit [DecidableEq θ] in
theorem setOwner_self : (s.setOwner l o).owner l = o := Function.update_self ..

omit [DecidableEq θ] in
theorem setOwner_of_ne (h : m ≠ l) : (s.setOwner l o).owner m = s.owner m :=
  Function.update_of_ne h _ _

omit [DecidableEq θ] in
/-- An owner after a change of one owner is the new one or an old one. -/
theorem setOwner_cases (h : (s.setOwner l o).owner m = some u) :
    m = l ∧ o = some u ∨ m ≠ l ∧ s.owner m = some u := by
  by_cases hml : m = l
  · subst hml
    exact .inl ⟨rfl, setOwner_self.symm.trans h⟩
  · exact .inr ⟨hml, (setOwner_of_ne hml).symm.trans h⟩

end Fields

end Contention

inductive ThreadStep {θ ι δ : Type} [DecidableEq θ] [DecidableEq ι] (s : Contention θ ι δ) (t : θ) :
    Contention θ ι δ → Prop where
  | acquire (l : ι) (ops : List (LockOp ι δ)) : s.rest t = .acquire l :: ops → s.owner l = none →
      ThreadStep s t ((s.advance t ops).setOwner l (some t))
  | release (l : ι) (ops : List (LockOp ι δ)) : s.rest t = .release l :: ops →
      ThreadStep s t ((s.advance t ops).setOwner l none)
  | act (f : δ → δ) (ops : List (LockOp ι δ)) : s.rest t = .act f :: ops →
      ThreadStep s t { s.advance t ops with data := f s.data }

namespace Contention
variable {θ ι δ : Type}

def Waits (s : Contention θ ι δ) (t u : θ) : Prop :=
  ∃ l ops, s.rest t = .acquire l :: ops ∧ s.owner l = some u

def Deadlock (s : Contention θ ι δ) : Prop := ∃ t, TransGen s.Waits t t

def Staged (programs : θ → TwoLocks ι δ) (s : Contention θ ι δ) : Prop :=
  ∀ t, (programs t).Stage (fun l => s.owner l = some t) (s.rest t)

end Contention

section Cycles
variable {θ : Type} {r r' : θ → θ → Prop}

/-- In a chain that goes on at both ends every link lies between two others. -/
theorem transGen_inner {a b : θ}
    (hinner : ∀ {x y}, (∃ w, r w x) → r x y → (∃ z, r y z) → r' x y)
    (h : TransGen r a b) (hbefore : ∃ w, r w a) (hafter : ∃ z, r b z) : TransGen r' a b := by
  induction h with
  | single hab => exact .single (hinner hbefore hab hafter)
  | @tail b c hab hbc ih =>
    obtain ⟨w, -, hwb⟩ := TransGen.tail'_iff.mp hab
    exact (ih ⟨c, hbc⟩).tail (hinner ⟨w, hwb⟩ hbc hafter)

theorem transGen_self_next {a : θ} (h : TransGen r a a) : ∃ b, r a b ∧ TransGen r b b := by
  obtain ⟨b, hab, hba⟩ := TransGen.head'_iff.mp h
  exact ⟨b, hab, .tail' hba hab⟩

theorem transGen_self_inner {a : θ}
    (hinner : ∀ {x y}, (∃ w, r w x) → r x y → (∃ z, r y z) → r' x y)
    (h : TransGen r a a) : TransGen r' a a := by
  obtain ⟨b, hab, -⟩ := transGen_self_next h
  obtain ⟨w, -, hwa⟩ := TransGen.tail'_iff.mp h
  exact transGen_inner hinner h ⟨w, hwa⟩ ⟨b, hab⟩

/-- A finite set of threads each of which is related to another one of the set has a circle. -/
theorem exists_transGen_self [Finite θ] {H : Set θ} (hne : H.Nonempty)
    (hnext : ∀ t ∈ H, ∃ u ∈ H, r t u) : ∃ t, TransGen r t t := by
  by_contra hno
  have hirrefl : Std.Irrefl (TransGen (Function.swap r)) :=
    ⟨fun t ht => hno ⟨t, Relation.transGen_swap.mp ht⟩⟩
  have hwf : WellFounded (TransGen (Function.swap r)) := Finite.wellFounded_of_trans_of_irrefl _
  obtain ⟨t, ht, hmin⟩ := hwf.has_min H hne
  obtain ⟨u, hu, htu⟩ := hnext t ht
  exact hmin u hu (.single htu)

end Cycles

section Runs
variable {θ ι δ : Type} [DecidableEq θ] [DecidableEq ι] {programs : θ → TwoLocks ι δ}
  {s s' : Contention θ ι δ} {as : List θ} {data : δ} {t u : θ}

open Contention

/-- The thread that makes a step leaves the others where they are and gives them nothing. -/
theorem ThreadStep.other (h : ThreadStep s t s') (hne : u ≠ t) :
    s'.rest u = s.rest u ∧ ∀ l, s'.owner l = some u → s.owner l = some u := by
  cases h with
  | acquire l ops =>
    refine ⟨advance_of_ne hne, fun m hm => ?_⟩
    cases setOwner_cases hm with
    | inl h => exact absurd (Option.some.inj h.2).symm hne
    | inr h => exact h.2
  | release l ops =>
    refine ⟨advance_of_ne hne, fun m hm => ?_⟩
    cases setOwner_cases hm with
    | inl h => exact absurd h.2.symm (Option.some_ne_none u)
    | inr h => exact h.2
  | act => exact ⟨advance_of_ne hne, fun _ hm => hm⟩

theorem ThreadStep.stage {p : TwoLocks ι δ} (h : ThreadStep s t s')
    (hp : p.Stage (fun l => s.owner l = some t) (s.rest t)) :
    p.Stage (fun l => s'.owner l = some t) (s'.rest t) := by
  cases h with
  | acquire l ops hrest =>
    rw [hrest] at hp
    change p.Stage _ ((s.advance t ops).rest t)
    rw [advance_self]
    apply hp.acquire
    intro m hm
    exact (setOwner_cases hm).imp And.left And.right
  | release l ops hrest =>
    rw [hrest] at hp
    change p.Stage _ ((s.advance t ops).rest t)
    rw [advance_self]
    exact hp.tail fun _ h => by cases h
  | act f ops hrest =>
    rw [hrest] at hp
    change p.Stage _ ((s.advance t ops).rest t)
    rw [advance_self]
    exact hp.tail fun _ h => by cases h

theorem ThreadStep.staged (h : ThreadStep s t s') (hs : Staged programs s) :
    Staged programs s' := by
  intro u
  by_cases hut : u = t
  · exact hut ▸ h.stage (hs t)
  · obtain ⟨hrest, howner⟩ := h.other hut
    rw [hrest]
    exact (hs u).mono howner

omit [DecidableEq θ] [DecidableEq ι] in
theorem staged_start : Staged programs (start (fun t => (programs t).ops) data) := by
  intro t
  apply TwoLocks.Stage.start
  intro l hl
  cases hl

theorem staged_run (h : Run ThreadStep (start (fun t => (programs t).ops) data) as s) :
    Staged programs s :=
  h.invariant (fun hs hstep => hstep.staged hs) staged_start

omit [DecidableEq θ] [DecidableEq ι] in
theorem Contention.Staged.leadsTo (hs : Staged programs s) (hbefore : ∃ w, s.Waits w t)
    (htu : s.Waits t u) (hafter : ∃ z, s.Waits u z) : (programs t).LeadsTo (programs u) := by
  obtain ⟨w, m, _, -, hm⟩ := hbefore
  obtain ⟨l, ops, hrest, hl⟩ := htu
  obtain ⟨z, n, ops', hrest', -⟩ := hafter
  have ht := hs t
  have hu := hs u
  rw [hrest] at ht
  rw [hrest'] at hu
  have hsecond : l = (programs t).second := (ht.between hm).1
  have hfirst : l = (programs u).first := (hu.between hl).2
  exact hsecond.symm.trans hfirst

theorem cycle_of_deadlock (h : Run ThreadStep (start (fun t => (programs t).ops) data) as s)
    (hdead : s.Deadlock) : ∃ t, TransGen (fun t u => (programs t).LeadsTo (programs u)) t t := by
  obtain ⟨t, ht⟩ := hdead
  exact ⟨t, transGen_self_inner (staged_run h).leadsTo ht⟩

/-- Of the threads in the set some have their first locks, and those are all the locks they want. -/
structure Seized (programs : θ → TwoLocks ι δ) (P : Set θ) (s : Contention θ ι δ) : Prop where
  unstarted : ∀ t, t ∉ P → s.rest t = (programs t).ops
  taken : ∀ t ∈ P, s.owner (programs t).first ≠ none
  owners : ∀ l u, s.owner l = some u →
    u ∈ P ∧ s.rest u = .acquire (programs u).second :: (programs u).body

theorem Seized.insert {P : Set θ} (h : Seized programs P s) (ht : t ∉ P) :
    ∃ as s', Run ThreadStep s as s' ∧ Seized programs (insert t P) s' := by
  cases hown : s.owner (programs t).first with
  | none =>
    refine ⟨[t], _, .single (.acquire _ _ (h.unstarted t ht) hown), ?_, ?_, ?_⟩
    · intro u hu
      rw [Set.mem_insert_iff, not_or] at hu
      exact (advance_of_ne hu.1).trans (h.unstarted u hu.2)
    · intro u hu
      by_cases hfirst : (programs u).first = (programs t).first
      · rw [hfirst, setOwner_self]
        exact Option.some_ne_none t
      · have huP : u ∈ P := hu.resolve_left fun hut => hfirst (hut ▸ rfl)
        rw [setOwner_of_ne hfirst]
        exact h.taken u huP
    · intro l u hl
      cases setOwner_cases hl with
      | inl hnew =>
        obtain rfl := Option.some.inj hnew.2
        exact ⟨Set.mem_insert t P, advance_self⟩
      | inr hold =>
        obtain ⟨huP, hrest⟩ := h.owners l u hold.2
        have hut : u ≠ t := fun hut => ht (hut ▸ huP)
        exact ⟨Set.mem_insert_of_mem t huP, (advance_of_ne hut).trans hrest⟩
  | some v =>
    refine ⟨[], s, .refl s, ?_, ?_, ?_⟩
    · intro u hu
      exact h.unstarted u fun huP => hu (Set.mem_insert_of_mem t huP)
    · intro u hu
      cases hu with
      | inl hut => rw [hut, hown]; exact Option.some_ne_none v
      | inr huP => exact h.taken u huP
    · intro l u hl
      exact ⟨Set.mem_insert_of_mem t (h.owners l u hl).1, (h.owners l u hl).2⟩

theorem exists_seized (programs : θ → TwoLocks ι δ) {P : Set θ} (hP : P.Finite) (data : δ) :
    ∃ as s, Run ThreadStep (start (fun t => (programs t).ops) data) as s ∧
      Seized programs P s := by
  induction P, hP using Set.Finite.induction_on with
  | empty =>
    refine ⟨[], _, .refl _, fun _ _ => rfl, fun _ ht => absurd ht (Set.notMem_empty _), ?_⟩
    intro l u hl
    cases hl
  | insert ht _ ih =>
    obtain ⟨as, s, hrun, hs⟩ := ih
    obtain ⟨bs, s', hrun', hs'⟩ := hs.insert ht
    exact ⟨as ++ bs, s', hrun.trans hrun', hs'⟩

omit [DecidableEq θ] [DecidableEq ι] in
/-- Each owner of a lock waits for another one when the threads' programs go in circles. -/
theorem Seized.deadlock [Finite θ] {P : Set θ} (h : Seized programs P s) (hne : P.Nonempty)
    (hnext : ∀ t ∈ P, ∃ u ∈ P, (programs t).LeadsTo (programs u)) : s.Deadlock := by
  have howner : ∀ t ∈ P, ∃ u, s.owner (programs t).first = some u :=
    fun t ht => Option.ne_none_iff_exists'.mp (h.taken t ht)
  apply exists_transGen_self (H := fun u => ∃ l, s.owner l = some u)
  · obtain ⟨t, ht⟩ := hne
    obtain ⟨u, hu⟩ := howner t ht
    exact ⟨u, _, hu⟩
  · rintro t ⟨l, hl⟩
    obtain ⟨htP, hrest⟩ := h.owners l t hl
    obtain ⟨v, hv, hlead⟩ := hnext t htP
    obtain ⟨u, hu⟩ := howner v hv
    exact ⟨u, ⟨_, hu⟩, _, _, hrest, hlead ▸ hu⟩

/-- Programs in a circle are run into a circle of threads by some interleaving. -/
theorem exists_deadlock [Finite θ] (programs : θ → TwoLocks ι δ) (data : δ)
    (hcycle : ∃ t, TransGen (fun t u => (programs t).LeadsTo (programs u)) t t) :
    ∃ as s, Run ThreadStep (start (fun t => (programs t).ops) data) as s ∧ s.Deadlock := by
  obtain ⟨as, s, hrun, hs⟩ := exists_seized programs
    (Set.toFinite { t | TransGen (fun t u => (programs t).LeadsTo (programs u)) t t }) data
  refine ⟨as, s, hrun, hs.deadlock hcycle fun t ht => ?_⟩
  obtain ⟨u, htu, hu⟩ := transGen_self_next ht
  exact ⟨u, hu, htu⟩

/-- Whether a deadlock can be reached is decided by the order in which the programs take locks. -/
theorem deadlockFree_iff [Finite θ] (programs : θ → TwoLocks ι δ) :
    (∀ as s, Run ThreadStep (start (fun t => (programs t).ops) data) as s → ¬ s.Deadlock) ↔
      ¬ ∃ t, TransGen (fun t u => (programs t).LeadsTo (programs u)) t t := by
  constructor
  · intro hfree hcycle
    obtain ⟨as, s, hrun, hdead⟩ := exists_deadlock programs data hcycle
    exact hfree as s hrun hdead
  · intro hno as s hrun hdead
    exact hno (cycle_of_deadlock hrun hdead)

omit [DecidableEq θ] [DecidableEq ι] in
theorem not_cycle_of_lt {α : Type} [Preorder α] (programs : θ → TwoLocks ι δ) (height : ι → α)
    (hlt : ∀ t, height (programs t).second < height (programs t).first) :
    ¬ ∃ t, TransGen (fun t u => (programs t).LeadsTo (programs u)) t t := by
  have hdown : ∀ {t u}, TransGen (fun t u => (programs t).LeadsTo (programs u)) t u →
      height (programs u).first < height (programs t).first := by
    intro t u htu
    induction htu with
    | single h => exact h ▸ hlt t
    | @tail u v _ h ih =>
      have hstep : height (programs v).first < height (programs u).first := h ▸ hlt u
      exact hstep.trans ih
  intro ⟨t, ht⟩
  exact lt_irrefl _ (hdown ht)

end Runs

end Libxseg

import Mathlib.Data.List.Basic

/-!
# Runs of labelled transition relations

`step s a t` says that one action labelled `a` leads from `s` to `t`. A label
carries whatever an observer sees: the call, its caller and its result. `Run`
collects the labels in the order in which they happened, so a statement about
histories is a statement about the label list.

Nothing here knows which system is being run.
-/

namespace Libxseg

set_option autoImplicit false

universe u v w

variable {σ : Type u} {τ : Type w} {α : Type v}

/-- A finite run from the first state to the last, with its labels in order. -/
inductive Run (step : σ → α → σ → Prop) : σ → List α → σ → Prop where
  | refl (s : σ) : Run step s [] s
  | snoc {s t u : σ} {as : List α} {a : α} :
      Run step s as t → step t a u → Run step s (as ++ [a]) u

namespace Run
variable {step : σ → α → σ → Prop} {s t u : σ} {as bs : List α} {a : α}

theorem single (h : step s a t) : Run step s [a] t := by
  simpa using (Run.refl s).snoc h

theorem trans (hst : Run step s as t) (htu : Run step t bs u) : Run step s (as ++ bs) u := by
  induction htu with
  | refl => simpa using hst
  | snoc _ h ih => simpa [List.append_assoc] using ih.snoc h

theorem cons (h : step s a t) (htu : Run step t bs u) : Run step s (a :: bs) u := by
  simpa using (single h).trans htu

theorem snoc_inv (h : Run step s (as ++ [a]) u) : ∃ t, Run step s as t ∧ step t a u := by
  generalize hb : as ++ [a] = bs at h
  cases h with
  | refl => simp at hb
  | @snoc t _ as' a' hr hs =>
    obtain ⟨has, ha⟩ := List.append_inj' hb rfl
    obtain rfl := has
    obtain rfl := List.singleton_inj.mp ha
    exact ⟨t, hr, hs⟩

theorem nil_inv (h : Run step s [] t) : t = s := by
  generalize hb : ([] : List α) = bs at h
  cases h with
  | refl => rfl
  | snoc => simp at hb

/-- What holds at the start and is kept by every step holds at the end. -/
theorem invariant {I : σ → Prop} (keep : ∀ {s a t}, I s → step s a t → I t)
    (h : Run step s as t) (hs : I s) : I t := by
  induction h with
  | refl => exact hs
  | snoc _ hstep ih => exact keep ih hstep

theorem history {I : List α → σ → Prop}
    (keep : ∀ {as s a t}, I as s → step s a t → I (as ++ [a]) t)
    (h : Run step s as t) (hs : I [] s) : I as t := by
  induction h with
  | refl => exact hs
  | snoc _ hstep ih => exact keep ih hstep

theorem simulate {T : τ → α → τ → Prop} {R : σ → τ → Prop}
    (sim : ∀ {s a t x}, R s x → step s a t → ∃ y, T x a y ∧ R t y)
    {x : τ} (h : Run step s as t) (hs : R s x) : ∃ y, Run T x as y ∧ R t y := by
  induction h with
  | refl => exact ⟨x, .refl x, hs⟩
  | snoc _ hstep ih =>
    obtain ⟨t', hr, ht⟩ := ih
    obtain ⟨u', hu, hR⟩ := sim ht hstep
    exact ⟨u', hr.snoc hu, hR⟩

theorem mono {step' : σ → α → σ → Prop} (sub : ∀ {s a t}, step s a t → step' s a t)
    (h : Run step s as t) : Run step' s as t := by
  induction h with
  | refl => exact .refl s
  | snoc _ hstep ih => exact ih.snoc (sub hstep)

theorem map {β : Type w} {step' : σ → β → σ → Prop} (f : α → β)
    (sub : ∀ {s a t}, step s a t → step' s (f a) t) (h : Run step s as t) :
    Run step' s (as.map f) t := by
  induction h with
  | refl => exact .refl s
  | snoc _ hstep ih =>
    rw [List.map_append]
    exact ih.snoc (sub hstep)

end Run

/-- The steps of `step` that meet a condition on the state before the step and the label. -/
def Guarded (step : σ → α → σ → Prop) (ok : σ → α → Prop) (s : σ) (a : α) (t : σ) : Prop :=
  ok s a ∧ step s a t

theorem Guarded.of_step {step : σ → α → σ → Prop} {ok : σ → α → Prop} {s t : σ} {a : α}
    (h : step s a t) (hok : ok s a) : Guarded step ok s a t := ⟨hok, h⟩

section Execution
variable {step : σ → α → σ → Prop} {perform : σ → α → Option σ} {ok : σ → α → Prop}

theorem of_ite_some {p : Prop} [Decidable p] {a b : α}
    (h : (if p then some a else none) = some b) : p ∧ a = b := by
  obtain ⟨hp, hab⟩ := Option.ite_none_right_eq_some.mp h
  exact ⟨hp, Option.some.inj hab⟩

/-- Steps that a function can compute, one after the other, all meeting a condition. -/
def execute (perform : σ → α → Option σ) (ok : σ → α → Prop) [∀ s a, Decidable (ok s a)] (s : σ) :
    List α → Option σ
  | [] => some s
  | a :: as => if ok s a then (perform s a).bind fun t => execute perform ok t as else none

theorem Run.of_execute [∀ s a, Decidable (ok s a)]
    (sound : ∀ s a t, perform s a = some t → step s a t) {s t : σ} {as : List α}
    (h : execute perform ok s as = some t) : Run (Guarded step ok) s as t := by
  induction as generalizing s with
  | nil =>
    obtain rfl := Option.some.inj h
    exact .refl s
  | cons a as ih =>
    obtain ⟨hok, h⟩ := Option.ite_none_right_eq_some.mp h
    obtain ⟨m, hstep, h⟩ := Option.bind_eq_some_iff.mp h
    exact .cons ⟨hok, sound _ _ _ hstep⟩ (ih h)

theorem Run.of_execute_any [∀ s a, Decidable (ok s a)]
    (sound : ∀ s a t, perform s a = some t → step s a t) {s : σ} {as : List α}
    {check : σ → Bool} (h : (execute perform ok s as).any check = true) :
    ∃ t, Run (Guarded step ok) s as t ∧ check t = true := by
  obtain ⟨t, ht, hcheck⟩ := (Option.any_eq_true _ _).mp h
  exact ⟨t, .of_execute sound ht, hcheck⟩

theorem execute_append [∀ s a, Decidable (ok s a)] (s : σ) (as bs : List α) :
    execute perform ok s (as ++ bs) =
      (execute perform ok s as).bind fun t => execute perform ok t bs := by
  induction as generalizing s with
  | nil => rfl
  | cons a as ih =>
    rw [List.cons_append, execute, execute]
    split
    · rw [Option.bind_assoc]
      exact congrArg _ (funext ih)
    · rfl

/-- Where the function computes every step, it computes every run. -/
theorem Run.execute_eq [∀ s a, Decidable (ok s a)]
    (complete : ∀ s a t, step s a t → perform s a = some t) {s t : σ} {as : List α}
    (h : Run (Guarded step ok) s as t) : execute perform ok s as = some t := by
  induction h with
  | refl => rfl
  | snoc _ hstep ih =>
    obtain ⟨hok, hstep⟩ := hstep
    rw [execute_append, ih, Option.bind_some, execute, if_pos hok, complete _ _ _ hstep]
    rfl

end Execution

end Libxseg

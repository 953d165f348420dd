import Mathlib.Data.List.Basic

/-!
# Which of two things was used last

`as` is a history, oldest event first, and `uses a x` says that the event `a` uses `x`.
`UsedAfter` orders the things that occur in a history by their last uses. A system that
cannot look back keeps a stamp for each thing that is live: `Stamped` says that the order
of the stamps is the order of the last uses, and `Stamped.snoc` is what an event has to do
to the stamps to keep this so. `Refreshes` is for a use that renews the stamps of other things
as well, and `refreshes_ite_iff` for one that does so in a part of them.

Nothing here knows what is used, or what the stamps are.
-/

namespace Libxseg

set_option autoImplicit false

universe u v w

variable {α : Type u} {κ : Type v} {τ : Type w} {uses : α → κ → Prop} {as : List α} {a : α}
  {x y : κ}

def UsedAfter (uses : α → κ → Prop) (as : List α) (x y : κ) : Prop :=
  ∃ before a after, as = before ++ a :: after ∧ uses a x ∧ ∀ b ∈ a :: after, ¬ uses b y

namespace UsedAfter

theorem last (hx : uses a x) (hy : ¬ uses a y) : UsedAfter uses (as ++ [a]) x y :=
  ⟨as, a, [], rfl, hx, List.forall_mem_singleton.mpr hy⟩

theorem snoc (h : UsedAfter uses as x y) (hy : ¬ uses a y) : UsedAfter uses (as ++ [a]) x y := by
  obtain ⟨before, b, after, rfl, hx, hno⟩ := h
  refine ⟨before, b, after ++ [a], by simp, hx, ?_⟩
  intro c hc
  rw [← List.cons_append] at hc
  rcases List.mem_append.mp hc with hc | hc
  · exact hno c hc
  · rwa [List.mem_singleton.mp hc]

theorem asymm (h : UsedAfter uses as x y) : ¬ UsedAfter uses as y x := by
  obtain ⟨before, b, after, rfl, hx, hno⟩ := h
  rintro ⟨before', b', after', heq, hy, hno'⟩
  rcases List.append_eq_append_iff.mp heq with ⟨l, rfl, hl⟩ | ⟨l, rfl, hl⟩
  · -- the later of the two splits is inside the rest of the earlier one
    apply hno b' _ hy
    rw [hl]
    exact List.mem_append_right _ List.mem_cons_self
  · apply hno' b _ hx
    rw [hl]
    exact List.mem_append_right _ List.mem_cons_self

end UsedAfter

structure Stamped [LT τ] (uses : α → κ → Prop) (as : List α) (live : κ → Prop) (stamp : κ → τ) :
    Prop where
  used : ∀ x, live x → ∃ a ∈ as, uses a x
  after : ∀ x y, live x → live y → stamp y < stamp x → UsedAfter uses as x y

namespace Stamped

variable [LT τ] {live live' : κ → Prop} {stamp stamp' : κ → τ}

theorem nil (h : ∀ x, ¬ live x) : Stamped uses [] live stamp :=
  ⟨fun x hx => absurd hx (h x), fun x _ hx => absurd hx (h x)⟩

/-- An event gives what it uses a stamp that is not below any other, and the rest keep theirs. -/
theorem snoc (h : Stamped uses as live stamp)
    (hold : ∀ x, live' x → ¬ uses a x → live x ∧ stamp' x = stamp x)
    (hnew : ∀ x y, live' x → live' y → uses a y → ¬ stamp' y < stamp' x) :
    Stamped uses (as ++ [a]) live' stamp' := by
  constructor
  · intro x hx
    by_cases hax : uses a x
    · exact ⟨a, List.mem_append_right _ List.mem_cons_self, hax⟩
    · obtain ⟨b, hb, hbx⟩ := h.used x (hold x hx hax).1
      exact ⟨b, List.mem_append_left _ hb, hbx⟩
  · intro x y hx hy hlt
    have hay : ¬ uses a y := fun hay => hnew x y hx hy hay hlt
    by_cases hax : uses a x
    · exact .last hax hay
    · obtain ⟨hx', hsx⟩ := hold x hx hax
      obtain ⟨hy', hsy⟩ := hold y hy hay
      rw [hsx, hsy] at hlt
      exact (h.after x y hx' hy' hlt).snoc hay

end Stamped

/-- The live things have new stamps. That of `x` is the last, and the others are in the order in
which they were. -/
structure Refreshes [LT τ] (live : κ → Prop) (x : κ) (old new : κ → τ) : Prop where
  latest : ∀ y, live y → y ≠ x → new y < new x
  order : ∀ y z, live y → live z → y ≠ x → z ≠ x → (old y < old z ↔ new y < new z)

/-- Only low things have new stamps, and these agree with each other and with those of the rest. -/
structure RefreshesLow [LT τ] (live low : κ → Prop) (x : κ) (old new : κ → τ) : Prop where
  latest_low : ∀ y, live y → y ≠ x → low y → (low x → new y < new x) ∧ (¬ low x → new y < old x)
  latest_high : ∀ y, live y → y ≠ x → ¬ low y → (low x → old y < new x) ∧ (¬ low x → old y < old x)
  order : ∀ y z, live y → live z → y ≠ x → z ≠ x → low y → low z → (old y < old z ↔ new y < new z)
  mixed : ∀ y z, live y → live z → y ≠ x → z ≠ x → low y → ¬ low z →
    (old y < old z ↔ new y < old z) ∧ (old z < old y ↔ old z < new y)

theorem refreshes_ite_iff [LT τ] {live low : κ → Prop} [DecidablePred low] {old new : κ → τ} :
    Refreshes live x old (fun y => if low y then new y else old y) ↔
      RefreshesLow live low x old new := by
  constructor
  · intro h
    refine ⟨fun y hy hne hlow => ?_, fun y hy hne hhigh => ?_,
      fun y z hy hz hyx hzx hly hlz => ?_, fun y z hy hz hyx hzx hly hhz => ?_⟩
    · have hlt := h.latest y hy hne
      rw [if_pos hlow] at hlt
      exact ⟨fun hx => by rwa [if_pos hx] at hlt, fun hx => by rwa [if_neg hx] at hlt⟩
    · have hlt := h.latest y hy hne
      rw [if_neg hhigh] at hlt
      exact ⟨fun hx => by rwa [if_pos hx] at hlt, fun hx => by rwa [if_neg hx] at hlt⟩
    · have hiff := h.order y z hy hz hyx hzx
      rwa [if_pos hly, if_pos hlz] at hiff
    · have hiff := h.order y z hy hz hyx hzx
      have hiff' := h.order z y hz hy hzx hyx
      rw [if_pos hly, if_neg hhz] at hiff hiff'
      exact ⟨hiff, hiff'⟩
  · intro h
    refine ⟨fun y hy hne => ?_, fun y z hy hz hyx hzx => ?_⟩
    · by_cases hlow : low y
      · obtain ⟨hlow', hhigh'⟩ := h.latest_low y hy hne hlow
        rw [if_pos hlow]
        split
        · exact hlow' ‹_›
        · exact hhigh' ‹_›
      · obtain ⟨hlow', hhigh'⟩ := h.latest_high y hy hne hlow
        rw [if_neg hlow]
        split
        · exact hlow' ‹_›
        · exact hhigh' ‹_›
    · by_cases hly : low y
      · by_cases hlz : low z
        · rw [if_pos hly, if_pos hlz]
          exact h.order y z hy hz hyx hzx hly hlz
        · rw [if_pos hly, if_neg hlz]
          exact (h.mixed y z hy hz hyx hzx hly hlz).1
      · by_cases hlz : low z
        · rw [if_neg hly, if_pos hlz]
          exact (h.mixed z y hz hy hzx hyx hlz hly).2
        · rw [if_neg hly, if_neg hlz]

end Libxseg

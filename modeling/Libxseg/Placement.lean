import Mathlib.Data.Multiset.AddSub
import Mathlib.Data.Multiset.UnionInter
import Mathlib.Logic.Function.Basic

/-!
# Things that lie in places

`c p` is the bag of things that lie in the place `p`. `Places c place` says that
the bags are the fibres of one function `place` from things to places: a thing
lies in at most one place, and there only once. The rules below are the ways in
which a step may change the bags: nothing, a thing goes from one place to
another, a thing is taken away, new things are put down.
-/

namespace Libxseg

set_option autoImplicit false

universe u v

variable {P : Type u} {X : Type v}

structure Places (c : P → Multiset X) (place : X → Option P) : Prop where
  nodup : ∀ p, (c p).Nodup
  mem_iff : ∀ {p x}, x ∈ c p ↔ place x = some p

namespace Places
variable {c c' : P → Multiset X} {place : X → Option P} {p q : P} {x : X}

theorem unique (h : Places c place) (hp : x ∈ c p) (hq : x ∈ c q) : p = q := by
  have hp := h.mem_iff.mp hp
  have hq := h.mem_iff.mp hq
  exact Option.some.inj (hp.symm.trans hq)

theorem existsUnique (h : Places c place) [DecidableEq X] (hx : place x ≠ none) :
    ∃! p, x ∈ c p ∧ (c p).count x = 1 := by
  obtain ⟨p, hp⟩ := Option.ne_none_iff_exists'.mp hx
  have hmem := h.mem_iff.mpr hp
  refine ⟨p, ⟨hmem, Multiset.count_eq_one_of_mem (h.nodup p) hmem⟩, ?_⟩
  rintro q ⟨hq, _⟩
  exact h.unique hq hmem

theorem stay (h : Places c place) (hrest : ∀ r, c' r = c r) : Places c' place := by
  obtain rfl : c' = c := funext hrest
  exact h

variable [DecidableEq X]

theorem remove (h : Places c place) (hp : c p = x ::ₘ c' p) (hrest : ∀ r, r ≠ p → c' r = c r) :
    Places c' (Function.update place x none) := by
  have hnd := h.nodup p
  rw [hp, Multiset.nodup_cons] at hnd
  have hx : place x = some p := h.mem_iff.mp (by simp [hp])
  constructor
  · intro r
    rcases eq_or_ne r p with rfl | hr
    · exact hnd.2
    · rw [hrest r hr]
      exact h.nodup r
  · intro r y
    rcases eq_or_ne y x with rfl | hy
    · rcases eq_or_ne r p with rfl | hr
      · simpa using hnd.1
      · simpa [hrest r hr, h.mem_iff, hx] using Ne.symm hr
    · rw [Function.update_of_ne hy, ← h.mem_iff]
      rcases eq_or_ne r p with rfl | hr
      · simp [hp, hy]
      · rw [hrest r hr]

theorem insert (h : Places c place) {l : List X} (hnd : l.Nodup) (hl : ∀ y ∈ l, place y = none)
    (hp : c' p = ↑l + c p) (hrest : ∀ r, r ≠ p → c' r = c r) :
    Places c' (fun y => if y ∈ l then some p else place y) := by
  have hout : ∀ {y r}, y ∈ l → y ∉ c r := by
    intro y r hy hmem
    simp [h.mem_iff, hl y hy] at hmem
  constructor
  · intro r
    rcases eq_or_ne r p with rfl | hr
    · rw [hp, Multiset.nodup_add]
      refine ⟨Multiset.coe_nodup.mpr hnd, h.nodup r, Multiset.disjoint_left.mpr ?_⟩
      intro y hy
      exact hout (Multiset.mem_coe.mp hy)
    · rw [hrest r hr]
      exact h.nodup r
  · intro r y
    by_cases hy : y ∈ l
    · rcases eq_or_ne r p with rfl | hr
      · simp [hp, hy]
      · simpa [hrest r hr, hy, hout hy] using Ne.symm hr
    · rw [if_neg hy, ← h.mem_iff]
      rcases eq_or_ne r p with rfl | hr
      · simp [hp, hy]
      · rw [hrest r hr]

variable [DecidableEq P]

theorem move (h : Places c place) (hpq : q ≠ p) (hp : c p = x ::ₘ c' p) (hq : c' q = x ::ₘ c q)
    (hrest : ∀ r, r ≠ p → r ≠ q → c' r = c r) :
    Places c' (Function.update place x (some q)) := by
  have hgone : Places (Function.update c' q (c q)) (Function.update place x none) := by
    apply h.remove (p := p)
    · simpa [Ne.symm hpq] using hp
    · intro r hr
      rcases eq_or_ne r q with rfl | hrq
      · simp
      · simpa [hrq] using hrest r hr hrq
  have hin : c' q = ↑[x] + Function.update c' q (c q) q := by simpa using hq
  have hback := hgone.insert (List.nodup_singleton x) (by simp) hin (by intro r hr; simp [hr])
  have hplace : (fun y => if y ∈ [x] then some q else Function.update place x none y) =
      Function.update place x (some q) := by
    funext y
    rcases eq_or_ne y x with rfl | hy
    · simp
    · simp [hy]
  rwa [hplace] at hback

end Places

end Libxseg

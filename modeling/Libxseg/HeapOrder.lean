import Mathlib.Logic.Equiv.Basic
import Mathlib.Order.Lattice
import Mathlib.Order.Nat

/-!
# Order of an implicit binary heap

A heap is given by what stands at each position: `f : Nat → α` on the first `n`
positions, with the children of `i` at `2 * i + 1` and `2 * i + 2`. `UpOrder` and
`DownOrder` are the orders during a sift: one edge (or the two edges below one
position) may be wrong, and the positions around it still compare through it.
-/

namespace Libxseg

set_option autoImplicit false

universe u

def parent (i : Nat) : Nat := (i - 1) / 2

theorem parent_lt {i : Nat} (hi : 0 < i) : parent i < i := by
  rw [parent]; omega

theorem parent_eq_iff {i j : Nat} (hj : 0 < j) :
    parent j = i ↔ j = 2 * i + 1 ∨ j = 2 * i + 1 + 1 := by
  rw [parent]; omega

variable {α : Type u} [LinearOrder α] {f : Nat → α} {n i : Nat}

def HeapOrdered (f : Nat → α) (n : Nat) : Prop := ∀ i, 0 < i → i < n → f (parent i) ≤ f i

structure UpOrder (f : Nat → α) (n i : Nat) : Prop where
  edge : ∀ j, 0 < j → j < n → j ≠ i → f (parent j) ≤ f j
  skip : 0 < i → ∀ j, 0 < j → j < n → parent j = i → f (parent i) ≤ f j

/-- Only the edges out of `i` may be wrong. -/
structure DownOrder (f : Nat → α) (n i : Nat) : Prop where
  edge : ∀ j, 0 < j → j < n → parent j ≠ i → f (parent j) ≤ f j
  skip : 0 < i → ∀ j, 0 < j → j < n → parent j = i → f (parent i) ≤ f j

def exchange (f : Nat → α) (a b : Nat) : Nat → α := fun p => f (Equiv.swap a b p)

omit [LinearOrder α] in
@[simp] theorem exchange_left (f : Nat → α) (a b : Nat) : exchange f a b a = f b := by
  rw [exchange, Equiv.swap_apply_left]

omit [LinearOrder α] in
@[simp] theorem exchange_right (f : Nat → α) (a b : Nat) : exchange f a b b = f a := by
  rw [exchange, Equiv.swap_apply_right]

omit [LinearOrder α] in
theorem exchange_of_ne (f : Nat → α) {a b p : Nat} (ha : p ≠ a) (hb : p ≠ b) :
    exchange f a b p = f p := by
  rw [exchange, Equiv.swap_apply_of_ne_of_ne ha hb]

theorem HeapOrdered.first_le (h : HeapOrdered f n) (i : Nat) (hi : i < n) : f 0 ≤ f i := by
  induction i using Nat.strongRecOn with
  | ind i ih =>
    rcases Nat.eq_zero_or_pos i with rfl | hpos
    · exact le_refl _
    · have hp := parent_lt hpos
      exact (ih (parent i) hp (by omega)).trans (h i hpos hi)

namespace UpOrder

theorem ordered (h : UpOrder f n i) (hi : 0 < i → f (parent i) ≤ f i) : HeapOrdered f n := by
  intro j hj hjn
  by_cases hji : j = i
  · subst hji
    exact hi hj
  · exact h.edge j hj hjn hji

theorem exchange (h : UpOrder f n i) (hi : 0 < i) (hin : i < n) (hlt : f i < f (parent i)) :
    UpOrder (exchange f i (parent i)) n (parent i) := by
  have hp := parent_lt hi
  constructor
  · intro j hj hjn hjp
    by_cases hji : j = i
    · subst hji
      rw [exchange_left, exchange_right]
      exact hlt.le
    · have hjl := parent_lt hj
      rw [exchange_of_ne f hji hjp]
      by_cases hpi : parent j = i
      · rw [hpi, exchange_left]
        exact h.skip hi j hj hjn hpi
      · by_cases hpp : parent j = parent i
        · rw [hpp, exchange_right]
          exact hlt.le.trans (hpp ▸ h.edge j hj hjn hji)
        · rw [exchange_of_ne f hpi hpp]
          exact h.edge j hj hjn hji
  · intro hpos j hj hjn hjp
    have hpp := parent_lt hpos
    have hup : f (parent (parent i)) ≤ f (parent i) :=
      h.edge (parent i) hpos (by omega) (by omega)
    rw [exchange_of_ne f (by omega : parent (parent i) ≠ i) (by omega)]
    by_cases hji : j = i
    · subst hji
      rw [exchange_left]
      exact hup
    · have hjl := parent_lt hj
      rw [exchange_of_ne f hji (by omega)]
      exact hup.trans (hjp ▸ h.edge j hj hjn hji)

end UpOrder

namespace DownOrder

theorem ordered (h : DownOrder f n i)
    (hi : ∀ j, 0 < j → j < n → parent j = i → f i ≤ f j) : HeapOrdered f n := by
  intro j hj hjn
  by_cases hji : parent j = i
  · exact hji ▸ hi j hj hjn hji
  · exact h.edge j hj hjn hji

/-- One step of a sift towards the leaves, along the best child `c`. -/
theorem exchange {c : Nat} (h : DownOrder f n i) (hc : 0 < c) (hcn : c < n) (hci : parent c = i)
    (hbest : ∀ j, 0 < j → j < n → parent j = i → f c ≤ f j) (hlt : f c < f i) :
    DownOrder (exchange f i c) n c := by
  have hp := parent_lt hc
  constructor
  · intro j hj hjn hjc
    have hjl := parent_lt hj
    by_cases hji : j = i
    · subst hji
      rw [exchange_left, exchange_of_ne f (by omega) hjc]
      exact h.skip hj c hc hcn hci
    · by_cases hpi : parent j = i
      · rw [hpi, exchange_left]
        by_cases hcj : j = c
        · subst hcj
          rw [exchange_right]
          exact hlt.le
        · rw [exchange_of_ne f hji hcj]
          exact hbest j hj hjn hpi
      · rw [exchange_of_ne f hpi hjc]
        by_cases hcj : j = c
        · subst hcj
          exact absurd hci hpi
        · rw [exchange_of_ne f hji hcj]
          exact h.edge j hj hjn hpi
  · intro _ j hj hjn hjc
    have hjl := parent_lt hj
    rw [hci, exchange_left, exchange_of_ne f (by omega) (by omega)]
    have := h.edge j hj hjn (by omega)
    rwa [hjc] at this

end DownOrder

namespace HeapOrdered

theorem upOrder {g : Nat → α} (h : HeapOrdered f n) (hi : g i ≤ f i)
    (hg : ∀ j, j ≠ i → g j = f j) (hin : i < n) : UpOrder g n i := by
  constructor
  · intro j hj hjn hji
    rw [hg j hji]
    by_cases hp : parent j = i
    · rw [hp]
      exact hi.trans (hp ▸ h j hj hjn)
    · rw [hg _ hp]
      exact h j hj hjn
  · intro hpos j hj hjn hji
    have hp := parent_lt hpos
    have hjl := parent_lt hj
    rw [hg _ (by omega : parent i ≠ i), hg j (by omega)]
    exact (h i hpos hin).trans (hji ▸ h j hj hjn)

theorem downOrder {g : Nat → α} (h : HeapOrdered f n) (hi : f i ≤ g i)
    (hg : ∀ j, j ≠ i → g j = f j) (hin : i < n) : DownOrder g n i := by
  constructor
  · intro j hj hjn hji
    rw [hg _ hji]
    by_cases hp : j = i
    · subst hp
      exact (h j hj hjn).trans hi
    · rw [hg j hp]
      exact h j hj hjn
  · intro hpos j hj hjn hji
    have hp := parent_lt hpos
    have hjl := parent_lt hj
    rw [hg _ (by omega : parent i ≠ i), hg j (by omega)]
    exact (h i hpos hin).trans (hji ▸ h j hj hjn)

theorem append {g : Nat → α} (h : HeapOrdered f n) (hg : ∀ j, j ≠ n → g j = f j) :
    UpOrder g (n + 1) n := by
  constructor
  · intro j hj hjn hji
    have hp := parent_lt hj
    rw [hg j hji, hg _ (by omega)]
    exact h j hj (by omega)
  · intro _ j hj hjn hji
    have hp := parent_lt hj
    omega

/-- The last key in the place of the removed root has to move down. -/
theorem removeRoot (h : HeapOrdered f (n + 1)) : DownOrder (exchange f 0 n) n 0 := by
  constructor
  · intro j hj hjn hji
    have hp := parent_lt hj
    rw [exchange_of_ne f hji (by omega), exchange_of_ne f (by omega) (by omega)]
    exact h j hj (by omega)
  · intro h0
    omega

end HeapOrdered

end Libxseg

import Libxseg.Memory

/-!
# One block of memory at several addresses

`move δ` carries an address over to another mapping of the same block, which lies `δ` bytes
further up. `Shows lo hi δ m m'` says that the second memory has at the moved addresses what the
first one has in `[lo, hi)`. Loads and stores inside the block agree in the two mappings, and
`carried` is what a mapping shows after a store through another one: the bytes of the block, and
its own bytes elsewhere.
-/

namespace Libxseg

set_option autoImplicit false

def move (δ : Int) (a : Nat) : Nat := (a + δ).toNat

section Move
variable {δ δ' : Int} {a b n lo : Nat}

theorem move_add (h : 0 ≤ a + δ) : move δ (a + n) = move δ a + n := by
  unfold move
  omega

theorem move_sub (hn : n ≤ a) (h : 0 ≤ (a - n : Nat) + δ) : move δ (a - n) = move δ a - n := by
  unfold move
  omega

theorem move_inj (ha : 0 ≤ a + δ) (hb : 0 ≤ b + δ) (h : move δ a = move δ b) : a = b := by
  unfold move at h
  omega

theorem move_move (h : 0 ≤ a + δ) : move δ' (move δ a) = move (δ + δ') a := by
  unfold move
  omega

@[simp] theorem move_zero (a : Nat) : move 0 a = a := by
  simp [move]

theorem move_neg (h : 0 ≤ a + δ) : move (-δ) (move δ a) = a := by
  rw [move_move h, Int.add_right_neg, move_zero]

end Move

namespace Memory

def Shows (lo hi : Nat) (δ : Int) (m m' : Memory) : Prop :=
  ∀ x, lo ≤ x → x < hi → m' (move δ x) = m x

def Beyond (lo hi : Nat) (δ : Int) (x : Nat) : Prop := x < move δ lo ∨ move δ hi ≤ x

def carried (lo hi : Nat) (δ : Int) (m m' : Memory) : Memory :=
  fun x => if move δ lo ≤ x ∧ x < move δ hi then m (move (-δ) x) else m' x

variable {lo hi a n v x : Nat} {δ δ' : Int} {m m' m₁ m₁' : Memory}

theorem Shows.refl (lo hi : Nat) (m : Memory) : Shows lo hi 0 m m := by
  intro x _ _
  rw [move_zero]

theorem Shows.loadBytes (h : Shows lo hi δ m m') (h0 : 0 ≤ lo + δ) (ha : lo ≤ a)
    (hhi : a + n ≤ hi) : m'.loadBytes (move δ a) n = m.loadBytes a n := by
  induction n generalizing a with
  | zero => rfl
  | succ n ih =>
    have hnext : move δ a + 1 = move δ (a + 1) := (move_add (by omega)).symm
    rw [Memory.loadBytes, Memory.loadBytes, h a ha (by omega), hnext, ih (by omega) (by omega)]

theorem Shows.storeBytes (h : Shows lo hi δ m m') (h0 : 0 ≤ lo + δ) (ha : lo ≤ a)
    (hhi : a + n ≤ hi) :
    Shows lo hi δ (m.storeBytes a n v) (m'.storeBytes (move δ a) n v) := by
  induction n generalizing a v with
  | zero => exact h
  | succ n ih =>
    intro x hx hx'
    have hnext : move δ a + 1 = move δ (a + 1) := (move_add (by omega)).symm
    rw [Memory.storeBytes, Memory.storeBytes, hnext]
    by_cases hxa : x = a
    · rw [hxa, Function.update_self, Function.update_self]
    · have hne : move δ x ≠ move δ a := fun heq => hxa (move_inj (by omega) (by omega) heq)
      rw [Function.update_of_ne hne, Function.update_of_ne hxa]
      exact ih (by omega) (by omega) x hx hx'

theorem Shows.load64 (h : Shows lo hi δ m m') (h0 : 0 ≤ lo + δ) (ha : lo ≤ a) (hhi : a + 8 ≤ hi) :
    m'.load64 (move δ a) = m.load64 a :=
  h.loadBytes h0 ha hhi

theorem Shows.store64 (h : Shows lo hi δ m m') (h0 : 0 ≤ lo + δ) (ha : lo ≤ a) (hhi : a + 8 ≤ hi) :
    Shows lo hi δ (m.store64 a v) (m'.store64 (move δ a) v) :=
  h.storeBytes h0 ha hhi

/-- A store inside the block leaves the bytes of the mapping's owner alone. -/
theorem store64_beyond (h0 : 0 ≤ lo + δ) (ha : lo ≤ a) (hhi : a + 8 ≤ hi)
    (hx : Beyond lo hi δ x) : m'.store64 (move δ a) v x = m' x := by
  apply store64_outside
  unfold Beyond move at hx
  unfold move
  omega

theorem carried_shows (h0 : 0 ≤ lo + δ) : Shows lo hi δ m (carried lo hi δ m m') := by
  intro x hx hx'
  have hin : move δ lo ≤ move δ x ∧ move δ x < move δ hi := by
    unfold move
    omega
  rw [carried, if_pos hin, move_neg (by omega)]

theorem carried_beyond (hx : Beyond lo hi δ x) : carried lo hi δ m m' x = m' x := by
  apply if_neg
  unfold Beyond at hx
  omega

/-- Two mappings of one block: what the second one shows of the first, seen from a third one. -/
theorem Shows.trans (h : Shows lo hi δ m m₁) (h' : Shows (move δ lo) (move δ hi) δ' m₁ m₁')
    (h0 : 0 ≤ lo + δ) : Shows lo hi (δ + δ') m m₁' := by
  intro x hx hx'
  have hx₁ := h' (move δ x) (by unfold move; omega) (by unfold move; omega)
  rw [move_move (by omega)] at hx₁
  rw [hx₁, h x hx hx']

end Memory

end Libxseg

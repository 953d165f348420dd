import Mathlib.Data.Nat.Dist
import Mathlib.Order.Bounds.Basic

/-!
# The powers of two next to a number

The greatest power of two that is not above a number, and the power of two that is nearest to
it, the larger one of two that are equally near. The second lies between three quarters and
three halves of itself, which is what decides it (`nearestPower_iff`).
-/

namespace Libxseg

set_option autoImplicit false

def TwoPowers : Set Nat := {p | ∃ k, p = 2 ^ k}

theorem mem_twoPowers (k : Nat) : 2 ^ k ∈ TwoPowers := ⟨k, rfl⟩

def twoPowersTo (n : Nat) : Set Nat := {p | p ∈ TwoPowers ∧ p ≤ n}

theorem isGreatest_log2 {n : Nat} (hn : n ≠ 0) : IsGreatest (twoPowersTo n) (2 ^ n.log2) := by
  refine ⟨⟨mem_twoPowers _, Nat.log2_self_le hn⟩, ?_⟩
  rintro p ⟨⟨k, rfl⟩, hle⟩
  exact Nat.pow_le_pow_right (by decide) ((Nat.le_log2 hn).mpr hle)

/-- `p` is the power of two nearest to `n`, and the larger one if there are two. -/
structure NearestPower (n p : Nat) : Prop where
  power : p ∈ TwoPowers
  nearest : ∀ q ∈ TwoPowers, n.dist p ≤ n.dist q
  upward : ∀ q ∈ TwoPowers, n.dist q = n.dist p → q ≤ p

theorem twoPow_apart {j k : Nat} (h : j < k) : 2 * 2 ^ j ≤ 2 ^ k := by
  rw [Nat.mul_comm, ← Nat.pow_succ]
  exact Nat.pow_le_pow_right (by decide) h

theorem nearestPower_iff {n k : Nat} (hn : 0 < n) :
    NearestPower n (2 ^ k) ↔ 3 * 2 ^ k ≤ 4 * n ∧ 2 * n < 3 * 2 ^ k := by
  constructor
  · intro h
    constructor
    · cases k with
      | zero => omega
      | succ k =>
        have hbelow := h.nearest (2 ^ k) (mem_twoPowers k)
        have hpos := Nat.two_pow_pos k
        rw [Nat.pow_succ] at hbelow ⊢
        unfold Nat.dist at hbelow
        omega
    · have habove := h.nearest (2 ^ (k + 1)) (mem_twoPowers _)
      have hpos := Nat.two_pow_pos k
      have hne : n.dist (2 ^ (k + 1)) ≠ n.dist (2 ^ k) := by
        intro heq
        have hle := h.upward _ (mem_twoPowers _) heq
        rw [Nat.pow_succ] at hle
        omega
      rw [Nat.pow_succ] at habove hne
      unfold Nat.dist at habove hne
      omega
  · rintro ⟨hlow, hhigh⟩
    have hcompare (j : Nat) : n.dist (2 ^ k) ≤ n.dist (2 ^ j) ∧
        (n.dist (2 ^ j) = n.dist (2 ^ k) → 2 ^ j ≤ 2 ^ k) := by
      unfold Nat.dist
      rcases Nat.lt_trichotomy j k with hlt | rfl | hgt
      · have := twoPow_apart hlt
        omega
      · omega
      · have := twoPow_apart hgt
        omega
    refine ⟨mem_twoPowers k, ?_, ?_⟩
    · rintro q ⟨j, rfl⟩
      exact (hcompare j).1
    · rintro q ⟨j, rfl⟩
      exact (hcompare j).2

end Libxseg

import Mathlib.Data.Nat.ModEq
import Mathlib.Logic.Function.Iterate
import Mathlib.Tactic.Ring

/-!
# The full period of `x ↦ 5 x + 1` modulo a power of two

The iterates of this map meet every residue modulo `2 ^ k` within `2 ^ k` steps.
The induction is on `k`: after `2 ^ k` steps the map adds `2 ^ k` modulo `2 ^ (k + 1)`,
so the second half of the period meets the residues that the first half misses.
-/

namespace Libxseg

set_option autoImplicit false

def quintic (x : Nat) : Nat := 5 * x + 1

theorem quintic_iterate_congr {m x y : Nat} (h : x ≡ y [MOD m]) (n : Nat) :
    quintic^[n] x ≡ quintic^[n] y [MOD m] := by
  induction n generalizing x y with
  | zero => exact h
  | succ n ih =>
    rw [Function.iterate_succ_apply, Function.iterate_succ_apply]
    exact ih ((h.mul_left 5).add_right 1)

theorem quintic_iterate_two_pow (k : Nat) :
    ∃ t m, ∀ x, quintic^[2 ^ k] x = (1 + 2 ^ (k + 2) * t) * x + 2 ^ k * (1 + 2 * m) := by
  induction k with
  | zero =>
    refine ⟨1, 0, fun x => ?_⟩
    show 5 * x + 1 = _
    ring
  | succ k ih =>
    obtain ⟨t, m, h⟩ := ih
    refine ⟨t + 2 ^ (k + 1) * t ^ 2, m + (1 + 2 * m) * 2 ^ k * t, fun x => ?_⟩
    have hpow : 2 ^ (k + 1) = 2 ^ k + 2 ^ k := by ring
    rw [hpow, Function.iterate_add_apply, h, h]
    ring

theorem quintic_half_period (k x : Nat) :
    quintic^[2 ^ k] x ≡ x + 2 ^ k [MOD 2 ^ (k + 1)] := by
  obtain ⟨t, m, h⟩ := quintic_iterate_two_pow k
  have hsplit : (1 + 2 ^ (k + 2) * t) * x + 2 ^ k * (1 + 2 * m) =
      2 ^ (k + 1) * (2 * t * x + m) + (x + 2 ^ k) := by ring
  rw [h, hsplit]
  exact Nat.modulus_mul_add_modEq_iff.mpr rfl

theorem modEq_two_pow_succ {k a y : Nat} (h : a ≡ y [MOD 2 ^ k]) :
    a ≡ y [MOD 2 ^ (k + 1)] ∨ a + 2 ^ k ≡ y [MOD 2 ^ (k + 1)] := by
  have hpow : 2 ^ (k + 1) = 2 * 2 ^ k := by ring
  have hpos : 0 < 2 ^ k := Nat.two_pow_pos k
  unfold Nat.ModEq at *
  generalize 2 ^ k = p at *
  rw [hpow]
  have ha := Nat.mod_mul (x := a) (a := p) (b := 2)
  have hap := Nat.mod_mul (x := a + p) (a := p) (b := 2)
  have hy := Nat.mod_mul (x := y) (a := p) (b := 2)
  rw [Nat.mul_comm p 2] at ha hap hy
  rw [ha, hap, hy, h, Nat.add_mod_right, h, Nat.add_div_right a hpos]
  have hbit : a / p % 2 = y / p % 2 ∨ (a / p).succ % 2 = y / p % 2 := by omega
  rcases hbit with hbit | hbit
  · exact Or.inl (by rw [hbit])
  · exact Or.inr (by rw [hbit])

/-- The iterates from any start meet every residue within one period. -/
theorem quintic_full_period (k x y : Nat) : ∃ n < 2 ^ k, quintic^[n] x ≡ y [MOD 2 ^ k] := by
  induction k with
  | zero => exact ⟨0, by simp, by simp [Nat.ModEq, Nat.mod_one]⟩
  | succ k ih =>
    obtain ⟨n, hn, h⟩ := ih
    have hpow : 2 ^ (k + 1) = 2 ^ k + 2 ^ k := by ring
    rcases modEq_two_pow_succ h with h | h
    · exact ⟨n, by omega, h⟩
    · refine ⟨2 ^ k + n, by omega, ?_⟩
      rw [Function.iterate_add_apply]
      exact (quintic_half_period k _).trans h

end Libxseg

import Mathlib.Data.Nat.Fib.Basic
import Mathlib.Data.Nat.ModEq
import Mathlib.Tactic.Ring

/-!
# Fibonacci numbers modulo a power of two

Modulo `2^(j+2)` the Fibonacci numbers go round in `6 * 2^j` steps. Modulo `2^(j+3)` half a round multiplies them
by `1 + 2^(j+2)` (`fib_turn_add`), so that on one round the value 1 is taken at 1, at 2 and at the last place
only (`eq_of_fib_modEq_one`).
-/

namespace SysSnippets.Lib

open Nat (fib fib_add)

/-- The numbers at the start of a round, one power of two further than the round goes. -/
theorem fib_turn (j : Nat) :
    ∃ a b, fib (6 * 2 ^ j) = 2 ^ (j + 3) * a ∧ fib (6 * 2 ^ j + 1) = 1 + 2 ^ (j + 2) * (2 * b + 1) := by
  induction j with
  | zero => exact ⟨1, 1, rfl, rfl⟩
  | succ j ih =>
      obtain ⟨a, b, hfib, hsucc⟩ := ih
      have hdouble : 6 * 2 ^ (j + 1) = 2 * (6 * 2 ^ j) := by
        rw [Nat.pow_succ]
        omega
      have hdvd : 2 ^ (j + 4) ∣ fib (6 * 2 ^ (j + 1)) := by
        rw [hdouble, Nat.fib_two_mul, Nat.pow_succ]
        apply Nat.mul_dvd_mul
        · exact ⟨a, hfib⟩
        · apply Nat.dvd_sub (Nat.dvd_mul_right 2 _)
          rw [hfib, Nat.pow_succ, Nat.mul_right_comm]
          exact Nat.dvd_mul_left 2 _
      obtain ⟨a', ha'⟩ := hdvd
      refine ⟨a', b + 2 ^ j * (2 * b + 1) ^ 2 + 2 ^ (j + 2) * a ^ 2, ha', ?_⟩
      rw [hdouble, Nat.fib_two_mul_add_one, hfib, hsucc]
      ring

/-- A round of half the length, one power of two further. -/
theorem fib_turn_add (j n : Nat) : fib (6 * 2 ^ j + n + 1) ≡ (1 + 2 ^ (j + 2)) * fib (n + 1) [MOD 2 ^ (j + 3)] := by
  obtain ⟨a, b, hfib, hsucc⟩ := fib_turn j
  have hsum : fib (6 * 2 ^ j + n + 1) =
      2 ^ (j + 3) * (a * fib n + b * fib (n + 1)) + (1 + 2 ^ (j + 2)) * fib (n + 1) := by
    rw [fib_add, hfib, hsucc]
    ring
  rw [hsum]
  exact Nat.mul_add_mod_self_left _ _ _

theorem fib_turn_zero (j : Nat) : fib (6 * 2 ^ j) ≡ 0 [MOD 2 ^ (j + 3)] := by
  obtain ⟨a, -, hfib, -⟩ := fib_turn j
  rw [hfib]
  exact Nat.mul_mod_right _ _

theorem modEq_of_turn {j m : Nat} (h : (1 + 2 ^ (j + 2)) * m ≡ 1 [MOD 2 ^ (j + 3)]) : m ≡ 1 [MOD 2 ^ (j + 2)] := by
  have hlow : (1 + 2 ^ (j + 2)) * m ≡ 1 [MOD 2 ^ (j + 2)] := h.of_dvd (Nat.pow_dvd_pow 2 (Nat.le_succ (j + 2)))
  rw [Nat.add_mul, Nat.one_mul] at hlow
  exact (Nat.add_mul_mod_self_left _ _ _).symm.trans hlow

/-- What half a round makes of 1 is not 1. -/
theorem not_turn_modEq_one (j : Nat) : ¬ 1 + 2 ^ (j + 2) ≡ 1 [MOD 2 ^ (j + 3)] := by
  intro h
  have hpow : 2 ^ (j + 3) = 2 * 2 ^ (j + 2) := by
    rw [Nat.pow_succ, Nat.mul_comm]
  have htwo : 2 ≤ 2 ^ (j + 2) := Nat.le_self_pow (by omega) 2
  rw [Nat.ModEq, Nat.mod_eq_of_lt (by omega), Nat.mod_eq_of_lt (by omega)] at h
  omega

/-- The number before a round is the difference of the two that start it. -/
theorem fib_pred_turn (j : Nat) : ¬ fib (6 * 2 ^ j - 1) ≡ 1 [MOD 2 ^ (j + 3)] := by
  intro h
  have hpos : 0 < 2 ^ j := Nat.two_pow_pos j
  have hnext : fib (6 * 2 ^ j + 1) = fib (6 * 2 ^ j - 1) + fib (6 * 2 ^ j) := by
    obtain ⟨q, hq⟩ : ∃ q, 6 * 2 ^ j = q + 1 := ⟨6 * 2 ^ j - 1, by omega⟩
    rw [hq, Nat.add_sub_cancel, Nat.fib_add_two]
  apply not_turn_modEq_one j
  calc 1 + 2 ^ (j + 2) ≡ fib (6 * 2 ^ j + 1) [MOD 2 ^ (j + 3)] := by
        have hturn := fib_turn_add j 0
        rw [Nat.zero_add, Nat.fib_one, Nat.mul_one] at hturn
        exact hturn.symm
    _ ≡ 1 + 0 [MOD 2 ^ (j + 3)] := by
        rw [hnext]
        exact h.add (fib_turn_zero j)

/-- **Where a round takes the value 1.** -/
theorem eq_of_fib_modEq_one {j n : Nat} (hn : n < 6 * 2 ^ j) (h : fib n ≡ 1 [MOD 2 ^ (j + 2)]) :
    n = 1 ∨ n = 2 ∨ n + 1 = 6 * 2 ^ j := by
  induction j generalizing n with
  | zero =>
      have hcases : ∀ n < 6, fib n % 4 = 1 % 4 → n = 1 ∨ n = 2 ∨ n + 1 = 6 := by decide
      exact hcases n hn h
  | succ j ih =>
      have hround : 6 * 2 ^ (j + 1) = 6 * 2 ^ j + 6 * 2 ^ j := by
        rw [Nat.pow_succ]
        omega
      have hone : (1 : Nat) % 2 ^ (j + 3) = 1 := Nat.mod_eq_of_lt (Nat.one_lt_two_pow (by omega))
      by_cases hhalf : n < 6 * 2 ^ j
      · obtain rfl | rfl | hlast := ih hhalf (h.of_dvd (Nat.pow_dvd_pow 2 (Nat.le_succ (j + 2))))
        · exact Or.inl rfl
        · exact Or.inr (Or.inl rfl)
        · rw [show n = 6 * 2 ^ j - 1 by omega] at h
          exact absurd h (fib_pred_turn j)
      · obtain ⟨m, rfl⟩ := Nat.exists_eq_add_of_le (Nat.le_of_not_lt hhalf)
        cases m with
        | zero =>
            have hzero := (fib_turn_zero j).symm.trans h
            rw [Nat.ModEq, hone, Nat.zero_mod] at hzero
            cases hzero
        | succ m =>
            have hturn : (1 + 2 ^ (j + 2)) * fib (m + 1) ≡ 1 [MOD 2 ^ (j + 3)] := (fib_turn_add j m).symm.trans h
            obtain hm | hm | hlast := ih (n := m + 1) (by omega) (modEq_of_turn hturn)
            · rw [hm, Nat.fib_one, Nat.mul_one] at hturn
              exact absurd hturn (not_turn_modEq_one j)
            · rw [hm, Nat.fib_two, Nat.mul_one] at hturn
              exact absurd hturn (not_turn_modEq_one j)
            · exact Or.inr (Or.inr (by omega))

end SysSnippets.Lib

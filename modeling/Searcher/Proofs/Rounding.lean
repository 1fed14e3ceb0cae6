/-
# Quotients rounded down and up

A contract rounds every quotient to a whole number, down for what it pays and up for what it takes. Here such a
quotient stands beside the exact one: it is less than one away from it (`div_bounds`, `ceilDiv_bounds`), and while it
is large its logarithm is close to that of the exact quotient (`log_div_bounds`, `log_ceilDiv_bounds`). The logarithms
turn a chain of rounded products into a sum of small errors.
-/

import Searcher.Checked
import Mathlib.Analysis.SpecialFunctions.Log.Basic

namespace Searcher
namespace Checked

open Real

variable {a b : ℕ}

/-- A quotient rounded down is less than one below the exact one. -/
theorem div_bounds (hb : 0 < b) : ((a / b : ℕ) : ℝ) ≤ (a : ℝ) / b ∧ (a : ℝ) / b < ((a / b : ℕ) : ℝ) + 1 := by
  refine ⟨Nat.cast_div_le, ?_⟩
  rw [div_lt_iff₀ (by exact_mod_cast hb), mul_comm]
  exact_mod_cast Nat.lt_mul_div_succ a hb

/-- A quotient rounded up is less than one above the exact one. -/
theorem ceilDiv_bounds (hb : 0 < b) :
    (a : ℝ) / b ≤ (ceilDiv a b : ℝ) ∧ (ceilDiv a b : ℝ) < (a : ℝ) / b + 1 := by
  have hb' : (0 : ℝ) < b := by exact_mod_cast hb
  have hup := Nat.lt_mul_div_succ (a + b - 1) hb
  have hdown := Nat.mul_div_le (a + b - 1) b
  constructor
  · rw [div_le_iff₀ hb', mul_comm]
    have : a ≤ b * ceilDiv a b := by unfold ceilDiv; rw [Nat.mul_add] at hup; omega
    exact_mod_cast this
  · rw [← sub_lt_iff_lt_add, lt_div_iff₀ hb', sub_mul, one_mul, sub_lt_iff_lt_add, mul_comm]
    have : b * ceilDiv a b < a + b := by unfold ceilDiv; omega
    exact_mod_cast this

/-- **Rounding down barely moves a large logarithm.** Where the exact quotient is at least `m`, the rounded one is not
zero, and its logarithm is at most `2 / m` below that of the exact one. -/
theorem log_div_bounds {m : ℝ} (hb : 0 < b) (hm : 2 ≤ m) (h : m ≤ (a : ℝ) / b) :
    0 < a / b ∧ log ((a : ℝ) / b) - 2 / m ≤ log ((a / b : ℕ) : ℝ) ∧ log ((a / b : ℕ) : ℝ) ≤ log ((a : ℝ) / b) := by
  obtain ⟨hle, hlt⟩ := div_bounds (a := a) hb
  set x : ℝ := (a : ℝ) / b
  have hq : 0 < ((a / b : ℕ) : ℝ) := by linarith
  refine ⟨by exact_mod_cast hq, ?_, log_le_log hq hle⟩
  have hratio : x / ((a / b : ℕ) : ℝ) - 1 ≤ 2 / m := by
    rw [div_sub_one hq.ne', div_le_div_iff₀ hq (by linarith)]
    nlinarith
  have hlog := log_le_sub_one_of_pos (div_pos (by linarith : 0 < x) hq)
  rw [log_div (by linarith) hq.ne'] at hlog
  linarith

/-- **Rounding up barely moves a large logarithm.** Where the exact quotient is at least `m`, the logarithm of the
rounded one is at most `1 / m` above that of the exact one. -/
theorem log_ceilDiv_bounds {m : ℝ} (hb : 0 < b) (hm : 0 < m) (h : m ≤ (a : ℝ) / b) :
    log ((a : ℝ) / b) ≤ log (ceilDiv a b : ℝ) ∧ log (ceilDiv a b : ℝ) ≤ log ((a : ℝ) / b) + 1 / m := by
  obtain ⟨hle, hlt⟩ := ceilDiv_bounds (a := a) hb
  set x : ℝ := (a : ℝ) / b
  have hx : 0 < x := by linarith
  refine ⟨log_le_log hx hle, ?_⟩
  have hratio : (ceilDiv a b : ℝ) / x - 1 ≤ 1 / m := by
    rw [div_sub_one hx.ne', div_le_div_iff₀ hx hm]
    nlinarith
  have hlog := log_le_sub_one_of_pos (div_pos (by linarith : (0 : ℝ) < ceilDiv a b) hx)
  rw [log_div (by linarith) hx.ne'] at hlog
  linarith

end Checked
end Searcher

/-
# What a step of a swap takes and pays

While the liquidity `L` does not change, the tokens of a pool are functions of its root `p`: a swap that pays in the
first token raises `2 ^ 96 / p`, one that pays in the second raises `p / 2 ^ 96`, and what comes in is `L` times the
rise. That function is `level`, by the direction of the swap; what goes out is `L` times the fall of the other level.

`amount0` and `amount1` are these products rounded (`amount0_up`, `amount0_down`, `amount1_up`, `amount1_down`). A step
stays between the root and its target, takes at least the exact amount for the way it went and pays at most that
(`step_bounds_down`, `step_bounds_up`), whether it stops at the target or before it.
-/

import Searcher.Concentrated.Step
import Mathlib.Algebra.Order.Archimedean.Real.Basic
import Mathlib.Algebra.Order.Floor.Semifield
import Mathlib.Tactic.FieldSimp
import Mathlib.Tactic.Positivity
import Mathlib.Tactic.Ring

namespace Searcher

namespace Checked

variable {a b u : ℕ}

/-- A number is below a quotient rounded up exactly if its product with the divisor is below the numerator. -/
theorem lt_ceilDiv_iff (hb : 0 < b) : u < ceilDiv a b ↔ u * b < a := by
  unfold ceilDiv
  rw [Nat.lt_iff_add_one_le, Nat.le_div_iff_mul_le hb, Nat.add_mul]
  omega

/-- A quotient rounded up is within a bound exactly if the numerator is within the product of the two. -/
theorem ceilDiv_le_iff (hb : 0 < b) : ceilDiv a b ≤ u ↔ a ≤ u * b := by
  rw [← not_lt, lt_ceilDiv_iff hb, not_lt]

end Checked

namespace Concentrated

open Checked

/-- What a unit of liquidity would have taken in to bring the root to `p`, up to a constant, by swaps in one
direction. -/
noncomputable def level : (zeroForOne : Bool) → (p : ℕ) → ℝ
  | true, p => 2 ^ 96 / p
  | false, p => p / 2 ^ 96

variable {a b liquidity n : ℕ}

/-- The level of the first token falls with the root: it is `2^96 / p`. -/
theorem level_antitone (ha : 0 < a) (hab : a ≤ b) : level true b ≤ level true a := by
  have ha' : (0 : ℝ) < a := by exact_mod_cast ha
  have hab' : (a : ℝ) ≤ b := by exact_mod_cast hab
  simp only [level]
  gcongr

/-- The level of the second token rises with the root: it is `p / 2^96`. -/
theorem level_monotone (hab : a ≤ b) : level false a ≤ level false b := by
  have hab' : (a : ℝ) ≤ b := by exact_mod_cast hab
  simp only [level]
  gcongr

/-! ### Amounts between two roots -/

/-- The exact amount of the first token between two roots, as one quotient of natural numbers. -/
theorem level_true_sub (ha : 0 < a) (hab : a ≤ b) :
    (liquidity : ℝ) * (level true a - level true b) = ((liquidity * q96 * (b - a) : ℕ) : ℝ) / ((a * b : ℕ) : ℝ) := by
  have ha' : (a : ℝ) ≠ 0 := by positivity
  have hb' : (b : ℝ) ≠ 0 := by have := ha.trans_le hab; positivity
  push_cast [Nat.cast_sub hab]
  unfold level q96
  field_simp
  push_cast
  ring

/-- That of the second token. -/
theorem level_false_sub (hab : a ≤ b) :
    (liquidity : ℝ) * (level false b - level false a) = ((liquidity * (b - a) : ℕ) : ℝ) / (q96 : ℝ) := by
  push_cast [Nat.cast_sub hab]
  unfold level q96
  push_cast
  ring

/-- A real quotient of natural numbers rounded up is the natural quotient rounded up. -/
theorem ceil_div_eq_ceilDiv {x y : ℕ} (hy : 0 < y) : ⌈(x : ℝ) / (y : ℝ)⌉₊ = ceilDiv x y := by
  refine eq_of_forall_lt_iff fun u => ?_
  rw [Nat.lt_ceil, lt_div_iff₀ (by exact_mod_cast hy), lt_ceilDiv_iff hy]
  exact_mod_cast Iff.rfl

/-- Rounding up twice is rounding up once. -/
theorem ceilDiv_ceilDiv {x y z : ℕ} (hy : 0 < y) (hz : 0 < z) : ceilDiv (ceilDiv x y) z = ceilDiv x (z * y) := by
  refine eq_of_forall_lt_iff fun u => ?_
  rw [lt_ceilDiv_iff hz, lt_ceilDiv_iff hy, lt_ceilDiv_iff (Nat.mul_pos hz hy), Nat.mul_assoc]

/-- The first token between two roots, rounded up. -/
theorem amount0_up (h : amount0 a b liquidity true = .ok n) (hab : a ≤ b) :
    0 < a ∧ n = ⌈(liquidity : ℝ) * (level true a - level true b)⌉₊ := by
  simp only [amount0, min_eq_left hab, max_eq_right hab, if_true] at h
  split at h
  · cases h
  · rename_i ha
    have ha : 0 < a := Nat.pos_of_ne_zero ha
    obtain ⟨x, hx, h⟩ := bind_eq_ok.1 h
    obtain ⟨hb, -, rfl⟩ := fullMulDivUp_eq_ok.1 hx
    obtain ⟨-, rfl⟩ := divUp_eq_ok.1 h
    have hb : 0 < b := Nat.pos_of_ne_zero hb
    rw [level_true_sub ha hab, ceil_div_eq_ceilDiv (Nat.mul_pos ha hb), ceilDiv_ceilDiv hb ha]
    exact ⟨ha, rfl⟩

/-- The first token between two roots, rounded down. -/
theorem amount0_down (h : amount0 a b liquidity false = .ok n) (hab : a ≤ b) :
    0 < a ∧ n = ⌊(liquidity : ℝ) * (level true a - level true b)⌋₊ := by
  simp only [amount0, min_eq_left hab, max_eq_right hab, Bool.false_eq_true, if_false] at h
  split at h
  · cases h
  · rename_i ha
    have ha : 0 < a := Nat.pos_of_ne_zero ha
    obtain ⟨x, hx, h⟩ := bind_eq_ok.1 h
    obtain ⟨-, -, rfl⟩ := fullMulDiv_eq_ok.1 hx
    obtain ⟨-, rfl⟩ := div_eq_ok.1 h
    rw [level_true_sub ha hab, Nat.floor_div_eq_div, Nat.div_div_eq_div_mul, Nat.mul_comm b a]
    exact ⟨ha, rfl⟩

/-- The second token between two roots, rounded up. -/
theorem amount1_up (h : amount1 a b liquidity true = .ok n) (hab : a ≤ b) :
    n = ⌈(liquidity : ℝ) * (level false b - level false a)⌉₊ := by
  unfold amount1 at h
  rw [min_eq_left hab, max_eq_right hab, if_pos rfl] at h
  obtain ⟨hq, -, rfl⟩ := fullMulDivUp_eq_ok.1 h
  rw [level_false_sub hab, ceil_div_eq_ceilDiv (Nat.pos_of_ne_zero hq)]

/-- The second token between two roots, rounded down. -/
theorem amount1_down (h : amount1 a b liquidity false = .ok n) (hab : a ≤ b) :
    n = ⌊(liquidity : ℝ) * (level false b - level false a)⌋₊ := by
  unfold amount1 at h
  rw [min_eq_left hab, max_eq_right hab, if_neg (by simp)] at h
  obtain ⟨hq, -, rfl⟩ := fullMulDiv_eq_ok.1 h
  rw [level_false_sub hab, Nat.floor_div_eq_div]

/-! ### The root after an input -/

variable {root target amount next : ℕ}

/-- An input of the first token that is not enough for the way down to a target leaves the root above it. -/
theorem sqrtPriceAfter0_bounds (h : sqrtPriceAfter0 root liquidity amount = .ok next) (ht : 0 < target)
    (htr : target ≤ root) (hshort : (amount : ℝ) < liquidity * (level true target - level true root)) :
    target < next ∧ next ≤ root := by
  have hr : 0 < root := ht.trans_le htr
  -- the shortage without fractions
  have hshort' : amount * (target * root) + liquidity * q96 * target < liquidity * q96 * root := by
    rw [level_true_sub ht htr, lt_div_iff₀ (by exact_mod_cast Nat.mul_pos ht hr)] at hshort
    have : amount * (target * root) < liquidity * q96 * (root - target) := by exact_mod_cast hshort
    have hsplit : liquidity * q96 * (root - target) + liquidity * q96 * target = liquidity * q96 * root := by
      rw [← Nat.mul_add, Nat.sub_add_cancel htr]
    omega
  set numerator := liquidity * q96 with hnum
  simp only [sqrtPriceAfter0, ← hnum] at h
  split at h
  · rename_i hamount
    obtain rfl : root = next := Except.ok.inj h
    rw [hamount, Nat.zero_mul, Nat.zero_add] at hshort'
    exact ⟨Nat.lt_of_mul_lt_mul_left hshort', le_rfl⟩
  · rename_i hamount
    split at h
    · obtain ⟨hpos, -, rfl⟩ := fullMulDivUp_eq_ok.1 h
      have hpos := Nat.pos_of_ne_zero hpos
      refine ⟨(lt_ceilDiv_iff hpos).2 ?_, (ceilDiv_le_iff hpos).2 ?_⟩
      · calc target * (numerator + amount * root) = amount * (target * root) + numerator * target := by ring
          _ < numerator * root := hshort'
      · rw [Nat.mul_add, Nat.mul_comm]
        exact Nat.le_add_right _ _
    · obtain ⟨quotient, hquotient, h⟩ := bind_eq_ok.1 h
      obtain ⟨total, htotal, h⟩ := bind_eq_ok.1 h
      obtain ⟨-, rfl⟩ := div_eq_ok.1 hquotient
      obtain ⟨-, rfl⟩ := fit_eq_ok.1 htotal
      obtain ⟨hpos, rfl⟩ := divUp_eq_ok.1 h
      have hpos := Nat.pos_of_ne_zero hpos
      refine ⟨(lt_ceilDiv_iff hpos).2 ?_, (ceilDiv_le_iff hpos).2 ?_⟩
      · refine Nat.lt_of_mul_lt_mul_left (a := root) ?_
        calc root * (target * (numerator / root + amount))
            = amount * (target * root) + root * (numerator / root) * target := by ring
          _ ≤ amount * (target * root) + numerator * target := by gcongr; exact Nat.mul_div_le _ _
          _ < numerator * root := hshort'
          _ = root * numerator := Nat.mul_comm _ _
      · have hquot := Nat.lt_mul_div_succ numerator hr
        calc numerator ≤ root * (numerator / root + 1) := hquot.le
          _ ≤ root * (numerator / root + amount) := by gcongr; omega

/-- An input of the second token that is not enough for the way up to a target leaves the root below it. -/
theorem sqrtPriceAfter1_bounds (h : sqrtPriceAfter1 root liquidity amount = .ok next) (hrt : root ≤ target)
    (hshort : (amount : ℝ) < liquidity * (level false target - level false root)) :
    root ≤ next ∧ next < target := by
  have hshort' : amount * q96 < liquidity * (target - root) := by
    rw [level_false_sub hrt, lt_div_iff₀ (by norm_num [q96])] at hshort
    exact_mod_cast hshort
  obtain ⟨rise, hrise, h⟩ := bind_eq_ok.1 h
  obtain ⟨-, -, rfl⟩ := fullMulDiv_eq_ok.1 hrise
  obtain ⟨-, rfl⟩ := fit_eq_ok.1 h
  have hlt : amount * q96 / liquidity < target - root := Nat.div_lt_of_lt_mul hshort'
  exact ⟨Nat.le_add_right _ _, by omega⟩

/-! ### Steps -/

variable {current remaining feePips toTarget : ℕ} {s : Step}

/-- The part of the input that is swapped, after the fee. -/
def usable (remaining feePips : ℕ) : ℕ := remaining * (feeParts - feePips) / feeParts

/-- What a successful step did. The root is the target if the input suffices for it and follows from the input
otherwise; both amounts are those of the way from the old root to the new one. The fee is a part of what came in, or all
that is left of the input where the step stopped before the target. -/
theorem step_cases {zeroForOne : Bool} (hz : decide (target ≤ current) = zeroForOne)
    (h : step current target liquidity remaining feePips = .ok s) :
    ∃ toTarget, taken zeroForOne current target liquidity = .ok toTarget ∧
      (toTarget ≤ usable remaining feePips ∧ s.sqrtPrice = target ∨
        usable remaining feePips < toTarget ∧
          sqrtPriceAfter current liquidity (usable remaining feePips) zeroForOne = .ok s.sqrtPrice) ∧
      taken zeroForOne current s.sqrtPrice liquidity = .ok s.amountIn ∧
      paid zeroForOne current s.sqrtPrice liquidity = .ok s.amountOut ∧
      (s.sqrtPrice = target ∧ fullMulDivUp s.amountIn feePips (feeParts - feePips) = .ok s.fee ∨
        s.sqrtPrice ≠ target ∧ s.amountIn + s.fee = remaining) := by
  simp only [step, hz] at h
  obtain ⟨kept, hkept, h⟩ := bind_eq_ok.1 h
  obtain ⟨swapped, hswapped, h⟩ := bind_eq_ok.1 h
  obtain ⟨toTarget, hto, h⟩ := bind_eq_ok.1 h
  obtain ⟨next, hnext, h⟩ := bind_eq_ok.1 h
  obtain ⟨amountIn, hin, h⟩ := bind_eq_ok.1 h
  obtain ⟨amountOut, hout, h⟩ := bind_eq_ok.1 h
  obtain ⟨fee, hfee, h⟩ := bind_eq_ok.1 h
  obtain rfl := Except.ok.inj h
  obtain ⟨-, rfl⟩ := sub_eq_ok.1 hkept
  obtain ⟨-, -, rfl⟩ := fullMulDiv_eq_ok.1 hswapped
  refine ⟨toTarget, hto, ?_, ?_, hout, ?_⟩
  · split at hnext
    · rename_i hle
      exact .inl ⟨hle, (Except.ok.inj hnext).symm⟩
    · rename_i hlt
      exact .inr ⟨not_le.1 hlt, hnext⟩
  · split at hin
    · rename_i heq
      obtain rfl := Except.ok.inj hin
      rwa [heq]
    · exact hin
  · split at hfee
    · rename_i heq
      exact .inl ⟨heq, hfee⟩
    · rename_i hne
      obtain ⟨hle, rfl⟩ := sub_eq_ok.1 hfee
      exact .inr ⟨hne, Nat.add_sub_cancel' hle⟩

/-- Down, what is taken is the first token, rounded up. -/
theorem taken_true (a b liquidity : ℕ) : taken true a b liquidity = amount0 b a liquidity true := if_pos rfl

/-- Up, it is the second. -/
theorem taken_false (a b liquidity : ℕ) : taken false a b liquidity = amount1 a b liquidity true :=
  if_neg Bool.false_ne_true

/-- Down, what is paid is the second token, rounded down. -/
theorem paid_true (a b liquidity : ℕ) : paid true a b liquidity = amount1 b a liquidity false := if_pos rfl

/-- Up, it is the first. -/
theorem paid_false (a b liquidity : ℕ) : paid false a b liquidity = amount0 a b liquidity false :=
  if_neg Bool.false_ne_true

/-- An input that is not enough for the way down stops strictly before the target. -/
theorem stops_above (hto : taken true current target liquidity = .ok toTarget) (htc : target ≤ current)
    (hshort : amount < toTarget) (h : sqrtPriceAfter current liquidity amount true = .ok next) :
    target < next ∧ next ≤ current := by
  rw [taken_true] at hto
  obtain ⟨ht, hto⟩ := amount0_up hto htc
  rw [hto, Nat.lt_ceil] at hshort
  unfold sqrtPriceAfter at h
  split at h
  · cases h
  · exact sqrtPriceAfter0_bounds h ht htc hshort

/-- An input that is not enough for the way up stops strictly before the target. -/
theorem stops_below (hto : taken false current target liquidity = .ok toTarget) (hct : current ≤ target)
    (hshort : amount < toTarget) (h : sqrtPriceAfter current liquidity amount false = .ok next) :
    current ≤ next ∧ next < target := by
  rw [taken_false] at hto
  rw [amount1_up hto hct, Nat.lt_ceil] at hshort
  unfold sqrtPriceAfter at h
  split at h
  · cases h
  · exact sqrtPriceAfter1_bounds h hct hshort

/-- A step to a target below. -/
theorem step_bounds_down (h : step current target liquidity remaining feePips = .ok s) (htc : target ≤ current) :
    0 < target ∧ target ≤ s.sqrtPrice ∧ s.sqrtPrice ≤ current ∧
      liquidity * (level true s.sqrtPrice - level true current) ≤ s.amountIn ∧
      s.amountOut ≤ liquidity * (level false current - level false s.sqrtPrice) := by
  obtain ⟨toTarget, hto, hnext, hin, hout, -⟩ := step_cases (decide_eq_true htc) h
  have hbetween : target ≤ s.sqrtPrice ∧ s.sqrtPrice ≤ current := by
    rcases hnext with ⟨-, heq⟩ | ⟨hshort, hnext⟩
    · exact ⟨heq.ge, heq.le.trans htc⟩
    · exact (stops_above hto htc hshort hnext).imp_left le_of_lt
  rw [taken_true] at hto hin
  rw [paid_true] at hout
  obtain ⟨ht, -⟩ := amount0_up hto htc
  obtain ⟨-, hin⟩ := amount0_up hin hbetween.2
  have hout := amount1_down hout hbetween.2
  refine ⟨ht, hbetween.1, hbetween.2, ?_, ?_⟩
  · rw [hin]
    exact Nat.le_ceil _
  · rw [hout]
    exact Nat.floor_le (mul_nonneg (Nat.cast_nonneg _) (sub_nonneg.2 (level_monotone hbetween.2)))

/-- A step to a target above. -/
theorem step_bounds_up (h : step current target liquidity remaining feePips = .ok s) (hct : current ≤ target) :
    0 < current ∧ current ≤ s.sqrtPrice ∧ s.sqrtPrice ≤ target ∧
      liquidity * (level false s.sqrtPrice - level false current) ≤ s.amountIn ∧
      s.amountOut ≤ liquidity * (level true current - level true s.sqrtPrice) := by
  rcases hct.eq_or_lt with rfl | hlt
  · -- a step that need not move counts as one down
    obtain ⟨ht, hge, hle, -, hout⟩ := step_bounds_down h le_rfl
    obtain heq := le_antisymm hle hge
    rw [heq, sub_self, mul_zero] at hout ⊢
    exact ⟨ht, le_rfl, le_rfl, by simp, by simpa using hout⟩
  · obtain ⟨toTarget, hto, hnext, hin, hout, -⟩ := step_cases (decide_eq_false (not_le.2 hlt)) h
    have hbetween : current ≤ s.sqrtPrice ∧ s.sqrtPrice ≤ target := by
      rcases hnext with ⟨-, heq⟩ | ⟨hshort, hnext⟩
      · exact ⟨hct.trans heq.ge, heq.le⟩
      · exact (stops_below hto hct hshort hnext).imp_right le_of_lt
    rw [taken_false] at hin
    rw [paid_false] at hout
    have hin := amount1_up hin hbetween.1
    obtain ⟨hc, hout⟩ := amount0_down hout hbetween.1
    refine ⟨hc, hbetween.1, hbetween.2, ?_, ?_⟩
    · rw [hin]
      exact Nat.le_ceil _
    · rw [hout]
      exact Nat.floor_le (mul_nonneg (Nat.cast_nonneg _) (sub_nonneg.2 (level_antitone hc hbetween.1)))

end Concentrated
end Searcher

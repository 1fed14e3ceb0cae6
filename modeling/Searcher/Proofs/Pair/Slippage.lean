/-
# The input for a slippage

Fees aside, an input of `dx` lowers the price of a pair from `reserveOut / reserve` to
`reserveOut * reserve / (reserve + dx) ^ 2`. It falls by `bps` of ten thousand where

    (reserve + dx) ^ 2 * (10000 - bps) = 10000 * reserve ^ 2

that is, where the reserve grows by the factor `1 / sqrt (1 - bps / 10000)`. The factor is taken with eighteen decimals,
as the root of `1e40 / (10000 - bps)` rounded down (`factor`); its square and that of the next number enclose the exact
one (`factor_sq_le`, `lt_factor_succ_sq`). The grown reserve is rounded down once more (`reserve_add_excess`). Both
roundings leave the price above its aim, so the input is safe. Together they lose less than a unit and one part of the
reserve in `e18` (`grown_le`), so the input is tight.
-/

import Searcher.ConstantProduct
import Searcher.Proofs.SquareRoot
import Mathlib.Tactic.Ring

namespace Searcher
namespace ConstantProduct

variable {reserve bps dx : ℕ}

/-- The factor by which the reserve has to grow, with eighteen decimals. -/
def factor (bps : ℕ) : ℕ := Root.isqrt (10 ^ 36 * 10000 / (10000 - bps))

/-- The factor rounded down is not above the exact one. -/
theorem factor_sq_le (bps : ℕ) : factor bps ^ 2 * (10000 - bps) ≤ 10000 * e18 ^ 2 :=
  calc factor bps ^ 2 * (10000 - bps) ≤ 10 ^ 36 * 10000 / (10000 - bps) * (10000 - bps) :=
        Nat.mul_le_mul_right _ (Root.isqrt_sq_le _)
    _ ≤ 10 ^ 36 * 10000 := Nat.div_mul_le_self _ _
    _ = 10000 * e18 ^ 2 := by decide

/-- The next factor is above the exact one. -/
theorem lt_factor_succ_sq (hbps : bps < 10000) : 10000 * e18 ^ 2 < (factor bps + 1) ^ 2 * (10000 - bps) := by
  have hkept : 0 < 10000 - bps := by omega
  have hroot : 10 ^ 36 * 10000 / (10000 - bps) < (factor bps + 1) ^ 2 := Root.lt_isqrt_succ_sq _
  calc 10000 * e18 ^ 2 = 10 ^ 36 * 10000 := by decide
    _ < (factor bps + 1) ^ 2 * (10000 - bps) := (Nat.div_lt_iff_lt_mul hkept).1 hroot

/-- The reserve does not shrink. -/
theorem e18_le_factor (hbps : bps < 10000) : e18 ≤ factor bps := by
  have hkept : 0 < 10000 - bps := by omega
  refine Root.le_isqrt.2 ((Nat.le_div_iff_mul_le hkept).2 ?_)
  calc e18 ^ 2 * (10000 - bps) ≤ e18 ^ 2 * 10000 := Nat.mul_le_mul_left _ (Nat.sub_le _ _)
    _ = 10 ^ 36 * 10000 := by decide

/-- Within its range of slippages the input is found unless the product with the reserve does not fit. -/
theorem amountInForSlippage_eq_ok : amountInForSlippage reserve bps = .ok dx ↔
    (0 < bps ∧ bps < 10000) ∧ reserve * (factor bps - e18) < wordSize ∧ dx = reserve * (factor bps - e18) / e18 := by
  unfold amountInForSlippage
  split
  · rename_i hrange
    constructor
    · intro h
      cases h
    · rintro ⟨hinside, -⟩
      omega
  · rename_i hrange
    have hkept : 10000 - bps ≠ 0 := by omega
    have hscale : 10 ^ 36 * 10000 < wordSize := by decide
    have he18 : e18 ≠ 0 := by decide
    have hfactor : e18 ≤ factor bps := e18_le_factor (by omega)
    have hinside : 0 < bps ∧ bps < 10000 := by omega
    unfold Checked.mul
    simp only [Checked.bind_fit_eq_ok, Checked.bind_div_eq_ok, Checked.bind_sub_eq_ok, Checked.div_eq_ok]
    change _ ∧ _ ∧ e18 ≤ factor bps ∧ reserve * (factor bps - e18) < wordSize ∧ e18 ≠ 0 ∧
      dx = reserve * (factor bps - e18) / e18 ↔ _
    simp only [hscale, hkept, hfactor, he18, hinside, ne_eq, not_false_eq_true, true_and, and_true]

/-- The reserve with its input is the grown reserve rounded down. -/
theorem reserve_add_excess (reserve : ℕ) (hbps : bps < 10000) :
    reserve + reserve * (factor bps - e18) / e18 = reserve * factor bps / e18 := by
  have he18 : 0 < e18 := by decide
  have hsplit : reserve * factor bps = reserve * (factor bps - e18) + reserve * e18 := by
    rw [← Nat.mul_add, Nat.sub_add_cancel (e18_le_factor hbps)]
  rw [hsplit, Nat.add_mul_div_right _ _ he18, Nat.add_comm]

/-- One part of the reserve in `e18` and one unit, each rounded up, make up for both roundings. -/
theorem grown_le (reserve grow : ℕ) :
    reserve * (grow + 1) ≤ (reserve * grow / e18 + (reserve / e18 + 2)) * e18 := by
  have he18 : 0 < e18 := by decide
  have hgrown : reserve * grow < e18 * (reserve * grow / e18 + 1) := Nat.lt_mul_div_succ _ he18
  have hpart : reserve < e18 * (reserve / e18 + 1) := Nat.lt_mul_div_succ _ he18
  calc reserve * (grow + 1) = reserve * grow + reserve := Nat.mul_succ _ _
    _ ≤ e18 * (reserve * grow / e18 + 1) + e18 * (reserve / e18 + 1) := by omega
    _ = (reserve * grow / e18 + (reserve / e18 + 2)) * e18 := by ring

/-- **The input for a slippage is safe and tight.** An input that is found lowers the price by no more than the
slippage it is asked for, and with one part of the reserve in `e18` and two units on top by no less. -/
theorem amountInForSlippage_isTight (h : amountInForSlippage reserve bps = .ok dx) :
    (reserve + dx) ^ 2 * (10000 - bps) ≤ 10000 * reserve ^ 2 ∧
      10000 * reserve ^ 2 ≤ (reserve + dx + (reserve / 10 ^ 18 + 2)) ^ 2 * (10000 - bps) := by
  obtain ⟨⟨-, hbps⟩, -, rfl⟩ := amountInForSlippage_eq_ok.1 h
  have hsquare : 0 < e18 ^ 2 := by decide
  rw [reserve_add_excess reserve hbps]
  constructor
  · refine Nat.le_of_mul_le_mul_right ?_ hsquare
    calc (reserve * factor bps / e18) ^ 2 * (10000 - bps) * e18 ^ 2
        = (reserve * factor bps / e18 * e18) ^ 2 * (10000 - bps) := by ring
      _ ≤ (reserve * factor bps) ^ 2 * (10000 - bps) :=
        Nat.mul_le_mul_right _ (Nat.pow_le_pow_left (Nat.div_mul_le_self _ _) 2)
      _ = reserve ^ 2 * (factor bps ^ 2 * (10000 - bps)) := by ring
      _ ≤ reserve ^ 2 * (10000 * e18 ^ 2) := Nat.mul_le_mul_left _ (factor_sq_le bps)
      _ = 10000 * reserve ^ 2 * e18 ^ 2 := by ring
  · refine Nat.le_of_mul_le_mul_right ?_ hsquare
    change _ ≤ (reserve * factor bps / e18 + (reserve / e18 + 2)) ^ 2 * _ * _
    calc 10000 * reserve ^ 2 * e18 ^ 2 = reserve ^ 2 * (10000 * e18 ^ 2) := by ring
      _ ≤ reserve ^ 2 * ((factor bps + 1) ^ 2 * (10000 - bps)) := Nat.mul_le_mul_left _ (lt_factor_succ_sq hbps).le
      _ = (reserve * (factor bps + 1)) ^ 2 * (10000 - bps) := by ring
      _ ≤ ((reserve * factor bps / e18 + (reserve / e18 + 2)) * e18) ^ 2 * (10000 - bps) :=
        Nat.mul_le_mul_right _ (Nat.pow_le_pow_left (grown_le reserve (factor bps)) 2)
      _ = (reserve * factor bps / e18 + (reserve / e18 + 2)) ^ 2 * (10000 - bps) * e18 ^ 2 := by ring

/-- One in a hundred of a million tokens of eighteen decimals: 5037.815259212075 of them, and a million and two of the
last decimal more would be enough. -/
theorem amountInForSlippage_isTight_million :
    let reserve := 10 ^ 24
    let dx := 5037815259212075 * 10 ^ 6
    amountInForSlippage reserve 100 = .ok dx ∧ (reserve + dx) ^ 2 * 9900 ≤ 10000 * reserve ^ 2 ∧
      10000 * reserve ^ 2 ≤ (reserve + dx + 1000002) ^ 2 * 9900 := by
  intro reserve dx
  have hfactor : factor 100 = 1005037815259212075 := by
    rw [factor, Root.isqrt_eq_sqrt]
    exact (Nat.eq_sqrt.2 ⟨by decide, by decide⟩).symm
  have hfound : amountInForSlippage reserve 100 = .ok dx :=
    amountInForSlippage_eq_ok.2 ⟨by decide, by rw [hfactor]; decide, by rw [hfactor]; decide⟩
  obtain ⟨hsafe, htight⟩ := amountInForSlippage_isTight hfound
  have hslack : reserve / 10 ^ 18 + 2 = 1000002 := by decide
  rw [hslack] at htight
  exact ⟨hfound, hsafe, htight⟩

end ConstantProduct
end Searcher

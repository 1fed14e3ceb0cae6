/-
# The least input for an output

For an output `m` a pair asks for `N / D + 1`, rounded down, where `N = reserveIn * m * base` is what the other side has
to be worth and `D = (reserveOut - m) * keep` what a unit of the input adds to that. An input `y` buys `m` exactly if
`N ≤ D y` (`ConstantProduct.le_amountOut_iff`), so the least one that does is `N / D` rounded up. This is what the pair
asks for unless `D` divides `N`: then `N / D` already buys `m`, and the pair asks for one unit more.
-/

import Searcher.Proofs.Solver.Capacity

namespace Searcher
namespace ConstantProduct

variable {wanted cost less out reserveIn reserveOut : ℕ} {fee : Fee}

/-- In a pair whose reserves and base have a product that fits, the last unit fits too. -/
theorem amountIn_eq (hroom : reserveIn * reserveOut * fee.base < wordSize)
    (h : amountIn wanted reserveIn reserveOut fee = .ok cost) :
    cost = reserveIn * wanted * fee.base / ((reserveOut - wanted) * fee.keep) + 1 := by
  obtain ⟨hlt, -, -, rfl⟩ := amountIn_eq_ok h
  refine Nat.mod_eq_of_lt ?_
  have hquotient := Nat.div_le_self (reserveIn * wanted * fee.base) ((reserveOut - wanted) * fee.keep)
  have hnumerator : reserveIn * wanted * fee.base + 1 < wordSize := by
    rcases Nat.eq_zero_or_pos (reserveIn * fee.base) with hzero | hpos
    · rw [Nat.mul_right_comm, hzero, Nat.zero_mul]
      decide
    · calc reserveIn * wanted * fee.base + 1 = reserveIn * fee.base * wanted + 1 := by rw [Nat.mul_right_comm]
        _ ≤ reserveIn * fee.base * reserveOut := Nat.mul_lt_mul_of_pos_left hlt hpos
        _ = reserveIn * reserveOut * fee.base := Nat.mul_right_comm ..
        _ < wordSize := hroom
  omega

/-- Reserves of 112 bits and a base of at most ten thousand have a product that fits. -/
theorem product_lt_wordSize (hin : reserveIn < reserveSize) (hout : reserveOut < reserveSize)
    (hbase : fee.base ≤ 10000) : reserveIn * reserveOut * fee.base < wordSize :=
  calc reserveIn * reserveOut * fee.base ≤ reserveSize * reserveSize * 10000 :=
        Nat.mul_le_mul (Nat.mul_le_mul hin.le hout.le) hbase
    _ < wordSize := by decide

end ConstantProduct

namespace Hop

open ConstantProduct

variable {hop : Hop} {wanted cost : ℕ}

/-- **A pair asks for the least input, or for the one after it.** What a regular pair asks for an output buys at least
that output, unless the numbers of its quote do not fit. No smaller input buys it but the one just before, and that one
exactly where the division leaves no rest. -/
theorem amountIn_leastOrNext (h : hop.Regular)
    (hcost : amountIn wanted hop.reserveIn hop.reserveOut hop.fee = .ok cost) :
    (hop.amountOut cost = .error .overflow ∨ ∃ out, hop.amountOut cost = .ok out ∧ wanted ≤ out) ∧
      ∀ less < cost, ∀ out, hop.amountOut less = .ok out →
        (wanted ≤ out ↔ less + 1 = cost ∧
          (hop.reserveOut - wanted) * hop.fee.keep ∣ hop.reserveIn * wanted * hop.fee.base) := by
  obtain ⟨hwanted, hne, -, -⟩ := amountIn_eq_ok hcost
  have hasked := amountIn_eq (product_lt_wordSize h.reserveIn_lt h.reserveOut_lt h.base_le) hcost
  have hpos := Nat.pos_of_ne_zero hne
  constructor
  · cases hout : hop.amountOut cost with
    | ok out => exact .inr ⟨out, rfl, le_amountOut hcost (hasked ▸ Nat.succ_ne_zero _) hout⟩
    | error e =>
      -- the pair has reserves, and weighs the one it takes in
      have hweight : 0 < hop.reserveIn * hop.fee.base := Nat.mul_pos h.reserveIn_pos h.base_pos
      have hin := h.reserveIn_pos
      have hout' := h.reserveOut_pos
      obtain ⟨-, hempty⟩ | rfl | ⟨-, hzero⟩ := amountOut_eq_error hout
      · omega
      · exact .inl rfl
      · omega
  · intro less hless out hout
    rw [le_amountOut_iff hwanted.le hout]
    set numerator := hop.reserveIn * wanted * hop.fee.base
    set denominator := (hop.reserveOut - wanted) * hop.fee.keep
    have hle : less ≤ numerator / denominator := Nat.lt_succ_iff.1 (hless.trans_eq hasked)
    constructor
    · intro hbuys
      have heq : numerator = denominator * less :=
        hbuys.antisymm ((Nat.mul_le_mul_left _ hle).trans (Nat.mul_div_le _ _))
      refine ⟨?_, heq ▸ Nat.dvd_mul_right _ _⟩
      rw [hasked, heq, Nat.mul_div_cancel_left _ hpos]
    · rintro ⟨hnext, hdvd⟩
      have hlast : less = numerator / denominator := Nat.succ.inj (hnext.trans hasked)
      rw [hlast, Nat.mul_div_cancel' hdvd]

/-- A division with a rest: five thousand of two million cost 2514, and no less buys them. -/
theorem amountIn_leastOrNext_rest :
    let hop : Hop := ⟨1000000, 2000000, .standard⟩
    hop.Regular ∧ amountIn 5000 hop.reserveIn hop.reserveOut hop.fee = .ok 2514 ∧
      (∃ out, hop.amountOut 2514 = .ok out ∧ 5000 ≤ out) ∧
      ∀ less < 2514, ∀ out, hop.amountOut less = .ok out → out < 5000 := by
  intro hop
  have hregular : hop.Regular := by decide
  have hcost : amountIn 5000 hop.reserveIn hop.reserveOut hop.fee = .ok 2514 := by decide
  obtain ⟨hbuys, hless⟩ := amountIn_leastOrNext hregular hcost
  have hfits : hop.amountOut 2514 ≠ .error .overflow := by decide
  refine ⟨hregular, hcost, hbuys.resolve_left hfits, fun less hlt out hout => ?_⟩
  by_contra hle
  obtain ⟨-, hdvd⟩ := (hless less hlt out hout).1 (Nat.not_lt.1 hle)
  exact absurd hdvd (by decide)

/-- **A division without a rest:** a million buys the 997, and the pair asks for one more. -/
theorem amountIn_exactDivision :
    let hop : Hop := ⟨1000000, 1997, .standard⟩
    hop.Regular ∧ amountIn 997 hop.reserveIn hop.reserveOut hop.fee = .ok 1000001 ∧
      ¬ ∀ less < 1000001, ∀ out, hop.amountOut less = .ok out → out < 997 := by
  intro hop
  refine ⟨by decide, by decide, fun hleast => ?_⟩
  have hbuys : hop.amountOut 1000000 = .ok 997 := by decide
  exact Nat.lt_irrefl 997 (hleast 1000000 (by decide) 997 hbuys)

end Hop
end Searcher

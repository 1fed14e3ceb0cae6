/-
# The product of the reserves

For an input `a` a pair pays at most `a * reserveOut / (reserveIn + a)`, which is what it would pay without a fee
(`ConstantProduct.amountOut_mul_le`). So a swap moves the reserves to

    (reserveIn + a) * (reserveOut - out) ≥ reserveIn * reserveOut

with something left on both sides (`Hop.Keeps.of_swap`). Turned around, a pool has the same product, so the bound holds
of swaps in both directions, and by induction of every run of them. A swap that is sold back returns the output's
reserve to what it was. The input's reserve is then no smaller than at first: nothing is won.
-/

import Searcher.Proofs.Quote.Holdings
import Mathlib.Tactic.Ring

namespace Searcher

/-- A pair pays at most what it would without a fee. -/
theorem ConstantProduct.amountOut_mul_le {given out reserveIn reserveOut : ℕ} {fee : Fee}
    (h : amountOut given reserveIn reserveOut fee = .ok out) : out * (reserveIn + given) ≤ given * reserveOut := by
  obtain ⟨-, hout⟩ := amountOut_eq_ok h
  have hrounded : out * (reserveIn * fee.base + given * fee.keep) ≤ given * fee.keep * reserveOut :=
    hout ▸ Nat.div_mul_le_self _ _
  have hkeep : fee.keep ≤ fee.base := Nat.sub_le _ _
  rcases Nat.eq_zero_or_pos fee.keep with hzero | hpos
  · -- a fee of everything leaves nothing to pay for
    obtain rfl : out = 0 := by simp [hout, hzero]
    simp
  · refine Nat.le_of_mul_le_mul_right ?_ hpos
    calc out * (reserveIn + given) * fee.keep = out * (reserveIn * fee.keep + given * fee.keep) := by ring
      _ ≤ out * (reserveIn * fee.base + given * fee.keep) := by gcongr
      _ ≤ given * fee.keep * reserveOut := hrounded
      _ = given * reserveOut * fee.keep := by ring

namespace Hop

/-- The product of the reserves. -/
def product (hop : Hop) : ℕ := hop.reserveIn * hop.reserveOut

/-- An input at a pool, in the direction of a hop or against it. -/
structure Trade where
  against : Bool
  amountIn : ℕ
deriving DecidableEq, Repr

/-- The hop after a swap in one of the two directions. -/
def trade (hop : Hop) (t : Trade) : Quote Hop :=
  if t.against then do return (← hop.reversed.swap t.amountIn).2.reversed
  else do return (← hop.swap t.amountIn).2

/-- The hop after a row of swaps. -/
def run (hop : Hop) (trades : List Trade) : Quote Hop := trades.foldlM trade hop

/-- What swaps keep of a hop: the product of the reserves has not fallen, and something is left on both sides. -/
structure Keeps (hop moved : Hop) : Prop where
  product_le : hop.product ≤ moved.product
  reserveIn_pos : 0 < moved.reserveIn
  reserveOut_pos : 0 < moved.reserveOut

variable {hop moved last : Hop} {amountIn out back : ℕ} {t : Trade} {trades : List Trade}

namespace Keeps

/-- A pair that keeps its product twice keeps it. -/
theorem trans (h : hop.Keeps moved) (h' : moved.Keeps last) : hop.Keeps last :=
  ⟨h.product_le.trans h'.product_le, h'.reserveIn_pos, h'.reserveOut_pos⟩

/-- Turned around, nothing else is kept. -/
theorem reversed (h : hop.Keeps moved) : hop.reversed.Keeps moved.reversed where
  product_le := by
    have := h.product_le
    simpa only [product, Hop.reversed, Nat.mul_comm] using this
  reserveIn_pos := h.reserveOut_pos
  reserveOut_pos := h.reserveIn_pos

/-- **One swap keeps the product,** and leaves something on both sides. -/
theorem of_swap (h : hop.swap amountIn = .ok (out, moved)) : hop.Keeps moved := by
  obtain ⟨hout, -, hle, rfl⟩ := swap_eq_ok.1 h
  have hlt := ConstantProduct.amountOut_lt hout
  have hpaid := ConstantProduct.amountOut_mul_le hout
  constructor
  · change hop.reserveIn * hop.reserveOut ≤ (hop.reserveIn + amountIn) * (hop.reserveOut - out)
    rw [Nat.mul_sub, Nat.add_mul, Nat.mul_comm (hop.reserveIn + amountIn) out]
    omega
  · have := (ConstantProduct.reserves_pos hout).1
    exact Nat.add_pos_left this _
  · exact Nat.sub_pos_of_lt hlt

/-- The step of a run. -/
theorem of_trade (h : hop.trade t = .ok moved) : hop.Keeps moved := by
  unfold trade at h
  split at h
  · obtain ⟨⟨out, turned⟩, hswap, h⟩ := Checked.bind_eq_ok.1 h
    obtain rfl := Except.ok.inj h
    exact (of_swap hswap).reversed
  · obtain ⟨⟨out, moved⟩, hswap, h⟩ := Checked.bind_eq_ok.1 h
    obtain rfl := Except.ok.inj h
    exact of_swap hswap

/-- **A run keeps the product.** -/
theorem of_run (hin : 0 < hop.reserveIn) (hout : 0 < hop.reserveOut) (h : hop.run trades = .ok moved) :
    hop.Keeps moved := by
  induction trades generalizing hop with
  | nil =>
    obtain rfl := Except.ok.inj h
    exact ⟨le_rfl, hin, hout⟩
  | cons t trades ih =>
    obtain ⟨next, hnext, h⟩ := Checked.bind_eq_ok.1 h
    have hstep := of_trade hnext
    exact hstep.trans (ih hstep.reserveIn_pos hstep.reserveOut_pos h)

end Keeps

/-! ### No swap takes more than there is -/

/-- A pair that quotes an output holds it, so a swap never fails for want of it. -/
theorem swap_ne_underflow (hop : Hop) (amountIn : ℕ) : hop.swap amountIn ≠ .error (.outOfBounds .subtraction) := by
  intro h
  obtain h | ⟨s, -, h⟩ := Checked.bind_eq_error.1 h
  · obtain h | ⟨out, hout, h⟩ := Checked.bind_eq_error.1 h
    · obtain ⟨he, -⟩ | he | ⟨he, -⟩ := ConstantProduct.amountOut_eq_error h <;> cases he
    · obtain h | ⟨_, -, h⟩ := Checked.bind_eq_error.1 h
      · cases (Checked.fit_eq_error.1 h).2
      · obtain h | ⟨_, -, h⟩ := Checked.bind_eq_error.1 h
        · exact absurd (Checked.sub_eq_error.1 h).1 (ConstantProduct.amountOut_lt hout).not_gt
        · cases h
  · cases h

/-- A trade is never refused because a reserve would be negative. -/
theorem trade_ne_underflow (hop : Hop) (t : Trade) : hop.trade t ≠ .error (.outOfBounds .subtraction) := by
  intro h
  unfold trade at h
  split at h
  · obtain h | ⟨_, -, h⟩ := Checked.bind_eq_error.1 h
    · exact swap_ne_underflow _ _ h
    · cases h
  · obtain h | ⟨_, -, h⟩ := Checked.bind_eq_error.1 h
    · exact swap_ne_underflow _ _ h
    · cases h

/-- So no run of trades is. -/
theorem run_ne_underflow (hop : Hop) (trades : List Trade) : hop.run trades ≠ .error (.outOfBounds .subtraction) := by
  induction trades generalizing hop with
  | nil => exact nofun
  | cons t trades ih =>
    intro h
    obtain h | ⟨next, -, h⟩ := Checked.bind_eq_error.1 h
    · exact trade_ne_underflow hop t h
    · exact ih next h

/-- **Selling back what was bought wins nothing.** -/
theorem resell_le (h : hop.swap amountIn = .ok (out, moved)) (hback : moved.reversed.swap out = .ok (back, last)) :
    back ≤ amountIn := by
  have hkeeps := (Keeps.of_swap h).trans (Keeps.of_swap hback).reversed
  obtain ⟨hout, -, hle, rfl⟩ := swap_eq_ok.1 h
  obtain ⟨-, -, hheld, rfl⟩ := swap_eq_ok.1 hback
  change back ≤ hop.reserveIn + amountIn at hheld
  -- the output's reserve is what it was
  have hproduct : hop.reserveIn * hop.reserveOut ≤ (hop.reserveIn + amountIn - back) * hop.reserveOut := by
    have := hkeeps.product_le
    change hop.reserveIn * hop.reserveOut ≤ (hop.reserveIn + amountIn - back) * (hop.reserveOut - out + out) at this
    rwa [Nat.sub_add_cancel hle] at this
  have := Nat.le_of_mul_le_mul_right hproduct (ConstantProduct.reserves_pos hout).2
  omega

/-- **No run of swaps drains a pool.** From a hop with something on both sides, and whatever its fee, a row of swaps in
both directions that succeeds does not lower the product of the reserves and leaves something on both sides. A row that
fails does not do so because a reserve is short of what it pays. And where a row has led, an input that is sold back
returns at most itself. -/
theorem run_neverDrains (hop : Hop) (hin : 0 < hop.reserveIn) (hout : 0 < hop.reserveOut) (trades : List Trade) :
    (∀ moved, hop.run trades = .ok moved →
      hop.product ≤ moved.product ∧ 0 < moved.reserveIn ∧ 0 < moved.reserveOut) ∧
    hop.run trades ≠ .error (.outOfBounds .subtraction) ∧
    ∀ moved, hop.run trades = .ok moved → ∀ amountIn out after back last, moved.swap amountIn = .ok (out, after) →
      after.reversed.swap out = .ok (back, last) → back ≤ amountIn := by
  refine ⟨fun moved h => ?_, run_ne_underflow hop trades, fun moved _ amountIn out after back last => resell_le⟩
  obtain ⟨hproduct, hin, hout⟩ := Keeps.of_run hin hout h
  exact ⟨hproduct, hin, hout⟩

/-- A million is swapped in and sold back in two parts, and another seven are swapped in. A million that is then swapped
in and sold back returns less. -/
theorem run_neverDrains_backAndForth :
    let hop : Hop := ⟨1000000000, 2000000000, .standard⟩
    let trades : List Trade := [⟨false, 1000000⟩, ⟨true, 1000000⟩, ⟨true, 992013⟩, ⟨false, 7⟩]
    let moved : Hop := ⟨1000005995, 1999999987, .standard⟩
    0 < hop.reserveIn ∧ 0 < hop.reserveOut ∧ hop.run trades = .ok moved ∧ hop.product ≤ moved.product ∧
      ∃ out after back last, moved.swap 1000000 = .ok (out, after) ∧ after.reversed.swap out = .ok (back, last) ∧
        back ≤ 1000000 := by
  intro hop trades moved
  have hin : 0 < hop.reserveIn := by decide
  have hout : 0 < hop.reserveOut := by decide
  have hrun : hop.run trades = .ok moved := by decide
  have hswap : moved.swap 1000000 = .ok (1992002, ⟨1001005995, 1998007985, .standard⟩) := by decide
  have hback : (⟨1001005995, 1998007985, .standard⟩ : Hop).reversed.swap 1992002 =
      .ok (994014, ⟨1999999987, 1000011981, .standard⟩) := by decide
  obtain ⟨hkeeps, -, hresell⟩ := run_neverDrains hop hin hout trades
  exact ⟨hin, hout, hrun, (hkeeps moved hrun).1, _, _, _, _, hswap, hback, hresell moved hrun _ _ _ _ _ hswap hback⟩

end Hop
end Searcher

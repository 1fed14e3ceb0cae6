/-
# What a step charges

Between two roots of the range every amount fits, whatever the liquidity: the amounts have succeeded before they are
rounded (`taken_ok`, `paid_ok`). What is left to fail are two differences. The fee of a step that stops early is what
the amount taken leaves of the input, and it is not negative because the root after an input is rounded against the
trader, by the exact formula and by the coarser one alike, so that the way to it costs no more than that input
(`taken_le`). The fee of a step that reaches its target is rounded up, and still fits into what the input keeps back
(`fee_le`).

So a step within the range always succeeds, and charges the whole input or less (`step_charges`).
-/

import Searcher.Proofs.Concentrated.Monotone
import Searcher.Proofs.Quote.Numeric

namespace Searcher

namespace Checked

variable {a b c u : ℕ}

/-- A quotient that is known to be at most a word is found. -/
theorem fullMulDiv_ok (hc : 0 < c) (h : a * b ≤ u * c) (hu : u < wordSize) : ∃ n, fullMulDiv a b c = .ok n :=
  ⟨_, fullMulDiv_eq_ok.2 ⟨hc.ne', (Nat.div_le_of_le_mul (h.trans_eq (Nat.mul_comm u c))).trans_lt hu, rfl⟩⟩

/-- So is one rounded up, and it is within the same bound. -/
theorem fullMulDivUp_ok (hc : 0 < c) (h : a * b ≤ u * c) (hu : u < wordSize) :
    ∃ n, fullMulDivUp a b c = .ok n ∧ n ≤ u := by
  have hle := (ceilDiv_le_iff hc).2 h
  exact ⟨_, fullMulDivUp_eq_ok.2 ⟨hc.ne', hle.trans_lt hu, rfl⟩, hle⟩

end Checked

namespace Concentrated

open Checked Tick

variable {a b liquidity amount root target current next n remaining feePips toTarget : ℕ} {zeroForOne : Bool}

/-! ### Amounts within the range -/

/-- A scaled liquidity has 224 bits: 128 of its own, and 96 of the scale. -/
theorem scaled_lt_pow (hl : liquidity < 2 ^ 128) : liquidity * q96 < 2 ^ 224 :=
  calc liquidity * q96 < 2 ^ 128 * q96 := Nat.mul_lt_mul_of_pos_right hl (by decide)
    _ = 2 ^ 224 := (Nat.pow_add 2 128 96).symm

/-- The amount of the first token is found between any two positive roots. Of its two divisions the first leaves at
most the scaled liquidity, since `b - a` is at most `b`. -/
theorem amount0_ok (ha : 0 < a) (hab : a ≤ b) (hl : liquidity < 2 ^ 128) (up : Bool) :
    ∃ n, amount0 a b liquidity up = .ok n := by
  have hb : 0 < b := ha.trans_le hab
  have hfits : liquidity * q96 < wordSize := (scaled_lt_pow hl).trans (by decide)
  have hwidth : liquidity * q96 * (b - a) ≤ liquidity * q96 * b := Nat.mul_le_mul_left _ (Nat.sub_le b a)
  unfold amount0
  simp only [min_eq_left hab, max_eq_right hab, if_neg ha.ne']
  cases up with
  | true =>
    rw [if_pos rfl]
    obtain ⟨x, hx, -⟩ := fullMulDivUp_ok hb hwidth hfits
    exact ⟨_, bind_eq_ok.2 ⟨x, hx, divUp_eq_ok.2 ⟨ha.ne', rfl⟩⟩⟩
  | false =>
    rw [if_neg Bool.false_ne_true]
    obtain ⟨x, hx⟩ := fullMulDiv_ok hb hwidth hfits
    exact ⟨_, bind_eq_ok.2 ⟨x, hx, div_eq_ok.2 ⟨ha.ne', rfl⟩⟩⟩

/-- The amount of the second token is found below roots of 160 bits: the quotient is at most liquidity times root. -/
theorem amount1_ok (hab : a ≤ b) (hb : b < 2 ^ 160) (hl : liquidity < 2 ^ 128) (up : Bool) :
    ∃ n, amount1 a b liquidity up = .ok n := by
  have hq : 0 < q96 := by decide
  have hsplit : 2 ^ 160 = 2 ^ 64 * q96 := Nat.pow_add 2 64 96
  have hwidth : liquidity * (b - a) ≤ 2 ^ 128 * 2 ^ 64 * q96 :=
    calc liquidity * (b - a) ≤ 2 ^ 128 * 2 ^ 160 := Nat.mul_le_mul hl.le ((Nat.sub_le b a).trans hb.le)
      _ = 2 ^ 128 * 2 ^ 64 * q96 := by rw [hsplit, Nat.mul_assoc]
  have hfits : 2 ^ 128 * 2 ^ 64 < wordSize := by decide
  unfold amount1
  rw [min_eq_left hab, max_eq_right hab]
  cases up with
  | true =>
    rw [if_pos rfl]
    obtain ⟨n, hn, -⟩ := fullMulDivUp_ok hq hwidth hfits
    exact ⟨n, hn⟩
  | false =>
    rw [if_neg Bool.false_ne_true]
    exact fullMulDiv_ok hq hwidth hfits

/-- The roots of the range fit into 160 bits. -/
theorem lt_of_mem_range (h : root ∈ Set.Icc leastSqrtPrice largestSqrtPrice) : 0 < root ∧ root < 2 ^ 160 :=
  ⟨lt_of_lt_of_le (by decide) h.1, h.2.trans_lt (by decide)⟩

/-- A root on the way between two of the range is one of the range. -/
theorem mem_range_of_between (ha : a ∈ Set.Icc leastSqrtPrice largestSqrtPrice)
    (hb : b ∈ Set.Icc leastSqrtPrice largestSqrtPrice) (h : Onward zeroForOne a root) (h' : Onward zeroForOne root b) :
    root ∈ Set.Icc leastSqrtPrice largestSqrtPrice := by
  cases zeroForOne with
  | true => exact ⟨hb.1.trans h', le_trans h ha.2⟩
  | false => exact ⟨ha.1.trans h, le_trans h' hb.2⟩

/-- What a way takes is found, in either direction. -/
theorem taken_ok (hb : b ∈ Set.Icc leastSqrtPrice largestSqrtPrice) (h : Onward zeroForOne a b)
    (hl : liquidity < 2 ^ 128) : ∃ n, taken zeroForOne a b liquidity = .ok n := by
  cases zeroForOne with
  | true =>
    rw [taken_true]
    exact amount0_ok (lt_of_mem_range hb).1 h hl true
  | false =>
    rw [taken_false]
    exact amount1_ok h (lt_of_mem_range hb).2 hl true

/-- So is what it pays. -/
theorem paid_ok (ha : a ∈ Set.Icc leastSqrtPrice largestSqrtPrice) (h : Onward zeroForOne a b)
    (hl : liquidity < 2 ^ 128) : ∃ n, paid zeroForOne a b liquidity = .ok n := by
  cases zeroForOne with
  | true =>
    rw [paid_true]
    exact amount1_ok h (lt_of_mem_range ha).2 hl false
  | false =>
    rw [paid_false]
    exact amount0_ok (lt_of_mem_range ha).1 h hl false

/-- What is taken is the exact amount, rounded up. -/
theorem taken_eq (h : Onward zeroForOne a b) (hn : taken zeroForOne a b liquidity = .ok n) :
    n = ⌈(liquidity : ℝ) * (level zeroForOne b - level zeroForOne a)⌉₊ := by
  cases zeroForOne with
  | true =>
    rw [taken_true] at hn
    exact (amount0_up hn h).2
  | false =>
    rw [taken_false] at hn
    exact amount1_up hn h

/-! ### The root after an input -/

/-- The whole way down takes less than the liquidity, scaled. -/
theorem lt_scaled_of_lt_amount0 (ht : 0 < target) (htc : target ≤ current)
    (hto : amount0 target current liquidity true = .ok toTarget) (hshort : amount < toTarget) :
    amount < liquidity * q96 := by
  have hprod : 0 < target * current := Nat.mul_pos ht (ht.trans_le htc)
  have hwidth : current - target ≤ target * current := (Nat.sub_le _ _).trans (Nat.le_mul_of_pos_left current ht)
  obtain ⟨-, hto⟩ := amount0_up hto htc
  rw [hto, level_true_sub ht htc, ceil_div_eq_ceilDiv hprod, lt_ceilDiv_iff hprod] at hshort
  exact Nat.lt_of_mul_lt_mul_right (a := target * current) (hshort.trans_le (Nat.mul_le_mul_left _ hwidth))

/-- The root after an amount of the first token is found, if the amount does not suffice for the way to the target. It
is below the scaled liquidity then, so the coarser formula fits too where the finer one does not. -/
theorem sqrtPriceAfter0_ok (hc : 0 < current) (hsmall : current < 2 ^ 160) (ht : 0 < target) (htc : target ≤ current)
    (hl : liquidity < 2 ^ 128) (hliq : liquidity ≠ 0) (hto : amount0 target current liquidity true = .ok toTarget)
    (hshort : amount < toTarget) : ∃ next, sqrtPriceAfter0 current liquidity amount = .ok next := by
  have hnumerator : 0 < liquidity * q96 := Nat.mul_pos (Nat.pos_of_ne_zero hliq) (by decide)
  have hscaled := scaled_lt_pow hl
  have hamount := lt_scaled_of_lt_amount0 ht htc hto hshort
  set numerator := liquidity * q96 with hnum
  simp only [sqrtPriceAfter0, ← hnum]
  split
  · exact ⟨_, rfl⟩
  · rename_i hne
    split
    · have hpos : 0 < numerator + amount * current := Nat.add_pos_left hnumerator _
      have hle : numerator * current ≤ current * (numerator + amount * current) := by
        rw [Nat.mul_add, Nat.mul_comm]
        exact Nat.le_add_right _ _
      have hfits : current < wordSize := hsmall.trans (by decide)
      obtain ⟨next, hnext, -⟩ := fullMulDivUp_ok hpos hle hfits
      exact ⟨next, hnext⟩
    · have hsum : numerator / current + amount < wordSize := by
        have := Nat.div_le_self numerator current
        have hdouble : 2 ^ 224 + 2 ^ 224 < wordSize := by decide
        omega
      have htotal : add (numerator / current) amount = .ok (numerator / current + amount) := fit_eq_ok.2 ⟨hsum, rfl⟩
      have hnext : divUp numerator (numerator / current + amount) = .ok _ :=
        divUp_eq_ok.2 ⟨(Nat.add_pos_right _ (Nat.pos_of_ne_zero hne)).ne', rfl⟩
      exact ⟨_, bind_eq_ok.2 ⟨_, div_eq_ok.2 ⟨hc.ne', rfl⟩, bind_eq_ok.2 ⟨_, htotal, hnext⟩⟩⟩

/-- So is the root after an amount of the second token, which is below the target. -/
theorem sqrtPriceAfter1_ok (ht : target < 2 ^ 160) (hct : current ≤ target) (hliq : liquidity ≠ 0)
    (hto : amount1 current target liquidity true = .ok toTarget) (hshort : amount < toTarget) :
    ∃ next, sqrtPriceAfter1 current liquidity amount = .ok next := by
  have hrise : amount * q96 / liquidity < target - current := by
    rw [amount1_up hto hct, level_false_sub hct, ceil_div_eq_ceilDiv (by decide), lt_ceilDiv_iff (by decide)] at hshort
    exact Nat.div_lt_of_lt_mul hshort
  have hfits : 2 ^ 160 < wordSize := by decide
  have hquotient : fullMulDiv amount q96 liquidity = .ok (amount * q96 / liquidity) :=
    fullMulDiv_eq_ok.2 ⟨hliq, by omega, rfl⟩
  have hsum : current + amount * q96 / liquidity < wordSize := by omega
  exact ⟨_, bind_eq_ok.2 ⟨_, hquotient, fit_eq_ok.2 ⟨hsum, rfl⟩⟩⟩

/-- An input that does not suffice for the way to a target leads to a root. -/
theorem sqrtPriceAfter_ok (hc : current ∈ Set.Icc leastSqrtPrice largestSqrtPrice)
    (ht : target ∈ Set.Icc leastSqrtPrice largestSqrtPrice) (h : Onward zeroForOne current target)
    (hl : liquidity < 2 ^ 128) (hto : taken zeroForOne current target liquidity = .ok toTarget)
    (hshort : amount < toTarget) : ∃ next, sqrtPriceAfter current liquidity amount zeroForOne = .ok next := by
  have hpos := (lt_of_mem_range hc).1
  have hliq : liquidity ≠ 0 := by
    rintro rfl
    rw [taken_eq h hto, Nat.cast_zero, zero_mul, Nat.ceil_zero] at hshort
    exact absurd hshort (Nat.not_lt_zero _)
  unfold sqrtPriceAfter
  rw [if_neg (not_or.2 ⟨hpos.ne', hliq⟩)]
  cases zeroForOne with
  | true =>
    rw [if_pos rfl]
    rw [taken_true] at hto
    exact sqrtPriceAfter0_ok hpos (lt_of_mem_range hc).2 (lt_of_mem_range ht).1 h hl hliq hto hshort
  | false =>
    rw [if_neg Bool.false_ne_true]
    rw [taken_false] at hto
    exact sqrtPriceAfter1_ok (lt_of_mem_range ht).2 h hliq hto hshort

/-- **The way to the root after an input costs no more than the input.** -/
theorem taken_le (h : sqrtPriceAfter current liquidity amount zeroForOne = .ok next)
    (hn : taken zeroForOne current next liquidity = .ok n) (ho : Onward zeroForOne current next) : n ≤ amount := by
  rw [taken_eq ho hn, Nat.ceil_le]
  unfold sqrtPriceAfter at h
  split at h
  · cases h
  · rename_i hne
    obtain ⟨hpos, hliq⟩ := not_or.1 hne
    cases zeroForOne with
    | true =>
      rw [if_pos rfl] at h
      have hcovers := sqrtPriceAfter0_covers h
      have hc : 0 < current := Nat.pos_of_ne_zero hpos
      have hx : 0 < next := by
        rcases Nat.eq_zero_or_pos next with rfl | hx
        · have hnumerator : 0 < liquidity * q96 := Nat.mul_pos (Nat.pos_of_ne_zero hliq) (by decide)
          rw [Nat.zero_mul] at hcovers
          exact absurd hcovers (Nat.not_le.2 (Nat.mul_pos hnumerator hc))
        · exact hx
      rw [level_true_sub hx ho, div_le_iff₀ (by exact_mod_cast Nat.mul_pos hx hc)]
      have hway : liquidity * q96 * (current - next) ≤ amount * (next * current) := by
        rw [Nat.mul_sub, Nat.sub_le_iff_le_add]
        calc liquidity * q96 * current ≤ next * (liquidity * q96 + amount * current) := hcovers
          _ = amount * (next * current) + liquidity * q96 * next := by ring
      exact_mod_cast hway
    | false =>
      rw [if_neg Bool.false_ne_true] at h
      obtain ⟨rise, hrise, h⟩ := bind_eq_ok.1 h
      obtain ⟨-, -, rfl⟩ := fullMulDiv_eq_ok.1 hrise
      obtain ⟨-, rfl⟩ := fit_eq_ok.1 h
      rw [level_false_sub (Nat.le_add_right _ _), Nat.add_sub_cancel_left, div_le_iff₀ (by norm_num [q96])]
      exact_mod_cast Nat.mul_div_le (amount * q96) liquidity

/-! ### Fees -/

/-- What is usable of an input is not above it. -/
theorem usable_le : usable remaining feePips ≤ remaining := by
  unfold usable
  refine Nat.div_le_of_le_mul ?_
  rw [Nat.mul_comm feeParts]
  exact Nat.mul_le_mul_left _ (Nat.sub_le _ _)

/-- The fee on a usable input fits into what the input keeps back. -/
theorem fee_le (hf : feePips < feeParts) (hn : n ≤ usable remaining feePips) :
    n * feePips ≤ (remaining - n) * (feeParts - feePips) := by
  have hn' : n * feeParts ≤ remaining * (feeParts - feePips) :=
    (Nat.mul_le_mul_right _ hn).trans (Nat.div_mul_le_self _ _)
  obtain ⟨kept, hkept⟩ := Nat.exists_eq_add_of_le hf.le
  rw [hkept, Nat.add_sub_cancel_left] at hn' ⊢
  rw [Nat.sub_mul]
  rw [Nat.mul_add] at hn'
  omega

/-- The part of an input that is left after the fee is found, because the fee is a part. -/
theorem fullMulDiv_usable (hr : remaining < wordSize) :
    fullMulDiv remaining (feeParts - feePips) feeParts = .ok (usable remaining feePips) :=
  fullMulDiv_eq_ok.2 ⟨by decide, usable_le.trans_lt hr, rfl⟩

/-! ### Steps -/

variable {s : Step}

/-- A step goes towards its target: down if the target is not above the root. -/
theorem onward_target (current target : ℕ) : Onward (decide (target ≤ current)) current target := by
  unfold Onward
  split
  · exact of_decide_eq_true ‹_›
  · exact (not_le.1 (of_decide_eq_false (Bool.eq_false_iff.2 ‹_›))).le

/-- **A step within the range succeeds.** -/
theorem step_ok (hc : current ∈ Set.Icc leastSqrtPrice largestSqrtPrice)
    (ht : target ∈ Set.Icc leastSqrtPrice largestSqrtPrice) (hl : liquidity < 2 ^ 128) (hr : remaining < wordSize)
    (hf : feePips < feeParts) : ∃ s, step current target liquidity remaining feePips = .ok s := by
  set zeroForOne := decide (target ≤ current) with hz
  have honward : Onward zeroForOne current target := onward_target current target
  have hkept : sub feeParts feePips = .ok (feeParts - feePips) := sub_eq_ok.2 ⟨hf.le, rfl⟩
  obtain ⟨toTarget, hto⟩ := taken_ok ht honward hl
  by_cases hsuffices : toTarget ≤ usable remaining feePips
  · obtain ⟨amountOut, hout⟩ := paid_ok hc honward hl
    obtain ⟨fee, hfee, -⟩ := fullMulDivUp_ok (Nat.sub_pos_of_lt hf) (fee_le hf hsuffices)
      ((Nat.sub_le _ _).trans_lt hr)
    refine ⟨⟨target, toTarget, amountOut, fee⟩, ?_⟩
    simp only [step, ← hz]
    refine bind_eq_ok.2 ⟨_, hkept, bind_eq_ok.2 ⟨_, fullMulDiv_usable hr, bind_eq_ok.2 ⟨_, hto, ?_⟩⟩⟩
    rw [if_pos hsuffices]
    refine bind_eq_ok.2 ⟨target, rfl, ?_⟩
    simp only [if_true]
    exact bind_eq_ok.2 ⟨toTarget, rfl, bind_eq_ok.2 ⟨_, hout, bind_eq_ok.2 ⟨_, hfee, rfl⟩⟩⟩
  · obtain ⟨next, hnext⟩ := sqrtPriceAfter_ok hc ht honward hl hto (not_le.1 hsuffices)
    obtain ⟨hbefore, hbeyond, hne⟩ := stops_before hz.symm hto (not_le.1 hsuffices) hnext
    have hmem := mem_range_of_between hc ht hbefore hbeyond
    obtain ⟨amountIn, hin⟩ := taken_ok hmem hbefore hl
    obtain ⟨amountOut, hout⟩ := paid_ok hc hbefore hl
    have hspent : amountIn ≤ remaining := (taken_le hnext hin hbefore).trans usable_le
    refine ⟨⟨next, amountIn, amountOut, remaining - amountIn⟩, ?_⟩
    simp only [step, ← hz]
    refine bind_eq_ok.2 ⟨_, hkept, bind_eq_ok.2 ⟨_, fullMulDiv_usable hr, bind_eq_ok.2 ⟨_, hto, ?_⟩⟩⟩
    rw [if_neg hsuffices]
    refine bind_eq_ok.2 ⟨next, hnext, ?_⟩
    simp only [if_neg hne]
    exact bind_eq_ok.2 ⟨amountIn, hin, bind_eq_ok.2 ⟨_, hout, bind_eq_ok.2 ⟨_, sub_eq_ok.2 ⟨hspent, rfl⟩, rfl⟩⟩⟩

/-- A step charges no more than the input, and the whole of it if it stops before its target. -/
theorem step_spends (hf : feePips < feeParts) (h : step current target liquidity remaining feePips = .ok s) :
    s.amountIn + s.fee ≤ remaining ∧ (s.sqrtPrice ≠ target → s.amountIn + s.fee = remaining) := by
  obtain ⟨toTarget, hto, hnext, hin, -, hfee⟩ := step_cases rfl h
  rcases hfee with ⟨hreached, hfee⟩ | ⟨-, hspent⟩
  · have hle : s.amountIn ≤ usable remaining feePips := by
      rcases hnext with ⟨hsuffices, -⟩ | ⟨hshort, hnext⟩
      · rw [hreached] at hin
        obtain rfl : toTarget = s.amountIn := Except.ok.inj (hto.symm.trans hin)
        exact hsuffices
      · exact absurd hreached (stops_before rfl hto hshort hnext).2.2
    obtain ⟨-, -, hfee⟩ := fullMulDivUp_eq_ok.1 hfee
    have hkept : s.fee ≤ remaining - s.amountIn := by
      rw [hfee]
      exact (ceilDiv_le_iff (Nat.sub_pos_of_lt hf)).2 (fee_le hf hle)
    have hin := hle.trans usable_le
    exact ⟨by omega, fun hne => absurd hreached hne⟩
  · exact ⟨hspent.le, fun _ => hspent⟩

/-- A step rounds for the pool, in both directions. -/
theorem step_rounds (h : step current target liquidity remaining feePips = .ok s) :
    liquidity * (level (decide (target ≤ current)) s.sqrtPrice - level (decide (target ≤ current)) current) ≤
        s.amountIn ∧
      s.amountOut ≤ liquidity *
        (level (!decide (target ≤ current)) current - level (!decide (target ≤ current)) s.sqrtPrice) := by
  rcases le_or_gt target current with hle | hlt
  · rw [decide_eq_true hle]
    exact (step_bounds_down h hle).2.2.2
  · rw [decide_eq_false hlt.not_ge]
    exact (step_bounds_up h hlt.le).2.2.2

/-- **A step charges the input or less, and rounds for the pool.** Between any two roots of the range, whatever the
liquidity, the input and the fee, a step succeeds. It ends between its root and its target; amount and fee are the
whole input if it stops before the target, and not more otherwise; the amount is not less than the exact one, and what
is paid is not more. It reaches its target exactly when the input covers the amount to the target, rounded up, after
the fee. -/
theorem step_charges (hc : current ∈ Set.Icc leastSqrtPrice largestSqrtPrice)
    (ht : target ∈ Set.Icc leastSqrtPrice largestSqrtPrice) (hl : liquidity < 2 ^ 128) (hr : remaining < wordSize)
    (hf : feePips < feeParts) :
    let zeroForOne := decide (target ≤ current)
    ∃ s, step current target liquidity remaining feePips = .ok s ∧
      (Onward zeroForOne current s.sqrtPrice ∧ Onward zeroForOne s.sqrtPrice target) ∧
      (s.amountIn + s.fee ≤ remaining ∧ (s.sqrtPrice ≠ target → s.amountIn + s.fee = remaining)) ∧
      (liquidity * (level zeroForOne s.sqrtPrice - level zeroForOne current) ≤ s.amountIn ∧
        s.amountOut ≤ liquidity * (level (!zeroForOne) current - level (!zeroForOne) s.sqrtPrice)) ∧
      (s.sqrtPrice = target ↔
        ⌈(liquidity : ℝ) * (level zeroForOne target - level zeroForOne current)⌉₊ ≤ usable remaining feePips) := by
  intro zeroForOne
  have honward : Onward zeroForOne current target := onward_target current target
  obtain ⟨s, hs⟩ := step_ok hc ht hl hr hf
  obtain ⟨toTarget, hto, hnext, hin, hout, hfee⟩ := step_cases rfl hs
  have hcovers : s.sqrtPrice = target ↔ toTarget ≤ usable remaining feePips := by
    rcases hnext with ⟨hsuffices, hreached⟩ | ⟨hshort, hnext⟩
    · exact iff_of_true hreached hsuffices
    · exact iff_of_false (stops_before rfl hto hshort hnext).2.2 (not_le.2 hshort)
  have hbetween : Onward zeroForOne current s.sqrtPrice ∧ Onward zeroForOne s.sqrtPrice target := by
    rcases hnext with ⟨-, hreached⟩ | ⟨hshort, hnext⟩
    · rw [hreached]
      exact ⟨honward, .refl _ _⟩
    · have h := stops_before rfl hto hshort hnext
      exact ⟨h.1, h.2.1⟩
  refine ⟨s, hs, hbetween, step_spends hf hs, step_rounds hs, ?_⟩
  rw [hcovers, taken_eq honward hto]

/-- A step over the whole range at the largest liquidity, where the product of the input and the root leaves 256
bits and the coarser formula stands in. It stops on its way. -/
theorem step_charges_coarsely :
    let s : Step := ⟨19401016162321029884953420, 1389615185183439454506944407509549657290137,
      6276865796315986613307536525508306376596917414537682879381, 4181389724724491839037984530972936833639⟩
    step largestSqrtPrice leastSqrtPrice (2 ^ 128 - 1) (2 ^ 140) 3000 = .ok s ∧ s.amountIn + s.fee = 2 ^ 140 ∧
      ((2 ^ 128 - 1 : ℕ) : ℝ) * (level true s.sqrtPrice - level true largestSqrtPrice) ≤ s.amountIn ∧
      s.amountOut ≤ ((2 ^ 128 - 1 : ℕ) : ℝ) * (level false largestSqrtPrice - level false s.sqrtPrice) := by
  intro s
  have hrange : leastSqrtPrice ≤ largestSqrtPrice := by decide
  have hstep : step largestSqrtPrice leastSqrtPrice (2 ^ 128 - 1) (2 ^ 140) 3000 = .ok s :=
    Quote.eq_ok_of_toOption (by decide +kernel)
  have hc : largestSqrtPrice ∈ Set.Icc leastSqrtPrice largestSqrtPrice := ⟨hrange, le_rfl⟩
  have ht : leastSqrtPrice ∈ Set.Icc leastSqrtPrice largestSqrtPrice := ⟨le_rfl, hrange⟩
  have hl : 2 ^ 128 - 1 < 2 ^ 128 := by decide
  have hr : 2 ^ 140 < wordSize := by decide
  have hf : 3000 < feeParts := by decide
  obtain ⟨s', hs', -, hspent, hrounds, -⟩ := step_charges hc ht hl hr hf
  obtain rfl : s = s' := Except.ok.inj (hstep.symm.trans hs')
  rw [decide_eq_true hrange] at hrounds
  exact ⟨hstep, hspent.2 (by decide), hrounds⟩

end Concentrated
end Searcher

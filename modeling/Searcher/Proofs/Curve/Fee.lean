/-
# The band of a fee

A stableswap pool raises its fee the further the two coins of a trade are apart, and a cryptoswap pool blends two fees
by how even all of its balances are. Either fee stays inside a band, and that rests on the inequality of the arithmetic
and the geometric mean: for two coins `4 x y ≤ (x + y) ^ 2`, for any number of them `n ^ n Π x ≤ (Σ x) ^ n`.

The pools compute both sides by chains of quotients, each rounded down. In the evenness of a cryptoswap pool this only
helps: a quotient rounded down is at most the exact one, so the chain stays at most one (`evenness_le`), the
subtractions that follow have something to subtract from, and the weight of the middle fee is at most one as well.
In the off-peg fee the quotient stands in the divisor; it is at most `multiplier - 1`, both in units of `e10`, so the
divisor is at most the multiplier and the fee is not lowered (`dynamicFee_bounds`).
-/

import Searcher.Proofs.Quote.Finds
import Searcher.Proofs.Quote.Numeric
import Searcher.Curve.Cryptoswap
import Searcher.Curve.Invariant
import Mathlib.Algebra.BigOperators.Fin
import Mathlib.Analysis.MeanInequalities

namespace Searcher

/-- The mean inequality for a list of balances, multiplied out. -/
theorem length_pow_mul_prod_le (xs : List ℕ) : xs.length ^ xs.length * xs.prod ≤ xs.sum ^ xs.length := by
  rcases Nat.eq_zero_or_pos xs.length with hzero | hpos
  · obtain rfl := List.length_eq_zero_iff.1 hzero
    exact le_rfl
  have hn : (0 : ℝ) < xs.length := by exact_mod_cast hpos
  have hmean : (xs.prod : ℝ) ^ (xs.length : ℝ)⁻¹ ≤ xs.sum / xs.length := by
    have h := Real.geom_mean_le_arith_mean Finset.univ (fun _ : Fin xs.length => 1) (fun i => (xs[i.1] : ℝ))
      (fun _ _ => zero_le_one) (by simpa using hpos) fun _ _ => Nat.cast_nonneg _
    simpa only [Real.rpow_one, one_mul, Finset.sum_const, Finset.card_univ, Fintype.card_fin, nsmul_eq_mul, mul_one,
      ← Nat.cast_prod, ← Nat.cast_sum, Fin.prod_univ_getElem, Fin.sum_univ_getElem] using h
  have hprod : (xs.prod : ℝ) ≤ (xs.sum / xs.length) ^ xs.length := by
    rw [← Real.rpow_inv_natCast_pow (Nat.cast_nonneg xs.prod) hpos.ne']
    gcongr
  rw [div_pow, le_div_iff₀ (pow_pos hn _), mul_comm] at hprod
  exact_mod_cast hprod

/-! ### The fee off the peg -/

namespace StableSwap

variable {x y fee multiplier g : ℕ}

/-- How close two balances are, in units of `e10`: what the multiplier has above one when they are equal, and less the
further they are apart. -/
def closeness (x y multiplier : ℕ) : ℕ := (multiplier - e10) * 4 * x * y / ((x + y) * (x + y))

/-- No two balances are closer than equal ones, as four times their product is at most the square of their sum. -/
theorem closeness_le (x y multiplier : ℕ) : closeness x y multiplier ≤ multiplier - e10 := by
  refine Nat.div_le_of_le_mul ?_
  have hmean : 4 * x * y ≤ (x + y) * (x + y) := by
    rw [← pow_two]
    exact four_mul_le_sq_add x y
  calc (multiplier - e10) * 4 * x * y = (multiplier - e10) * (4 * x * y) := by ring
    _ ≤ (multiplier - e10) * ((x + y) * (x + y)) := Nat.mul_le_mul_left _ hmean
    _ = (x + y) * (x + y) * (multiplier - e10) := Nat.mul_comm _ _

/-- Equal balances are as close as can be. -/
theorem closeness_self (hx : 0 < x) : closeness x x multiplier = multiplier - e10 := by
  have hproduct : (multiplier - e10) * 4 * x * x = (multiplier - e10) * ((x + x) * (x + x)) := by ring
  rw [closeness, hproduct, Nat.mul_div_cancel _ (by positivity)]

/-- Off the peg the fee is `multiplier * fee` over the closeness and one. -/
theorem dynamicFee_eq_ok (hmultiplier : e10 < multiplier) (h : dynamicFee x y fee multiplier = .ok g) :
    g = multiplier * fee / (closeness x y multiplier + e10) := by
  rw [dynamicFee, if_neg (by omega)] at h
  simp only [Checked.add, Checked.mul, Checked.bind_fit_eq_ok, Checked.bind_sub_eq_ok, Checked.bind_div_eq_ok,
    Checked.div_eq_ok] at h
  obtain ⟨-, -, -, -, -, -, -, -, -, -, hg⟩ := h
  exact hg

/-- **The fee off the peg is the fee or more, up to the multiplier.** A multiplier of at most one leaves the fee as it
is, and so does a pair of equal balances that are not zero. -/
theorem dynamicFee_bounds (h : dynamicFee x y fee multiplier = .ok g) :
    (multiplier ≤ e10 → g = fee) ∧ (e10 < multiplier → fee ≤ g ∧ g ≤ multiplier * fee / e10) ∧
      (x = y → 0 < x → g = fee) := by
  rcases Nat.lt_or_ge e10 multiplier with hmultiplier | hmultiplier
  · have hpos : 0 < multiplier := by omega
    have hg := dynamicFee_eq_ok hmultiplier h
    have hclose := closeness_le x y multiplier
    refine ⟨by omega, fun _ => ⟨?_, ?_⟩, ?_⟩
    · rw [hg, Nat.le_div_iff_mul_le (by unfold e10; omega), Nat.mul_comm]
      exact Nat.mul_le_mul_right fee (by omega)
    · rw [hg]
      exact Nat.div_le_div_left (Nat.le_add_left _ _) (by decide)
    · rintro rfl hx
      rw [hg, closeness_self hx, Nat.sub_add_cancel hmultiplier.le, Nat.mul_div_cancel_left fee hpos]
  · rw [dynamicFee, if_pos hmultiplier] at h
    obtain rfl := Except.ok.inj h
    exact ⟨fun _ => rfl, by omega, fun _ _ => rfl⟩

/-- Nine parts of one coin to one of the other, with a multiplier of two. -/
theorem dynamicFee_bounds_ninefold :
    dynamicFee e18 (9 * e18) 4000000 (2 * e10) = .ok 5882352 ∧ 4000000 ≤ 5882352 ∧
      5882352 ≤ 2 * e10 * 4000000 / e10 := by
  have h : dynamicFee e18 (9 * e18) 4000000 (2 * e10) = .ok 5882352 := Quote.eq_ok_of_toOption (by decide +kernel)
  exact ⟨h, (dynamicFee_bounds h).2.1 (by decide)⟩

end StableSwap

/-! ### The blend of two fees -/

open Quote

namespace Cryptoswap

variable {n total k x w mid out feeGamma : ℕ} {xs : List ℕ}

/-- What one coin leaves of the evenness: its balance over the mean. -/
def share (n total k x : ℕ) : ℕ := k * n * x / total

/-- The products of the shares fit, and no divisor is zero. -/
def SharesFit (n total : ℕ) : (k : ℕ) → List ℕ → Prop
  | _, [] => True
  | k, x :: xs => (k * n < wordSize ∧ k * n * x < wordSize ∧ total ≠ 0) ∧ SharesFit n total (share n total k x) xs

instance decidableSharesFit (n total : ℕ) : (k : ℕ) → (xs : List ℕ) → Decidable (SharesFit n total k xs)
  | _, [] => inferInstanceAs (Decidable True)
  | k, x :: xs =>
    haveI := decidableSharesFit n total (share n total k x) xs
    inferInstanceAs (Decidable (_ ∧ SharesFit n total (share n total k x) xs))

/-- How even balances are, up to one with eighteen decimals. -/
def evenness (xs : List ℕ) : ℕ := xs.foldl (share xs.length xs.sum) e18

/-- The product of the shares that balances have of their total is found where each partial product fits. -/
theorem finds_shares : Finds (SharesFit n total k xs) (xs.foldl (share n total) k)
    (xs.foldlM (fun k x => do Checked.div (← Checked.mul (← Checked.mul k n) x) total) k) := by
  induction xs generalizing k with
  | nil => exact .pure k
  | cons x xs ih =>
    rw [List.foldlM_cons]
    exact .bind (.bind (.fit _) fun _ => .bind (.fit _) fun _ => .div _ _) fun _ => ih

/-- Quotients rounded down stay below the exact ones. -/
theorem foldl_share_le : xs.foldl (share n total) k * total ^ xs.length ≤ k * n ^ xs.length * xs.prod := by
  induction xs generalizing k with
  | nil => simp
  | cons x xs ih =>
    calc xs.foldl (share n total) (share n total k x) * total ^ (xs.length + 1)
        = xs.foldl (share n total) (share n total k x) * total ^ xs.length * total := by
          rw [Nat.pow_succ, Nat.mul_assoc]
      _ ≤ share n total k x * n ^ xs.length * xs.prod * total := Nat.mul_le_mul_right total ih
      _ = share n total k x * total * (n ^ xs.length * xs.prod) := by ring
      _ ≤ k * n * x * (n ^ xs.length * xs.prod) := Nat.mul_le_mul_right _ (Nat.div_mul_le_self _ _)
      _ = k * n ^ (xs.length + 1) * (x :: xs).prod := by rw [List.prod_cons]; ring

/-- **No balances are more even than equal ones.** -/
theorem evenness_le (xs : List ℕ) : evenness xs ≤ e18 := by
  rcases Nat.eq_zero_or_pos xs.sum with hzero | hpos
  · cases xs with
    | nil => exact le_rfl
    | cons x xs =>
      have hshare : ∀ k y, share (x :: xs).length (x :: xs).sum k y = 0 := fun k y => by
        rw [share, hzero, Nat.div_zero]
      rw [evenness, List.foldl_cons, hshare, List.foldl_fixed' (hshare 0)]
      exact Nat.zero_le _
  · refine Nat.le_of_mul_le_mul_right ?_ (Nat.pow_pos (n := xs.length) hpos)
    calc evenness xs * xs.sum ^ xs.length
        ≤ e18 * xs.length ^ xs.length * xs.prod := foldl_share_le
      _ = e18 * (xs.length ^ xs.length * xs.prod) := Nat.mul_assoc _ _ _
      _ ≤ e18 * xs.sum ^ xs.length := Nat.mul_le_mul_left e18 (length_pow_mul_prod_le xs)

/-- The weight of the middle fee at an evenness `k`. -/
def weight (feeGamma k : ℕ) : ℕ := feeGamma * e18 / (feeGamma + e18 - k)

/-- The product that the weight is a quotient of fits, and its divisor is not zero. -/
structure WeightFits (feeGamma k : ℕ) : Prop where
  product : feeGamma * e18 < wordSize
  divisor : feeGamma + e18 - k ≠ 0

/-- The weight of the middle fee is at most one, where the balances are at most even. -/
theorem weight_le (hk : k ≤ e18) : weight feeGamma k ≤ e18 := by
  rcases Nat.eq_zero_or_pos (feeGamma + e18 - k) with hzero | hpos
  · rw [weight, hzero, Nat.div_zero]
    exact Nat.zero_le _
  · refine Nat.div_le_of_le_mul (Nat.mul_le_mul_right e18 ?_)
    omega

/-- It is found where its numerator fits; the difference in its divisor is not negative. -/
theorem finds_weight (hk : k ≤ e18) : Finds (WeightFits feeGamma k) (weight feeGamma k)
    (do Checked.div (← Checked.mul feeGamma e18) (← Checked.sub (← Checked.add feeGamma e18) k)) := by
  have hsub : k ≤ feeGamma + e18 := by omega
  refine (Finds.bind (.fit _) fun _ => .bind (.fit _) fun _ => .bind (.sub hsub) fun _ => .div _ _).congr ?_
  constructor
  · rintro ⟨hproduct, -, -, hdivisor⟩
    exact ⟨hproduct, hdivisor⟩
  · rintro ⟨hproduct, hdivisor⟩
    -- the sum fits where the product does
    have hsum : feeGamma + e18 < wordSize := by
      unfold e18 wordSize at *
      omega
    exact ⟨hproduct, hsum, trivial, hdivisor⟩

/-- What the weight of a list of balances is made of fits, and no divisor is zero. -/
structure Weighable (xs : List ℕ) (feeGamma : ℕ) : Prop where
  total : xs.sum < wordSize
  shares : SharesFit xs.length xs.sum e18 xs
  weight : feeGamma ≠ 0 → WeightFits feeGamma (evenness xs)

/-- How balanced a pool is, is found where the shares and the weight fit. -/
theorem finds_reduction (xs : List ℕ) (feeGamma : ℕ) : Finds (Weighable xs feeGamma)
    (if feeGamma = 0 then evenness xs else weight feeGamma (evenness xs)) (reduction xs feeGamma) := by
  have htotal := Finds.foldlM_add xs (t := 0) (by decide)
  rw [Nat.zero_add] at htotal
  have hlast : Finds (feeGamma ≠ 0 → WeightFits feeGamma (evenness xs))
      (if feeGamma = 0 then evenness xs else weight feeGamma (evenness xs))
      (do if feeGamma = 0 then return evenness xs
          Checked.div (← Checked.mul feeGamma e18) (← Checked.sub (← Checked.add feeGamma e18) (evenness xs))) := by
    split
    · rename_i hzero
      exact (Finds.pure _).congr ⟨fun _ h => absurd hzero h, fun _ => trivial⟩
    · rename_i hne
      exact (finds_weight (evenness_le xs)).congr ⟨fun h _ => h, fun h => h hne⟩
  refine (htotal.bind fun _ => finds_shares.bind fun _ => hlast).congr ?_
  exact ⟨fun ⟨h, h', h''⟩ => ⟨h, h', h''⟩, fun ⟨h, h', h''⟩ => ⟨h, h', h''⟩⟩

/-- A blend by a weight of at most one is found where its sum fits. -/
theorem finds_blend (hw : w ≤ e18) : Finds (mid * w + out * (e18 - w) < wordSize)
    ((mid * w + out * (e18 - w)) / e18) (blend w mid out) := by
  refine (Finds.bind (.fit (mid * w)) fun _ => .bind (.sub hw) fun _ => .bind (.fit (out * (e18 - w))) fun _ =>
    .bind (.fit (mid * w + out * (e18 - w))) fun _ => .div _ e18).congr ?_
  have he18 : e18 ≠ 0 := by decide
  constructor
  · rintro ⟨-, -, -, hsum, -⟩
    exact hsum
  · intro hsum
    exact ⟨by omega, trivial, by omega, hsum, he18⟩

/-- **A blend is between the two fees.** -/
theorem blend_between (hw : w ≤ e18) : min mid out ≤ (mid * w + out * (e18 - w)) / e18 ∧
    (mid * w + out * (e18 - w)) / e18 ≤ max mid out := by
  have hsplit : ∀ fee, fee * w + fee * (e18 - w) = fee * e18 := fun fee => by
    rw [← Nat.mul_add, Nat.add_sub_cancel' hw]
  constructor
  · rw [Nat.le_div_iff_mul_le (by decide), ← hsplit]
    exact Nat.add_le_add (Nat.mul_le_mul_right w (Nat.min_le_left mid out))
      (Nat.mul_le_mul_right (e18 - w) (Nat.min_le_right mid out))
  · refine Nat.div_le_of_le_mul ?_
    rw [Nat.mul_comm e18, ← hsplit]
    exact Nat.add_le_add (Nat.mul_le_mul_right w (Nat.le_max_left mid out))
      (Nat.mul_le_mul_right (e18 - w) (Nat.le_max_right mid out))

end Cryptoswap

namespace Curve.CryptoState

open Cryptoswap

/-- How even two balances are, where the factors of both coins are taken first. -/
def evenness (x y : ℕ) : ℕ := 4 * e18 * x / (x + y) * y / (x + y)

/-- Two balances are at most even: `4 x y ≤ (x + y)²`, rounded down on the way. -/
theorem evenness_le (x y : ℕ) : evenness x y ≤ e18 := by
  rcases Nat.eq_zero_or_pos (x + y) with hzero | hpos
  · rw [evenness, hzero, Nat.div_zero]
    exact Nat.zero_le _
  · have hshares : evenness x y * (x + y) ^ 2 ≤ 4 * e18 * 1 ^ 2 * [x, y].prod := by
      have h : [x, y].foldl (share 1 (x + y)) (4 * e18) * (x + y) ^ 2 ≤ 4 * e18 * 1 ^ 2 * [x, y].prod :=
        foldl_share_le
      simpa only [evenness, share, List.foldl_cons, List.foldl_nil, Nat.mul_one] using h
    refine Nat.le_of_mul_le_mul_right ?_ (Nat.pow_pos (n := 2) hpos)
    calc evenness x y * (x + y) ^ 2
        ≤ 4 * e18 * 1 ^ 2 * [x, y].prod := hshares
      _ = e18 * (4 * x * y) := by rw [List.prod_cons, List.prod_singleton]; ring
      _ ≤ e18 * (x + y) ^ 2 := Nat.mul_le_mul_left e18 (four_mul_le_sq_add x y)

/-- What the weight of two balances is made of fits, and no divisor is zero. -/
structure Weighable (s : CryptoState) (x y : ℕ) : Prop where
  total : x + y < wordSize
  total_ne_zero : x + y ≠ 0
  first : 4 * e18 * x < wordSize
  second : 4 * e18 * x / (x + y) * y < wordSize
  weight : WeightFits s.feeGamma (evenness x y)

/-- The weight of a pool of two coins is found where it fits. -/
theorem finds_feeWeight (s : CryptoState) (x y : ℕ) :
    Finds (s.Weighable x y) (weight s.feeGamma (evenness x y)) (s.feeWeight x y) := by
  refine (Finds.bind (.fit (x + y)) fun _ => .bind (.fit (4 * e18 * x)) fun _ => .bind (.div _ (x + y)) fun _ =>
    .bind (.fit (4 * e18 * x / (x + y) * y)) fun _ => .bind (.div _ (x + y)) fun _ =>
    finds_weight (evenness_le x y)).congr ?_
  constructor
  · rintro ⟨htotal, hfirst, hne, hsecond, -, hweight⟩
    exact ⟨htotal, hne, hfirst, hsecond, hweight⟩
  · rintro ⟨htotal, hne, hfirst, hsecond, hweight⟩
    exact ⟨htotal, hfirst, hne, hsecond, hne, hweight⟩

/-- **A fee lies between the middle and the outer one**, whichever of them is larger. -/
theorem fee_between {s : CryptoState} {x y fee : ℕ} (h : s.fee x y = .ok fee) :
    min s.midFee s.outFee ≤ fee ∧ fee ≤ max s.midFee s.outFee := by
  obtain ⟨w, hweight, hblend⟩ := Checked.bind_eq_ok.1 h
  obtain ⟨-, rfl⟩ := (s.finds_feeWeight x y).eq_ok_iff.1 hweight
  have hw : weight s.feeGamma (evenness x y) ≤ e18 := weight_le (evenness_le x y)
  obtain ⟨-, rfl⟩ := (finds_blend hw).eq_ok_iff.1 hblend
  exact blend_between hw

end Curve.CryptoState

namespace Cryptoswap

open Curve

/-- **The fees of a cryptoswap pool stay inside their band.** The weight of the middle fee is found wherever its numbers
fit and no divisor is zero, for any balances of any number of coins, and it is at most one. A weight of at most one
blends the two fees into one between them. No subtraction on the way can fail. -/
theorem fees_withinBand (mid out : ℕ) :
    (∀ (xs : List ℕ) (feeGamma : ℕ), ∃ w ≤ e18, Finds (Weighable xs feeGamma) w (reduction xs feeGamma)) ∧
    (∀ (s : CryptoState) (x y : ℕ), ∃ w ≤ e18, Finds (s.Weighable x y) w (s.feeWeight x y)) ∧
    (∀ w ≤ e18, ∃ fee, min mid out ≤ fee ∧ fee ≤ max mid out ∧
      Finds (mid * w + out * (e18 - w) < wordSize) fee (blend w mid out)) ∧
    (∀ (s : CryptoState) (x y fee : ℕ), s.fee x y = .ok fee →
      min s.midFee s.outFee ≤ fee ∧ fee ≤ max s.midFee s.outFee) := by
  refine ⟨fun xs feeGamma => ⟨_, ?_, finds_reduction xs feeGamma⟩, fun s x y => ⟨_, ?_, s.finds_feeWeight x y⟩,
    fun w hw => ⟨_, ?_, ?_, finds_blend hw⟩, fun s x y fee => CryptoState.fee_between⟩
  · split
    · exact evenness_le xs
    · exact weight_le (evenness_le xs)
  · exact weight_le (CryptoState.evenness_le x y)
  · exact (blend_between hw).1
  · exact (blend_between hw).2

/-- Three coins, the first three times as valuable as the last, and a pool of two coins that are as far apart. -/
theorem fees_withinBand_threeCoins :
    let xs := [3 * e18, 2 * e18, e18]
    let s : CryptoState :=
      { (default : CryptoState) with feeGamma := 230000000000000, midFee := 26000000, outFee := 45000000 }
    (Weighable xs 230000000000000 ∧ ∃ w ≤ e18, reduction xs 230000000000000 = .ok w ∧
      ∃ fee, 26000000 ≤ fee ∧ fee ≤ 45000000 ∧ blend w 26000000 45000000 = .ok fee) ∧
    s.fee (3 * e18) e18 = .ok 44982536 ∧ 26000000 ≤ 44982536 ∧ 44982536 ≤ 45000000 := by
  intro xs s
  have hfits : Weighable xs 230000000000000 := ⟨by decide, by decide, fun _ => ⟨by decide, by decide⟩⟩
  obtain ⟨w, hw, hweight⟩ := (fees_withinBand 26000000 45000000).1 xs 230000000000000
  obtain ⟨fee, hlow, hhigh, hblend⟩ := (fees_withinBand 26000000 45000000).2.2.1 w hw
  have hsum : 26000000 * w + 45000000 * (e18 - w) < wordSize := by
    unfold e18 wordSize at *
    omega
  have hfee : s.fee (3 * e18) e18 = .ok 44982536 := Quote.eq_ok_of_toOption (by decide +kernel)
  exact ⟨⟨hfits, w, hw, hweight.ok hfits, fee, hlow, hhigh, hblend.ok hsum⟩, hfee,
    (fees_withinBand 26000000 45000000).2.2.2 s _ _ _ hfee⟩

end Cryptoswap

end Searcher

/-
# The invariant of a balanced pool

Newton's steps towards the invariant begin at the sum of the balances. Where each of `n` coins holds `x` that sum,
`S = n x`, is the invariant already, and the rounded steps do not lose it:

* coin by coin the product stays what it is, `S S / (x n) = S`; divided at once it gains a factor `n` for each coin,
  and loses them again to `n ^ n`, which fits where the product does;
* with the amplified sum `G = A n S / scale`, rounded down, a step leads to `(G + n S) S / (G - S + (n + 1) S) = S`. A
  whole `S` less is a whole `S` less in the rounded quotient too, so the loss is `G - S` exactly (`nextInvariant_self`).

So the first step stands still, which ends the search (`Newton.settle_eq_next`), and the solvers find `n x` or fail
in the arithmetic of that step. `StepFits` says when it succeeds.
-/

import Searcher.Proofs.Curve.Balance
import Searcher.Proofs.Quote.Finds

namespace Searcher

/-- Where a step stands still the search is that step alone. -/
theorem Newton.settle_eq_next {next : ℕ → Quote ℕ} {y : ℕ} (h : ∀ z, next y = .ok z → z = y) :
    settle next y = next y := by
  rw [settle, iterate, maxRounds, iterateFor_closeRound]
  cases hnext : next y with
  | error e => rfl
  | ok z =>
    obtain rfl := h z hnext
    exact if_pos (absDiff_le_iff.2 ⟨by omega, by omega⟩)

namespace StableSwap

variable {ann amp n m x c d p q t z scale : ℕ} {xs : List ℕ}

/-- The sum of balances is found where it fits. -/
theorem sum_eq_ok : sum xs = .ok t ↔ xs.sum < wordSize ∧ t = xs.sum := by
  rw [sum, (Quote.Finds.foldlM_add xs (by decide)).eq_ok_iff, Nat.zero_add]

/-- A product that each of `m` equal coins multiplies by `c`, by way of a product with `d`. -/
theorem foldlM_replicate_eq_ok {f : ℕ → ℕ → Quote ℕ} (hc : 0 < c)
    (hf : ∀ p q, 0 < p → (f p x = .ok q ↔ p * d < wordSize ∧ q = p * c)) (hp : 0 < p) :
    (List.replicate m x).foldlM f p = .ok q ↔ (∀ i < m, p * c ^ i * d < wordSize) ∧ q = p * c ^ m := by
  induction m generalizing p with
  | zero =>
    rw [List.replicate_zero, Nat.pow_zero, Nat.mul_one]
    constructor
    · intro h
      exact ⟨nofun, (Except.ok.inj h).symm⟩
    · rintro ⟨-, rfl⟩
      rfl
  | succ m ih =>
    have hpow : ∀ i, p * c ^ (i + 1) = p * c * c ^ i := fun i => by rw [Nat.pow_succ', Nat.mul_assoc]
    rw [List.replicate_succ, List.foldlM_cons, Checked.bind_eq_ok, hpow, Nat.forall_lt_succ_left]
    constructor
    · rintro ⟨r, hr, h⟩
      obtain ⟨hfits, rfl⟩ := (hf p r hp).1 hr
      obtain ⟨hrest, rfl⟩ := (ih (Nat.mul_pos hp hc)).1 h
      exact ⟨⟨by simpa using hfits, fun i hi => by rw [hpow]; exact hrest i hi⟩, rfl⟩
    · rintro ⟨⟨hfits, hrest⟩, rfl⟩
      refine ⟨p * c, (hf p _ hp).2 ⟨by simpa using hfits, rfl⟩, ?_⟩
      exact (ih (Nat.mul_pos hp hc)).2 ⟨fun i hi => by rw [← hpow]; exact hrest i hi, rfl⟩

/-- What has to fit for a step from the sum `d` of `n` equal balances. `ann` is the amplification times `n`. -/
structure StepFits (ann n scale d : ℕ) : Prop where
  scale_ne_zero : scale ≠ 0
  scale_le : scale ≤ ann
  gain : ann * d < wordSize
  numerator : (ann * d / scale + d * n) * d < wordSize

/-- The gain of a step is at least the invariant, since the amplification is at least its scale. -/
theorem StepFits.le_gain (h : StepFits ann n scale d) : d ≤ ann * d / scale := by
  rw [Nat.le_div_iff_mul_le (Nat.pos_of_ne_zero h.scale_ne_zero), Nat.mul_comm]
  exact Nat.mul_le_mul_right d h.scale_le

/-- So the square of the invariant fits where the numerator of the step does. -/
theorem StepFits.square_lt (h : StepFits ann n scale d) : d * d < wordSize := by
  refine lt_of_le_of_lt (Nat.mul_le_mul_right d ?_) h.numerator
  exact h.le_gain.trans (Nat.le_add_right _ _)

/-- What the loss and the product take is the gain with its product. -/
theorem StepFits.denominator_eq (h : StepFits ann n scale d) :
    (ann - scale) * d / scale + (n + 1) * d = ann * d / scale + d * n := by
  have hloss : (ann - scale) * d / scale = ann * d / scale - d := by rw [Nat.sub_mul, Nat.sub_mul_div]
  have hgain := h.le_gain
  rw [hloss, Nat.add_mul, Nat.one_mul, Nat.mul_comm n d]
  generalize ann * d / scale = gain at hgain ⊢
  omega

/-- **A step stands still** where the product is the sum. -/
theorem nextInvariant_self_eq_ok (hd : 0 < d) :
    nextInvariant ann n d scale d d = .ok z ↔ StepFits ann n scale d ∧ z = d := by
  simp only [nextInvariant, Checked.add, Checked.mul, Checked.bind_fit_eq_ok, Checked.bind_sub_eq_ok,
    Checked.bind_div_eq_ok, Checked.div_eq_ok]
  constructor
  · rintro ⟨hgain, hscale, -, -, hnumerator, hle, -, -, -, -, -, hne, rfl⟩
    have h : StepFits ann n scale d := ⟨hscale, hle, hgain, hnumerator⟩
    rw [h.denominator_eq] at hne ⊢
    exact ⟨h, Nat.mul_div_cancel_left d (Nat.pos_of_ne_zero hne)⟩
  · rintro ⟨h, rfl⟩
    -- all that the step makes is at most its numerator or the amplified sum
    have hgain := h.le_gain
    have hdenominator := h.denominator_eq
    obtain ⟨hscale, hle, hamplified, hnumerator⟩ := h
    have hloss : (ann - scale) * z ≤ ann * z := Nat.mul_le_mul_right z (Nat.sub_le ann scale)
    have hshares : (n + 1) * z = z * n + z := by rw [Nat.add_mul, Nat.one_mul, Nat.mul_comm]
    have hcoins : n ≤ z * n := Nat.le_mul_of_pos_left n hd
    rw [hdenominator]
    generalize ann * z / scale = gain at hgain hnumerator ⊢
    have hwhole : gain + z * n ≤ (gain + z * n) * z := Nat.le_mul_of_pos_right _ hd
    refine ⟨hamplified, hscale, by omega, by omega, hnumerator, hle, by omega, hscale, by omega, by omega, by omega,
      by omega, ?_⟩
    exact (Nat.mul_div_cancel_left z (by omega)).symm

/-- Coin by coin the product of a balanced pool stays what it is. -/
theorem productByCoin_balanced (hpos : 0 < n * x) :
    productByCoin (List.replicate n x) n 0 (n * x) = .ok p ↔ n * x * (n * x) < wordSize ∧ p = n * x := by
  rw [productByCoin, foldlM_replicate_eq_ok (c := 1) (d := n * x) Nat.one_pos ?_ hpos]
  · have hn : 0 < n := Nat.pos_of_mul_pos_right hpos
    simp only [Nat.one_pow, Nat.mul_one]
    exact and_congr_left' ⟨fun h => h 0 hn, fun h _ _ => h⟩
  · intro p q hp
    have hle : n * x ≤ p * (n * x) := Nat.le_mul_of_pos_left _ hp
    simp only [Checked.add, Checked.mul, Checked.bind_fit_eq_ok, Checked.div_eq_ok, Nat.add_zero, Nat.mul_comm x n,
      Nat.mul_div_cancel p hpos, Nat.mul_one]
    constructor
    · rintro ⟨hfits, -, -, -, rfl⟩
      exact ⟨hfits, rfl⟩
    · rintro ⟨hfits, rfl⟩
      exact ⟨hfits, by omega, by omega, hpos.ne', rfl⟩

/-- Before the power is divided out, each coin has put a factor on the product. The product with the last coin is the
largest. -/
theorem foldlM_atOnce_eq_ok (hpos : 0 < n * x) :
    (List.replicate n x).foldlM (fun p y => do Checked.div (← Checked.mul p (n * x)) y) (n * x) = .ok q ↔
      n ^ n * x * (n * x) < wordSize ∧ q = n * x * n ^ n := by
  have hn : 0 < n := Nat.pos_of_mul_pos_right hpos
  have hx : 0 < x := Nat.pos_of_mul_pos_left hpos
  rw [foldlM_replicate_eq_ok (c := n) (d := n * x) hn ?_ hpos]
  · refine and_congr_left' ?_
    obtain ⟨m, rfl⟩ := Nat.exists_eq_add_one.2 hn
    rw [Nat.pow_succ', Nat.mul_right_comm (m + 1) _ x]
    constructor
    · intro h
      exact h m (by omega)
    · intro h i hi
      refine lt_of_le_of_lt ?_ h
      exact Nat.mul_le_mul_right _ (Nat.mul_le_mul_left _ (Nat.pow_le_pow_right hn (by omega)))
  · intro p q hp
    simp only [Checked.mul, Checked.bind_fit_eq_ok, Checked.div_eq_ok, ← Nat.mul_assoc,
      Nat.mul_div_cancel (p * n) hx]
    exact and_congr_right' (and_iff_right hx.ne')

/-- Divided at once the product of a balanced pool is the same. The power that divides it fits, as it is a factor of a
product that does. -/
theorem productAtOnce_balanced (hpos : 0 < n * x) :
    productAtOnce (List.replicate n x) n (n * x) = .ok p ↔ n ^ n * x * (n * x) < wordSize ∧ p = n * x := by
  rw [productAtOnce, Checked.bind_eq_ok]
  simp only [foldlM_atOnce_eq_ok hpos, and_assoc, exists_and_left, exists_eq_left]
  refine and_congr_right fun hfits => ?_
  have hpower : 0 < n ^ n := Nat.pow_pos (Nat.pos_of_mul_pos_right hpos)
  have hwhole : wrap (n ^ n) = n ^ n := by
    refine Nat.mod_eq_of_lt (lt_of_le_of_lt ?_ hfits)
    rw [Nat.mul_assoc]
    exact Nat.le_mul_of_pos_right _ (Nat.mul_pos (Nat.pos_of_mul_pos_left hpos) hpos)
  rw [hwhole, Checked.div_eq_ok, Nat.mul_div_cancel _ hpower]
  exact and_iff_right hpower.ne'

/-- **The search from the sum of a balanced pool ends in its first step,** if the product there is the sum. -/
theorem invariantBy_balanced {product : ℕ → Quote ℕ} {fits : Prop}
    (hproduct : ∀ p, 0 < n * x → (product (n * x) = .ok p ↔ fits ∧ p = n * x)) :
    invariantBy product (List.replicate n x) amp scale = .ok d ↔
      d = n * x ∧ (n * x = 0 ∨ StepFits (amp * n) n scale (n * x) ∧ fits) := by
  rw [invariantBy, Checked.bind_eq_ok]
  simp only [sum_eq_ok, List.sum_replicate_nat, List.length_replicate, and_assoc, exists_and_left, exists_eq_left]
  rcases Nat.eq_zero_or_pos (n * x) with hzero | hpos
  · rw [hzero, if_pos rfl]
    constructor
    · rintro ⟨-, h⟩
      exact ⟨(Except.ok.inj h).symm, .inl rfl⟩
    · rintro ⟨rfl, -⟩
      exact ⟨by decide, rfl⟩
  rw [if_neg hpos.ne']
  have hnext : ∀ z, (product (n * x) >>= fun p => nextInvariant (amp * n) n (n * x) scale p (n * x)) = .ok z ↔
      (StepFits (amp * n) n scale (n * x) ∧ fits) ∧ z = n * x := by
    intro z
    simp only [Checked.bind_eq_ok, hproduct _ hpos, and_assoc, exists_and_left, exists_eq_left,
      nextInvariant_self_eq_ok hpos]
    exact and_left_comm
  have hsettle : ∀ z,
      Newton.settle (fun d => product d >>= fun p => nextInvariant (amp * n) n (n * x) scale p d) (n * x) = .ok z ↔
        (StepFits (amp * n) n scale (n * x) ∧ fits) ∧ z = n * x := by
    intro z
    rw [Newton.settle_eq_next fun z hz => ((hnext z).1 hz).2]
    exact hnext z
  constructor
  · rintro ⟨-, h⟩
    obtain ⟨-, h⟩ := Checked.bind_fit_eq_ok.1 h
    obtain ⟨hfits, rfl⟩ := (hsettle d).1 h
    exact ⟨rfl, .inr hfits⟩
  · rintro ⟨rfl, hzero | hfits⟩
    · omega
    · have hamplified := hfits.1.gain
      have hann : amp * n ≤ amp * n * (n * x) := Nat.le_mul_of_pos_right _ hpos
      have htotal : n * x ≤ amp * n * (n * x) :=
        Nat.le_mul_of_pos_left _ (lt_of_lt_of_le (Nat.pos_of_ne_zero hfits.1.scale_ne_zero) hfits.1.scale_le)
      refine ⟨by omega, Checked.bind_fit_eq_ok.2 ⟨by omega, ?_⟩⟩
      exact (hsettle _).2 ⟨hfits, rfl⟩

/-- **The invariant of a balanced pool is its sum.** `n` coins that all hold `x` have the invariant `n x`, whatever the
amplification and its scale, by the solvers of both generations. Both find it wherever the numbers of one step fit. -/
theorem invariant_balanced (n x amp scale d : ℕ) :
    (invariant (List.replicate n x) amp scale false = .ok d ↔
      d = n * x ∧ (n * x = 0 ∨ StepFits (amp * n) n scale (n * x))) ∧
    (invariantNg (List.replicate n x) amp scale = .ok d ↔
      d = n * x ∧ (n * x = 0 ∨ StepFits (amp * n) n scale (n * x) ∧ n ^ n * x * (n * x) < wordSize)) := by
  constructor
  · rw [invariant, List.length_replicate, if_neg Bool.false_ne_true,
      invariantBy_balanced fun p hpos => productByCoin_balanced hpos]
    exact and_congr_right' (or_congr_right (and_iff_left_of_imp StepFits.square_lt))
  · rw [invariantNg, List.length_replicate]
    exact invariantBy_balanced fun p hpos => productAtOnce_balanced hpos

/-- Three coins of which the pool holds a million each, with eighteen decimals. -/
example : (invariant (List.replicate 3 (10 ^ 24)) 200 1 false).toOption = some (3 * 10 ^ 24) ∧
    (invariantNg (List.replicate 3 (10 ^ 24)) 20000 100).toOption = some (3 * 10 ^ 24) := by decide +kernel

end StableSwap
end Searcher

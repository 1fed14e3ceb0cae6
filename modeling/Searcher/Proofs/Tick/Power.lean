/-
# The root at a tick is a power of the base

A tick is a factor of `1.0001` in the price, so the root at tick `t` should be `2 ^ 96 * sqrt 1.0001 ^ t`. What is
computed is a product of twenty rounded factors, each product rounded down, inverted for a positive tick and rounded
up to 96 places. On logarithms the product is a sum, with one tick weighing `Tick.unit`:

* each factor is the square of the one before it, up to its last digits (`squaring_factors`), so that factor `i` weighs
  `2 ^ i` units (`weighs_factors`);
* a product over the digits of `n` weighs `n` units (`log_product`);
* the root at a tick is within `2 ^ -30` of the power, in its logarithm (`log_root`).

One tick is some `2 ^ -14`, so the roots rise from tick to tick (`root_strictMono`).
-/

import Searcher.Concentrated.Tick
import Searcher.Proofs.Rounding
import Mathlib.Analysis.SpecialFunctions.Log.Deriv
import Mathlib.Analysis.Complex.ExponentialBounds

namespace Searcher
namespace Tick

open Real

/-- What one tick adds to the logarithm of a root. -/
noncomputable def unit : ℝ := log 1.0001 * 0.5

/-- The unit is half the logarithm of `1.0001`: a root is the square root of a price. -/
theorem unit_eq : unit = log 1.0001 / 2 := by
  rw [unit]
  ring

/-- Ten digits of the unit. -/
theorem unit_bounds : 4.9997500166e-5 < unit ∧ unit < 4.9997500167e-5 := by
  have h := abs_log_sub_add_sum_range_le (x := -1e-4) (by rw [abs_neg]; norm_num [abs_of_pos]) 4
  norm_num [Finset.sum_range_succ, abs_le] at h
  rw [unit_eq]
  norm_num
  constructor <;> linarith [h.1, h.2]

/-! ### The factors -/

/-- The factor `g` is the square of the factor `f`, up to its last digits. -/
def Squaring (f g : ℕ) : Prop :=
  f * f * (2 ^ 90 - 1) ≤ g * 2 ^ 128 * 2 ^ 90 ∧ g * 2 ^ 128 * 2 ^ 90 ≤ f * f * (2 ^ 90 + 1) ∧ 0 < f ∧ 0 < g

instance : DecidableRel Squaring := fun _ _ => inferInstanceAs (Decidable (_ ∧ _))

/-- Each factor is about the square of the one before. This is checked number by number. -/
theorem squaring_factors : factors.IsChain Squaring := by decide

/-- In logarithms squaring is doubling. -/
theorem Squaring.log_bounds {f g : ℕ} (h : Squaring f g) :
    |log (g / 2 ^ 128) - 2 * log (f / 2 ^ 128)| ≤ 1 / 2 ^ 89 := by
  obtain ⟨hlow, hhigh, hf, hg⟩ := h
  have hf' : (0 : ℝ) < f := by exact_mod_cast hf
  have hg' : (0 : ℝ) < g := by exact_mod_cast hg
  have hlow' : (f : ℝ) * f * (2 ^ 90 - 1) ≤ g * 2 ^ 128 * 2 ^ 90 := by
    have := (Nat.cast_le (α := ℝ)).2 hlow
    push_cast at this
    norm_num at this ⊢
    linarith
  have hhigh' : (g : ℝ) * 2 ^ 128 * 2 ^ 90 ≤ f * f * (2 ^ 90 + 1) := by exact_mod_cast hhigh
  set q : ℝ := g * 2 ^ 128 / (f * f) with hq
  have hq0 : 0 < q := by positivity
  have hlog : log (g / 2 ^ 128) - 2 * log (f / 2 ^ 128) = log q := by
    rw [hq, log_div hg'.ne' (by norm_num), log_div hf'.ne' (by norm_num), log_div (by positivity) (by positivity),
      log_mul hg'.ne' (by norm_num), log_mul hf'.ne' hf'.ne']
    ring
  have hle : q - 1 ≤ 1 / 2 ^ 90 := by
    rw [hq, div_sub_one (by positivity), div_le_iff₀ (by positivity)]
    linarith
  have hge : -(1 / 2 ^ 89) ≤ 1 - q⁻¹ := by
    rw [hq, inv_div, neg_le_sub_iff_le_add, div_le_iff₀ (by positivity)]
    nlinarith
  rw [hlog, abs_le]
  constructor
  · linarith [one_sub_inv_le_log_of_pos hq0]
  · linarith [log_le_sub_one_of_pos hq0]

/-- The first factor of a row weighs `w` and each of the others twice the one before it. -/
def Weighs : (w : ℝ) → List ℕ → Prop
  | _, [] => True
  | w, f :: fs => 0 < f ∧ |log (f / 2 ^ 128) + w| ≤ 1 / 2 ^ 60 ∧ Weighs (2 * w) fs

/-- Along a row of squares the error doubles as the weight does. -/
theorem weighs_of_squaring {f : ℕ} {fs : List ℕ} {w e : ℝ} (h : (f :: fs).IsChain Squaring) (hf : 0 < f)
    (he : |log (f / 2 ^ 128) + w| ≤ e) (hlen : (e + 1 / 2 ^ 89) * 2 ^ fs.length ≤ 1 / 2 ^ 60) :
    Weighs w (f :: fs) := by
  have hsmall : e ≤ 1 / 2 ^ 60 := by
    have he0 : 0 ≤ e := (abs_nonneg _).trans he
    have : (1 : ℝ) ≤ 2 ^ fs.length := one_le_pow₀ (by norm_num)
    nlinarith
  refine ⟨hf, he.trans hsmall, ?_⟩
  cases fs with
  | nil => trivial
  | cons g fs =>
    obtain ⟨hfg, hrest⟩ := List.isChain_cons_cons.1 h
    have hg := hfg.log_bounds
    refine weighs_of_squaring (e := 2 * e + 1 / 2 ^ 89) hrest hfg.2.2.2 ?_ ?_
    · rw [abs_le] at he hg ⊢
      constructor <;> linarith [he.1, he.2, hg.1, hg.2]
    · rw [List.length_cons, pow_succ (2 : ℝ) fs.length] at hlen
      linarith

/-- **Factor `i` weighs `2 ^ i` ticks.** -/
theorem weighs_factors : Weighs unit factors := by
  refine weighs_of_squaring (e := 1 / 2 ^ 89) squaring_factors (by norm_num) ?_ (by norm_num)
  set q : ℝ := 0xfffcb933bd6fad37aa2d162d1a594001 ^ 2 * 1.0001 / 2 ^ 256 with hq
  have hlogq : log q = 2 * log 0xfffcb933bd6fad37aa2d162d1a594001 + log 1.0001 - 256 * log 2 := by
    rw [hq, log_div (by norm_num) (by norm_num), log_mul (by norm_num) (by norm_num), log_pow, log_pow]
    push_cast
    ring
  have hlog : 2 * (log ((0xfffcb933bd6fad37aa2d162d1a594001 : ℕ) / 2 ^ 128) + unit) = log q := by
    rw [hlogq, unit_eq, log_div (by norm_num) (by norm_num), log_pow]
    push_cast
    ring
  have hhigh : log q ≤ 1 / 2 ^ 89 := by
    have hle := log_le_sub_one_of_pos (show 0 < q by rw [hq]; norm_num)
    refine hle.trans ?_
    rw [hq]
    norm_num
  have hlow : -(1 / 2 ^ 89) ≤ log q := by
    refine le_trans ?_ (one_sub_inv_le_log_of_pos (show 0 < q by rw [hq]; norm_num))
    rw [hq]
    norm_num
  rw [abs_le]
  constructor <;> linarith

/-! ### The product over the digits of a tick -/

/-- One factor of the product: it takes its weight off the logarithm. -/
theorem log_scaled {f r : ℕ} {w : ℝ} (hf : 0 < f) (hw : |log (f / 2 ^ 128) + w| ≤ 1 / 2 ^ 60) (hr : 0 < r)
    (hlarge : 51 * log 2 + w ≤ log r) :
    0 < r * f / 2 ^ 128 ∧ |log ((r * f / 2 ^ 128 : ℕ) : ℝ) - (log r - w)| ≤ 1 / 2 ^ 48 := by
  have hr' : (0 : ℝ) < r := by exact_mod_cast hr
  have hf' : (0 : ℝ) < f := by exact_mod_cast hf
  obtain ⟨hw₁, hw₂⟩ := abs_le.1 hw
  set x : ℝ := ((r * f : ℕ) : ℝ) / ((2 ^ 128 : ℕ) : ℝ) with hx
  have hx0 : 0 < x := by positivity
  have hlogx : log x = log r + log (f / 2 ^ 128) := by
    rw [← log_mul hr'.ne' (by positivity), hx]
    simp only [Nat.cast_mul, Nat.cast_pow, Nat.cast_ofNat, mul_div_assoc]
  have hlog2 := log_two_gt_d9
  have hlarge' : (2 : ℝ) ^ 50 ≤ x := by
    rw [← log_le_log_iff (by norm_num) hx0, log_pow, hlogx]
    push_cast
    linarith
  obtain ⟨hpos, hlow, hhigh⟩ := Checked.log_div_bounds (a := r * f) (b := 2 ^ 128) (by norm_num) (by norm_num) hlarge'
  rw [← hx, hlogx] at hlow hhigh
  refine ⟨hpos, ?_⟩
  rw [abs_le]
  constructor <;> linarith

/-- **The product over the digits of `n` weighs `n` times the first factor.** Each factor adds less than `2 ^ -48` to
the error, as long as the product keeps fifty binary digits. -/
theorem log_product {fs : List ℕ} {w : ℝ} {n r : ℕ} (hfs : Weighs w fs) (hw : 0 ≤ w) (hr : 0 < r)
    (hlarge : 51 * log 2 + (2 ^ fs.length - 1) * w + fs.length / 2 ^ 48 ≤ log r) :
    0 < product fs n r ∧
      |log (product fs n r) - (log r - (n % 2 ^ fs.length : ℕ) * w)| ≤ fs.length / 2 ^ 48 := by
  induction fs generalizing w n r with
  | nil => simpa [product, Nat.mod_one] using hr
  | cons f fs ih =>
    obtain ⟨hf, hfw, hrest⟩ := hfs
    have hlen : (((f :: fs).length : ℕ) : ℝ) = fs.length + 1 := by simp
    have hpow : (2 : ℝ) ^ (f :: fs).length = 2 * 2 ^ fs.length := by rw [List.length_cons, pow_succ]; ring
    have hone : (1 : ℝ) ≤ 2 ^ fs.length := one_le_pow₀ (by norm_num)
    have hdigits : n % 2 ^ (f :: fs).length = 2 * (n / 2 % 2 ^ fs.length) + n % 2 := by
      rw [List.length_cons, Nat.pow_succ, Nat.mul_comm, Nat.mod_mul]
      omega
    rw [hlen, hpow] at hlarge
    rw [hlen, hdigits, product]
    by_cases hodd : n % 2 = 1
    · have hstep := log_scaled hf hfw hr (by nlinarith [log_two_gt_d9])
      obtain ⟨h₁, h₂⟩ := abs_le.1 hstep.2
      obtain ⟨hpos, herr⟩ := ih (n := n / 2) hrest (by linarith) hstep.1 (by nlinarith)
      rw [if_pos hodd]
      refine ⟨hpos, ?_⟩
      rw [abs_le] at herr ⊢
      push_cast [hodd] at herr ⊢
      constructor <;> linarith [herr.1, herr.2]
    · obtain ⟨hpos, herr⟩ := ih (n := n / 2) hrest (by linarith) hr (by nlinarith)
      rw [if_neg hodd]
      refine ⟨hpos, ?_⟩
      rw [abs_le] at herr ⊢
      push_cast [show n % 2 = 0 by omega] at herr ⊢
      constructor <;> linarith [herr.1, herr.2]

/-! ### The root -/

/-- The logarithm of the largest word. -/
theorem log_wordSize_sub_one : |log ((wordSize - 1 : ℕ) : ℝ) - 256 * log 2| ≤ 1 / 2 ^ 60 := by
  have hcast : ((wordSize - 1 : ℕ) : ℝ) = 2 ^ 256 * (1 - 1 / 2 ^ 256) := by norm_num [wordSize]
  have hlog : log ((wordSize - 1 : ℕ) : ℝ) = 256 * log 2 + log (1 - 1 / 2 ^ 256) := by
    rw [hcast, log_mul (by norm_num) (by norm_num), log_pow]
    push_cast
    ring
  have hlow := one_sub_inv_le_log_of_pos (show (0 : ℝ) < 1 - 1 / 2 ^ 256 by norm_num)
  have hhigh := log_le_sub_one_of_pos (show (0 : ℝ) < 1 - 1 / 2 ^ 256 by norm_num)
  rw [hlog, abs_le]
  norm_num at hlow hhigh ⊢
  constructor <;> linarith

/-- **The ratio at tick `t` weighs `t` ticks,** on either side of zero. -/
theorem log_ratio {t : ℤ} (hlow : least ≤ t) (hhigh : t ≤ largest) :
    0 < ratio t ∧ |log (ratio t) - (128 * log 2 + t * unit)| ≤ 1 / 2 ^ 42 := by
  unfold least at hlow
  unfold largest at hhigh
  have hlen : factors.length = 20 := rfl
  have hone : log ((2 ^ 128 : ℕ) : ℝ) = 128 * log 2 := by rw [Nat.cast_pow, log_pow]; norm_num
  have hlog2 := log_two_gt_d9
  have hlarge : 51 * log 2 + (2 ^ factors.length - 1) * unit + factors.length / 2 ^ 48 ≤ log ((2 ^ 128 : ℕ) : ℝ) := by
    rw [hone, hlen]
    norm_num
    linarith [unit_bounds.2]
  obtain ⟨hpos, herr⟩ := log_product (n := t.natAbs) weighs_factors (by linarith [unit_bounds.1]) (by norm_num) hlarge
  rw [hone, hlen, Nat.mod_eq_of_lt (by omega), abs_le] at herr
  unfold ratio
  set P := product factors t.natAbs (2 ^ 128)
  have hP : (0 : ℝ) < P := by exact_mod_cast hpos
  obtain ⟨hw₁, hw₂⟩ := abs_le.1 log_wordSize_sub_one
  by_cases ht : 0 < t
  · have habs : ((t.natAbs : ℕ) : ℝ) = t := by rw [← Int.cast_natCast, Int.natAbs_of_nonneg ht.le]
    rw [habs] at herr
    obtain ⟨h₁, h₂⟩ := herr
    have ht' : (1 : ℝ) ≤ t := by exact_mod_cast ht
    have htu : (0 : ℝ) ≤ t * unit := mul_nonneg (by linarith) (by linarith [unit_bounds.1])
    have hword : (0 : ℝ) < ((wordSize - 1 : ℕ) : ℝ) := by norm_num [wordSize]
    have hexact : log (((wordSize - 1 : ℕ) : ℝ) / P) = log ((wordSize - 1 : ℕ) : ℝ) - log P :=
      log_div hword.ne' hP.ne'
    have hquot : (2 : ℝ) ^ 60 ≤ ((wordSize - 1 : ℕ) : ℝ) / P := by
      rw [← log_le_log_iff (by norm_num) (by positivity), log_pow, hexact]
      norm_num at h₁ h₂ ⊢
      linarith
    obtain ⟨hpos', hdown, hup⟩ := Checked.log_div_bounds hpos (by norm_num) hquot
    rw [hexact] at hdown hup
    simp only [if_pos ht, abs_le]
    refine ⟨hpos', ?_⟩
    constructor <;> norm_num at h₁ h₂ ⊢ <;> linarith
  · have habs : ((t.natAbs : ℕ) : ℝ) = -t := by
      rw [← Int.cast_natCast, Int.ofNat_natAbs_of_nonpos (by omega), Int.cast_neg]
    rw [habs] at herr
    norm_num at herr
    simp only [if_neg ht, abs_le]
    refine ⟨hpos, ?_⟩
    constructor <;> linarith

/-- The root at a tick. -/
def root (t : ℤ) : ℕ := Checked.ceilDiv (ratio t) (2 ^ 32)

/-- The root of a tick in range is found. -/
theorem sqrtPrice_eq {t : ℤ} (hlow : least ≤ t) (hhigh : t ≤ largest) : sqrtPrice t = .ok (root t) := by
  have : ¬ largest < t.natAbs := by unfold least at hlow; unfold largest at *; omega
  rw [sqrtPrice, if_neg this, root]

/-- **A root is found of the ticks in range, and of no others.**. -/
theorem sqrtPrice_eq_ok {t : ℤ} {p : ℕ} (h : sqrtPrice t = .ok p) : least ≤ t ∧ t ≤ largest ∧ p = root t := by
  have hrange : t.natAbs ≤ largest := by
    by_contra hout
    rw [sqrtPrice, if_pos (not_le.1 hout)] at h
    cases h
  have hlow : least ≤ t := by unfold least largest at *; omega
  have hhigh : t ≤ largest := by omega
  exact ⟨hlow, hhigh, Except.ok.inj (h.symm.trans (sqrtPrice_eq hlow hhigh))⟩

/-- The least tick has the least root. -/
theorem root_least : root least = leastSqrtPrice := by decide

/-- The largest tick has the largest root. -/
theorem root_largest : root largest = largestSqrtPrice := by decide

/-- **The root at tick `t` is the power `2 ^ 96 * sqrt 1.0001 ^ t`,** up to a relative error of `2 ^ -30`. -/
theorem log_root {t : ℤ} (hlow : least ≤ t) (hhigh : t ≤ largest) :
    0 < root t ∧ |log (root t) - (96 * log 2 + t * unit)| ≤ 1 / 2 ^ 30 := by
  obtain ⟨hpos, herr⟩ := log_ratio hlow hhigh
  obtain ⟨h₁, h₂⟩ := abs_le.1 herr
  have ht : (-887272 : ℝ) ≤ t := by exact_mod_cast hlow
  have hr : (0 : ℝ) < ratio t := by exact_mod_cast hpos
  have hexact : log ((ratio t : ℝ) / (2 ^ 32 : ℕ)) = log (ratio t) - 32 * log 2 := by
    rw [log_div hr.ne' (by norm_num), Nat.cast_pow, log_pow]
    norm_num
  have hquot : (2 : ℝ) ^ 31 ≤ (ratio t : ℝ) / (2 ^ 32 : ℕ) := by
    rw [← log_le_log_iff (by norm_num) (by positivity), log_pow, hexact]
    norm_num at h₁ ⊢
    nlinarith [unit_bounds.1, unit_bounds.2, log_two_gt_d9]
  obtain ⟨hdown, hup⟩ := Checked.log_ceilDiv_bounds (by norm_num) (by norm_num) hquot
  rw [hexact] at hdown hup
  have hroot : (2 : ℝ) ^ 31 ≤ root t := hquot.trans (Checked.ceilDiv_bounds (by norm_num)).1
  refine ⟨by exact_mod_cast (show (0 : ℝ) < 2 ^ 31 by norm_num).trans_le hroot, ?_⟩
  rw [abs_le, root]
  constructor <;> norm_num at h₁ h₂ hdown hup ⊢ <;> linarith

/-- **The roots rise from tick to tick.** -/
theorem root_strictMono {s t : ℤ} (hs : least ≤ s) (hst : s < t) (ht : t ≤ largest) : root s < root t := by
  obtain ⟨hpos₁, herr₁⟩ := log_root hs (hst.le.trans ht)
  obtain ⟨hpos₂, herr₂⟩ := log_root (hs.trans hst.le) ht
  have hstep : (s : ℝ) + 1 ≤ t := by exact_mod_cast hst
  have hlog : log (root s) < log (root t) := by
    rw [abs_le] at herr₁ herr₂
    nlinarith [unit_bounds.1]
  exact_mod_cast (log_lt_log_iff (by exact_mod_cast hpos₁) (by exact_mod_cast hpos₂)).1 hlog

/-- The roots are in the order of their ticks. -/
theorem root_le_root_iff {s t : ℤ} (hs : least ≤ s) (hs' : s ≤ largest) (ht : least ≤ t) (ht' : t ≤ largest) :
    root s ≤ root t ↔ s ≤ t := by
  constructor
  · intro h
    by_contra hlt
    exact absurd (root_strictMono ht (not_le.1 hlt) hs') (not_lt.2 h)
  · intro h
    rcases h.eq_or_lt with rfl | h
    · exact le_rfl
    · exact (root_strictMono hs h ht').le

/-- Roots of ticks in range are in range. -/
theorem root_mem {t : ℤ} (ht : least ≤ t) (ht' : t ≤ largest) :
    root t ∈ Set.Icc leastSqrtPrice largestSqrtPrice := by
  rw [← root_least, ← root_largest]
  exact ⟨(root_le_root_iff le_rfl (by decide) ht ht').2 ht, (root_le_root_iff ht ht' (by decide) le_rfl).2 ht'⟩

end Tick
end Searcher

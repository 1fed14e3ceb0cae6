/-
# The value of a position of the price

Between two neighbouring ticks the liquidity of a pool is fixed; `depth t` is the one from tick `t` to the next. For a
function `φ` of the root, the *value* at a root adds up what the liquidity of each tick contributes, from the least tick
to that root: its depth times the rise of `φ` across it. With the levels of the two tokens for `φ`, a change of the
value is what a swap exchanges exactly, over any number of ticks.

* The value at the root between two ticks is the same counted from either (`value_succ`), and over ticks of one depth
  it changes by that depth times the change of `φ` (`value_sub_of_flat`).
* Where no depth is negative it rises with the root if `φ` does (`value_mono`).
* So a swap there and back cannot gain on one token without losing on the other: if the price comes back to no less of
  the one value, it comes back to no less of the other (`value_trade`).
-/

import Searcher.Proofs.Concentrated.Amounts
import Searcher.Proofs.Tick.Power

namespace Searcher
namespace Concentrated

open Tick

/-- The sum of `f` over the ticks from the least one up to but not including `t`. -/
def total {α : Type} [AddCommMonoid α] (f : ℤ → α) (t : ℤ) : α :=
  ∑ k ∈ Finset.range (t - least).toNat, f (least + k)

/-- The sum up to the next tick has one more term. -/
theorem total_succ {α : Type} [AddCommMonoid α] (f : ℤ → α) {t : ℤ} (ht : least ≤ t) :
    total f (t + 1) = total f t + f t := by
  have hn : (t + 1 - least).toNat = (t - least).toNat + 1 := by omega
  rw [total, hn, Finset.sum_range_succ, total]
  congr 2
  omega

/-- The value at root `p` in tick `t`. -/
noncomputable def value (depth : ℤ → ℤ) (φ : ℕ → ℝ) (t : ℤ) (p : ℕ) : ℝ :=
  total (fun s => depth s * (φ (root (s + 1)) - φ (root s))) t + depth t * (φ p - φ (root t))

/-- The root stands in the tick: between its root and the one of the next tick, both included. -/
structure Stands (t : ℤ) (p : ℕ) : Prop where
  least_le : least ≤ t
  lt_largest : t < largest
  root_le : root t ≤ p
  le_root : p ≤ root (t + 1)

variable {depth : ℤ → ℤ} {φ : ℕ → ℝ} {t t' : ℤ} {p q : ℕ}

namespace Stands

/-- A root that stands in a tick is one of the range. -/
theorem mem (h : Stands t p) : p ∈ Set.Icc leastSqrtPrice largestSqrtPrice :=
  ⟨(root_mem h.least_le h.lt_largest.le).1.trans h.root_le,
    h.le_root.trans (root_mem (by have := h.least_le; omega) (by have := h.lt_largest; omega)).2⟩

variable {s : ℤ}

/-- It is not below the root of any earlier tick. -/
theorem root_le_of_le (h : Stands t p) (hs : least ≤ s) (hst : s ≤ t) : root s ≤ p :=
  ((root_le_root_iff hs (hst.trans h.lt_largest.le) h.least_le h.lt_largest.le).2 hst).trans h.root_le

/-- Nor is it above the root of any later tick. -/
theorem le_root_of_lt (h : Stands t p) (hts : t < s) (hs : s ≤ largest) : p ≤ root s := by
  have := h.least_le
  exact h.le_root.trans ((root_le_root_iff (by omega) (by omega) (by omega) hs).2 hts)

/-- A root below that of a tick stands in an earlier one. -/
theorem lt_of_lt_root (h : Stands t p) (hs : least ≤ s) (hp : p < root s) : t < s := by
  by_contra hle
  exact absurd hp (not_lt.2 (h.root_le_of_le hs (not_lt.1 hle)))

/-- A root above that of a tick stands in it or in a later one. -/
theorem le_of_root_lt (h : Stands t p) (hs : s ≤ largest) (hp : root s < p) : s ≤ t := by
  by_contra hlt
  exact absurd hp (not_lt.2 (h.le_root_of_lt (not_le.1 hlt) hs))

end Stands

/-- At the root of a tick the value is a sum over whole ticks. -/
theorem value_root (depth : ℤ → ℤ) (φ : ℕ → ℝ) (t : ℤ) :
    value depth φ t (root t) = total (fun s => depth s * (φ (root (s + 1)) - φ (root s))) t := by
  simp [value]

/-- Within one tick the value changes by its depth times the change of `φ`. -/
theorem value_sub_same (depth : ℤ → ℤ) (φ : ℕ → ℝ) (t : ℤ) (p q : ℕ) :
    value depth φ t q - value depth φ t p = depth t * (φ q - φ p) := by
  unfold value
  ring

/-- The root between two ticks has one value. -/
theorem value_succ (depth : ℤ → ℤ) (φ : ℕ → ℝ) (ht : least ≤ t) :
    value depth φ t (root (t + 1)) = value depth φ (t + 1) (root (t + 1)) := by
  rw [value_root, total_succ _ ht, value]

/-- Over ticks of one depth the value changes as within one tick. -/
theorem value_sub_of_flat {d : ℤ} (ht : least ≤ t) (htt : t ≤ t') (hflat : ∀ s, t ≤ s → s ≤ t' → depth s = d)
    (φ : ℕ → ℝ) (p q : ℕ) : value depth φ t' q - value depth φ t p = d * (φ q - φ p) := by
  induction t', htt using Int.leInduction generalizing q with
  | base => rw [value_sub_same, hflat t le_rfl le_rfl]
  | succ t' htt ih =>
    have hlast := value_sub_same depth φ (t' + 1) (root (t' + 1)) q
    rw [hflat (t' + 1) (by omega) le_rfl] at hlast
    have hrest := ih (fun s hs hs' => hflat s hs (by omega)) (root (t' + 1))
    rw [value_succ depth φ (ht.trans htt)] at hrest
    linarith

/-- The same between two ticks in any order. -/
theorem value_sub_of_uIcc {d : ℤ} (ht : least ≤ t) (ht' : least ≤ t') (hflat : ∀ s ∈ Set.uIcc t t', depth s = d)
    (φ : ℕ → ℝ) (p q : ℕ) : value depth φ t' q - value depth φ t p = d * (φ q - φ p) := by
  rcases le_total t t' with h | h
  · rw [Set.uIcc_of_le h] at hflat
    exact value_sub_of_flat ht h (fun s hs hs' => hflat s ⟨hs, hs'⟩) φ p q
  · rw [Set.uIcc_of_ge h] at hflat
    have := value_sub_of_flat ht' h (fun s hs hs' => hflat s ⟨hs, hs'⟩) φ q p
    linarith

/-! ### The value rises with the root -/

/-- Over whole ticks without negative depth. -/
theorem value_root_mono (hφ : MonotoneOn φ (Set.Icc leastSqrtPrice largestSqrtPrice)) (ht : least ≤ t) (htt : t ≤ t')
    (ht' : t' ≤ largest) (hd : ∀ s, t ≤ s → s < t' → 0 ≤ depth s) :
    value depth φ t (root t) ≤ value depth φ t' (root t') := by
  induction t', htt using Int.leInduction with
  | base => exact le_rfl
  | succ t' htt ih =>
    have hlast := value_sub_same depth φ t' (root t') (root (t' + 1))
    rw [value_succ depth φ (ht.trans htt)] at hlast
    have hrest := ih (by omega) fun s hs hs' => hd s hs (by omega)
    have hrise : φ (root t') ≤ φ (root (t' + 1)) :=
      hφ (root_mem (by omega) (by omega)) (root_mem (by omega) ht')
        ((root_le_root_iff (by omega) (by omega) (by omega) ht').2 (by omega))
    have hdepth : (0 : ℝ) ≤ depth t' := by exact_mod_cast hd t' htt (by omega)
    have := mul_nonneg hdepth (sub_nonneg.2 hrise)
    linarith

/-- **The value rises with the root** where the depth is not negative. -/
theorem value_mono (hφ : MonotoneOn φ (Set.Icc leastSqrtPrice largestSqrtPrice)) (hp : Stands t p)
    (hq : Stands t' q) (hpq : p ≤ q) (hd : ∀ s ∈ Set.uIcc t t', 0 ≤ depth s) :
    value depth φ t p ≤ value depth φ t' q := by
  have ht := hp.least_le
  have htl := hp.lt_largest
  have ht' := hq.least_le
  have htl' := hq.lt_largest
  -- within one tick only the last summand changes
  have within : ∀ {s p q}, Stands s p → Stands s q → p ≤ q → 0 ≤ depth s →
      value depth φ s p ≤ value depth φ s q := by
    intro s p q hp hq hpq hs
    have hdepth : (0 : ℝ) ≤ depth s := by exact_mod_cast hs
    have hrise := value_sub_same depth φ s p q
    have := mul_nonneg hdepth (sub_nonneg.2 (hφ hp.mem hq.mem hpq))
    linarith
  rcases lt_trichotomy t t' with hlt | rfl | hgt
  · rw [Set.uIcc_of_le hlt.le] at hd
    have hend : Stands t (root (t + 1)) :=
      ⟨ht, htl, (root_le_root_iff ht htl.le (by omega) (by omega)).2 (by omega), le_rfl⟩
    have hstart : Stands t' (root t') :=
      ⟨ht', htl', le_rfl, (root_le_root_iff ht' htl'.le (by omega) (by omega)).2 (by omega)⟩
    calc value depth φ t p ≤ value depth φ t (root (t + 1)) := within hp hend hp.le_root (hd t ⟨le_rfl, hlt.le⟩)
      _ = value depth φ (t + 1) (root (t + 1)) := value_succ depth φ ht
      _ ≤ value depth φ t' (root t') :=
        value_root_mono hφ (by omega) (by omega) htl'.le fun s hs hs' => hd s ⟨by omega, by omega⟩
      _ ≤ value depth φ t' q := within hstart hq hq.root_le (hd t' ⟨hlt.le, le_rfl⟩)
  · exact within hp hq hpq (hd t (by simp))
  · -- the root stands in the lower tick although it is not lower: it is the one between the two ticks
    have hle : root (t' + 1) ≤ root t := (root_le_root_iff (by omega) (by omega) ht htl.le).2 (by omega)
    have hback : t = t' + 1 := by
      have := (root_le_root_iff ht htl.le (by omega) (by omega)).1 (hp.root_le.trans (hpq.trans hq.le_root))
      omega
    subst hback
    have hpr : p = root (t' + 1) := le_antisymm (hpq.trans hq.le_root) hp.root_le
    have hqr : q = root (t' + 1) := le_antisymm hq.le_root (hp.root_le.trans hpq)
    rw [hpr, hqr, value_succ depth φ ht']

/-! ### One token against the other -/

/-- A combination of the two levels. -/
noncomputable def mix (u v : ℝ) (p : ℕ) : ℝ := u * level false p + v * level true p

/-- The value is linear in `φ`, so for a combination of the two levels it is that combination of the two values. -/
theorem value_mix (depth : ℤ → ℤ) (u v : ℝ) (t : ℤ) (p : ℕ) :
    value depth (mix u v) t p = u * value depth (level false) t p + v * value depth (level true) t p := by
  have hsum : total (fun s => depth s * (mix u v (root (s + 1)) - mix u v (root s))) t =
      u * total (fun s => depth s * (level false (root (s + 1)) - level false (root s))) t +
        v * total (fun s => depth s * (level true (root (s + 1)) - level true (root s))) t := by
    unfold total
    rw [Finset.mul_sum, Finset.mul_sum, ← Finset.sum_add_distrib]
    refine Finset.sum_congr rfl fun k _ => ?_
    unfold mix
    ring
  unfold value
  rw [hsum]
  unfold mix
  ring

/-- At roots in range the rise of the second token's level outweighs the fall of the first one's. -/
def Rises (u v : ℝ) : Prop :=
  ∀ x y : ℝ, leastSqrtPrice ≤ x → x ≤ y → y ≤ largestSqrtPrice → v * (2 ^ 192 : ℕ) ≤ u * (x * y)

/-- A combination that rises does so over all roots of the range: its difference between `p` and `q` is `q - p` times
what `Rises` says is not negative, over `2^96 p q`. -/
theorem Rises.monotoneOn {u v : ℝ} (h : Rises u v) :
    MonotoneOn (mix u v) (Set.Icc leastSqrtPrice largestSqrtPrice) := by
  intro p hp q hq hpq
  have hp0 : (0 : ℝ) < p := by
    have : 0 < p := lt_of_lt_of_le (by decide) hp.1
    exact_mod_cast this
  have hpq' : (p : ℝ) ≤ q := by exact_mod_cast hpq
  have hq0 : (0 : ℝ) < q := hp0.trans_le hpq'
  have hweight := h p q (by exact_mod_cast hp.1) hpq' (by exact_mod_cast hq.2)
  rw [Nat.cast_pow, Nat.cast_ofNat] at hweight
  have hdiff : mix u v q - mix u v p = (q - p) * (u * (p * q) - v * 2 ^ 192) / (2 ^ 96 * (p * q)) := by
    simp only [mix, level]
    field_simp
    ring
  have : 0 ≤ mix u v q - mix u v p := by
    rw [hdiff]
    exact div_nonneg (mul_nonneg (by linarith) (by linarith)) (by positivity)
  linarith

/-- So the same combination of the two values rises with the root, where no depth is negative. -/
theorem Rises.value_le {u v : ℝ} (h : Rises u v) (hp : Stands t p) (hq : Stands t' q) (hpq : p ≤ q)
    (hd : ∀ s ∈ Set.uIcc t t', 0 ≤ depth s) :
    u * value depth (level false) t p + v * value depth (level true) t p ≤
      u * value depth (level false) t' q + v * value depth (level true) t' q := by
  have := value_mono h.monotoneOn hp hq hpq hd
  rwa [value_mix, value_mix] at this

/-- The second token's level alone rises. -/
theorem rises_second : Rises 1 0 := by
  intro x y hx hxy _
  have : (0 : ℝ) ≤ leastSqrtPrice := Nat.cast_nonneg _
  nlinarith

/-- The first token's level alone falls, so its negative rises. -/
theorem rises_first : Rises 0 (-1) := by
  intro x y _ _ _
  norm_num

/-- The second token's level still rises if a little of the first one's is added: roots are at least one. -/
theorem rises_mostly_second : Rises (2 ^ 192) 1 := by
  intro x y hx hxy _
  have : (1 : ℝ) ≤ leastSqrtPrice := by norm_num [leastSqrtPrice]
  rw [Nat.cast_pow, Nat.cast_ofNat]
  nlinarith

/-- And the negative of the first token's level still rises if a little of the second one's is taken off, since roots
are at most the largest. -/
theorem rises_mostly_first : Rises (-1) (-(largestSqrtPrice ^ 2 / 2 ^ 192)) := by
  intro x y hx hxy hy
  have : (0 : ℝ) ≤ leastSqrtPrice := Nat.cast_nonneg _
  have hxy' : x * y ≤ (largestSqrtPrice : ℝ) * largestSqrtPrice := by
    exact mul_le_mul (hxy.trans hy) hy (by linarith) (Nat.cast_nonneg _)
  rw [Nat.cast_pow, Nat.cast_ofNat, neg_mul, neg_mul, one_mul, neg_le_neg_iff, div_mul_cancel₀ _ (by positivity), sq]
  exact hxy'

/-- **What comes back of one token comes back of the other.** Where the depth is not negative, a root that is worth no
more in the tokens that one direction pays in is worth no less in those that the other pays in. -/
theorem value_trade (hp : Stands t p) (hq : Stands t' q) (hd : ∀ s ∈ Set.uIcc t t', 0 ≤ depth s) (zeroForOne : Bool)
    (h : value depth (level !zeroForOne) t' q ≤ value depth (level !zeroForOne) t p) :
    value depth (level zeroForOne) t p ≤ value depth (level zeroForOne) t' q := by
  have hd' : ∀ s ∈ Set.uIcc t' t, 0 ≤ depth s := by rwa [Set.uIcc_comm]
  cases zeroForOne with
  | false =>
    rcases le_total p q with hpq | hqp
    · have := rises_second.value_le hp hq hpq hd
      linarith
    · have hfirst := rises_mostly_first.value_le hq hp hqp hd'
      have hC : (0 : ℝ) ≤ largestSqrtPrice ^ 2 / 2 ^ 192 := by positivity
      rw [Bool.not_false] at h
      nlinarith
  | true =>
    rcases le_total p q with hpq | hqp
    · have := rises_mostly_second.value_le hp hq hpq hd
      rw [Bool.not_true] at h
      nlinarith
    · have := rises_first.value_le hq hp hqp hd'
      linarith

end Concentrated
end Searcher

/-
# The tick of a root

The logarithm of a root in units of one tick is the tick it lies in, with a fraction. What is computed of it is too
small by at most one unit of the fourteenth place, some `0.846` ticks, and by what the roundings take. So the tick is at
least the estimate less `0.01`, and at most the estimate plus `0.856`, both rounded down (`estimate_lt`,
`lt_estimate`), and these two differ by at most one: where they differ, the root at the higher one decides
(`ofSqrtPrice_eq`).

`ofSqrtPrice_inverts` is the conclusion: between the ends of the range the conversions are inverse to each other.
-/

import Searcher.Proofs.Tick.Logarithm

namespace Searcher
namespace Tick

open Real

/-- Ticks per doubling of the root, with 64 binary places. -/
def ticksPerDoubling : ℤ := 255738958999603826347141

/-- The estimate of the tick of a root, with 128 binary places. -/
def estimate (p : ℕ) : ℤ := logarithm p * ticksPerDoubling

/-- The number of ticks in a doubling, over its scale, is the logarithm of two over the unit to nine digits. -/
theorem ticksPerDoubling_bounds :
    |(ticksPerDoubling : ℝ) * unit - 2 ^ 64 * log 2| ≤ 2 ^ 64 / 10 ^ 9 := by
  obtain ⟨h₁, h₂⟩ := unit_bounds
  have h₃ := log_two_gt_d9
  have h₄ := log_two_lt_d9
  unfold ticksPerDoubling
  rw [abs_le]
  push_cast
  constructor <;> norm_num at * <;> linarith

/-- The logarithm of a root in the range of ticks. -/
theorem log_mem_range {p : ℕ} (hlow : leastSqrtPrice ≤ p) (hhigh : p < largestSqrtPrice) :
    0 < p ∧ |log p - 96 * log 2| ≤ 44.37 := by
  rw [← root_least] at hlow
  rw [← root_largest] at hhigh
  obtain ⟨hpos, hleast⟩ := log_root (t := least) le_rfl (by decide)
  obtain ⟨-, hlargest⟩ := log_root (t := largest) (by decide) le_rfl
  have hp : 0 < p := hpos.trans_le hlow
  have h₁ : log (root least) ≤ log p := log_le_log (by exact_mod_cast hpos) (by exact_mod_cast hlow)
  have h₂ : log p ≤ log (root largest) := log_le_log (by exact_mod_cast hp) (by exact_mod_cast hhigh.le)
  obtain ⟨h₃, h₄⟩ := unit_bounds
  have hleast' : ((least : ℤ) : ℝ) = -887272 := by norm_num [least]
  have hlargest' : ((largest : ℤ) : ℝ) = 887272 := by norm_num [largest]
  rw [abs_le, hleast'] at hleast
  rw [abs_le, hlargest'] at hlargest
  refine ⟨hp, ?_⟩
  rw [abs_le]
  constructor <;> linarith

/-- **The estimate is close to the logarithm in ticks:** hardly above it, and below it by hardly more than one unit of
the fourteenth place. -/
theorem estimate_bounds {p : ℕ} (hlow : leastSqrtPrice ≤ p) (hhigh : p < largestSqrtPrice) :
    (estimate p : ℝ) / 2 ^ 128 * unit ≤ log p - 96 * log 2 + 7e-8 ∧
      log p - 96 * log 2 ≤ (estimate p : ℝ) / 2 ^ 128 * unit + 4.238e-5 := by
  obtain ⟨hp, hrange⟩ := log_mem_range hlow hhigh
  obtain ⟨hlog₁, hlog₂⟩ := logarithm_bounds hp
  obtain ⟨htick₁, htick₂⟩ := abs_le.1 ticksPerDoubling_bounds
  obtain ⟨hrange₁, hrange₂⟩ := abs_le.1 hrange
  have h₃ := log_two_gt_d9
  have h₄ := log_two_lt_d9
  set l : ℝ := (logarithm p : ℝ) / 2 ^ 64 with hl
  have hvalue : (logarithm p : ℝ) = l * 2 ^ 64 := by rw [hl]; ring
  set e : ℝ := (ticksPerDoubling : ℝ) / 2 ^ 64 * unit - log 2 with he
  have hexact : (estimate p : ℝ) / 2 ^ 128 * unit = l * log 2 + l * e := by
    rw [estimate, hl, he]
    push_cast
    ring
  rw [hvalue] at hlog₁ hlog₂
  have hl₁ : l * log 2 ≤ log p - 96 * log 2 := by nlinarith
  have hl₂ : log p - 96 * log 2 ≤ (l + 1 / 2 ^ 14) * log 2 + 1 / 2 ^ 100 := by norm_num at hlog₂ ⊢; nlinarith
  have hlabs : |l| ≤ 65 := by rw [abs_le]; constructor <;> nlinarith
  have heabs : |e| ≤ 1e-9 := by rw [he, abs_le]; constructor <;> norm_num at htick₁ htick₂ ⊢ <;> linarith
  have hle : |l * e| ≤ 6.5e-8 := by
    rw [abs_mul]
    nlinarith [abs_nonneg l, abs_nonneg e]
  obtain ⟨h₅, h₆⟩ := abs_le.1 hle
  rw [hexact]
  constructor <;> norm_num at * <;> linarith

/-- The lower estimate, rounded down, is not above the tick. -/
theorem estimate_lt {p : ℕ} {t : ℤ} (ht : least ≤ t) (ht' : t < largest) (hlow : leastSqrtPrice ≤ p)
    (hhigh : p < largestSqrtPrice) (hnext : p < root (t + 1)) :
    estimate p - 3402992956809132418596140100660247210 < (t + 1) * 2 ^ 128 := by
  obtain ⟨hest, -⟩ := estimate_bounds hlow hhigh
  obtain ⟨-, herr⟩ := log_root (t := t + 1) (by omega) (by omega)
  obtain ⟨hp, -⟩ := log_mem_range hlow hhigh
  obtain ⟨h₁, h₂⟩ := unit_bounds
  have hlog : log p < log (root (t + 1)) := log_lt_log (by exact_mod_cast hp) (by exact_mod_cast hnext)
  have hunits : (estimate p : ℝ) / 2 ^ 128 * unit ≤ (t + 1 : ℝ) * unit + 7.2e-8 := by
    have := (abs_le.1 herr).2
    push_cast at this
    linarith
  have hticks : (estimate p : ℝ) / 2 ^ 128 < t + 1 + 0.01 := by
    by_contra hge
    nlinarith
  have : (estimate p : ℝ) - 3402992956809132418596140100660247210 < (t + 1) * 2 ^ 128 := by linarith
  exact_mod_cast this

/-- The upper estimate, rounded down, is not below the tick. -/
theorem lt_estimate {p : ℕ} {t : ℤ} (ht : least ≤ t) (ht' : t < largest) (hlow : leastSqrtPrice ≤ p)
    (hhigh : p < largestSqrtPrice) (hroot : root t ≤ p) :
    t * 2 ^ 128 ≤ estimate p + 291339464771989622907027621153398088495 := by
  obtain ⟨-, hest⟩ := estimate_bounds hlow hhigh
  obtain ⟨hpos, herr⟩ := log_root ht ht'.le
  obtain ⟨h₁, h₂⟩ := unit_bounds
  have hlog : log (root t) ≤ log p := log_le_log (by exact_mod_cast hpos) (by exact_mod_cast hroot)
  have hunits : (t : ℝ) * unit ≤ (estimate p : ℝ) / 2 ^ 128 * unit + 4.239e-5 := by
    have := (abs_le.1 herr).1
    linarith
  have hticks : (t : ℝ) ≤ (estimate p : ℝ) / 2 ^ 128 + 0.856 := by
    by_contra hlt
    nlinarith
  have : (t : ℝ) * 2 ^ 128 ≤ estimate p + 291339464771989622907027621153398088495 := by linarith
  exact_mod_cast this

/-- **The tick of a root** is the one whose root is the last that is not above it. -/
theorem ofSqrtPrice_eq {p : ℕ} {t : ℤ} (ht : least ≤ t) (ht' : t < largest) (hroot : root t ≤ p)
    (hnext : p < root (t + 1)) : ofSqrtPrice p = .ok t := by
  have hlow : leastSqrtPrice ≤ p := by
    rcases ht.eq_or_lt with rfl | hlt
    · rwa [← root_least]
    · exact root_least ▸ (root_strictMono le_rfl hlt ht'.le).le.trans hroot
  have hhigh : p < largestSqrtPrice := by
    rcases (show t + 1 ≤ largest by omega).eq_or_lt with heq | hlt
    · rwa [← root_largest, ← heq]
    · exact root_largest ▸ hnext.trans (root_strictMono (by omega) hlt le_rfl)
  have h₁ := estimate_lt ht ht' hlow hhigh hnext
  have h₂ := lt_estimate ht ht' hlow hhigh hroot
  have hguard : ¬ (p < leastSqrtPrice ∨ largestSqrtPrice ≤ p) := by omega
  rw [estimate, ticksPerDoubling] at h₁ h₂
  rw [ofSqrtPrice]
  simp only [if_neg hguard]
  generalize logarithm p * 255738958999603826347141 = log at *
  set low := (log - 3402992956809132418596140100660247210) / 2 ^ 128 with hlowdef
  set high := (log + 291339464771989622907027621153398088495) / 2 ^ 128 with hhighdef
  have hle : low ≤ t := by omega
  have hge : t ≤ high := by omega
  have hone : high ≤ low + 1 := by omega
  by_cases hsame : low = high
  · rw [if_pos hsame]
    exact congrArg Except.ok (by omega)
  · -- the estimates are neighbours, so the tick is the higher one unless its root is above `p`
    rw [if_neg hsame, sqrtPrice_eq (by omega) (by omega)]
    change Except.ok (if root high ≤ p then high else low) = _
    rcases hge.eq_or_lt with heq | hlt
    · rw [if_pos (heq ▸ hroot), heq]
    · have hhigh' : high = t + 1 := by omega
      rw [hhigh', if_neg (by omega)]
      exact congrArg Except.ok (by omega)

/-- Every root in the range lies in a tick. -/
theorem exists_tick {p : ℕ} (hlow : leastSqrtPrice ≤ p) (hhigh : p < largestSqrtPrice) :
    ∃ t, least ≤ t ∧ t < largest ∧ root t ≤ p ∧ p < root (t + 1) := by
  have hleast : root least ≤ p := by rwa [root_least]
  obtain ⟨t, ⟨ht, ht', hroot⟩, hmax⟩ := Int.exists_greatest_of_bdd (P := fun t => least ≤ t ∧ t < largest ∧ root t ≤ p)
    ⟨largest, fun t h => h.2.1.le⟩ ⟨least, le_rfl, by decide, hleast⟩
  refine ⟨t, ht, ht', hroot, ?_⟩
  by_contra hnext
  rcases (show t + 1 ≤ largest by omega).eq_or_lt with heq | hlt
  · rw [heq, root_largest] at hnext
    exact hnext hhigh
  · have := hmax (t + 1) ⟨by omega, hlt, not_lt.1 hnext⟩
    omega

/-- A root lies in its tick. -/
theorem ofSqrtPrice_eq_ok {p : ℕ} {t : ℤ} (h : ofSqrtPrice p = .ok t) :
    least ≤ t ∧ t < largest ∧ root t ≤ p ∧ p < root (t + 1) := by
  have hrange : leastSqrtPrice ≤ p ∧ p < largestSqrtPrice := by
    by_contra hout
    have hguard : p < leastSqrtPrice ∨ largestSqrtPrice ≤ p := by omega
    simp only [ofSqrtPrice, if_pos hguard] at h
    cases h
  obtain ⟨s, hs, hs', hroot, hnext⟩ := exists_tick hrange.1 hrange.2
  obtain rfl : s = t := Except.ok.inj ((ofSqrtPrice_eq hs hs' hroot hnext).symm.trans h)
  exact ⟨hs, hs', hroot, hnext⟩

/-- **Ticks and roots convert into each other exactly.** Every root from the least on and below the largest has a
tick, the one whose root is the last that is not above it; and every tick below the largest is the tick of its
root. -/
theorem ofSqrtPrice_inverts :
    (∀ p, leastSqrtPrice ≤ p → p < largestSqrtPrice →
      ∃ t, ofSqrtPrice p = .ok t ∧ least ≤ t ∧ t < largest ∧
        ∃ a b, sqrtPrice t = .ok a ∧ sqrtPrice (t + 1) = .ok b ∧ a ≤ p ∧ p < b) ∧
      ∀ t, least ≤ t → t < largest → (sqrtPrice t).bind ofSqrtPrice = .ok t := by
  constructor
  · intro p hlow hhigh
    obtain ⟨t, ht, ht', hroot, hnext⟩ := exists_tick hlow hhigh
    exact ⟨t, ofSqrtPrice_eq ht ht' hroot hnext, ht, ht', root t, root (t + 1), sqrtPrice_eq ht ht'.le,
      sqrtPrice_eq (by omega) ht', hroot, hnext⟩
  · intro t ht ht'
    rw [sqrtPrice_eq ht ht'.le, Except.bind]
    exact ofSqrtPrice_eq ht ht' le_rfl (root_strictMono ht (by omega) ht')

/-- The last root below that of tick `60` lies in tick `59`, and the least tick is the tick of its root. -/
theorem ofSqrtPrice_inverts_below_sixty :
    leastSqrtPrice ≤ 79466191966197645195421774832 ∧ 79466191966197645195421774832 < largestSqrtPrice ∧
      (∃ t, ofSqrtPrice 79466191966197645195421774832 = .ok t ∧ least ≤ t ∧ t < largest ∧
        ∃ a b, sqrtPrice t = .ok a ∧ sqrtPrice (t + 1) = .ok b ∧ a ≤ 79466191966197645195421774832 ∧
          79466191966197645195421774832 < b) ∧
      least ≤ least ∧ least < largest ∧ (sqrtPrice least).bind ofSqrtPrice = .ok least :=
  ⟨by decide, by decide, ofSqrtPrice_inverts.1 _ (by decide) (by decide), by decide, by decide,
    ofSqrtPrice_inverts.2 least (by decide) (by decide)⟩

end Tick
end Searcher

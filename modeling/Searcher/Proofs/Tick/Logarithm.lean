/-
# The error of the binary logarithm

The logarithm of a root is computed place by place: the root is scaled to `[2 ^ 127, 2 ^ 128)`, and every squaring
moves the next place of its logarithm in front of the point. With exact squares the fourteen places would be those of
the logarithm, rounded down. The squares are rounded down too, which takes less than `2 ^ -120` from a logarithm each
time (`log_squareStep`), and the doublings of later steps are undone by the weights of later places. So what is
computed is never above the logarithm, and below it by less than one unit of the last place and a trifle
(`logarithm_bounds`).
-/

import Searcher.Proofs.Tick.Power

namespace Searcher
namespace Tick

open Real

/-- One place of the logarithm: with exact squares the logarithm of `r` would double, and lose the place. -/
theorem log_squareStep {r : ℕ} (hlow : 2 ^ 127 ≤ r) (hhigh : r < 2 ^ 128) :
    (2 ^ 127 ≤ (squareStep r).2 ∧ (squareStep r).2 < 2 ^ 128) ∧
      let place := (if (squareStep r).1 then 1 else 0) * log 2 + (log (squareStep r).2 - 127 * log 2)
      place ≤ 2 * (log r - 127 * log 2) ∧ 2 * (log r - 127 * log 2) ≤ place + 1 / 2 ^ 120 := by
  have hr : (0 : ℝ) < r := by exact_mod_cast (show 0 < 2 ^ 127 by norm_num).trans_le hlow
  have hsquare : 2 ^ 254 ≤ r * r := (by norm_num : 2 ^ 254 = 2 ^ 127 * 2 ^ 127) ▸ Nat.mul_le_mul hlow hlow
  have hsquare' : r * r < 2 ^ 256 := (by norm_num : 2 ^ 256 = 2 ^ 128 * 2 ^ 128) ▸ Nat.mul_lt_mul'' hhigh hhigh
  have hbounds : ∀ k : ℕ, k ≤ 128 → 2 * log r - k * log 2 - 1 / 2 ^ 120 ≤ log ((r * r / 2 ^ k : ℕ) : ℝ) ∧
      log ((r * r / 2 ^ k : ℕ) : ℝ) ≤ 2 * log r - k * log 2 := by
    intro k hk
    have hexact : log (((r * r : ℕ) : ℝ) / (2 ^ k : ℕ)) = 2 * log r - k * log 2 := by
      rw [log_div (by positivity) (by positivity), Nat.cast_mul, log_mul hr.ne' hr.ne', Nat.cast_pow, log_pow,
        Nat.cast_ofNat]
      ring
    have hquot : (2 : ℝ) ^ 121 ≤ ((r * r : ℕ) : ℝ) / (2 ^ k : ℕ) := by
      rw [le_div_iff₀ (by positivity)]
      have hk' : 2 ^ k ≤ 2 ^ 128 := Nat.pow_le_pow_right (by norm_num) hk
      have : 2 ^ 121 * 2 ^ k ≤ r * r := by omega
      exact_mod_cast this
    obtain ⟨-, hdown, hup⟩ := Checked.log_div_bounds (by positivity) (by norm_num) hquot
    rw [hexact] at hdown hup
    refine ⟨?_, hup⟩
    norm_num at hdown ⊢
    linarith
  unfold squareStep
  by_cases hplace : 2 ^ 128 ≤ r * r / 2 ^ 127
  · obtain ⟨h₁, h₂⟩ := hbounds 128 le_rfl
    have hhalf : r * r / 2 ^ 127 / 2 = r * r / 2 ^ 128 := Nat.div_div_eq_div_mul ..
    simp only [if_pos hplace, hhalf]
    push_cast at h₁ h₂ ⊢
    refine ⟨by omega, ?_, ?_⟩ <;> linarith
  · obtain ⟨h₁, h₂⟩ := hbounds 127 (by norm_num)
    simp only [if_neg hplace]
    push_cast at h₁ h₂ ⊢
    refine ⟨by omega, ?_, ?_⟩ <;> norm_num at h₁ h₂ ⊢ <;> linarith

/-- **The places of the logarithm,** the first of them worth `2 ^ (k - 1)`: rounded down, and not far. -/
theorem logPlaces_bounds {n k r : ℕ} (hn : n ≤ k) (hlow : 2 ^ 127 ≤ r) (hhigh : r < 2 ^ 128) :
    logPlaces n (k - 1) r * log 2 ≤ 2 ^ k * (log r - 127 * log 2) ∧
      2 ^ k * (log r - 127 * log 2) ≤ (logPlaces n (k - 1) r + 2 ^ (k - n)) * log 2 + 2 ^ k * (1 / 2 ^ 120) := by
  induction n generalizing k r with
  | zero =>
    have h₁ : log ((2 : ℝ) ^ 127) ≤ log r := log_le_log (by norm_num) (by exact_mod_cast hlow)
    have h₂ : log r ≤ log ((2 : ℝ) ^ 128) :=
      log_le_log (by exact_mod_cast (show 0 < 2 ^ 127 by norm_num).trans_le hlow) (by exact_mod_cast hhigh.le)
    rw [log_pow] at h₁ h₂
    have hk : (0 : ℝ) < 2 ^ k := by positivity
    simp only [logPlaces, Nat.cast_zero, zero_mul, zero_add, Nat.sub_zero]
    push_cast at h₁ h₂
    refine ⟨mul_nonneg hk.le (by linarith), ?_⟩
    have : 2 ^ k * (log r - 127 * log 2) ≤ 2 ^ k * log 2 := mul_le_mul_of_nonneg_left (by linarith) hk.le
    have : (0 : ℝ) ≤ 2 ^ k * (1 / 2 ^ 120) := by positivity
    linarith
  | succ n ih =>
    obtain ⟨k, rfl⟩ : ∃ j, k = j + 1 := ⟨k - 1, by omega⟩
    obtain ⟨⟨hlow', hhigh'⟩, hplace₁, hplace₂⟩ := log_squareStep hlow hhigh
    obtain ⟨ih₁, ih₂⟩ := ih (k := k) (by omega) hlow' hhigh'
    have hk : (0 : ℝ) < 2 ^ k := by positivity
    have hdiff : k + 1 - (n + 1) = k - n := by omega
    have hvalue : (logPlaces (n + 1) (k + 1 - 1) r : ℝ) =
        (if (squareStep r).1 then 1 else 0) * 2 ^ k + logPlaces n (k - 1) (squareStep r).2 := by
      simp only [logPlaces, Nat.add_sub_cancel]
      split_ifs <;> simp_all
    rw [hvalue, hdiff, pow_succ]
    have h₁ := mul_le_mul_of_nonneg_left hplace₁ hk.le
    have h₂ := mul_le_mul_of_nonneg_left hplace₂ hk.le
    constructor <;> nlinarith

/-- A root with `32` more places, moved by a power of two to `[2 ^ 127, 2 ^ 128)`. -/
def scaled (wide : ℕ) : ℕ :=
  if 128 ≤ wide.log2 then wide / 2 ^ (wide.log2 - 127) else wide * 2 ^ (127 - wide.log2)

/-- The logarithm as whole binary digits and fourteen places after them. -/
theorem logarithm_eq (p : ℕ) :
    logarithm p = ((p * 2 ^ 32).log2 - 128) * 2 ^ 64 + logPlaces 14 63 (scaled (p * 2 ^ 32)) := rfl

/-- A number is scaled to 128 bits by its whole digits. What the scaling drops is less than `2^-120` in logarithms. -/
theorem log_scaled_wide {wide : ℕ} (hpos : 0 < wide) :
    (2 ^ 127 ≤ scaled wide ∧ scaled wide < 2 ^ 128) ∧
      log (scaled wide) ≤ log wide + (127 - wide.log2) * log 2 ∧
      log wide + (127 - wide.log2) * log 2 ≤ log (scaled wide) + 1 / 2 ^ 120 := by
  have hwide : (0 : ℝ) < wide := by exact_mod_cast hpos
  have hmsb := Nat.log2_self_le hpos.ne'
  have hmsb' := Nat.lt_log2_self (n := wide)
  unfold scaled
  generalize wide.log2 = msb at *
  split_ifs with h
  · obtain ⟨k, rfl⟩ : ∃ k, msb = 127 + k := ⟨msb - 127, by omega⟩
    rw [Nat.add_sub_cancel_left]
    have hlow : 2 ^ 127 * 2 ^ k ≤ wide := by rwa [← Nat.pow_add]
    have hhigh : wide < 2 ^ 128 * 2 ^ k := by rw [← Nat.pow_add]; exact (by omega : 127 + k + 1 = 128 + k) ▸ hmsb'
    have hexact : log ((wide : ℝ) / (2 ^ k : ℕ)) = log wide - k * log 2 := by
      rw [log_div hwide.ne' (by positivity), Nat.cast_pow, log_pow, Nat.cast_ofNat]
    have hquot : (2 : ℝ) ^ 121 ≤ (wide : ℝ) / (2 ^ k : ℕ) := by
      rw [le_div_iff₀ (by positivity)]
      have : 2 ^ 121 * 2 ^ k ≤ wide := by omega
      exact_mod_cast this
    obtain ⟨-, hdown, hup⟩ := Checked.log_div_bounds (by positivity) (by norm_num) hquot
    rw [hexact] at hdown hup
    push_cast at hdown hup ⊢
    have hrange := And.intro ((Nat.le_div_iff_mul_le (by positivity)).2 hlow)
      ((Nat.div_lt_iff_lt_mul (by positivity)).2 hhigh)
    exact ⟨hrange, by linarith, by linarith⟩
  · obtain ⟨k, hk⟩ : ∃ k, msb + k = 127 := ⟨127 - msb, by omega⟩
    have hdiff : 127 - msb = k := by omega
    have hcast : (127 : ℝ) - msb = k := by rw [sub_eq_iff_eq_add']; exact_mod_cast hk.symm
    rw [hdiff, hcast]
    have hlow : 2 ^ msb * 2 ^ k ≤ wide * 2 ^ k := Nat.mul_le_mul_right _ hmsb
    have hhigh : wide * 2 ^ k < 2 ^ (msb + 1) * 2 ^ k := Nat.mul_lt_mul_of_pos_right hmsb' (by positivity)
    rw [← Nat.pow_add] at hlow hhigh
    rw [hk] at hlow
    rw [show msb + 1 + k = 128 by omega] at hhigh
    have hexact : log ((wide * 2 ^ k : ℕ) : ℝ) = log wide + k * log 2 := by
      rw [Nat.cast_mul, log_mul hwide.ne' (by positivity), Nat.cast_pow, log_pow, Nat.cast_ofNat]
    rw [hexact]
    exact ⟨⟨hlow, hhigh⟩, le_rfl, by norm_num⟩

/-- **The logarithm of a root, to fourteen places.** It is rounded down, by less than one unit of the last place, and
the squarings add next to nothing. -/
theorem logarithm_bounds {p : ℕ} (hp : 0 < p) :
    logarithm p * log 2 ≤ 2 ^ 64 * (log p - 96 * log 2) ∧
      2 ^ 64 * (log p - 96 * log 2) ≤ (logarithm p + 2 ^ 50) * log 2 + 1 / 2 ^ 50 := by
  have hp' : (0 : ℝ) < p := by exact_mod_cast hp
  have hwide : log ((p * 2 ^ 32 : ℕ) : ℝ) = log p + 32 * log 2 := by
    rw [Nat.cast_mul, log_mul hp'.ne' (by norm_num), Nat.cast_pow, log_pow]
    norm_num
  obtain ⟨⟨hlow, hhigh⟩, hscaled₁, hscaled₂⟩ := log_scaled_wide (show 0 < p * 2 ^ 32 by positivity)
  obtain ⟨h₁, h₂⟩ := logPlaces_bounds (n := 14) (k := 64) (by norm_num) hlow hhigh
  rw [hwide] at hscaled₁ hscaled₂
  rw [logarithm_eq]
  push_cast at h₁ h₂ ⊢
  norm_num at h₁ h₂ hscaled₁ hscaled₂ ⊢
  constructor <;> linarith

end Tick
end Searcher

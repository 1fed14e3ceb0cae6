/-
# The cube root in seven steps

Newton's steps for the cube root of `v` go from `a` to a third of `2 a + v / a ^ 2`, with both quotients rounded down.
Let `s` be the root rounded down (`IsCubeFloor`) and `t = s + 1`, so that `s ^ 3 ≤ v < t ^ 3`.

* By the inequality of the means no step leads below `s` (`le_cubeStep`).
* A step from `a` leads to at most `(a - t) ^ 2 (2 a + t) / 3 a ^ 2` above `t`. From one part in `m` above `t` that is
  one part in `m ^ 2` (`Near.step`), so after `n` steps it is one part in `m ^ (2 ^ n)` (`Near.iterate`).
* The start is a power of two, times `1.26` for each bit that the exponent leaves over; `1.26 ^ 3` is a little more than
  two. So the root lies between `10 / 11` and `1.265` of the start (`start_cubed_le`, `lt_start_succ_cubed`), and the
  first step leads to a sixteenth above `t` at most (`near_cubeStep`).

The six steps that are left lead to one part in `16 ^ 64 = 2 ^ 256`, which is less than a unit: where the steps end is
`s` or `t` (`cubeRoot_bounds`). A little below the cube of `t` the last steps go to and fro between the two. Since no
step is far above the root, all of them have room in the 256 bits of `v` (`stepsFit`).
-/

import Searcher.Curve.Cubic
import Searcher.Proofs.SquareRoot
import Mathlib.Algebra.Order.Ring.Nat
import Mathlib.Logic.Function.Iterate
import Mathlib.Tactic.IntervalCases
import Mathlib.Tactic.Linarith
import Mathlib.Tactic.Positivity
import Mathlib.Tactic.Ring
import Mathlib.Tactic.Zify

namespace Searcher
namespace Root

variable {value s a m x : ℕ}

/-- `s` is the cube root of `value` rounded down. -/
structure IsCubeFloor (value s : ℕ) : Prop where
  le : s ^ 3 ≤ value
  lt : value < (s + 1) ^ 3

/-- `a` is not below `s`, and above `s + 1` by at most one part in `m`. -/
structure Near (s m a : ℕ) : Prop where
  floor_le : s ≤ a
  le : m * a ≤ (m + 1) * (s + 1)

/-! ### One step -/

/-- The mean of three cubes is not below the product of their roots. -/
theorem three_mul_le (s a : ℕ) : 3 * s * a ^ 2 ≤ s ^ 3 + 2 * a ^ 3 := by
  have h : (0 : ℤ) ≤ ((s : ℤ) - a) ^ 2 * (s + 2 * a) := by positivity
  zify
  linarith

/-- A step cleared of its divisions. -/
theorem cubeStep_mul_le (value a : ℕ) : 3 * a ^ 2 * cubeStep value a ≤ 2 * a ^ 3 + value :=
  calc 3 * a ^ 2 * cubeStep value a = a * a * (3 * cubeStep value a) := by ring
    _ ≤ a * a * (2 * a + value / (a * a)) := Nat.mul_le_mul_left _ (Nat.mul_div_le _ _)
    _ = 2 * a ^ 3 + a * a * (value / (a * a)) := by ring
    _ ≤ 2 * a ^ 3 + value := Nat.add_le_add_left (Nat.mul_div_le _ _) _

/-- No step leads below the root. -/
theorem le_cubeStep (hs : s ^ 3 ≤ value) (ha : 0 < a) : s ≤ cubeStep value a := by
  rw [cubeStep, Nat.le_div_iff_mul_le (by decide)]
  rcases Nat.le_total (s * 3) (2 * a) with h | h
  · exact h.trans (Nat.le_add_right _ _)
  · obtain ⟨d, hd⟩ := Nat.exists_eq_add_of_le h
    have hsquare : 0 < a * a := Nat.mul_pos ha ha
    have hmeans := three_mul_le s a
    have hquotient : d ≤ value / (a * a) := (Nat.le_div_iff_mul_le hsquare).2 (by nlinarith)
    omega

/-- From the root rounded down a step leads one unit up at most. -/
theorem cubeStep_floor_le (hs : 2 ≤ s) (hlt : value < (s + 1) ^ 3) : cubeStep value s ≤ s + 1 := by
  have hstep := cubeStep_mul_le value s
  by_contra! hfar
  have hfar : 3 * s ^ 2 * (s + 2) ≤ 3 * s ^ 2 * cubeStep value s := Nat.mul_le_mul_left _ hfar
  nlinarith

/-- From above a step leads to the square of the distance, taken as a part of where it begins. -/
theorem mul_cubeStep_le {t e : ℕ} (ht : 0 < t) (hlt : value < t ^ 3) :
    (t + e) * cubeStep value (t + e) ≤ (t + e) * t + e ^ 2 := by
  have ha : 0 < 3 * (t + e) := by omega
  refine Nat.le_of_mul_le_mul_left ?_ ha
  calc 3 * (t + e) * ((t + e) * cubeStep value (t + e)) = 3 * (t + e) ^ 2 * cubeStep value (t + e) := by ring
    _ ≤ 2 * (t + e) ^ 3 + value := cubeStep_mul_le value (t + e)
    _ ≤ 2 * (t + e) ^ 3 + t ^ 3 + e ^ 3 := by omega
    _ = 3 * (t + e) * ((t + e) * t + e ^ 2) := by ring

/-- **A step squares the distance.** -/
theorem Near.step (hroot : IsCubeFloor value s) (hs : 2 ≤ s) (h : Near s m a) : Near s (m ^ 2) (cubeStep value a) := by
  have hfloor := h.floor_le
  refine ⟨le_cubeStep hroot.le (by omega), ?_⟩
  rcases Nat.lt_or_ge a (s + 1) with hbelow | habove
  · obtain rfl : a = s := by omega
    exact Nat.mul_le_mul (Nat.le_succ _) (cubeStep_floor_le hs hroot.lt)
  · obtain ⟨e, rfl⟩ := Nat.exists_eq_add_of_le habove
    have ha : 0 < s + 1 + e := by omega
    have hpart : m * e ≤ s + 1 := by
      have hle := h.le
      rw [Nat.mul_add, Nat.succ_mul] at hle
      omega
    refine Nat.le_of_mul_le_mul_left ?_ ha
    calc (s + 1 + e) * (m ^ 2 * cubeStep value (s + 1 + e))
        = m ^ 2 * ((s + 1 + e) * cubeStep value (s + 1 + e)) := by ring
      _ ≤ m ^ 2 * ((s + 1 + e) * (s + 1) + e ^ 2) :=
        Nat.mul_le_mul_left _ (mul_cubeStep_le (Nat.succ_pos s) hroot.lt)
      _ = m ^ 2 * ((s + 1 + e) * (s + 1)) + (m * e) ^ 2 := by ring
      _ ≤ m ^ 2 * ((s + 1 + e) * (s + 1)) + (s + 1 + e) * (s + 1) := by
        rw [sq (m * e)]
        exact Nat.add_le_add_left (Nat.mul_le_mul (hpart.trans (Nat.le_add_right _ _)) hpart) _
      _ = (s + 1 + e) * ((m ^ 2 + 1) * (s + 1)) := by ring

/-- After `n` steps the distance has been squared `n` times. -/
theorem Near.iterate (hroot : IsCubeFloor value s) (hs : 2 ≤ s) (h : Near s m a) (n : ℕ) :
    Near s (m ^ 2 ^ n) ((cubeStep value)^[n] a) := by
  induction n with
  | zero => simpa using h
  | succ n ih =>
    rw [Function.iterate_succ_apply', pow_succ 2 n, pow_mul]
    exact ih.step hroot hs

/-- Less than one unit above `s + 1` is nothing above it. -/
theorem Near.le_succ (h : Near s m a) (hm : s + 1 < m) : a ≤ s + 1 := by
  by_contra! hfar
  have hfar : m * (s + 2) ≤ m * a := Nat.mul_le_mul_left _ hfar
  have hle := h.le
  nlinarith

/-! ### The start and the first step -/

/-- From where the steps begin. -/
def cubeStart (value : ℕ) : ℕ :=
  2 ^ ((bitLength value - 1) / 3) * 1260 ^ ((bitLength value - 1) % 3) / 1000 ^ ((bitLength value - 1) % 3)

/-- The root is found in seven steps from a start that depends on the digits of the value alone. -/
theorem cubeRoot_eq (value : ℕ) : cubeRoot value = (cubeStep value)^[7] (cubeStart value) :=
  List.foldl_const _ _ _

/-- The bits that the exponent leaves over, as a factor of the start. -/
theorem leftOver_bounds {r : ℕ} (hr : r < 3) :
    1000 * (1260 ^ r) ^ 3 ≤ 1331 * (2 ^ r * (1000 ^ r) ^ 3) ∧ 2 ^ r * (1000 ^ r) ^ 3 ≤ (1260 ^ r) ^ 3 := by
  interval_cases r <;> decide

/-- The power of two below a number, and the bits of its exponent. -/
theorem two_pow_bounds (hvalue : value ≠ 0) :
    let p := 2 ^ ((bitLength value - 1) / 3)
    let r := (bitLength value - 1) % 3
    p ^ 3 * 2 ^ r ≤ value ∧ value < 2 * (p ^ 3 * 2 ^ r) := by
  intro p r
  have hexponent : (bitLength value - 1) / 3 * 3 + (bitLength value - 1) % 3 = value.log2 := by
    rw [bitLength, if_neg hvalue]
    omega
  have hlog : p ^ 3 * 2 ^ r = 2 ^ value.log2 := by rw [← pow_mul, ← pow_add, hexponent]
  rw [hlog, ← pow_succ']
  exact ⟨Nat.log2_self_le hvalue, Nat.lt_log2_self⟩

/-- The start is at most a tenth above the root. -/
theorem start_cubed_le (hvalue : value ≠ 0) : 1000 * cubeStart value ^ 3 ≤ 1331 * value := by
  obtain ⟨hle, -⟩ := two_pow_bounds hvalue
  set p := 2 ^ ((bitLength value - 1) / 3)
  set r := (bitLength value - 1) % 3
  have hscale : 0 < (1000 ^ r) ^ 3 := by positivity
  refine Nat.le_of_mul_le_mul_right ?_ hscale
  calc 1000 * cubeStart value ^ 3 * (1000 ^ r) ^ 3 = 1000 * (cubeStart value * 1000 ^ r) ^ 3 := by ring
    _ ≤ 1000 * (p * 1260 ^ r) ^ 3 := Nat.mul_le_mul_left _ (Nat.pow_le_pow_left (Nat.div_mul_le_self _ _) 3)
    _ = p ^ 3 * (1000 * (1260 ^ r) ^ 3) := by ring
    _ ≤ p ^ 3 * (1331 * (2 ^ r * (1000 ^ r) ^ 3)) :=
      Nat.mul_le_mul_left _ (leftOver_bounds (Nat.mod_lt _ (by decide))).1
    _ = 1331 * (p ^ 3 * 2 ^ r) * (1000 ^ r) ^ 3 := by ring
    _ ≤ 1331 * value * (1000 ^ r) ^ 3 := Nat.mul_le_mul_right _ (Nat.mul_le_mul_left _ hle)

/-- Twice the cube of the next number is above the value. -/
theorem lt_start_succ_cubed (hvalue : value ≠ 0) : value < 2 * (cubeStart value + 1) ^ 3 := by
  obtain ⟨-, hlt⟩ := two_pow_bounds hvalue
  set p := 2 ^ ((bitLength value - 1) / 3)
  set r := (bitLength value - 1) % 3
  have hscale : 0 < (1000 ^ r) ^ 3 := by positivity
  have hnext : p * 1260 ^ r < (cubeStart value + 1) * 1000 ^ r := by
    rw [Nat.mul_comm (cubeStart value + 1)]
    exact Nat.lt_mul_div_succ _ (by positivity)
  have hpower : p ^ 3 * 2 ^ r ≤ (cubeStart value + 1) ^ 3 := by
    refine Nat.le_of_mul_le_mul_right ?_ hscale
    calc p ^ 3 * 2 ^ r * (1000 ^ r) ^ 3 = p ^ 3 * (2 ^ r * (1000 ^ r) ^ 3) := by ring
      _ ≤ p ^ 3 * (1260 ^ r) ^ 3 := Nat.mul_le_mul_left _ (leftOver_bounds (Nat.mod_lt _ (by decide))).2
      _ = (p * 1260 ^ r) ^ 3 := by ring
      _ ≤ ((cubeStart value + 1) * 1000 ^ r) ^ 3 := Nat.pow_le_pow_left hnext.le 3
      _ = (cubeStart value + 1) ^ 3 * (1000 ^ r) ^ 3 := by ring
  exact hlt.trans_le (Nat.mul_le_mul_left 2 hpower)

/-- The room for the first step: a cubic in `t / a` that is not positive between `10 / 11` and `1.265`. -/
theorem cubic_le {t : ℕ} (habove : 10 * a ≤ 11 * t) (hbelow : 200 * t ≤ 253 * a) :
    16 * t ^ 3 + 32 * a ^ 3 ≤ 51 * (a ^ 2 * t) := by
  zify at *
  have hbetween : 0 ≤ (11 * (t : ℤ) - 10 * a) * (253 * a - 200 * t) :=
    mul_nonneg (sub_nonneg.2 habove) (sub_nonneg.2 hbelow)
  nlinarith [mul_nonneg hbetween (Int.natCast_nonneg t), mul_nonneg hbetween (Int.natCast_nonneg a),
    mul_nonneg (sq_nonneg (a : ℤ)) (sub_nonneg.2 hbelow)]

/-- **The first step** leads to a sixteenth above the root. -/
theorem near_cubeStep (hroot : IsCubeFloor value s) (hs : 1000 ≤ s) (hle : 1000 * a ^ 3 ≤ 1331 * value)
    (hlt : value < 2 * (a + 1) ^ 3) : Near s 16 (cubeStep value a) := by
  have habove : 10 * a < 11 * (s + 1) := by
    refine lt_of_pow_lt_pow_left₀ 3 (Nat.zero_le _) ?_
    have hlt := hroot.lt
    nlinarith
  have hbelow : 50 * s < 63 * (a + 1) := by
    refine lt_of_pow_lt_pow_left₀ 3 (Nat.zero_le _) ?_
    have hle := hroot.le
    nlinarith
  have ha : 0 < a := by omega
  refine ⟨le_cubeStep hroot.le ha, ?_⟩
  by_contra! hfar
  have hcubic : 16 * (s + 1) ^ 3 + 32 * a ^ 3 ≤ 51 * (a ^ 2 * (s + 1)) := cubic_le habove.le (by omega)
  have hstep := cubeStep_mul_le value a
  have hroot := hroot.lt
  have hfar : 3 * a ^ 2 * (17 * (s + 1)) ≤ 3 * a ^ 2 * (16 * cubeStep value a) := Nat.mul_le_mul_left _ hfar.le
  nlinarith

/-! ### All steps -/

/-- A root of thirty-six decimals is at least a thousand. -/
theorem IsCubeFloor.thousand_le (hroot : IsCubeFloor value s) (hlarge : 10 ^ 36 ≤ value) : 1000 ≤ s := by
  by_contra! hsmall
  have hcube : (s + 1) ^ 3 ≤ 1000 ^ 3 := Nat.pow_le_pow_left hsmall 3
  have hlt := hroot.lt
  omega

/-- The root of a number of 256 bits. -/
theorem IsCubeFloor.lt_two_pow (hroot : IsCubeFloor value s) (hfit : value < wordSize) : s < 2 ^ 86 :=
  lt_of_pow_lt_pow_left₀ 3 (Nat.zero_le _) ((hroot.le.trans_lt hfit).trans (by decide))

/-- Where the steps stand after the first and `n` more. -/
theorem near_iterate_succ (hroot : IsCubeFloor value s) (hlarge : 10 ^ 36 ≤ value) (n : ℕ) :
    Near s (16 ^ 2 ^ n) ((cubeStep value)^[n + 1] (cubeStart value)) := by
  have hs := hroot.thousand_le hlarge
  have hvalue : value ≠ 0 := by omega
  have hfirst := near_cubeStep hroot hs (start_cubed_le hvalue) (lt_start_succ_cubed hvalue)
  exact hfirst.iterate hroot (by omega) n

/-- **Seven steps are enough** for zero, and for a number of 256 bits that has thirty-six decimals. -/
theorem cubeRoot_bounds (hroot : IsCubeFloor value s) (hrange : value = 0 ∨ 10 ^ 36 ≤ value)
    (hfit : value < wordSize) : s ≤ cubeRoot value ∧ cubeRoot value ≤ s + 1 := by
  rcases hrange with rfl | hlarge
  · have hzero : s = 0 := eq_zero_of_pow_eq_zero (Nat.le_zero.1 hroot.le)
    subst hzero
    decide
  · have hlast := near_iterate_succ hroot hlarge 6
    have hpart : s + 1 < 16 ^ 2 ^ 6 := (Nat.succ_lt_succ (hroot.lt_two_pow hfit)).trans (by decide)
    rw [cubeRoot_eq]
    exact ⟨hlast.floor_le, hlast.le_succ hpart⟩

/-- The start and the steps from it have room in 256 bits. -/
structure StepsFit (value : ℕ) : Prop where
  start : 2 ^ ((bitLength value - 1) / 3) * 1260 ^ ((bitLength value - 1) % 3) < wordSize
  square : ∀ n < 7, (cubeStep value)^[n] (cubeStart value) * (cubeStep value)^[n] (cubeStart value) < wordSize
  sum : ∀ n < 7, 2 * (cubeStep value)^[n] (cubeStart value) +
    value / ((cubeStep value)^[n] (cubeStart value) * (cubeStep value)^[n] (cubeStart value)) < wordSize

/-- Neither the start nor a step is far above the root. -/
theorem iterate_lt (hroot : IsCubeFloor value s) (hlarge : 10 ^ 36 ≤ value) (hfit : value < wordSize) (n : ℕ) :
    (cubeStep value)^[n] (cubeStart value) < 2 ^ 88 := by
  rcases n with _ | n
  · have hstart : 1000 * cubeStart value ^ 3 < 1000 * (2 ^ 88) ^ 3 :=
      calc 1000 * cubeStart value ^ 3 ≤ 1331 * value := start_cubed_le (by omega)
        _ < 1331 * wordSize := Nat.mul_lt_mul_of_pos_left hfit (by decide)
        _ ≤ 1000 * (2 ^ 88) ^ 3 := by decide
    exact lt_of_pow_lt_pow_left₀ 3 (Nat.zero_le _) (Nat.lt_of_mul_lt_mul_left hstart)
  · have hpart : 0 < 16 ^ 2 ^ n := by positivity
    have hnear : 16 ^ 2 ^ n * (cubeStep value)^[n + 1] (cubeStart value) ≤ 16 ^ 2 ^ n * (2 * (s + 1)) :=
      calc 16 ^ 2 ^ n * (cubeStep value)^[n + 1] (cubeStart value) ≤ (16 ^ 2 ^ n + 1) * (s + 1) :=
          (near_iterate_succ hroot hlarge n).le
        _ ≤ (16 ^ 2 ^ n * 2) * (s + 1) := Nat.mul_le_mul_right _ (by omega)
        _ = 16 ^ 2 ^ n * (2 * (s + 1)) := Nat.mul_assoc _ _ _
    have hle := Nat.le_of_mul_le_mul_left hnear hpart
    have hs := hroot.lt_two_pow hfit
    omega

/-- **No step leaves 256 bits.** -/
theorem stepsFit (hroot : IsCubeFloor value s) (hrange : value = 0 ∨ 10 ^ 36 ≤ value) (hfit : value < wordSize) :
    StepsFit value := by
  rcases hrange with rfl | hlarge
  · exact ⟨by decide, by decide, by decide⟩
  have hsmall := iterate_lt hroot hlarge hfit
  refine ⟨?_, fun n _ => ?_, fun n _ => ?_⟩
  · have hlength : bitLength value ≤ 256 := bitLength_le hfit
    calc 2 ^ ((bitLength value - 1) / 3) * 1260 ^ ((bitLength value - 1) % 3) ≤ 2 ^ 85 * 1260 ^ 2 :=
        Nat.mul_le_mul (Nat.pow_le_pow_right (by decide) (by omega)) (Nat.pow_le_pow_right (by decide) (by omega))
      _ < wordSize := by decide
  · calc (cubeStep value)^[n] (cubeStart value) * (cubeStep value)^[n] (cubeStart value) ≤ 2 ^ 88 * 2 ^ 88 :=
        Nat.mul_le_mul (hsmall n).le (hsmall n).le
      _ < wordSize := by decide
  · -- A third of the sum is where the next step begins.
    have hnext := hsmall (n + 1)
    rw [Function.iterate_succ_apply'] at hnext
    exact ((Nat.div_lt_iff_lt_mul (by decide)).1 hnext).trans (by decide)

/-- Every number has a cube root rounded down. -/
theorem exists_isCubeFloor (value : ℕ) : ∃ s, IsCubeFloor value s := by
  have hexists : ∃ n, value < (n + 1) ^ 3 :=
    ⟨value, Nat.lt_of_lt_of_le (Nat.lt_succ_self _) (Nat.le_self_pow (by decide) _)⟩
  refine ⟨Nat.find hexists, ?_, Nat.find_spec hexists⟩
  rcases h : Nat.find hexists with _ | n
  · exact Nat.zero_le _
  · exact Nat.not_lt.1 (Nat.find_min hexists (by omega))

/-! ### Eighteen decimals -/

/-- What a number is multiplied by before the root is taken: as many decimals as leave it within 256 bits. -/
def radicandFactor (x : ℕ) : ℕ :=
  if decimalsLimit * e18 ≤ x then 1 else if decimalsLimit ≤ x then 10 ^ 18 else 10 ^ 36

/-- What the root is multiplied by: a third of the decimals that were left out. -/
def rootFactor (x : ℕ) : ℕ :=
  if decimalsLimit * e18 ≤ x then 10 ^ 12 else if decimalsLimit ≤ x then 10 ^ 6 else 1

/-- The root of a price is that of the price raised by a factor, which is made good afterwards. -/
theorem cbrt_eq (x : ℕ) : cbrt x = cubeRoot (x * radicandFactor x) * rootFactor x := by
  unfold cbrt radicandFactor rootFactor
  split_ifs
  · rw [Nat.mul_one]
  · rfl
  · rw [Nat.mul_one]

/-- No range of numbers takes on more decimals than there is room for. -/
theorem mul_radicandFactor_lt (hx : x < wordSize) : x * radicandFactor x < wordSize := by
  have hlimit : decimalsLimit * 10 ^ 36 < wordSize := by decide
  unfold radicandFactor
  split_ifs with hlarge hmiddle
  · rwa [Nat.mul_one]
  · calc x * 10 ^ 18 ≤ decimalsLimit * e18 * 10 ^ 18 := Nat.mul_le_mul_right _ (Nat.not_le.1 hlarge).le
      _ = decimalsLimit * 10 ^ 36 := by rw [Nat.mul_assoc]; rfl
      _ < wordSize := hlimit
  · exact (Nat.mul_le_mul_right _ (Nat.not_le.1 hmiddle).le).trans_lt hlimit

/-- Where it is not zero, a number has thirty-six decimals when the root is taken. -/
theorem radicandFactor_range (x : ℕ) : x * radicandFactor x = 0 ∨ 10 ^ 36 ≤ x * radicandFactor x := by
  have hlimit : 10 ^ 36 ≤ decimalsLimit := by decide
  unfold radicandFactor
  split_ifs with hlarge hmiddle
  · rw [Nat.mul_one]
    exact .inr (hlimit.trans ((Nat.le_mul_of_pos_right _ (by decide)).trans hlarge))
  · exact .inr (hlimit.trans (hmiddle.trans (Nat.le_mul_of_pos_right _ (by decide))))
  · rcases Nat.eq_zero_or_pos x with rfl | hpos
    · exact .inl (Nat.zero_mul _)
    · exact .inr (Nat.le_mul_of_pos_left _ hpos)

/-- The root of a number of 256 bits has room for its own decimals. -/
theorem mul_rootFactor_lt (x : ℕ) (hs : s < 2 ^ 86) (ha : a ≤ s + 1) : a * rootFactor x < wordSize := by
  have hfactor : rootFactor x ≤ 10 ^ 12 := by
    unfold rootFactor
    split_ifs <;> decide
  calc a * rootFactor x ≤ 2 ^ 86 * 10 ^ 12 := Nat.mul_le_mul (ha.trans hs) hfactor
    _ < wordSize := by decide

/-- **The cube root is the floored one or the next number.** A number of 256 bits is multiplied by as many decimals as
leave it there, the steps towards the root of the product leave 256 bits nowhere, and where they end is off by one unit
at most. The root gets its own decimals at last, for which there is room as well. -/
theorem cbrt_floorOrNext (hx : x < wordSize) :
    x * radicandFactor x < wordSize ∧ StepsFit (x * radicandFactor x) ∧
      ∃ s a, s ^ 3 ≤ x * radicandFactor x ∧ x * radicandFactor x < (s + 1) ^ 3 ∧
        s ≤ a ∧ a ≤ s + 1 ∧ cbrt x = a * rootFactor x ∧ a * rootFactor x < wordSize := by
  have hfit := mul_radicandFactor_lt hx
  have hrange := radicandFactor_range x
  obtain ⟨s, hroot⟩ := exists_isCubeFloor (x * radicandFactor x)
  obtain ⟨hle, hle'⟩ := cubeRoot_bounds hroot hrange hfit
  have hroom := mul_rootFactor_lt x (hroot.lt_two_pow hfit) hle'
  exact ⟨hfit, stepsFit hroot hrange hfit, s, cubeRoot (x * radicandFactor x), hroot.le, hroot.lt, hle, hle', cbrt_eq x,
    hroom⟩

/-- One unit below a cube. The last steps go to and fro between the floored root `10 ^ 20 - 1` and the next number, and
the seventh ends at the next one. -/
theorem cbrt_floorOrNext_toAndFro :
    let x := 10 ^ 42 - 1
    x < wordSize ∧ cbrt x = 10 ^ 20 * 10 ^ 6 ∧ x * 10 ^ 18 < (10 ^ 20) ^ 3 ∧
      x * radicandFactor x < wordSize ∧ StepsFit (x * radicandFactor x) ∧
      ∃ s a, s ^ 3 ≤ x * radicandFactor x ∧ x * radicandFactor x < (s + 1) ^ 3 ∧
        s ≤ a ∧ a ≤ s + 1 ∧ cbrt x = a * rootFactor x ∧ a * rootFactor x < wordSize := by
  intro x
  have hx : x < wordSize := by decide
  exact ⟨hx, by decide +kernel, by decide, cbrt_floorOrNext hx⟩

end Root
end Searcher

/-
# The square root rounded down

Newton's steps for the root of `v` go from `x` to the mean of `x` and `v / x`, rounded down. By the inequality of the
two means no step leads below the root (`sqrt_le_newton`), and a step that does not descend begins at the root itself
(`le_sqrt_of_newton_le`). The first value is a power of two above the root, so where the steps stop is the root
(`isqrt_eq_sqrt`), and its square is the last one that is not above `v`.

Numbers of 256 bits, and of any other width from four bits on, have room for all of it: the start has about half the
bits of `v`, no later number is above it, and a number that is not below the root divides `v` into hardly more than the
root. So a run that gives up where a sum needs another bit never does (`isqrtWithin_eq_some`).
-/

import Searcher.Checked
import Mathlib.Data.Nat.Sqrt
import Mathlib.Algebra.Order.Ring.Nat
import Mathlib.Tactic.Linarith

namespace Searcher
namespace Root

variable {value x : ℕ}

/-- **No step leads below the root.** If `x ≥ 2s` its half is enough. Otherwise `x = 2s - d` has a quotient of at
least `d`, by the inequality of the two means. -/
theorem sqrt_le_newton (hx : 0 < x) : Nat.sqrt value ≤ (x + value / x) / 2 := by
  set s := Nat.sqrt value
  have hs : s * s ≤ value := Nat.sqrt_le value
  rw [Nat.le_div_iff_mul_le (by decide)]
  rcases Nat.le_total (s * 2) x with h | h
  · exact h.trans (Nat.le_add_right _ _)
  · obtain ⟨d, hd⟩ := Nat.exists_eq_add_of_le h
    have hmeans : 4 * d * x ≤ (d + x) ^ 2 := four_mul_le_sq_add d x
    rw [Nat.add_comm d x, ← hd] at hmeans
    have hquotient : d ≤ value / x := (Nat.le_div_iff_mul_le hx).2 (by nlinarith)
    omega

/-- A step that does not descend starts at the root or below it: its quotient is at least `x`, so `x²` is within the
value. -/
theorem le_sqrt_of_newton_le (h : x ≤ (x + value / x) / 2) : x ≤ Nat.sqrt value := by
  rcases Nat.eq_zero_or_pos x with rfl | hx
  · exact Nat.zero_le _
  · have hquotient : x ≤ value / x := by omega
    exact Nat.le_sqrt.2 ((Nat.le_div_iff_mul_le hx).1 hquotient)

/-- From a value that is not below the root the steps descend to the root. -/
theorem descend_eq_sqrt (h : Nat.sqrt value ≤ x) : descend value x = Nat.sqrt value := by
  induction x using descend.induct value with
  | case1 x y hy ih =>
    have hx : 0 < x := Nat.lt_of_le_of_lt (Nat.zero_le _) hy
    rw [descend, if_pos hy]
    exact ih (sqrt_le_newton hx)
  | case2 x y hy =>
    rw [descend, if_neg hy]
    exact Nat.le_antisymm (le_sqrt_of_newton_le (Nat.not_lt.1 hy)) h

/-- The start is above the root: it has half the digits of the value, rounded up. -/
theorem sqrt_lt_start (hvalue : value ≠ 0) : Nat.sqrt value < 2 ^ ((bitLength value + 1) / 2) := by
  rw [bitLength, if_neg hvalue, Nat.sqrt_lt, ← Nat.pow_add]
  exact Nat.lt_of_lt_of_le Nat.lt_log2_self (Nat.pow_le_pow_right (by decide) (by omega))

/-- **Newton's steps stop at the root.** -/
theorem isqrt_eq_sqrt (value : ℕ) : isqrt value = Nat.sqrt value := by
  rw [isqrt]
  split
  · rename_i hsmall
    obtain rfl | rfl : value = 0 ∨ value = 1 := by omega
    · rfl
    · rfl
  · exact descend_eq_sqrt (Nat.le_of_lt (sqrt_lt_start (by omega)))

/-- The square of the root found is within the value. -/
theorem isqrt_sq_le (value : ℕ) : isqrt value ^ 2 ≤ value := by
  rw [isqrt_eq_sqrt]
  exact Nat.sqrt_le' value

/-- The square of the next number is not. -/
theorem lt_isqrt_succ_sq (value : ℕ) : value < (isqrt value + 1) ^ 2 := by
  rw [isqrt_eq_sqrt]
  exact Nat.lt_succ_sqrt' value

/-- **The root is the largest number whose square is within the value.**. -/
theorem le_isqrt : x ≤ isqrt value ↔ x ^ 2 ≤ value := by
  rw [isqrt_eq_sqrt]
  exact Nat.le_sqrt'

/-! ### In numbers of some bits -/

/-- Newton's steps in numbers of some bits. They give up where they would divide by zero or a sum has more bits. -/
def descendWithin (bits value x : ℕ) : Option ℕ :=
  if x = 0 ∨ 2 ^ bits ≤ x + value / x then none
  else
    let y := (x + value / x) / 2
    if y < x then descendWithin bits value y else some x
termination_by x

/-- The square root in numbers of some bits. It gives up where the start has more, or the steps give up. -/
def isqrtWithin (bits value : ℕ) : Option ℕ :=
  if value < 2 then some value
  else if 2 ^ bits ≤ 2 ^ ((bitLength value + 1) / 2) then none
  else descendWithin bits value (2 ^ ((bitLength value + 1) / 2))

/-- The quotient by a number that is not below the root is hardly above the root. -/
theorem div_le_sqrt_add_two (hvalue : value ≠ 0) (hx : Nat.sqrt value ≤ x) : value / x ≤ Nat.sqrt value + 2 := by
  have hpos : 0 < Nat.sqrt value := Nat.sqrt_pos.2 (Nat.pos_of_ne_zero hvalue)
  have hlt : value < (Nat.sqrt value + 1) * (Nat.sqrt value + 1) := Nat.lt_succ_sqrt value
  have hroot : value / Nat.sqrt value < Nat.sqrt value + 3 := (Nat.div_lt_iff_lt_mul hpos).2 (by nlinarith)
  exact (Nat.div_le_div_left hx hpos).trans (Nat.le_of_lt_succ hroot)

/-- **Steps that have room for their sums do not give up.** -/
theorem descendWithin_eq_some {bits bound : ℕ} (hvalue : value ≠ 0) (hbound : bound + (Nat.sqrt value + 2) < 2 ^ bits)
    (hroot : Nat.sqrt value ≤ x) (hx : x ≤ bound) : descendWithin bits value x = some (descend value x) := by
  have hroom : ∀ y, Nat.sqrt value ≤ y → y ≤ bound → ¬ (y = 0 ∨ 2 ^ bits ≤ y + value / y) := by
    intro y hroot hy
    have hpos : 0 < Nat.sqrt value := Nat.sqrt_pos.2 (Nat.pos_of_ne_zero hvalue)
    have hquotient := div_le_sqrt_add_two hvalue hroot
    omega
  induction x using descend.induct value with
  | case1 x y hy ih =>
    have hpos : 0 < x := Nat.lt_of_le_of_lt (Nat.zero_le _) hy
    rw [descendWithin, if_neg (hroom x hroot hx), descend, if_pos hy, if_pos hy]
    exact ih (sqrt_le_newton hpos) (hy.le.trans hx)
  | case2 x y hy =>
    rw [descendWithin, if_neg (hroom x hroot hx), descend, if_neg hy, if_neg hy]

/-- What fits into some bits has no more digits than those. -/
theorem bitLength_le {bits : ℕ} (hfit : value < 2 ^ bits) : bitLength value ≤ bits := by
  rw [bitLength]
  split
  · exact Nat.zero_le _
  · exact (Nat.log2_lt ‹_›).2 hfit

/-- Twice the start has fewer bits than the numbers. -/
theorem start_add_start_lt {bits : ℕ} (hbits : 4 ≤ bits) (hfit : value < 2 ^ bits) :
    2 ^ ((bitLength value + 1) / 2) + (2 ^ ((bitLength value + 1) / 2) + 1) < 2 ^ bits := by
  have hlength := bitLength_le hfit
  obtain ⟨n, rfl⟩ : ∃ n, bits = n + 1 := Nat.exists_eq_add_of_le' (Nat.le_of_lt (Nat.lt_of_lt_of_le (by decide) hbits))
  have hstart : 2 ^ ((bitLength value + 1) / 2 + 1) ≤ 2 ^ n := Nat.pow_le_pow_right (by decide) (by omega)
  have hlarge : 2 ^ 3 ≤ 2 ^ n := Nat.pow_le_pow_right (by decide) (by omega)
  rw [Nat.pow_succ] at hstart ⊢
  omega

/-- **Numbers of any width from four bits on have room for the search of their root.** No sum on the way needs a bit
more than the value has. -/
theorem isqrtWithin_eq_some {bits : ℕ} (hbits : 4 ≤ bits) (hfit : value < 2 ^ bits) :
    isqrtWithin bits value = some (isqrt value) := by
  rw [isqrtWithin, isqrt]
  split
  · rfl
  · rename_i hsmall
    have hvalue : value ≠ 0 := by omega
    have hroot := sqrt_lt_start hvalue
    have hstart := start_add_start_lt hbits hfit
    rw [if_neg (by omega)]
    exact descendWithin_eq_some hvalue (by omega) hroot.le le_rfl

/-- **The square root is exact**, in numbers of 256 bits and of 1024 bits, as in those of any width from four bits on:
its steps come to an end, none of them divides by zero or has a sum that needs another bit, and the square of what they
return is the last one that is not above the value. -/
theorem isqrt_exact {bits : ℕ} (hbits : 4 ≤ bits) (hfit : value < 2 ^ bits) :
    isqrtWithin bits value = some (isqrt value) ∧ isqrt value ^ 2 ≤ value ∧ value < (isqrt value + 1) ^ 2 :=
  ⟨isqrtWithin_eq_some hbits hfit, isqrt_sq_le value, lt_isqrt_succ_sq value⟩

/-- The largest numbers of both widths. -/
theorem isqrt_exact_largest :
    (4 ≤ 256 ∧ 2 ^ 256 - 1 < 2 ^ 256 ∧ isqrtWithin 256 (2 ^ 256 - 1) = some (2 ^ 128 - 1)) ∧
      4 ≤ 1024 ∧ 2 ^ 1024 - 1 < 2 ^ 1024 ∧ isqrtWithin 1024 (2 ^ 1024 - 1) = some (isqrt (2 ^ 1024 - 1)) ∧
        isqrt (2 ^ 1024 - 1) ^ 2 ≤ 2 ^ 1024 - 1 ∧ 2 ^ 1024 - 1 < (isqrt (2 ^ 1024 - 1) + 1) ^ 2 := by
  have hlargest : ∀ bits, 2 ^ bits - 1 < 2 ^ bits := fun bits => Nat.sub_lt (Nat.two_pow_pos bits) Nat.one_pos
  have hroot : isqrt (2 ^ 256 - 1) = 2 ^ 128 - 1 := by
    rw [isqrt_eq_sqrt]
    exact (Nat.eq_sqrt.2 ⟨by decide, by decide⟩).symm
  exact ⟨⟨by decide, hlargest 256, hroot ▸ (isqrt_exact (by decide) (hlargest 256)).1⟩, by decide, hlargest 1024,
    isqrt_exact (by decide) (hlargest 1024)⟩

end Root
end Searcher

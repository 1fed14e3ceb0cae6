/-
# Checked arithmetic on 256-bit amounts

Amounts are natural numbers below `2 ^ 256`. The operations of a contract are partial on them:

| operation | fails with |
| --- | --- |
| `Checked.add`, `Checked.mul` | `overflow`, when the result reaches `2 ^ 256` |
| `Checked.sub` | `outOfBounds subtraction`, when it would be negative |
| `Checked.div`, `Checked.divUp` | `divisionByZero` |
| `Checked.mulDiv` | as `mul`, then as `div` |
| `Checked.fullMulDiv`, `Checked.fullMulDivUp` | `divisionByZero`, then `overflow` of the quotient alone |

Where a contract leaves an operation unchecked the result is taken modulo `2 ^ 256`: `wrap`. Machine numbers with a sign
keep their lowest bits in the same way: `wrapInt`.
-/

import Searcher.QuoteError

namespace Searcher

/-- The number of 256-bit values. -/
def wordSize : Nat := 2 ^ 256

/-- The remainder that an unchecked 256-bit operation keeps. -/
def wrap (n : Nat) : Nat := n % wordSize

/-- The number of `bits` bits with a sign that an unchecked operation keeps. -/
def wrapInt (bits : Nat) (n : Int) : Int := Int.bmod n (2 ^ bits)

/-- **A number that fits is kept as it is.** One of the bits is for the sign. -/
theorem wrapInt_of_fits {bits : Nat} {n : Int} (hlow : -2 ^ bits ≤ n) (hhigh : n < 2 ^ bits) :
    wrapInt (bits + 1) n = n := by
  have hcast : ((2 ^ bits : Nat) : Int) = 2 ^ bits := Int.natCast_pow 2 bits
  have hhalf : 2 ^ (bits + 1) = 2 * 2 ^ bits := Nat.pow_succ'
  exact Int.bmod_eq_of_le (by omega) (by omega)

/-- The value nearest to `n` that fits into 256 bits. -/
def saturate (n : Nat) : Nat := min n (wordSize - 1)

/-- The distance between two amounts. -/
def absDiff (a b : Nat) : Nat := if b < a then a - b else b - a

/-- Ten to the ten, the scale of fees. -/
def e10 : Nat := 10 ^ 10

/-- Ten to the eighteen, the scale of prices and balances. -/
def e18 : Nat := 10 ^ 18

/-- A power of ten modulo `2 ^ 256`. -/
def pow10 (exp : Nat) : Nat := wrap (10 ^ exp)

namespace Checked

/-- A result that has to fit into 256 bits. -/
def fit (n : Nat) : Quote Nat :=
  if n < wordSize then .ok n else .error .overflow

/-- A sum, which has to fit. -/
def add (a b : Nat) : Quote Nat := fit (a + b)

/-- A difference, which must not be negative. -/
def sub (a b : Nat) : Quote Nat :=
  if b ≤ a then .ok (a - b) else .error (.outOfBounds .subtraction)

/-- A product, which has to fit. -/
def mul (a b : Nat) : Quote Nat := fit (a * b)

/-- A quotient rounded down, by a divisor that is not zero. -/
def div (a b : Nat) : Quote Nat :=
  if b = 0 then .error .divisionByZero else .ok (a / b)

/-- The quotient of a product that itself has to fit. -/
def mulDiv (a b c : Nat) : Quote Nat := do div (← mul a b) c

/-- The quotient of a product of any size. -/
def fullMulDiv (a b c : Nat) : Quote Nat :=
  if c = 0 then .error .divisionByZero else fit (a * b / c)

/-- The least whole number that is not below the fraction `a / b`. -/
def ceilDiv (a b : Nat) : Nat := (a + b - 1) / b

/-- The quotient of a product of any size, rounded up. -/
def fullMulDivUp (a b c : Nat) : Quote Nat :=
  if c = 0 then .error .divisionByZero else fit (ceilDiv (a * b) c)

/-- The quotient rounded up. -/
def divUp (a b : Nat) : Quote Nat :=
  if b = 0 then .error .divisionByZero else .ok (ceilDiv a b)

/-- Two computations in a row succeed where both do. -/
theorem bind_eq_ok {α β : Type} {q : Quote α} {f : α → Quote β} {b : β} :
    q >>= f = .ok b ↔ ∃ a, q = .ok a ∧ f a = .ok b := by
  cases q <;> simp [bind, Except.bind]

/-- Two computations in a row fail where one of them does. -/
theorem bind_eq_error {α β : Type} {q : Quote α} {f : α → Quote β} {e : QuoteError} :
    q >>= f = .error e ↔ q = .error e ∨ ∃ a, q = .ok a ∧ f a = .error e := by
  cases q <;> simp [bind, Except.bind]

/-- The value of an operation that is known to fit; the error otherwise. -/
theorem fit_eq_ok {n m : Nat} : fit n = .ok m ↔ n < wordSize ∧ m = n := by
  grind [fit]

/-- A difference is found where it is not negative, and it is that of natural numbers there. -/
theorem sub_eq_ok {a b m : Nat} : sub a b = .ok m ↔ b ≤ a ∧ m = a - b := by
  grind [sub]

/-- A quotient is found where the divisor is not zero, rounded down. -/
theorem div_eq_ok {a b m : Nat} : div a b = .ok m ↔ b ≠ 0 ∧ m = a / b := by
  grind [div]

/-- What does not fit is reported as an overflow, and nothing that fits is. -/
theorem fit_eq_error {n : Nat} {e : QuoteError} : fit n = .error e ↔ wordSize ≤ n ∧ e = .overflow := by
  grind [fit]

/-- A difference that would be negative is reported as a subtraction out of bounds, and as nothing else. -/
theorem sub_eq_error {a b : Nat} {e : QuoteError} : sub a b = .error e ↔ a < b ∧ e = .outOfBounds .subtraction := by
  grind [sub]

/-- A quotient fails by a zero divisor alone. -/
theorem div_eq_error {a b : Nat} {e : QuoteError} : div a b = .error e ↔ b = 0 ∧ e = .divisionByZero := by
  grind [div]

/-- What goes on from an operation goes on from its value. -/
theorem bind_fit_eq_ok {β : Type} {n : Nat} {f : Nat → Quote β} {b : β} :
    fit n >>= f = .ok b ↔ n < wordSize ∧ f n = .ok b := by
  simp only [bind_eq_ok, fit_eq_ok, and_assoc, exists_and_left, exists_eq_left]

/-- What goes on from a difference goes on from the natural one, which is not negative. -/
theorem bind_sub_eq_ok {β : Type} {m n : Nat} {f : Nat → Quote β} {b : β} :
    sub m n >>= f = .ok b ↔ n ≤ m ∧ f (m - n) = .ok b := by
  simp only [bind_eq_ok, sub_eq_ok, and_assoc, exists_and_left, exists_eq_left]

/-- What goes on from a quotient goes on from the one rounded down, by a divisor that is not zero. -/
theorem bind_div_eq_ok {β : Type} {m n : Nat} {f : Nat → Quote β} {b : β} :
    div m n >>= f = .ok b ↔ n ≠ 0 ∧ f (m / n) = .ok b := by
  simp only [bind_eq_ok, div_eq_ok, and_assoc, exists_and_left, exists_eq_left]

/-- A product that is divided at once may leave the word; only the quotient has to fit, and it is rounded down. -/
theorem fullMulDiv_eq_ok {a b c m : Nat} : fullMulDiv a b c = .ok m ↔ c ≠ 0 ∧ a * b / c < wordSize ∧ m = a * b / c := by
  grind [fullMulDiv, fit]

/-- The same rounded up: the quotient that has to fit is the rounded one. -/
theorem fullMulDivUp_eq_ok {a b c m : Nat} :
    fullMulDivUp a b c = .ok m ↔ c ≠ 0 ∧ ceilDiv (a * b) c < wordSize ∧ m = ceilDiv (a * b) c := by
  grind [fullMulDivUp, fit]

/-- A quotient rounded up needs a divisor that is not zero. It always fits, since it is not above its numerator. -/
theorem divUp_eq_ok {a b m : Nat} : divUp a b = .ok m ↔ b ≠ 0 ∧ m = ceilDiv a b := by
  grind [divUp]

end Checked

namespace Root

/-- The number of binary digits. -/
def bitLength (n : Nat) : Nat := if n = 0 then 0 else n.log2 + 1

/-- Newton's steps for the square root of `value`, for as long as they descend. -/
def descend (value x : Nat) : Nat :=
  let y := (x + value / x) / 2
  if y < x then descend value y else x
termination_by x

/-- The square root rounded down, by Newton's steps from a power of two that is not below it. -/
def isqrt (value : Nat) : Nat :=
  if value < 2 then value else descend value (2 ^ ((bitLength value + 1) / 2))

end Root
end Searcher

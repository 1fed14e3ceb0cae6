/-
# Signed arithmetic and cube roots

The cubic of the next generation of cryptoswap pools is solved with signed 256-bit numbers, whose operations fail when
the result leaves the range, and with a cube root of numbers with eighteen decimals.
-/

import Searcher.Checked

namespace Searcher
namespace Signed

/-- A result that has to fit into 256 bits with a sign. -/
def fit (n : Int) : Quote Int :=
  if -2 ^ 255 ≤ n ∧ n < 2 ^ 255 then .ok n else .error .overflow

/-- A signed sum, which has to fit. -/
def add (a b : Int) : Quote Int := fit (a + b)

/-- A signed difference, which has to fit. -/
def sub (a b : Int) : Quote Int := fit (a - b)

/-- A signed product, which has to fit. -/
def mul (a b : Int) : Quote Int := fit (a * b)

/-- The quotient rounded towards zero, and zero for a zero divisor. -/
def div (a b : Int) : Quote Int :=
  if b = 0 then .ok 0 else fit (a.tdiv b)

/-- An amount as a signed number. -/
def ofNat (n : Nat) : Quote Int := fit n

/-- A root that has to be an amount. -/
def toNat (n : Int) : Quote Nat :=
  if n < 0 then .error (.outOfBounds .negativeRoot) else .ok n.natAbs

end Signed

namespace Root

/-- From here on a number is too large for eighteen more decimals. -/
def decimalsLimit : Nat := (wordSize - 1) / 10 ^ 36

/-- One step of Newton's towards the cube root. A zero square divides to zero. -/
def cubeStep (value a : Nat) : Nat := (2 * a + value / (a * a)) / 3

/-- The cube root of a whole number, by seven steps from the power of two below it, corrected for the two bits that the
exponent leaves over. -/
def cubeRoot (value : Nat) : Nat :=
  let exponent := bitLength value - 1
  let rest := exponent % 3
  let start := 2 ^ (exponent / 3) * 1260 ^ rest / 1000 ^ rest
  (List.range 7).foldl (fun a _ => cubeStep value a) start

/-- The cube root of a number with eighteen decimals: of `x * 10 ^ 36`, or with six or twelve decimals less where that
leaves 256 bits. -/
def cbrt (x : Nat) : Nat :=
  if decimalsLimit * e18 ≤ x then cubeRoot x * 10 ^ 12
  else if decimalsLimit ≤ x then cubeRoot (x * e18) * 10 ^ 6
  else cubeRoot (x * 10 ^ 36)

end Root
end Searcher

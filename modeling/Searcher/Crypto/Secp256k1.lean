/-
# The curve secp256k1

The points `(x, y)` with `y² = x³ + 7` over the integers modulo a prime, with a point at infinity that is neutral. They
form a group of prime order, which `generator` generates.
-/

import Searcher.Bytes

namespace Searcher
namespace Secp256k1

/-- The prime of the coordinates. -/
def fieldPrime : Nat := 2 ^ 256 - 2 ^ 32 - 977

/-- The number of points. -/
def order : Nat := 0xfffffffffffffffffffffffffffffffebaaedce6af48a03bbfd25e8cd0364141

/-- The Euclidean algorithm on two remainders, with what the number that is inverted has to be multiplied by to give
each of them. -/
def invertWith (r0 r1 : Nat) (t0 t1 : Int) : Int :=
  if r1 = 0 then t0 else invertWith r1 (r0 % r1) t1 (t0 - (r0 / r1 : Nat) * t1)
termination_by r1
decreasing_by exact Nat.mod_lt _ (by omega)

/-- The number that gives one when it is multiplied with `a`, modulo a prime that does not divide `a`. -/
def inverse (a modulus : Nat) : Nat := (invertWith modulus (a % modulus) 0 1 % modulus).toNat

/-- A point other than infinity. -/
structure Point where
  x : Nat
  y : Nat
deriving DecidableEq, Repr

/-- The difference of two coordinates. -/
def diff (a b : Nat) : Nat := (a + fieldPrime - b) % fieldPrime

/-- The third point on the line with a slope through points with the coordinates `p` and `x`, reflected. -/
def onLine (slope : Nat) (p : Point) (x : Nat) : Point :=
  let third := diff (diff (slope * slope % fieldPrime) p.x) x
  ⟨third, diff (slope * diff p.x third % fieldPrime) p.y⟩

/-- Twice a point. No point of the curve has a zero second coordinate, so the tangent is never upright. -/
def double (p : Point) : Point := onLine (3 * p.x * p.x * inverse (2 * p.y) fieldPrime % fieldPrime) p p.x

/-- The sum of two points, `none` being infinity. -/
def add : Option Point → Option Point → Option Point
  | none, q => q
  | p, none => p
  | some p, some q =>
    if p.x = q.x then if p.y = q.y then some (double p) else none
    else some (onLine (diff p.y q.y * inverse (diff p.x q.x) fieldPrime % fieldPrime) p q.x)

/-- The sum of `k` times a point. -/
def times (k : Nat) (p : Point) : Option Point :=
  if k = 0 then none
  else
    let rest := times (k / 2) (double p)
    if k % 2 = 1 then add (some p) rest else rest
termination_by k
decreasing_by omega

/-- The generator. -/
def generator : Point :=
  ⟨0x79be667ef9dcbbac55a06295ce870b07029bfcdb2dce28d959f2815b16f81798,
   0x483ada7726a3c4655da4fbfc0e1108a8fd17b448a68554199c47d08ffb10d4b8⟩

end Secp256k1

/-- A signature on the curve: the parity of the second coordinate of a point, its first coordinate, and a number. -/
structure CurveSignature where
  odd : Bool
  r : Nat
  s : Nat
deriving DecidableEq, Repr, Inhabited

end Searcher

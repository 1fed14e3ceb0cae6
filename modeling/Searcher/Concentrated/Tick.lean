/-
# Ticks and prices

Prices stand as square roots with 96 binary places. Tick `t` is the price `1.0001 ^ t`, and the two conversions go
between the integers in `[-887272, 887272]` and the roots they cover:

* `Tick.sqrtPrice` multiplies one 128-bit factor for every binary digit of the tick, inverts the product for a
  positive tick and rounds up to 96 places;
* `Tick.ofSqrtPrice` takes a binary logarithm of the root with fourteen places, scales it to the base
  `sqrt 1.0001`, and decides between the two ticks that its error leaves.
-/

import Searcher.Checked

namespace Searcher
namespace Tick

/-- The least tick. -/
def least : Int := -887272

/-- The largest tick. -/
def largest : Int := 887272

/-- The root at the least tick. -/
def leastSqrtPrice : Nat := 4295128739

/-- The root at the largest tick, which no pool reaches. -/
def largestSqrtPrice : Nat := 1461446703485210103287273052203988822378723970342

/-- The factor of each binary digit of a tick, from the lowest: `2 ^ 128 / sqrt 1.0001 ^ (2 ^ i)`. -/
def factors : List Nat :=
  [0xfffcb933bd6fad37aa2d162d1a594001, 0xfff97272373d413259a46990580e213a, 0xfff2e50f5f656932ef12357cf3c7fdcc,
   0xffe5caca7e10e4e61c3624eaa0941cd0, 0xffcb9843d60f6159c9db58835c926644, 0xff973b41fa98c081472e6896dfb254c0,
   0xff2ea16466c96a3843ec78b326b52861, 0xfe5dee046a99a2a811c461f1969c3053, 0xfcbe86c7900a88aedcffc83b479aa3a4,
   0xf987a7253ac413176f2b074cf7815e54, 0xf3392b0822b70005940c7a398e4b70f3, 0xe7159475a2c29b7443b29c7fa6e889d9,
   0xd097f3bdfd2022b8845ad8f792aa5825, 0xa9f746462d870fdf8a65dc1f90e061e5, 0x70d869a156d2a1b890bb3df62baf32f7,
   0x31be135f97d08fd981231505542fcfa6, 0x9aa508b5b7a84e1c677de54f3e99bc9, 0x5d6af8dedb81196699c329225ee604,
   0x2216e584f5fa1ea926041bedfe98, 0x48a170391f7dc42444e8fa2]

/-- The product of `ratio` and the factors of the digits of `n`, with 128 binary places. -/
def product : (factors : List Nat) → (n ratio : Nat) → Nat
  | [], _, ratio => ratio
  | f :: fs, n, ratio => product fs (n / 2) (if n % 2 = 1 then ratio * f / 2 ^ 128 else ratio)

/-- The root at a tick with 128 binary places, for a tick of either sign. -/
def ratio (tick : Int) : Nat :=
  let r := product factors tick.natAbs (2 ^ 128)
  if 0 < tick then (wordSize - 1) / r else r

/-- The root at a tick with 96 binary places, rounded up. -/
def sqrtPrice (tick : Int) : Quote Nat :=
  if largest < tick.natAbs then .error (.outOfBounds .tick)
  else .ok (Checked.ceilDiv (ratio tick) (2 ^ 32))

/-- One place of the binary logarithm of `r / 2 ^ 127`: the square reaches two or it does not. -/
def squareStep (r : Nat) : Bool × Nat :=
  let square := r * r / 2 ^ 127
  if 2 ^ 128 ≤ square then (true, square / 2) else (false, square)

/-- The sum of `2 ^ shift` over the places of the logarithm that are set, from `shift = top` downwards. -/
def logPlaces : (count top r : Nat) → Nat
  | 0, _, _ => 0
  | count + 1, top, r =>
    let (set, r) := squareStep r
    (if set then 2 ^ top else 0) + logPlaces count (top - 1) r

/-- The binary logarithm of a root with 64 binary places, the first fourteen of them computed. -/
def logarithm (root : Nat) : Int :=
  let wide := root * 2 ^ 32
  let msb := Nat.log2 wide
  let r := if 128 ≤ msb then wide / 2 ^ (msb - 127) else wide * 2 ^ (127 - msb)
  ((msb : Int) - 128) * 2 ^ 64 + logPlaces 14 63 r

/-- The tick whose root is the last that is not above `root`. -/
def ofSqrtPrice (root : Nat) : Quote Int := do
  if root < leastSqrtPrice ∨ largestSqrtPrice ≤ root then throw (.outOfBounds .sqrtPrice)
  let log := logarithm root * 255738958999603826347141
  let low := (log - 3402992956809132418596140100660247210) / 2 ^ 128
  let high := (log + 291339464771989622907027621153398088495) / 2 ^ 128
  if low = high then return low
  return if (← sqrtPrice high) ≤ root then high else low

/-- The spacing of the ticks of a pool that takes `fee` millionths, for the fees in use. -/
def spacingOfFee? : Nat → Option Nat
  | 100 => some 1
  | 500 => some 10
  | 2500 => some 50
  | 3000 => some 60
  | 10000 => some 200
  | _ => none

end Tick
end Searcher

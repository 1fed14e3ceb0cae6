/-
# Prices in the native token

Revenue in any token is compared in units of the wrapped native token, at the spot price of a reference pool: the ratio
of reserves of a pair, or the square of the root of a concentrated pool.
-/

import Searcher.Concentrated.Step
import Searcher.Pool

namespace Searcher
namespace Price

/-- The value of an amount at the price whose root is `numerator / denominator`. -/
def atRoot (amount numerator denominator : Nat) : Option Nat := do
  let once ← (Checked.fullMulDiv amount numerator denominator).toOption
  (Checked.fullMulDiv once numerator denominator).toOption

/-- The value of an amount of `token` in `wrapped` at the spot price of a pool of both. -/
def nativeValue (amount : Nat) (token wrapped : Address) (pool : Pool) : Option Nat := do
  if token = wrapped then return amount
  let i ← pool.indexOf? token
  let j ← pool.indexOf? wrapped
  match pool.state with
  | .constantProduct reserve0 reserve1 _ =>
    if i = 0 then (Checked.fullMulDiv amount reserve1 reserve0).toOption
    else (Checked.fullMulDiv amount reserve0 reserve1).toOption
  | .concentrated s =>
    if s.sqrtPrice = 0 ∨ i = j then none
    else if i = 0 then atRoot amount s.sqrtPrice Concentrated.q96
    else atRoot amount Concentrated.q96 s.sqrtPrice
  | _ => none

end Price
end Searcher

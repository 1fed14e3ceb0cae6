/-
# Balance rates

A pool that pays a fee on transfers, or refuses to sell, shows in its balance: a front-run must leave it within the
ratio of the deepest other pool that trades the same token against a reference token.
-/

import Searcher.Path
import Searcher.PoolIndex
import Searcher.Token

namespace Searcher

/-- A bound on what a pool holds before and after a front-run: `after / before` is at least
`numerator / denominator`. A bound with a zero in it bounds nothing. -/
structure BalanceRate where
  numerator : Nat
  denominator : Nat
deriving DecidableEq, Repr, Inhabited

namespace BalanceRate

/-- No bound. -/
def unchecked : BalanceRate := ⟨0, 0⟩

/-- Whether it bounds nothing. -/
def isUnchecked (rate : BalanceRate) : Bool := rate.numerator = 0 ∨ rate.denominator = 0

/-- Whether the balances keep the bound. Products are cut off at the largest amount. -/
def admits (rate : BalanceRate) (before after : Nat) : Bool :=
  if rate.isUnchecked then true
  else if before = 0 then false
  else saturate (rate.numerator * before) ≤ saturate (after * rate.denominator)

/-- The token of a hop that is not a reference token, when the other one is. -/
def measured? (leg : Leg) : Option Address :=
  match Token.isReference leg.tokenIn, Token.isReference leg.tokenOut with
  | true, false => some leg.tokenOut
  | false, true => some leg.tokenIn
  | _, _ => none

/-- The largest balance of a token in a pool that trades it against a reference token, other than `pool`. -/
def deepestOther (index : PoolIndex) (pool token : Address) : Nat :=
  let links := Token.references.flatMap fun entry => index.between token entry.1
  ((links.filter fun link => link.pool ≠ pool).map fun link => index.balance link.pool token).foldl max 0

/-- The bound of a hop. -/
def ofLeg (index : PoolIndex) (leg : Leg) : BalanceRate :=
  match measured? leg with
  | none => unchecked
  | some token => ⟨deepestOther index leg.pool token, index.balance leg.pool token⟩

/-- The bound of each hop of a path. -/
def ofPath (index : PoolIndex) (path : Path) : List BalanceRate := path.legs.map (ofLeg index)

end BalanceRate
end Searcher

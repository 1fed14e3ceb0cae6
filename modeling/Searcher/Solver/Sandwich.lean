/-
# The size of a front-run

A victim pays `v` into a pool and insists on an output of at least `m`. A front-run of `x` before it lowers its output;
with `c = keep` and reserves `R -> R'` the output is exactly `m` where

    n c m x² + (n (n + c) R + c² v) m x + (n² R² + n c R v) m - n c R R' v = 0

The front-run is the positive root, rounded down, and shaved further while the integer swaps leave the victim short.
-/

import Searcher.Solver.Mobius

namespace Searcher
namespace Sandwich

/-- The attempts at shaving a front-run. -/
def shaveRounds : Nat := 16

/-- What a victim insists on that expects `amountOut` and bears a slippage of `bps` of ten thousand. The product is not
checked. -/
def minimumOut (amountOut bps : Nat) : Nat := wrap (amountOut * (10000 - bps)) / 10000

/-- The coefficients of the quadratic, the constant one with its sign turned. -/
structure Quadratic where
  a : Nat
  b : Nat
  negC : Nat
deriving DecidableEq, Repr

namespace Quadratic

/-- The quadratic of a victim at a hop. There is none when the victim is short of `minOut` without a front-run. -/
def ofVictim (hop : Hop) (victimIn minOut : Nat) : Option Quadratic := do
  let n := hop.fee.base
  let c := hop.fee.keep
  let r := hop.reserveIn
  let v := victimIn
  let m := minOut
  let nc ← Wide.mul n c
  let a ← Wide.mul nc m
  let lead ← Wide.product [n, ← Wide.add n c, r]
  let b ← Wide.mul (← Wide.add lead (← Wide.product [c, c, v])) m
  let held ← Wide.mul (← Wide.add (← Wide.product [n, n, r, r]) (← Wide.product [nc, r, v])) m
  let room ← Wide.product [nc, r, hop.reserveOut, v]
  let negC ← Wide.sub room held
  if negC = 0 then none else some ⟨a, b, negC⟩

/-- The positive root rounded down, if it is an amount and not zero. -/
def root (p : Quadratic) : Option Nat := do
  let discriminant ← Wide.add (← Wide.mul p.b p.b) (← Wide.product [4, p.a, p.negC])
  let numerator ← Wide.sub (Root.isqrt discriminant) p.b
  Wide.amount? (numerator / (← Wide.mul p.a 2))

end Quadratic

/-- The largest front-run that leaves the victim `minOut`. -/
def maxFrontRun (hop : Hop) (victimIn minOut : Nat) : Option Nat :=
  if minOut = 0 ∨ victimIn = 0 then none
  else (Quadratic.ofVictim hop victimIn minOut).bind Quadratic.root

/-- A front-run followed by the victim: its input, what it bought, and the hop after both. -/
structure FrontRun where
  amountIn : Nat
  bought : Nat
  after : Hop
deriving DecidableEq, Repr

/-- Trades the front-run and the victim, shaving a thousandth off the front-run while the victim is left short. -/
def shave (hop : Hop) (victimIn minOut : Nat) : (rounds : Nat) → (x : Nat) → Option FrontRun
  | 0, _ => none
  | rounds + 1, x => do
    if x = 0 then none
    let (bought, moved) ← (hop.swap x).toOption
    let (victimOut, after) ← (moved.swap victimIn).toOption
    if minOut ≤ victimOut then some ⟨x, bought, after⟩
    else shave hop victimIn minOut rounds (wrap (x * 999) / 1000)

/-- The front-run at a hop, and the state that its back-run finds. -/
def frontRun (hop : Hop) (victimIn minOut : Nat) : Option FrontRun := do
  shave hop victimIn minOut shaveRounds (← maxFrontRun hop victimIn minOut)

/-- What selling an amount back through the hop pays, and the hop afterwards, reversed. -/
def sellBack (hop : Hop) (amount : Nat) : Quote (Nat × Hop) := hop.reversed.swap amount

/-- A sandwich whose front-run buys the victim's input token at a first pool: it spends what `x` costs there, and sells
`recovered` back. -/
def throughFirst (first : Hop) (x recovered : Nat) : Option Opportunity := do
  let cost ← (ConstantProduct.amountIn x first.reserveIn first.reserveOut first.fee).toOption
  let (_, moved) ← (first.swap cost).toOption
  let (out, _) ← (sellBack moved recovered).toOption
  return .ofOutput cost out

/-- The last leg of a path and the one before it, for a path of one or two legs. -/
inductive Shape where
  | direct (last : Leg)
  | through (first last : Leg)

/-- The shape of a path of one or two legs. -/
def shape? : List Leg → Option Shape
  | [last] => some (.direct last)
  | [first, last] => some (.through first last)
  | _ => none

/-- The last leg. -/
def Shape.last : Shape → Leg
  | direct last => last
  | through _ last => last

/-- The sandwich of a victim that trades at the last leg of a path, when all pools are pairs of reserves. -/
def ofShape (shape : Shape) (market : Market) (victim : SwapEvent) (bps : Nat) : Option Opportunity := do
  let last := shape.last
  if victim.tokenIn ≠ last.tokenIn ∨ victim.tokenOut ≠ last.tokenOut then none
  let target ← Hop.ofPool? (← market last.pool) last.tokenIn last.tokenOut
  let front ← frontRun target victim.amountIn (minimumOut victim.amountOut bps)
  let (recovered, _) ← (sellBack front.after front.bought).toOption
  match shape with
  | .direct _ => return .ofOutput front.amountIn recovered
  | .through leg _ =>
    let first ← Hop.ofPool? (← market leg.pool) leg.tokenIn leg.tokenOut
    throughFirst first front.amountIn recovered

/-- The input in the path's first token and the revenue of a sandwich along a path that ends at the victim's pool. -/
def solve (path : Path) (market : Market) (victim : SwapEvent) (bps : Nat) : Opportunity :=
  if path.isValid ∧ path.isConstantProduct ∧ path.pools.getLast? = some victim.pool then
    (((shape? path.legs).bind fun s => ofShape s market victim bps)).getD .none
  else .none

end Sandwich
end Searcher

/-
# Quotes of concentrated pools

A swap goes from mark to mark: up to the next marked tick, or the end of the bitmap word, at constant liquidity; then,
at a mark, the liquidity changes and the swap goes on. It ends when the input is used up or the price has reached the
end of its range, and is abandoned after `maxSteps` steps. Input that is left over at the end of the range is an error:
a quote is for the whole input.

What a mark states is a number of 128 bits with a sign. On the way down the liquidity changes by its negation, which is
not checked: the least of these numbers is its own.
-/

import Searcher.Concentrated.Step
import Searcher.Concentrated.Tick
import Searcher.Concentrated.TickSource

namespace Searcher

/-- The price, the tick and the active liquidity of a pool, with its fee in millionths and the spacing of its ticks. -/
structure ConcentratedState where
  sqrtPrice : Nat
  tick : Int
  liquidity : Nat
  fee : Nat
  spacing : Int
deriving DecidableEq, Repr, Inhabited

namespace Concentrated

/-- The steps after which a quote is abandoned. -/
def maxSteps : Nat := 128

/-- The number of words that are read on each side of a word that a quote needs. -/
def wordRadius : Nat := 2

/-- The nearest number of sixteen bits with a sign. -/
def clampWord (n : Int) : Int := max (-32768) (min 32767 n)

/-- The numbers of the words at most `radius` away from the word `center`. -/
def wordsAround (center : Int) (radius : Int) : List Int :=
  let first := clampWord (center - radius)
  let last := clampWord (center + radius)
  (List.range (last - first + 1).toNat).map fun (k : Nat) => first + k

/-- Liquidity after a change. It stays within 128 bits. -/
def addLiquidity (liquidity : Nat) (change : Int) : Quote Nat :=
  let sum := liquidity + change
  if change < 0 then if sum < 0 then .error (.outOfBounds .liquidity) else .ok sum.toNat
  else if sum < 2 ^ 128 then .ok sum.toNat else .error .overflow

/-- The price at which a swap has to stop. -/
def priceLimit (zeroForOne : Bool) : Nat :=
  if zeroForOne then Tick.leastSqrtPrice + 1 else Tick.largestSqrtPrice - 1

/-- A swap on its way. -/
structure Progress where
  remaining : Nat
  amountOut : Nat
  sqrtPrice : Nat
  tick : Int
  liquidity : Nat
  crossed : Nat
deriving DecidableEq, Repr

/-- Whether nothing is left to do. -/
def Progress.finished (p : Progress) (zeroForOne : Bool) : Bool :=
  p.remaining = 0 ∨ p.sqrtPrice = priceLimit zeroForOne

/-- The next marked tick, kept within the range of ticks. -/
def clampTick (tick : Int) : Int := max Tick.least (min Tick.largest tick)

/-- Moves the tick after the price has moved to `step.sqrtPrice`; `found` is the tick that was aimed at, `root` its
price. At a mark the liquidity changes. -/
def arrive {σ : Type} (source : TickSource σ) (spacing : Int) (zeroForOne : Bool) (p : Progress)
    (tick : Int) (marked : Bool) (root : Nat) (s : Step) : Ticking σ Progress := do
  let remaining ← Checked.sub p.remaining (← Checked.add s.amountIn s.fee)
  let amountOut ← Checked.add p.amountOut s.amountOut
  let moved := { p with remaining, amountOut, sqrtPrice := s.sqrtPrice }
  if s.sqrtPrice = root then
    let beyond := if zeroForOne then tick - 1 else tick
    if marked then
      let net ← source.net tick spacing
      let liquidity ← addLiquidity p.liquidity (if zeroForOne then wrapInt 128 (-net) else net)
      return { moved with liquidity, crossed := p.crossed + 1, tick := beyond }
    else return { moved with tick := beyond }
  else if s.sqrtPrice ≠ p.sqrtPrice then return { moved with tick := ← Tick.ofSqrtPrice s.sqrtPrice }
  else return moved

/-- One step of a swap. -/
def advance {σ : Type} (source : TickSource σ) (fee : Nat) (spacing : Int) (zeroForOne : Bool) (p : Progress) :
    Ticking σ Progress := do
  let found ← source.nextTick p.tick spacing zeroForOne
  let tick := clampTick found.tick
  let root ← Tick.sqrtPrice tick
  let limit := priceLimit zeroForOne
  let target := if zeroForOne then max root limit else min root limit
  let s ← step p.sqrtPrice target p.liquidity p.remaining fee
  arrive source spacing zeroForOne p tick found.marked root s

/-- Steps until the swap is finished, at most `left` of them out of `budget`. -/
def walk {σ : Type} (source : TickSource σ) (fee : Nat) (spacing : Int) (zeroForOne : Bool) (budget : Nat) :
    (left : Nat) → Progress → Ticking σ Progress
  | 0, p => if p.finished zeroForOne then pure p else throw (.tickBudgetExceeded budget)
  | left + 1, p =>
    if p.finished zeroForOne then pure p
    else do walk source fee spacing zeroForOne budget left (← advance source fee spacing zeroForOne p)

/-- The outcome of a swap. -/
structure Outcome where
  amountIn : Nat
  amountOut : Nat
  sqrtPrice : Nat
  tick : Int
  liquidity : Nat
  crossed : Nat
deriving DecidableEq, Repr

end Concentrated

namespace ConcentratedState

open Concentrated

/-- The numbers of the words within `radius` of the current tick. -/
def wordsAround (state : ConcentratedState) (radius : Int) : List Int :=
  Concentrated.wordsAround (Bitmap.position (Bitmap.compress state.tick state.spacing)).1 radius

/-- The state after a swap. -/
def after (state : ConcentratedState) (swap : Outcome) : ConcentratedState :=
  { state with sqrtPrice := swap.sqrtPrice, tick := swap.tick, liquidity := swap.liquidity }

/-- Whether the price cannot move in the direction of the swap. -/
def atLimit (state : ConcentratedState) (zeroForOne : Bool) : Bool :=
  if zeroForOne then state.sqrtPrice ≤ priceLimit true else priceLimit false ≤ state.sqrtPrice

/-- A swap of the whole of `amountIn` within `budget` steps. -/
def swapWithin {σ : Type} (state : ConcentratedState) (source : TickSource σ) (amountIn : Nat) (zeroForOne : Bool)
    (budget : Nat) : Ticking σ Outcome := do
  if state.spacing ≤ 0 then throw (.outOfBounds .tickSpacing)
  if state.atLimit zeroForOne then throw (.outOfBounds .priceAtLimit)
  let p ← walk source state.fee state.spacing zeroForOne budget budget
    ⟨amountIn, 0, state.sqrtPrice, state.tick, state.liquidity, 0⟩
  if p.remaining ≠ 0 then throw .insufficientLiquidity
  return ⟨amountIn, p.amountOut, p.sqrtPrice, p.tick, p.liquidity, p.crossed⟩

/-- A swap of the whole of `amountIn`. -/
def swap {σ : Type} (state : ConcentratedState) (source : TickSource σ) (amountIn : Nat) (zeroForOne : Bool) :
    Ticking σ Outcome :=
  state.swapWithin source amountIn zeroForOne maxSteps

end ConcentratedState
end Searcher

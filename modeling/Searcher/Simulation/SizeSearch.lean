/-
# The search over trade sizes

A search proposes an amount, is told what a trial at it yielded, and proposes the next one. While the output improves
the stride goes on in its direction, when it falls the stride turns. A stride lengthens as long as it keeps its
direction; after a few turns every further one halves its pace.

The stride is a parameter of the search: `Stride` says what turning and applying one means, and `Pace` is the stride in
use, whose factor is a double.
-/

import Searcher.Checked

namespace Searcher

/-- A stride over amounts, in a direction that may change. -/
class Stride (σ : Type) where
  /-- The stride after a trial that says to go right, or left. -/
  toward : σ → (right : Bool) → σ
  /-- The next amount. -/
  apply : σ → Nat → Nat

/-- A stride whose factor is a double. -/
structure Pace where
  right : Bool
  factor : Float
  /-- How much the factor departs from one at a time. -/
  gamma : Float
  /-- The turns so far, counted up to four. -/
  turns : Nat

namespace Pace

/-- The whole part of a double that is not negative, at most `2 ^ 128 - 1`; zero for any other. -/
def wholePart (x : Float) : Nat :=
  let bits := x.toBits.toNat
  let exponent := bits / 2 ^ 52 % 2048
  let mantissa := bits % 2 ^ 52
  if bits / 2 ^ 63 = 1 then 0
  else if exponent = 2047 then if mantissa = 0 then 2 ^ 128 - 1 else 0
  else if exponent = 0 then 0
  else if exponent < 1075 then (mantissa + 2 ^ 52) / 2 ^ (1075 - exponent)
  else min ((mantissa + 2 ^ 52) * 2 ^ (exponent - 1075)) (2 ^ 128 - 1)

/-- The places to which the factor is applied. -/
def places : Nat := 10 ^ 12

/-- A pace to the right. -/
def start (gamma : Float) : Pace := ⟨true, 1.0, gamma, 0⟩

/-- The pace after a trial: it grows in its direction, or turns with a factor of one step. -/
def toward (p : Pace) (right : Bool) : Pace :=
  let step := if right then 1.0 + p.gamma else 1.0 - p.gamma
  if p.right = right then { p with factor := p.factor * step }
  else if 3 < p.turns then { p with right, factor := step, gamma := p.gamma * 0.5 }
  else { p with right, factor := step, turns := p.turns + 1 }

/-- The amount times the factor, the factor being cut to twelve places. -/
def apply (p : Pace) (amount : Nat) : Nat :=
  saturate (amount * wholePart (p.factor * 1000000000000.0)) / places

instance : Stride Pace := ⟨toward, apply⟩

end Pace

/-- When a search ends. -/
structure SearchLimits where
  /-- The trials it may propose. -/
  maxTrials : Nat
  /-- The trials without any output after which it gives up. -/
  giveUpAfter : Nat
  /-- Whether a trial without output ends it once another had some. -/
  stopOnDrop : Bool
deriving DecidableEq, Repr

namespace SearchLimits

/-- The limits of a search for an arbitrage. -/
def arbitrage : SearchLimits := ⟨30, 20, true⟩

/-- The limits of a search for a sandwich. -/
def sandwich : SearchLimits := ⟨100, 20, false⟩

end SearchLimits

/-- What a trial at an amount yielded. -/
structure Trial where
  amount : Nat
  output : Nat
  gasUsed : Nat
deriving DecidableEq, Repr, Inhabited

/-- What a trial of a sandwich used and earned. -/
structure SandwichTrial where
  /-- What the front run paid in. -/
  frontAmount : Nat := 0
  /-- What the back run sold. -/
  backAmount : Nat := 0
  frontGas : Nat := 0
  backGas : Nat := 0
  revenue : Nat := 0
deriving DecidableEq, Repr, Inhabited

/-- A search on its way. -/
structure SizeSearch (σ : Type) where
  limits : SearchLimits
  maxAmount : Nat
  /-- The amount proposed last. -/
  amount : Nat
  stride : σ
  count : Nat := 0
  best : Trial := ⟨0, 0, 0⟩
  lastOutput : Nat := 0
  previousOutput : Nat := 0
  previousAmount : Nat := 0
  started : Bool := false

namespace SizeSearch

variable {σ : Type}

/-- How much a stride departs from one at first. -/
def gamma : Float := 0.05

/-- A search for an arbitrage by a stride, up to fifty times the amount it starts from. -/
def arbitrageBy (stride : σ) (amount : Nat) : SizeSearch σ :=
  { limits := .arbitrage, maxAmount := saturate (amount * 50), amount, stride }

/-- A search for a sandwich by a stride, up to what the attacker holds. -/
def sandwichBy (stride : σ) (amount maxAmount : Nat) : SizeSearch σ :=
  { limits := .sandwich, maxAmount, amount, stride }

/-- A search for an arbitrage at a pace. -/
def arbitrage (amount : Nat) : SizeSearch Pace := arbitrageBy (.start gamma) amount

/-- A search for a sandwich at a pace. -/
def sandwich (amount maxAmount : Nat) : SizeSearch Pace := sandwichBy (.start gamma) amount maxAmount

/-- Records what the last proposal yielded. The first of the best trials is kept. -/
def record (s : SizeSearch σ) (output gasUsed : Nat) : SizeSearch σ :=
  { s with
    lastOutput := output
    best := if s.best.output < output then ⟨s.amount, output, gasUsed⟩ else s.best }

/-- Whether no more trials are allowed. -/
def exhausted (s : SizeSearch σ) : Bool :=
  (s.best.output = 0 ∧ s.limits.giveUpAfter ≤ s.count) ∨ s.limits.maxTrials ≤ s.count

/-- The search with its stride adapted to the last output. -/
def adapted [Stride σ] (s : SizeSearch σ) : SizeSearch σ :=
  { s with
    count := s.count + 1
    stride := Stride.toward s.stride (s.previousOutput < s.lastOutput)
    previousOutput := s.lastOutput }

/-- Whether the output has dropped to nothing after there was some. -/
def dropped (s : SizeSearch σ) : Bool :=
  s.limits.stopOnDrop ∧ s.best.output ≠ 0 ∧ s.lastOutput = 0

/-- Proposes an amount, or ends the search. The first proposal is the amount it starts from; a search whose last two
proposals agree is over. `expired` tells that its time is up. -/
def next [Stride σ] (s : SizeSearch σ) (expired : Bool) : Option Nat × SizeSearch σ :=
  if ¬ s.started then (some s.amount, { s with started := true, count := s.count + 1 })
  else if s.exhausted || expired then (none, s)
  else
    let s := s.adapted
    if s.previousAmount = s.amount ∨ s.dropped then (none, s)
    else
      let amount := min (Stride.apply s.stride s.amount) s.maxAmount
      (some amount, { s with previousAmount := s.amount, amount })

/-- The best trial, if any had an output. -/
def finish (s : SizeSearch σ) : Option Trial := if s.best.output = 0 then none else some s.best

/-- Proposes and records in turn, at most `fuel` times. `trial k x` makes trial `k` at the amount `x`, and `yielded` is
the output and the gas of a trial, or nothing when it is not to be recorded. The trials are returned in order. -/
def explore [Stride σ] {m : Type → Type} [Monad m] {β : Type} (expired : Bool) (trial : Nat → Nat → m β)
    (yielded : β → Option (Nat × Nat)) : (fuel k : Nat) → SizeSearch σ → m (List (Nat × β) × SizeSearch σ)
  | 0, _, s => pure ([], s)
  | fuel + 1, k, s =>
    match s.next expired with
    | (none, s) => pure ([], s)
    | (some x, s) => do
      let result ← trial k x
      let s := match yielded result with
        | some (output, gas) => s.record output gas
        | none => s
      let (tried, s) ← explore expired trial yielded fuel (k + 1) s
      return ((x, result) :: tried, s)

/-- The steps that bound a search: one more than the trials it may propose. -/
def bound (s : SizeSearch σ) : Nat := s.limits.maxTrials + 1

end SizeSearch
end Searcher

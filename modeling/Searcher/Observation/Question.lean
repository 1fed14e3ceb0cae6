/-
# Questions to contracts

What the program knows of contracts it learns from reads, each of which asks a contract for one value. A question
names the value it is about, its subject, beside the read; what was observed is looked up by subject.

Two questions may have one subject: then the one asked later counts. The fee that a factory takes on a pair is a value
of the factory, so of several pairs of one factory the pair asked last sets it for all.
-/

import Searcher.Abi
import Searcher.Node.Batch

namespace Searcher

/-- A value that a contract tells. -/
inductive Field where
  /-- Token 0 or token 1 of a pair or a concentrated pool. -/
  | token (i : Nat)
  | factory
  | reserves
  /-- The fee of a pair as the pair tells it. -/
  | swapFee
  /-- The fee of a pair as its factory tells it. -/
  | pairFees
  | slot0
  /-- What stands in place of `slot0` in pools whose ticks are read one by one. -/
  | globalState
  | liquidity
  | fee
  | tickSpacing
  | bitmap (word : Int)
  /-- The changes of liquidity at the marks of a word. -/
  | nets (word : Int)
  | tick (tick : Int)
  | amp
  | balance (i : Nat)
  | coin (i : Nat)
  | offpegMultiplier
  | exchangeRate
  | supplyRate
  | accrualBlock
  | pricePerShare
  | baseCachedAt
  | baseVirtualPrice
  | virtualPrice
  | totalSupply
  /-- The balances of all coins. -/
  | balances
  | storedRates
  | gamma
  | invariant
  | priceScale (k : Nat)
  | precisions
  | feeGamma
  | midFee
  | outFee
  | rampEnd
  | timestamp
  | blockNumber
  /-- The pool that a factory has under its number `k`. -/
  | lookup (k : Nat)
  | balanceOf (holder : Address)
deriving DecidableEq

/-- A value of a contract. -/
structure Subject where
  contract : Address
  field : Field
deriving DecidableEq

/-- A read for the value of a subject. -/
abbrev Question := KeyedRead Subject

namespace Question

/-- Asks `target` for a value of `contract`, by the function with a signature. -/
def via (target contract : Address) (field : Field) (signature : String) (arguments : List Nat := []) : Question :=
  ⟨⟨contract, field⟩, ⟨target, Abi.callData signature (arguments.map .word)⟩⟩

/-- Asks a contract for a value of its own. -/
def ask (contract : Address) (field : Field) (signature : String) (arguments : List Nat := []) : Question :=
  via contract contract field signature arguments

end Question

/-- What was observed of contracts. -/
abbrev Observed := Answers Subject

namespace Observed

/-- What the read of a value returned. -/
def bytes? (o : Observed) (contract : Address) (field : Field) : Option Bytes := o.get? ⟨contract, field⟩

/-- A value of one word. -/
def word? (o : Observed) (contract : Address) (field : Field) : Option Nat := (o.bytes? contract field).bind Abi.word?

/-- A value of several words. -/
def words? (o : Observed) (contract : Address) (field : Field) (count : Nat) : Option (List Nat) := do
  Abi.words? (← o.bytes? contract field) count

/-- A value that is an array, as the words of its elements. -/
def array? (o : Observed) (contract : Address) (field : Field) (width : Nat) : Option (List Nat) := do
  Abi.array? (← o.bytes? contract field) width

/-- A value that is an address. -/
def address? (o : Observed) (contract : Address) (field : Field) : Option Address :=
  (o.word? contract field).map Abi.toAddress

/-- A value that is counted with 64 bits, and stops there. -/
def count? (o : Observed) (contract : Address) (field : Field) : Option Nat :=
  (o.word? contract field).map (min · (2 ^ 64 - 1))

/-- Token 0 and token 1. -/
def tokens? (o : Observed) (pool : Address) : Option (List Address) := do
  return [← o.address? pool (.token 0), ← o.address? pool (.token 1)]

end Observed
end Searcher

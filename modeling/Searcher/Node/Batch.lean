/-
# Batches of reads

Many reads are put to a node in parts of a fixed size. A part whose question fails leaves its reads without an answer,
as if the contracts had rolled them back. Only a batch of which every part fails is a failure itself.

A read has a key. Of two reads with one key, the later answer counts.
-/

import Searcher.Node.Basic

namespace Searcher

/-- Why something could not be read from the chain. -/
inductive ReadError where
  /-- Every part of a batch failed. -/
  | allPartsFailed
  /-- No pool tells the price of a token. -/
  | noReferencePool (token : Address)
deriving DecidableEq

/-- The failure for people. -/
def ReadError.message : ReadError → String
  | allPartsFailed => "every multicall chunk failed"
  | noReferencePool token => "no reference pool for " ++ token.checksummed

/-- Reads of the chain through a node with states `σ`. -/
abbrev Reading (σ : Type) := ExceptT ReadError (StateM σ)

/-- A reading of the chain by which something of type `τ` may change. -/
abbrev Updating (τ σ : Type) := Reading (τ × σ)

/-- A reading by which nothing changes yet. -/
def Reading.beside {σ α : Type} (τ : Type) (x : Reading σ α) : Updating τ σ α := Part.second.runExcept x

/-- What is made of something, with what is returned. -/
def Updating.on {τ σ α : Type} (x : Updating τ σ α) (t : τ) : Reading σ (τ × α) :=
  ExceptT.mk fun s =>
    let (result, t, s) := x (t, s)
    (result.map fun a => (t, a), s)

/-- A read under a key. -/
structure KeyedRead (κ : Type) where
  key : κ
  read : Read
deriving DecidableEq

/-- What reads returned, by key, the latest first; an entry without bytes was rolled back or not answered. -/
abbrev Answers (κ : Type) := List (κ × Option Bytes)

namespace Answers

variable {κ : Type} [BEq κ]

/-- The bytes that the read with a key returned. -/
def get? (answers : Answers κ) (key : κ) : Option Bytes := (answers.lookup key).join

end Answers

namespace Batch

/-- The parts of a list, each of `size` elements but for the last. Parts of no size have one element. -/
def parts {α : Type} (size : Nat) (xs : List α) : List (List α) :=
  if xs = [] then []
  else xs.take (max 1 size) :: parts size (xs.drop (max 1 size))
termination_by xs.length
decreasing_by
  have := List.length_pos_iff.2 ‹¬ xs = []›
  simp only [List.length_drop]
  omega

variable {σ κ : Type}

/-- What the reads of a part returned, and whether its question failed. -/
def ask (node : Node σ) (block : Option Nat) (part : List (KeyedRead κ)) : StateM σ (Bool × Answers κ) := do
  match ← node.readAll block (part.map (·.read)) with
  | some returned => return (false, (part.map (·.key)).zip returned)
  | none => return (true, part.map fun r => (r.key, none))

/-- What all reads returned. It is an error when there are reads and every part fails. -/
def run (node : Node σ) (size : Nat) (block : Option Nat) (reads : List (KeyedRead κ)) : Reading σ (Answers κ) := do
  let outcomes ← ExceptT.lift ((parts size reads).mapM (ask node block))
  if ¬ outcomes.isEmpty ∧ outcomes.all (·.1) then throw .allPartsFailed
  return (outcomes.flatMap (·.2)).reverse

end Batch
end Searcher

/-
# Recorded relays

A relay whose answers are written down beforehand, which puts on record what is submitted to it. When no answer is left
it refuses without a reason.
-/

import Searcher.Relay.Basic

namespace Searcher
namespace RecordedRelay

/-- What was submitted. -/
inductive Entry where
  | bundle (raw : List Bytes) (block : Nat)
  | single (raw : Bytes)
deriving DecidableEq

/-- A recorded relay with its state. -/
structure State where
  /-- The answers that are left: a name, or the reason of a refusal. -/
  replies : List (Except String String) := []
  entries : List Entry := []

/-- Puts a submission on record and takes the next answer. -/
def submit (entry : Entry) : Submitting State String := do
  let s ← get
  set { s with replies := s.replies.drop 1, entries := s.entries ++ [entry] }
  match s.replies.head? with
  | some (.ok name) => return name
  | some (.error reason) => throw (.rejected reason)
  | none => throw (.rejected "")

/-- The relay that answers from its record. -/
def relay : Relay State where
  bundle raw block := submit (.bundle raw block)
  single raw := submit (.single raw)

end RecordedRelay
end Searcher

/-
# Relays

A relay takes attacks that must not be seen by others: a single transaction, or a bundle of transactions in order for
one block. It answers with the name under which it keeps them.
-/

import Searcher.Attack.Gate
import Searcher.Envelope
import Searcher.Part

namespace Searcher

/-- Why an attack was not submitted. -/
inductive SubmissionError where
  /-- The relay refused it. -/
  | rejected (reason : String)
  /-- The answer of the relay cannot be read. -/
  | unreadable
  /-- The relay answered with a status that is no success. -/
  | status (line body : String)
  /-- No answer was received. -/
  | unreachable (reason : String)
  | signing (reason : String)
  | gated (reason : RejectReason)
  /-- The decision about a sandwich is not to bundle it. -/
  | notBundled
deriving DecidableEq

/-- The failure for people. -/
def SubmissionError.message : SubmissionError → String
  | rejected reason => "relay rejected request: " ++ reason
  | unreadable => "relay rejected request: unreadable answer"
  | status line body => "http error: HTTP " ++ line ++ ": " ++ body
  | unreachable reason => "http error: " ++ reason
  | signing reason => "signing failed: " ++ reason
  | gated reason => "attack gated out: " ++ reason.message
  | notBundled => "attack gated out: sandwiches are only bundled"

/-- A step of a submission. -/
abbrev Submitting (σ : Type) := ExceptT SubmissionError (StateM σ)

/-- The operations of a relay. -/
structure Relay (σ : Type) where
  /-- Submits signed transactions in order for a block. -/
  bundle : (raw : List Bytes) → (block : Nat) → Submitting σ String
  /-- Submits one signed transaction. -/
  single : (raw : Bytes) → Submitting σ String

namespace Relay

/-- The relay as a service among others. -/
def within {σ τ : Type} (p : Part σ τ) (relay : Relay τ) : Relay σ where
  bundle raw block := p.runExcept (relay.bundle raw block)
  single raw := p.runExcept (relay.single raw)

end Relay
end Searcher

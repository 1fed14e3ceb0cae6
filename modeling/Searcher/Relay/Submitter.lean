/-
# Submitting attacks

The attacker signs planned transactions, bound to the chain, and hands them to a relay as decided. A victim is bundled
byte for byte as it was signed. The number of the first transaction is asked for each time.

| attack | submitted |
| --- | --- |
| arbitrage, alone | the signed transaction |
| arbitrage, in a bundle | the victim, the signed transaction |
| sandwich | the front run, the victim, the back run; only in a bundle |
-/

import Searcher.Attack.Plan
import Searcher.Crypto.Signing
import Searcher.Node.Basic
import Searcher.Relay.Basic

namespace Searcher

namespace Envelope

/-- The hash that is signed for a legacy transaction on a chain. -/
def legacyDigest (chainId gasPrice : Nat) (call : EnvelopeCall) : Word :=
  .ofBytes (Keccak.hash (Rlp.list ([.ofNat call.nonce, .ofNat gasPrice] ++ callItems call ++
    [.ofNat chainId, .ofNat 0, .ofNat 0])).encode)

end Envelope

/-- The envelope of a planned transaction, signed. -/
def PlannedTx.sign (tx : PlannedTx) (key : SigningKey) (nonce chainId : Nat) : Option Envelope := do
  let call : EnvelopeCall := ⟨nonce, tx.gasLimit, some tx.receiver, tx.value, tx.callData⟩
  return .legacy (some chainId) tx.gasPrice call (← key.sign (Envelope.legacyDigest chainId tx.gasPrice call))

/-- An attacker who signs for a chain. -/
structure Submitter where
  key : SigningKey
  chainId : Nat

namespace Submitter

variable {σ : Type}

/-- The number of the attacker's next transaction. -/
def nonce (s : Submitter) (node : Node σ) : Submitting σ Nat :=
  ExceptT.adapt (fun e => .unreachable e.message)
    (node.ask "eth_getTransactionCount" [.ofAddress s.key.address, .str "latest"] (Json.number? 64))

/-- The bytes of a planned transaction, signed. -/
def sign (s : Submitter) (tx : PlannedTx) (nonce : Nat) : Except SubmissionError Bytes :=
  match tx.sign s.key nonce s.chainId with
  | some e => .ok e.encode
  | none => .error (.signing "signature error")

/-- The bytes of a victim. -/
def victimBytes (victim : Transaction) : Except SubmissionError Bytes :=
  match Envelope.ofTransaction victim with
  | .ok e => .ok e.encode
  | .error e => .error (.signing e.message)

/-- Submits an arbitrage as decided. -/
def arbitrage (s : Submitter) (node : Node σ) (relay : Relay σ) (victim : Transaction) (tx : PlannedTx)
    (decision : Decision) : Submitting σ String := do
  let signed ← MonadExcept.ofExcept (s.sign tx (← s.nonce node))
  match decision with
  | .reject reason => throw (.gated reason)
  | .single _ => relay.single signed
  | .bundle _ block _ => relay.bundle [← MonadExcept.ofExcept (victimBytes victim), signed] block

/-- Submits a sandwich as decided. -/
def sandwich (s : Submitter) (node : Node σ) (relay : Relay σ) (victim : Transaction) (front back : PlannedTx)
    (decision : Decision) : Submitting σ String := do
  match decision with
  | .bundle _ block _ =>
    let nonce ← s.nonce node
    let front ← MonadExcept.ofExcept (s.sign front nonce)
    let back ← MonadExcept.ofExcept (s.sign back (nonce + 1))
    relay.bundle [front, ← MonadExcept.ofExcept (victimBytes victim), back] block
  | _ => throw .notBundled

end Submitter
end Searcher

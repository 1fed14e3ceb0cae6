/-
# Pending transactions

The relay announces transactions that wait for a block. Only the sender has to be told; fields that are absent are zero,
empty or unknown. Announcements tell no access lists.
-/

import Searcher.Json.Reader
import Searcher.Stream.Validator
import Searcher.Transaction

namespace Searcher

/-- An announced transaction. -/
structure PendingTx where
  hash : Word
  chainId : Option Nat := none
  /-- The number of the envelope's type. -/
  type : Option Nat := none
  sender : Address
  receiver : Option Address := none
  value : Nat := 0
  input : Bytes := []
  nonce : Nat := 0
  gas : Nat := 0
  gasPrice : Option Nat := none
  maxFeePerGas : Option Nat := none
  maxPriorityFeePerGas : Option Nat := none
  signature : TxSignature := {}
deriving DecidableEq

namespace PendingTx

/-- The names of the fields, in their order. -/
def names : List String :=
  ["chainId", "type", "from", "to", "value", "input", "nonce", "gas", "gasPrice", "maxFeePerGas",
    "maxPriorityFeePerGas", "v", "r", "s"]

/-- Reads the contents of the transaction with a hash. -/
def ofContents? (hash : Word) (j : Json) : Option PendingTx := do
  let small := Json.number? 64
  let large := Json.number? 256
  let [chainId, type, sender, receiver, value, input, nonce, gas, gasPrice, maxFee, maxPriority, v, r, s] ←
    j.fields? names | none
  return {
    hash
    chainId := ← Json.optional small chainId
    type := ← Json.optional small type
    sender := ← Json.required Json.wireAddress? sender
    receiver := ← Json.optional Json.wireAddress? receiver
    value := ← Json.defaulted 0 large value
    input := ← Json.defaulted [] Json.byteString? input
    nonce := ← Json.defaulted 0 small nonce
    gas := ← Json.defaulted 0 small gas
    gasPrice := ← Json.optional large gasPrice
    maxFeePerGas := ← Json.optional large maxFee
    maxPriorityFeePerGas := ← Json.optional large maxPriority
    signature := ⟨← Json.defaulted 0 small v, ← Json.defaulted 0 large r, ← Json.defaulted 0 large s⟩ }

/-- Reads an announced transaction. -/
def ofJson? (j : Json) : Option PendingTx := do
  let [hash, contents] ← j.fields? ["txHash", "txContents"] | none
  let hash ← Json.required Json.wireWord? hash
  Json.required (ofContents? hash) contents

/-- The transaction that a notification announces; none if the message is of another kind. -/
def ofNotification (text : String) : Except MessageError (Option PendingTx) :=
  match Json.read text with
  | none => .error .malformed
  | some message =>
    match (message.get? "params").bind (·.get? "result") with
    | none => .ok none
    | some result => match ofJson? result with
      | some tx => .ok (some tx)
      | none => .error .malformed

/-- The kind of transaction that a type stands for; the types that are not handled have none. -/
def kind? (tx : PendingTx) : Option TxKind :=
  match tx.type with
  | none | some 0 => some .legacy
  | some 1 => some .eip2930
  | some 2 => some .eip1559
  | _ => none

/-- Prices are numbers of 128 bits; a higher one stops there. -/
def capPrice : Option Nat → Option Nat := Option.map Gate.capPrice

/-- The transaction to evaluate, unless it is of a type that is not handled. -/
def toTransaction? (tx : PendingTx) : Option Transaction := do
  return {
    hash := tx.hash
    kind := ← tx.kind?
    chainId := tx.chainId
    nonce := tx.nonce
    gas := tx.gas
    gasPrice := capPrice tx.gasPrice
    maxFeePerGas := capPrice tx.maxFeePerGas
    maxPriorityFeePerGas := capPrice tx.maxPriorityFeePerGas
    caller := tx.sender
    receiver := tx.receiver
    value := tx.value
    input := tx.input
    signature := tx.signature }

end PendingTx
end Searcher

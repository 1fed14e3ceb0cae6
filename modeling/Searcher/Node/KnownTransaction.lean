/-
# Transactions that a node knows

A node tells a transaction as an object. The type decides which fields there are; one without a type is a legacy
transaction, whose recovery number alone tells the chain. The hash is taken as it is told.

| type | fields beside those of all types |
| --- | --- |
| 0 | gas price |
| 1 | chain, gas price, access list |
| 2 | chain, fee cap, priority fee, access list |
| 3 | as 2, with a receiver, blob hashes and a cap of the blob fee |
| 4 | as 2, with a receiver and authorizations |

Transactions of types 3 and 4 are not handled further.
-/

import Searcher.Envelope
import Searcher.Json.Wire

namespace Searcher
namespace KnownTransaction

/-- A field that must be there. -/
def field? {α : Type} (j : Json) (key : String) (read : Json → Option α) : Option α := Json.required read (j.get? key)

/-- A field that may be absent or `null`. -/
def maybe? {α : Type} (j : Json) (key : String) (read : Json → Option α) : Option (Option α) :=
  Json.optional read (j.get? key)

/-- The call that the transaction makes. -/
def call? (j : Json) : Option EnvelopeCall := do
  return ⟨← field? j "nonce" (Json.number? 64), ← field? j "gas" (Json.number? 64),
    ← maybe? j "to" Json.wireAddress?, ← field? j "value" (Json.number? 256), ← field? j "input" Json.byteString?⟩

/-- An entry of an access list. -/
def accessItem? (j : Json) : Option AccessItem := do
  let [address, keys] ← j.fields? ["address", "storageKeys"] | none
  return ⟨← Json.required Json.wireAddress? address,
    ← Json.required (fun j => do (← j.arr?).mapM Json.wireWord?) keys⟩

/-- The access list; none when it is `null`. -/
def accessList? (j : Json) : Option (List AccessItem) := do
  let items ← maybe? j "accessList" Json.arr?
  (items.getD []).mapM accessItem?

/-- The parity that a number stands for. -/
def parity? (v : Nat) : Option Bool :=
  if 35 ≤ v then some ((v - 35) % 2 = 1) else Envelope.parity? v

/-- The signature of a typed transaction. The parity goes before the recovery number. -/
def signature? (j : Json) : Option CurveSignature := do
  let odd ← maybe? j "yParity" (Json.number? 64)
  let v ← maybe? j "v" (Json.number? 64)
  return ⟨← parity? (← odd.or v), ← field? j "r" (Json.number? 256), ← field? j "s" (Json.number? 256)⟩

/-- The chain and the signature of a legacy transaction. One that is not signed has no chain. -/
def legacySignature? (j : Json) : Option (Option Nat × CurveSignature) := do
  let v ← field? j "v" (Json.number? 128)
  let r ← field? j "r" (Json.number? 256)
  let s ← field? j "s" (Json.number? 256)
  if v = 0 ∧ r = 0 ∧ s = 0 then return (none, ⟨false, r, s⟩)
  let (chain, odd) ← Envelope.ofRecovery? v
  if chain.any (2 ^ 64 ≤ ·) then none
  return (chain, ⟨odd, r, s⟩)

/-- The envelope of a legacy transaction. A chain that it names must be that of its recovery number. -/
def legacy? (j : Json) : Option Envelope := do
  let named ← maybe? j "chainId" (Json.number? 64)
  let (chain, signature) ← legacySignature? j
  if chain.isSome ∧ named.isSome ∧ named ≠ chain then none
  return .legacy chain (← field? j "gasPrice" (Json.number? 128)) (← call? j) signature

/-- The envelope of a transaction of type 1. -/
def eip2930? (j : Json) : Option Envelope := do
  return .eip2930 (← field? j "chainId" (Json.number? 64)) (← field? j "gasPrice" (Json.number? 128)) (← call? j)
    (← accessList? j) (← signature? j)

/-- The envelope of a transaction of type 2. -/
def eip1559? (j : Json) : Option Envelope := do
  return .eip1559 (← field? j "chainId" (Json.number? 64)) (← field? j "maxPriorityFeePerGas" (Json.number? 128))
    (← field? j "maxFeePerGas" (Json.number? 128)) (← call? j) (← accessList? j) (← signature? j)

/-- Whether the object is a transaction that carries blobs. -/
def isBlob (j : Json) : Bool :=
  (eip1559? j).isSome ∧ (field? j "to" Json.wireAddress?).isSome ∧
    (field? j "maxFeePerBlobGas" (Json.number? 128)).isSome ∧
    (field? j "blobVersionedHashes" fun h => do (← h.arr?).mapM Json.wireWord?).isSome

/-- Whether the object is a transaction that carries authorizations. -/
def isDelegation (j : Json) : Bool :=
  (eip1559? j).isSome ∧ (field? j "to" Json.wireAddress?).isSome ∧ (field? j "authorizationList" Json.arr?).isSome

/-- The envelope of an object, `some none` when it is of a type that is not handled. -/
def envelope? (j : Json) : Option (Option Envelope) := do
  match ← maybe? j "type" Json.str? with
  | none | some "0x0" | some "0x00" => return some (← legacy? j)
  | some "0x1" | some "0x01" => return some (← eip2930? j)
  | some "0x2" | some "0x02" => return some (← eip1559? j)
  | some "0x3" | some "0x03" => if isBlob j then some none else none
  | some "0x4" | some "0x04" => if isDelegation j then some none else none
  | some _ => none

/-- Whether the place of the transaction in the chain is told well: it may be `null`. -/
def hasPlace (j : Json) : Bool :=
  (maybe? j "blockHash" Json.wireWord?).isSome ∧ (maybe? j "blockNumber" (Json.number? 64)).isSome ∧
    (maybe? j "transactionIndex" (Json.number? 64)).isSome

/-- The transaction of an object, `some none` when it is of a type that is not handled. -/
def read? (j : Json) : Option (Option Transaction) := do
  let hash ← field? j "hash" Json.wireWord?
  let caller ← field? j "from" Json.wireAddress?
  let envelope ← envelope? j
  if hasPlace j then return envelope.map fun e => { e.toTransaction caller with hash }
  none

end KnownTransaction
end Searcher

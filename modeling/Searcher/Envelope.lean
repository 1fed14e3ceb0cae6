/-
# Signed envelopes

A bundle has to carry a transaction byte for byte as it was signed. The envelope is what was signed, with the
signature: the three kinds that the program handles, each written as a list behind the byte of its type.

| type | fields |
| --- | --- |
| none | nonce, price, gas, to, value, input, v, r, s |
| 1 | chain, nonce, price, gas, to, value, input, access list, parity, r, s |
| 2 | chain, nonce, priority fee, fee cap, gas, to, value, input, access list, parity, r, s |

Of the types 3 and 4, only their form is checked.

`Envelope.ofTransaction` builds an envelope from the parts of an observed transaction, and `Envelope.toTransaction`
takes it apart again.
-/

import Searcher.Crypto.Secp256k1
import Searcher.Rlp
import Searcher.Transaction

namespace Searcher

/-- What every envelope says of the call it makes. -/
structure EnvelopeCall where
  nonce : Nat
  gas : Nat
  receiver : Option Address
  value : Nat
  input : Bytes
deriving DecidableEq, Inhabited

/-- A signed transaction. -/
inductive Envelope where
  /-- Without a type; old ones are not bound to a chain. -/
  | legacy (chainId : Option Nat) (gasPrice : Nat) (call : EnvelopeCall) (signature : CurveSignature)
  | eip2930 (chainId gasPrice : Nat) (call : EnvelopeCall) (accessList : List AccessItem)
      (signature : CurveSignature)
  | eip1559 (chainId maxPriorityFee maxFee : Nat) (call : EnvelopeCall) (accessList : List AccessItem)
      (signature : CurveSignature)
deriving DecidableEq, Inhabited

/-- A part that an envelope needs and a transaction may lack. -/
inductive EnvelopePart where
  | gasPrice
  | chainId
  | maxFee
  | priorityFee
deriving DecidableEq, Repr

/-- The part as an error names it. -/
def EnvelopePart.name : EnvelopePart → String
  | gasPrice => "gas price"
  | chainId => "chain id"
  | maxFee => "max fee"
  | priorityFee => "priority fee"

/-- Why a transaction has no envelope. -/
inductive EnvelopeError where
  /-- The recovery number fits no transaction without a type. -/
  | legacyRecovery (v : Nat)
  /-- The parity is neither even nor odd. -/
  | parity (v : Nat)
  /-- The transaction with this hash lacks a part. -/
  | missing (hash : Word) (part : EnvelopePart)
deriving DecidableEq

/-- The text of the error. -/
def EnvelopeError.message : EnvelopeError → String
  | legacyRecovery v => "invalid legacy v " ++ toString v
  | parity v => "invalid y parity " ++ toString v
  | missing hash part => hash.hex ++ " is missing " ++ part.name

namespace Envelope

/-- The recovery number of a transaction without a type: from 35 on it also holds the chain. -/
def recovery (chainId : Option Nat) (odd : Bool) : Nat :=
  (match chainId with
    | some id => 35 + 2 * id
    | none => 27) + odd.toNat

/-- The chain and the parity that a recovery number holds. -/
def ofRecovery? (v : Nat) : Option (Option Nat × Bool) :=
  if v = 27 ∨ v = 28 then some (none, v = 28)
  else if 35 ≤ v then some (some ((v - 35) / 2), (v - 35) % 2 = 1)
  else none

/-- The parity that a number stands for in a typed transaction. -/
def parity? (v : Nat) : Option Bool :=
  if v = 0 ∨ v = 27 then some false else if v = 1 ∨ v = 28 then some true else none

/-- The signature of a typed transaction. -/
def typedSignature (s : TxSignature) : Except EnvelopeError CurveSignature :=
  match parity? s.v with
  | some odd => .ok ⟨odd, s.r, s.s⟩
  | none => .error (.parity s.v)

/-- A part of a transaction, or the failure that it is missing. -/
def need (tx : Transaction) (part : EnvelopePart) : Option Nat → Except EnvelopeError Nat
  | some n => .ok n
  | none => .error (.missing tx.hash part)

/-- The envelope of an observed transaction. -/
def ofTransaction (tx : Transaction) : Except EnvelopeError Envelope :=
  let call : EnvelopeCall := ⟨tx.nonce, tx.gas, tx.receiver, tx.value, tx.input⟩
  match tx.kind with
  | .legacy => do
    let some (chain, odd) := ofRecovery? tx.signature.v | throw (.legacyRecovery tx.signature.v)
    let price ← need tx .gasPrice tx.gasPrice
    return .legacy (tx.chainId.or chain) price call ⟨odd, tx.signature.r, tx.signature.s⟩
  | .eip2930 => do
    let chain ← need tx .chainId tx.chainId
    let price ← need tx .gasPrice tx.gasPrice
    return .eip2930 chain price call tx.accessList (← typedSignature tx.signature)
  | .eip1559 => do
    let chain ← need tx .chainId tx.chainId
    let fee ← need tx .maxFee tx.maxFeePerGas
    let priority ← need tx .priorityFee tx.maxPriorityFeePerGas
    return .eip1559 chain priority fee call tx.accessList (← typedSignature tx.signature)

/-- The item of a receiver; empty when there is none. -/
def receiverItem (receiver : Option Address) : Rlp := .bytes ((receiver.map Address.toBytes).getD [])

/-- The item of an access list. -/
def accessItems (items : List AccessItem) : Rlp :=
  .list (items.map fun a => .list [.bytes a.address.toBytes, .list (a.keys.map fun k => .bytes k.toBytes)])

/-- The items from the gas to the input. -/
def callItems (call : EnvelopeCall) : List Rlp :=
  [.ofNat call.gas, receiverItem call.receiver, .ofNat call.value, .bytes call.input]

/-- The items of a signature whose first number is `v`. -/
def signatureItems (v : Nat) (s : CurveSignature) : List Rlp := [.ofNat v, .ofNat s.r, .ofNat s.s]

/-- The bytes of the envelope. -/
def encode : Envelope → Bytes
  | legacy chain price call s =>
    (Rlp.list ([.ofNat call.nonce, .ofNat price] ++ callItems call ++ signatureItems (recovery chain s.odd) s)).encode
  | eip2930 chain price call access s =>
    1 :: (Rlp.list ([.ofNat chain, .ofNat call.nonce, .ofNat price] ++ callItems call ++ [accessItems access] ++
      signatureItems s.odd.toNat s)).encode
  | eip1559 chain priority fee call access s =>
    2 :: (Rlp.list ([.ofNat chain, .ofNat call.nonce, .ofNat priority, .ofNat fee] ++ callItems call ++
      [accessItems access] ++ signatureItems s.odd.toNat s)).encode

/-- The hash under which the transaction is known. -/
def hash (e : Envelope) : Word := .ofBytes (Keccak.hash e.encode)

/-- The transaction of an envelope that `caller` signed. -/
def toTransaction (e : Envelope) (caller : Address) : Transaction :=
  match e with
  | legacy chain price call s =>
    { hash := e.hash, kind := .legacy, chainId := chain, gasPrice := some price, caller,
      nonce := call.nonce, gas := call.gas, receiver := call.receiver, value := call.value, input := call.input,
      signature := ⟨recovery chain s.odd, s.r, s.s⟩ }
  | eip2930 chain price call access s =>
    { hash := e.hash, kind := .eip2930, chainId := some chain, gasPrice := some price, caller,
      nonce := call.nonce, gas := call.gas, receiver := call.receiver, value := call.value, input := call.input,
      accessList := access, signature := ⟨s.odd.toNat, s.r, s.s⟩ }
  | eip1559 chain priority fee call access s =>
    { hash := e.hash, kind := .eip1559, chainId := some chain, maxFeePerGas := some fee,
      maxPriorityFeePerGas := some priority, caller,
      nonce := call.nonce, gas := call.gas, receiver := call.receiver, value := call.value, input := call.input,
      accessList := access, signature := ⟨s.odd.toNat, s.r, s.s⟩ }

/-- The receiver of an item. -/
def receiver? : Rlp → Option (Option Address)
  | .bytes [] => some none
  | item => item.toAddress?.map some

/-- An entry of an access list. -/
def accessItem? (item : Rlp) : Option AccessItem := do
  let [address, keys] ← item.toList? | none
  return ⟨← address.toAddress?, ← (← keys.toList?).mapM Rlp.toWord?⟩

/-- The access list of an item. -/
def accessList? (item : Rlp) : Option (List AccessItem) := do (← item.toList?).mapM accessItem?

/-- The call of its items. -/
def call? (nonce gas receiver value input : Rlp) : Option EnvelopeCall :=
  return ⟨← nonce.toNat? 8, ← gas.toNat? 8, ← receiver? receiver, ← value.toNat? 32, ← input.toBytes?⟩

/-- The signature of its items in a typed transaction. -/
def signature? (odd r s : Rlp) : Option CurveSignature :=
  return ⟨← odd.toBool?, ← r.toNat? 32, ← s.toNat? 32⟩

/-- The envelope without a type that the items make. -/
def legacy? (items : List Rlp) : Option Envelope := do
  let [nonce, price, gas, receiver, value, input, v, r, s] := items | none
  let (chain, odd) ← ofRecovery? (← v.toNat? 16)
  if chain.any (2 ^ 64 ≤ ·) then none
  return .legacy chain (← price.toNat? 16) (← call? nonce gas receiver value input) ⟨odd, ← r.toNat? 32, ← s.toNat? 32⟩

/-- The envelope of type 1 that the items make. -/
def eip2930? (items : List Rlp) : Option Envelope := do
  let [chain, nonce, price, gas, receiver, value, input, access, odd, r, s] := items | none
  return .eip2930 (← chain.toNat? 8) (← price.toNat? 16) (← call? nonce gas receiver value input) (← accessList? access)
    (← signature? odd r s)

/-- The envelope of type 2 that the items make. -/
def eip1559? (items : List Rlp) : Option Envelope := do
  let [chain, nonce, priority, fee, gas, receiver, value, input, access, odd, r, s] := items | none
  return .eip1559 (← chain.toNat? 8) (← priority.toNat? 16) (← fee.toNat? 16) (← call? nonce gas receiver value input)
    (← accessList? access) (← signature? odd r s)

/-- An authorization of an account to run code of another. -/
def isAuthorization (item : Rlp) : Bool :=
  match item with
  | .list [chain, address, nonce, odd, r, s] =>
    (chain.toNat? 32).isSome ∧ address.toAddress?.isSome ∧ (nonce.toNat? 8).isSome ∧ (odd.toNat? 1).isSome ∧
      (r.toNat? 32).isSome ∧ (s.toNat? 32).isSome
  | _ => false

/-- Whether the items make a transaction that carries blobs. -/
def isBlob (items : List Rlp) : Bool :=
  match items with
  | [chain, nonce, priority, fee, gas, receiver, value, input, access, blobFee, hashes, odd, r, s] =>
    (eip1559? [chain, nonce, priority, fee, gas, receiver, value, input, access, odd, r, s]).isSome ∧
      receiver.toAddress?.isSome ∧ (blobFee.toNat? 16).isSome ∧ hashes.toList?.any (·.all fun h => h.toWord?.isSome)
  | _ => false

/-- Whether the items make a transaction that carries authorizations. -/
def isDelegation (items : List Rlp) : Bool :=
  match items with
  | [chain, nonce, priority, fee, gas, receiver, value, input, access, authorizations, odd, r, s] =>
    (eip1559? [chain, nonce, priority, fee, gas, receiver, value, input, access, odd, r, s]).isSome ∧
      receiver.toAddress?.isSome ∧ authorizations.toList?.any (·.all isAuthorization)
  | _ => false

/-- The envelope at the front of a string, `some none` when it is well formed but of a kind that is not handled. -/
def decode? (bs : Bytes) : Option (Option Envelope) := do
  let kind :: rest := bs | none
  if 192 ≤ kind then return some (← legacy? (← Rlp.decodeList? bs))
  let items ← Rlp.decodeList? rest
  match kind with
  | 1 => return some (← eip2930? items)
  | 2 => return some (← eip1559? items)
  | 3 => if isBlob items then some none else none
  | 4 => if isDelegation items then some none else none
  | _ => none

end Envelope
end Searcher

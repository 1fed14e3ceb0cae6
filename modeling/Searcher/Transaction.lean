/-
# Transactions

A transaction under evaluation, pending or mined, with the parts of its signature, so that it can be bundled byte for
byte, and the swap events of its trace.
-/

import Searcher.SwapEvent

namespace Searcher

/-- The envelope of a transaction. -/
inductive TxKind where
  | legacy
  /-- With an access list. -/
  | eip2930
  /-- With an access list and a fee market. -/
  | eip1559
deriving DecidableEq, Repr, Inhabited

/-- The parts of a signature. `v` is as the transaction carries it: 27 or 28, a number that holds the chain, or the
parity alone. -/
structure TxSignature where
  v : Nat := 0
  r : Nat := 0
  s : Nat := 0
deriving DecidableEq, Repr, Inhabited

/-- The storage keys of an account that a transaction announces. -/
structure AccessItem where
  address : Address
  keys : List Word
deriving DecidableEq, Inhabited

/-- A transaction under evaluation. -/
structure Transaction where
  hash : Word
  kind : TxKind := .legacy
  chainId : Option Nat := none
  nonce : Nat := 0
  gas : Nat := 0
  gasPrice : Option Nat := none
  maxFeePerGas : Option Nat := none
  maxPriorityFeePerGas : Option Nat := none
  caller : Address
  /-- Nobody, when the transaction creates a contract. -/
  receiver : Option Address := none
  value : Nat := 0
  input : Bytes := []
  accessList : List AccessItem := []
  signature : TxSignature := {}
  swapEvents : List SwapEvent := []
deriving DecidableEq, Inhabited

namespace Transaction

/-- The gas price, or else the cap of the fee, or else zero. -/
def effectiveGasPrice (tx : Transaction) : Nat := (tx.gasPrice.or tx.maxFeePerGas).getD 0

/-- Whether the transaction creates a contract. -/
def isCreation (tx : Transaction) : Bool := tx.receiver.isNone

/-- Whether a trace may show swaps: creations and plain transfers have none. -/
def isTraceable (tx : Transaction) : Bool := ¬ tx.isCreation ∧ tx.gas ≠ 21000 ∧ ¬ tx.input.isEmpty

end Transaction
end Searcher

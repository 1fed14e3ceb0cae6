/-
# Execution engines

An engine holds a fork of the chain. It runs calls on it for real, pins its state in snapshots and goes back to them.
An engine is a record of operations on a state `σ`, which may be a fork node, a script, or anything that keeps the laws
of a chain.

A budget of time may be set on a piece of work; when it is used up the work fails where it stands.
-/

import Searcher.Abi
import Searcher.Transaction

namespace Searcher

/-- Why a simulation step failed. -/
inductive SimulationError where
  /-- The call was rolled back by its contract. -/
  | reverted (reason : String)
  /-- The engine itself failed. -/
  | engine (reason : String)
  /-- There is no snapshot to go back to. -/
  | notForked
  | timeout
  /-- The return data cannot be read. -/
  | undecodable
deriving DecidableEq, Repr

/-- The failure for people. -/
def SimulationError.message : SimulationError → String
  | reverted reason => "execution reverted: " ++ reason
  | engine reason => "engine error: " ++ reason
  | notForked => "fork not initialised"
  | timeout => "simulation budget elapsed"
  | undecodable => "abi decode failed"

/-- A step on the state of an engine. -/
abbrev Simulating (σ : Type) := ExceptT SimulationError (StateM σ)

/-- A call to run. -/
structure EngineCall where
  caller : Address
  receiver : Address
  value : Nat := 0
  data : Bytes := []
  /-- The call only reads. -/
  isStatic : Bool := false
deriving DecidableEq, Inhabited

/-- What a call returned. -/
structure CallOutcome where
  output : Bytes := []
  gas : Nat := 0
deriving DecidableEq, Inhabited

/-- The operations of an engine. -/
structure Engine (σ : Type) where
  /-- Forks the chain behind an endpoint at a block, with a timestamp for the next one. -/
  fork : String → Nat → Option Nat → Simulating σ Unit
  /-- Pins the state and returns the name under which it can be restored. -/
  snapshot : Simulating σ Nat
  /-- Goes back to a pinned state. It and all pinned later are forgotten. -/
  restore : Nat → Simulating σ Unit
  call : EngineCall → Simulating σ CallOutcome
  setCode : Address → Bytes → Simulating σ Unit
  blockNumber : Simulating σ Nat
  /-- Runs a piece of work within a budget of milliseconds. -/
  within : {α : Type} → Nat → Simulating σ α → Simulating σ α

namespace Engine

variable {σ : Type}

/-- The account in whose name balances are read. -/
def reader : Address := .ofNat 0xd8dA6BF26964aF9D7eEd9e03E53415D37aA96045

/-- The data of a call for a balance. -/
def balanceData (holder : Address) : Bytes := Abi.callData "balanceOf(address)" [.word holder.toNat]

/-- What an account holds of a token. -/
def balanceOf (e : Engine σ) (holder token : Address) : Simulating σ Nat := do
  let outcome ← e.call { caller := reader, receiver := token, data := balanceData holder, isStatic := true }
  match Abi.word? outcome.output with
  | some n => return n
  | none => throw .undecodable

/-- Runs a transaction of the victim. -/
def replay (e : Engine σ) (tx : Transaction) : Simulating σ CallOutcome :=
  match tx.receiver with
  | none => throw (.engine (tx.hash.hex ++ " creates a contract"))
  | some receiver => e.call { caller := tx.caller, receiver, value := tx.value, data := tx.input }

/-- An account that holds the wrapped native token. -/
def wrappedHolder : Address := .ofNat 0x8894E0a0c962CB723c1976a4421c95949bE2D4E3

/-- What an installed attacker starts with. -/
def seed : Nat := 10 ^ 18

/-- Forks the chain; where attacker code is given, installs it and seeds it with the wrapped native token. -/
def prepare (e : Engine σ) (url : String) (block : Nat) (timestamp : Option Nat) (attacker : Address)
    (code : Option Bytes) (wrapped : Address) : Simulating σ Unit := do
  e.fork url block timestamp
  match code with
  | none => return
  | some code =>
    e.setCode attacker code
    let data := Abi.callData "transfer(address,uint256)" [.word attacker.toNat, .word seed]
    let _ ← e.call { caller := wrappedHolder, receiver := wrapped, data }

end Engine
end Searcher

/-
# Fork nodes

A node that holds a fork of its own serves as an engine. A call is first tried without effect, which tells its return
data and why it would fail; only then is it sent, in the name of its caller, and its receipt awaited.

A failure of a call is a rollback when the node says so, and a failure of the engine otherwise.
-/

import Searcher.Node.Basic
import Searcher.Simulation.Engine

namespace Searcher

/-- What is known of a transaction that was included. -/
structure Receipt where
  hash : Word
  succeeded : Bool
  gas : Nat
deriving DecidableEq

namespace Receipt

/-- The types of transactions that have receipts. -/
def types : List String := ["0x0", "0x1", "0x2", "0x3", "0x4"]

/-- Whether the parts of a receipt that are not used are well formed. -/
def isComplete (j : Json) : Bool :=
  (Json.required Json.wireAddress? (j.get? "from")).isSome ∧ (Json.required Json.arr? (j.get? "logs")).isSome ∧
    (Json.required (Json.fixedBytes? 256) (j.get? "logsBloom")).isSome ∧
    (Json.required (Json.number? 64) (j.get? "cumulativeGasUsed")).isSome ∧
    (Json.required (Json.number? 128) (j.get? "effectiveGasPrice")).isSome ∧
    (Json.defaulted "0x0" Json.str? (j.get? "type")).any types.contains

/-- Reads a receipt. -/
def ofJson? (j : Json) : Option Receipt := do
  let hash ← Json.required Json.wireWord? (j.get? "transactionHash")
  let status ← Json.required (Json.number? 64) (j.get? "status")
  let gas ← Json.required (Json.number? 64) (j.get? "gasUsed")
  if 1 < status ∨ ¬ isComplete j then none
  return ⟨hash, status = 1, gas⟩

end Receipt

namespace ForkNode

variable {σ : Type}

/-- The gas that a call may use. -/
def gasLimit : Nat := 10000000

/-- A request whose refusal is a failure of the engine. -/
def request {α : Type} (node : Node σ) (method : String) (params : List Json) (read : Json → Option α) :
    Simulating σ α :=
  ExceptT.adapt (fun e => .engine (method ++ ": " ++ e.message)) (node.ask method params read)

/-- A request whose answer does not matter. -/
def command (node : Node σ) (method : String) (params : List Json) : Simulating σ Unit :=
  request node method params fun _ => some ()

/-- Whether a text speaks of a rollback, in letters of either case. -/
def tellsRollback (text : String) : Bool := 1 < (text.toLower.splitOn "revert").length

/-- The failure of a call that a node refused. -/
def callFailure (e : NodeError) : SimulationError :=
  if tellsRollback e.message then .reverted e.message else .engine e.message

/-- The fields of a call as the node takes them. -/
def callFields (c : EngineCall) : List (String × Json) :=
  [("from", .ofAddress c.caller), ("to", .ofAddress c.receiver), ("value", .ofQuantity c.value),
    ("input", .ofBytes c.data), ("gas", .ofQuantity gasLimit)]

/-- Tries a call without effect. -/
def trial (node : Node σ) (c : EngineCall) : Simulating σ Bytes :=
  ExceptT.adapt callFailure (node.ask "eth_call" [.obj (callFields c), .blockTag none] Json.byteString?)

/-- Sends a call and returns the hash of its transaction. -/
def send (node : Node σ) (c : EngineCall) : Simulating σ Word :=
  ExceptT.adapt callFailure
    (node.ask "eth_sendTransaction" [.obj (callFields c ++ [("type", .str "0x2")])] Json.wireWord?)

/-- The receipt of a transaction. -/
def receipt (node : Node σ) (hash : Word) : Simulating σ Receipt :=
  ExceptT.adapt (fun e => .engine e.message) (node.ask "eth_getTransactionReceipt" [.ofWord hash] Receipt.ofJson?)

/-- Awaits the receipt of a transaction: once it is there, it is read. -/
def await (node : Node σ) (hash : Word) : Simulating σ Receipt := do
  let _ ← receipt node hash
  receipt node hash

/-- Runs a call. -/
def call (node : Node σ) (c : EngineCall) : Simulating σ CallOutcome := do
  let output ← trial node c
  if c.isStatic then return { output }
  command node "anvil_impersonateAccount" [.ofAddress c.caller]
  let r ← await node (← send node c)
  if r.succeeded then return { output, gas := r.gas }
  throw (.reverted (r.hash.hex ++ " reverted on fork"))

/-- Forks the chain. -/
def fork (node : Node σ) (url : String) (block : Nat) (timestamp : Option Nat) : Simulating σ Unit := do
  command node "anvil_reset" [.obj [("forking", .obj [("jsonRpcUrl", .str url), ("blockNumber", .count block)])]]
  match timestamp with
  | none => return
  | some timestamp => command node "evm_setNextBlockTimestamp" [.count timestamp]

/-- Goes back to a snapshot. -/
def restore (node : Node σ) (id : Nat) : Simulating σ Unit := do
  unless ← request node "evm_revert" [.ofQuantity id] Json.bool? do
    throw (.engine ("unknown snapshot " ++ toString id))

/-- The number of the latest block. -/
def blockNumber (node : Node σ) : Simulating σ Nat :=
  ExceptT.adapt (fun e => .engine e.message) (node.ask "eth_blockNumber" [] (Json.number? 64))

/-- The engine of a fork node, with a way to bound the time of a piece of work. -/
def engine (node : Node σ) (within : {α : Type} → Nat → Simulating σ α → Simulating σ α) : Engine σ where
  fork := fork node
  snapshot := request node "evm_snapshot" [] (Json.number? 256)
  restore := restore node
  call := call node
  setCode account code := command node "anvil_setCode" [.ofAddress account, .ofBytes code]
  blockNumber := blockNumber node
  within := within

end ForkNode
end Searcher

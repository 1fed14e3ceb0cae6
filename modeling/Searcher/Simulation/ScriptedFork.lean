/-
# Scripted fork nodes

A fork node whose chain follows a script. A call that is tried leaves no trace on the balances, and is put on record
only when it fails; one that is sent is run for real and has a receipt.
-/

import Searcher.Simulation.ForkNode
import Searcher.Simulation.Script

namespace Searcher
namespace ScriptedFork

/-- The chain of the node with the gas of each transaction that was sent. -/
structure State where
  script : Script.State := {}
  sent : List Nat := []

/-- How the node tells a failure. -/
def refusal : SimulationError → NodeError
  | .reverted reason => .refused 3 (SimulationError.reverted reason).message
  | e => .refused (-32000) e.message

/-- A step of the script. -/
def onScript {α : Type} (x : Simulating Script.State α) : Asking State α := fun s =>
  let (r, script) := x s.script
  (r.mapError refusal, { s with script })

/-- What a request says of a parameter. -/
def parameter {α : Type} (params : List Json) (i : Nat) (read : Json → Option α) : Asking State α :=
  match params[i]?.bind read with
  | some a => return a
  | none => throw (.refused (-32602) "invalid params")

/-- The call of a request. -/
def call? (j : Json) : Option EngineCall := do
  return {
    caller := ← Json.required Json.wireAddress? (j.get? "from")
    receiver := ← Json.required Json.wireAddress? (j.get? "to")
    value := ← Json.defaulted 0 (Json.number? 256) (j.get? "value")
    data := ← Json.defaulted [] Json.byteString? (j.get? "input") }

/-- Tries a call: the chain stays as it was. -/
def trial (c : EngineCall) : Simulating Script.State Bytes := fun s =>
  match Script.call c s with
  | (.ok outcome, _) => (.ok outcome.output, s)
  | (.error e, after) => (.error e, { s with entries := after.entries })

/-- Sends a call; its transaction is named by its number. -/
def send (c : EngineCall) : Asking State Json := do
  let outcome ← onScript (Script.call c)
  let s ← get
  set { s with sent := s.sent ++ [outcome.gas] }
  return .ofWord (.ofNat s.sent.length)

/-- Goes back to a snapshot and tells whether there was one. -/
def restore (id : Nat) : Asking State Json := do
  match ← onScript fun s =>
      let (r, s) := Script.restore id s
      (.ok r, s) with
  | .ok () => return .bool true
  | .error .notForked => return .bool false
  | .error e => throw (refusal e)

/-- The receipt of a transaction that has used some gas. -/
def receipt (hash : Word) (gas : Nat) : Json :=
  .obj [("transactionHash", .ofWord hash), ("status", .ofQuantity 1), ("gasUsed", .ofQuantity gas),
    ("from", .ofAddress .zero), ("logs", .arr []), ("logsBloom", .ofBytes (List.replicate 256 0)),
    ("cumulativeGasUsed", .ofQuantity gas), ("effectiveGasPrice", .ofQuantity 0), ("type", .str "0x2")]

/-- Where a request to fork wants to start. -/
def forkBlock? (j : Json) : Option Nat := Json.required (Json.number? 64) ((j.get "forking").get? "blockNumber")

/-- Answers a request. -/
def request (method : String) (params : List Json) : Asking State Json := do
  match method with
  | "anvil_reset" =>
    let block ← parameter params 0 forkBlock?
    onScript (Script.note (.fork "" block none))
    return .null
  | "anvil_setCode" =>
    let account ← parameter params 0 Json.wireAddress?
    let code ← parameter params 1 Json.byteString?
    onScript (Script.note (.code account code))
    return .null
  | "anvil_impersonateAccount" | "evm_setNextBlockTimestamp" => return .null
  | "evm_snapshot" => return .ofQuantity (← onScript Script.snapshot)
  | "evm_revert" => restore (← parameter params 0 (Json.number? 256))
  | "eth_blockNumber" => return .ofQuantity 0
  | "eth_call" => return .ofBytes (← onScript (trial (← parameter params 0 call?)))
  | "eth_sendTransaction" => send (← parameter params 0 call?)
  | "eth_getTransactionReceipt" =>
    let hash ← parameter params 0 Json.wireWord?
    return .ofOption (receipt hash) (← get).sent[hash.toNat]?
  | _ => throw (.refused (-32601) ("no response for " ++ method))

/-- The node that follows its script. Contracts cannot be asked together. -/
def node : Node State := ⟨request, fun _ _ => return none⟩

end ScriptedFork
end Searcher

/-
# Asking for traces

A node traces a call on the latest block or a transaction that was mined. It tells the tree of calls, or why there is
none. A trace without a single call below the first has nothing to evaluate, and so has a pending transaction without
swaps.
-/

import Searcher.Node.Basic
import Searcher.Node.KnownTransaction
import Searcher.Trace.Swaps

namespace Searcher

/-- Why there is no trace. -/
inductive TraceError where
  /-- The node has none, for a reason. -/
  | unavailable (reason : String)
  | noCalls
  /-- What the node sent is no tree of calls. -/
  | unreadable
  /-- The transaction with this hash is of a type that is not handled. -/
  | unsupported (hash : Word)
  | noSwaps
deriving DecidableEq

/-- The failure for people. -/
def TraceError.message : TraceError → String
  | unavailable reason => "trace unavailable: " ++ reason
  | noCalls => "trace returned no calls"
  | unreadable => "malformed call frame"
  | unsupported hash => "malformed call frame: " ++ hash.hex ++ " has an unsupported type"
  | noSwaps => "no swap events found"

/-- A request for a trace. -/
abbrev Tracing (σ : Type) := ExceptT TraceError (StateM σ)

namespace Trace

variable {σ : Type}

/-- The answer to a request for a trace. -/
def request (node : Node σ) (method : String) (params : List Json) : Tracing σ Json :=
  ExceptT.adapt (fun e => .unavailable e.message) (node.request method params)

/-- The tracer that tells the tree of calls. -/
def tracer : Json := .obj [("tracer", .str "callTracer")]

/-- Reads the tree of calls that a node sent. -/
def frameOf (answer : Json) : Except TraceError CallFrame :=
  match (answer.get? "error").bind Json.str? with
  | some reason => .error (.unavailable reason)
  | none =>
    match CallFrame.ofJson? answer with
    | none => .error .unreadable
    | some frame => if frame.calls.isEmpty then .error .noCalls else .ok frame

/-- The call of a transaction as a node takes it. -/
def callOf (tx : Transaction) : Json :=
  .obj [("from", .ofAddress tx.caller), ("to", .ofOption .ofAddress tx.receiver), ("gas", .ofQuantity tx.gas),
    ("gasPrice", .ofQuantity tx.effectiveGasPrice), ("value", .ofQuantity tx.value), ("data", .ofBytes tx.input)]

/-- The trace of a transaction's call on the latest block. -/
def ofCall (node : Node σ) (tx : Transaction) : Tracing σ CallFrame := do
  MonadExcept.ofExcept (frameOf (← request node "debug_traceCall" [callOf tx, .str "latest", tracer]))

/-- The trace of a mined transaction. -/
def ofMined (node : Node σ) (hash : Word) : Tracing σ CallFrame := do
  MonadExcept.ofExcept (frameOf (← request node "debug_traceTransaction" [.ofWord hash, tracer]))

/-- A pending transaction with the swaps of its call; it must have some. -/
def pending (node : Node σ) (tx : Transaction) (wrapped : Address) (dust : Nat) : Tracing σ Transaction := do
  let events := swapEvents (← ofCall node tx) wrapped dust
  if events.isEmpty then throw .noSwaps
  return { tx with swapEvents := events }

/-- The transaction with a hash that a node knows. -/
def known (node : Node σ) (hash : Word) : Tracing σ Transaction := do
  match ← request node "eth_getTransactionByHash" [.ofWord hash] with
  | .null => throw (.unavailable (hash.hex ++ " not found"))
  | answer =>
    match KnownTransaction.read? answer with
    | none => throw (.unavailable NodeError.unreadable.message)
    | some none => throw (.unsupported hash)
    | some (some tx) => return tx

/-- A mined transaction with the swaps of its trace. -/
def mined (node : Node σ) (hash : Word) (wrapped : Address) (dust : Nat) : Tracing σ Transaction := do
  let tx ← known node hash
  return { tx with swapEvents := swapEvents (← ofMined node hash) wrapped dust }

end Trace
end Searcher

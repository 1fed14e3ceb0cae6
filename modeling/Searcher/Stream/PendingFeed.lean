/-
# The feed of pending transactions

Announced transactions that may swap are traced, and those that do swap wait in a queue for a worker. When the queue is
full a transaction is dropped before it is traced. Messages that cannot be read are passed over; the session ends only
when nobody takes from the queue any more.
-/

import Searcher.Stream.Pending
import Searcher.Stream.Reconnect
import Searcher.Trace.Request

namespace Searcher

/-- Victims that wait for a worker. -/
structure VictimQueue where
  capacity : Nat
  waiting : List Transaction := []
  /-- Whether somebody takes from it. -/
  attended : Bool := true

namespace VictimQueue

/-- Whether no victim finds room. -/
def isFull (q : VictimQueue) : Bool := q.capacity ≤ q.waiting.length

/-- The queue with a victim behind all others. -/
def push (q : VictimQueue) (victim : Transaction) : VictimQueue := { q with waiting := q.waiting ++ [victim] }

end VictimQueue

/-- A feed with the node that traces. -/
structure PendingFeed (σ : Type) where
  network : String
  wrapped : Address
  node : Node σ

namespace PendingFeed

variable {σ : Type}

/-- What is asked to be told of each transaction. -/
def fields : List String :=
  ["tx_hash", "tx_contents.chain_id", "tx_contents.input", "tx_contents.v", "tx_contents.r", "tx_contents.s",
    "tx_contents.type", "tx_contents.to", "tx_contents.from", "tx_contents.value", "tx_contents.nonce",
    "tx_contents.gas", "tx_contents.gas_price", "tx_contents.max_priority_fee_per_gas",
    "tx_contents.max_fee_per_gas", "tx_contents.max_fee_per_blob_gas"]

/-- What asks for the feed. -/
def request (network : String) : Json :=
  .obj [("id", .int 1), ("method", .str "subscribe"),
    ("params", .arr [.str "newTxs",
      .obj [("blockchain_network", .str network), ("include", .ofList .str fields)]])]

/-- Payments in the native token below this amount are no swaps. -/
def dust : Nat := 10 ^ 15

/-- The transaction of a message that may swap. -/
def candidate? (message : String) : Option Transaction := do
  let pending ← (PendingTx.ofNotification message).toOption.join
  let tx ← pending.toTransaction?
  if tx.isTraceable then some tx else none

/-- Takes a message. -/
def take (feed : PendingFeed σ) (message : String) : StateM (VictimQueue × σ) Bool := do
  let some tx := candidate? message | return true
  if (← get).1.isFull then return true
  match ← Part.second.run (Trace.pending feed.node tx feed.wrapped dust).run with
  | .error _ => return true
  | .ok victim =>
    let (queue, s) ← get
    if queue.attended then set (queue.push victim, s)
    return queue.attended

/-- The subscription to the feed. -/
def subscription (feed : PendingFeed σ) : Subscription (VictimQueue × σ) := ⟨request feed.network, feed.take⟩

end PendingFeed
end Searcher

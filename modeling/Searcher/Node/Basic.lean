/-
# Nodes

A node answers questions about the chain. It is a record of operations on a state `σ`, which may be a connection or a
recording. A request names a method and its parameters. Reads of contracts may be put together: a node answers all
reads of such a question or none of them, and tells for each whether the contract rolled it back.

A question is about a block. One that names no block is about the block that is being built.
-/

import Searcher.Json.Fields
import Searcher.Json.Wire
import Searcher.Part

namespace Searcher

/-- Why a node has not answered. -/
inductive NodeError where
  /-- The node refused the request. -/
  | refused (code : Int) (text : String)
  /-- The request did not reach the node. -/
  | unreachable (reason : String)
  /-- The answer does not have the form that the method has. -/
  | unreadable
deriving DecidableEq, Repr

/-- The failure for people. -/
def NodeError.message : NodeError → String
  | refused code text => s!"server returned an error response: error code {code}: " ++ text
  | unreachable reason => reason
  | unreadable => "deserialization error"

/-- A request that the state of a node answers. -/
abbrev Asking (σ : Type) := ExceptT NodeError (StateM σ)

/-- A read of a contract. -/
structure Read where
  target : Address
  data : Bytes
deriving DecidableEq, Inhabited

/-- The operations of a node. -/
structure Node (σ : Type) where
  /-- The answer to a request. -/
  request : (method : String) → (params : List Json) → Asking σ Json
  /-- What the reads returned at a block, or nothing when the question failed as a whole. -/
  readAll : (block : Option Nat) → (reads : List Read) → StateM σ (Option (List (Option Bytes)))

namespace Json

/-- The digits of a number in base 16, without leading zeros. -/
def hexDigits (n : Nat) : List Char :=
  if n < 16 then [Bytes.digit n] else hexDigits (n / 16) ++ [Bytes.digit (n % 16)]

/-- A number as the services take it: `0x` and its digits. -/
def ofQuantity (n : Nat) : Json := str ("0x" ++ String.ofList (hexDigits n))

/-- The block of a question. -/
def blockTag : Option Nat → Json
  | some block => ofQuantity block
  | none => str "pending"

end Json

namespace Node

variable {σ : Type}

/-- The node as a service among others. -/
def within {τ : Type} (p : Part σ τ) (node : Node τ) : Node σ where
  request method params := p.runExcept (node.request method params)
  readAll block reads := p.run (node.readAll block reads)

/-- A node that cannot be reached, for a reason. -/
def offline (reason : String) : Node σ where
  request _ _ := throw (.unreachable reason)
  readAll _ _ := return none

/-- The answer to a request, as far as it has a form. -/
def ask {α : Type} (node : Node σ) (method : String) (params : List Json) (read : Json → Option α) : Asking σ α := do
  match read (← node.request method params) with
  | some a => return a
  | none => throw .unreadable

/-- What a single read returns. -/
def read (node : Node σ) (r : Read) (block : Option Nat) : Asking σ Bytes :=
  node.ask "eth_call" [.obj [("to", .ofAddress r.target), ("input", .ofBytes r.data)], .blockTag block] Json.byteString?

end Node
end Searcher

/-
# Recorded nodes

A node whose answers are written down beforehand: what a contract returns by contract and data, and for every other
method a queue of results. Questions for contracts may be set to fail by their number.

What is asked is put on a record: every question for contracts, and the requests that change a chain or trace it.
-/

import Searcher.Abi
import Searcher.Node.Basic

namespace Searcher
namespace Recorded

/-- A result in a queue. -/
inductive Reply where
  | answer (j : Json)
  | refusal (text : String)

/-- What is on the record. -/
inductive Entry where
  /-- A question for contracts at a block, with the number of reads when it asks for several. -/
  | reads (block : Json) (count : Option Nat)
  | request (method : String) (params : List Json)

/-- A recorded node with its state. -/
structure State where
  /-- What contracts return; the first entry for a read counts. -/
  returns : List (Read × Bytes) := []
  /-- What is left of the queues of the methods. -/
  queues : List (String × List Reply) := []
  /-- The numbers of the questions that fail. -/
  failing : List Nat := []
  /-- The numbers of the questions that are answered with something that means nothing. -/
  garbled : List Nat := []
  /-- The number of questions so far. -/
  asked : Nat := 0
  entries : List Entry := []

/-- Puts something on record. -/
def note (entry : Entry) : StateM State Unit := modify fun s => { s with entries := s.entries ++ [entry] }

/-- The method by which contracts are asked. -/
def callMethod : String := "eth_call"

/-- Whether requests by a method are put on record. -/
def isNoted (method : String) : Bool :=
  ["anvil_", "evm_", "debug_", "eth_sendTransaction", "eth_sendRawTransaction", "eth_sendBundle"].any
    fun start => method.startsWith start

/-- Takes the next result of a queue. -/
def take (method : String) : Asking State Json := do
  let s ← get
  match s.queues.lookup method with
  | some (reply :: rest) =>
    let queues := s.queues.map fun (name, replies) => (name, if name = method then rest else replies)
    set { s with queues }
    match reply with
    | .answer j => return j
    | .refusal text => throw (.refused (-32000) text)
  | _ => throw (.refused (-32601) ("no response for " ++ method))

/-- How a question for contracts goes. -/
inductive Fate where
  | answered
  | failed
  | garbled

/-- Counts a question and tells how it goes. -/
def count : StateM State Fate := do
  let s ← get
  set { s with asked := s.asked + 1 }
  return if s.failing.contains s.asked then .failed else if s.garbled.contains s.asked then .garbled else .answered

/-- What a contract returns; nothing when it rolls the call back. -/
def State.returned? (s : State) (r : Read) : Option Bytes := s.returns.lookup r

/-- The contract and the data of a call. -/
def read? (params : List Json) : Option Read := do
  let tx ← params.head?
  return ⟨← Json.wireAddress? (tx.get "to"), ← Json.byteString? (tx.get "input")⟩

/-- Answers a question for one contract. -/
def call (params : List Json) : Asking State Json := do
  let s ← get
  let queued := (s.queues.lookup callMethod).isSome
  note (if queued then .request callMethod params else .reads (params.getD 1 .null) none)
  match ← count with
  | .failed => throw (.refused (-32000) "chunk failed")
  | .garbled => return .str "0x1234"
  | .answered =>
    if queued then take callMethod
    else match (read? params).bind s.returned? with
      | some bytes => return .ofBytes bytes
      | none => throw (.refused 3 "execution reverted")

/-- Answers a request. -/
def request (method : String) (params : List Json) : Asking State Json := do
  if method = callMethod then call params
  else
    if isNoted method then note (.request method params)
    take method

/-- Answers a question for several contracts. -/
def readAll (block : Option Nat) (reads : List Read) : StateM State (Option (List (Option Bytes))) := do
  note (.reads (.blockTag block) (some reads.length))
  match ← count with
  | .answered => return some (reads.map (← get).returned?)
  | _ => return none

/-- The node that answers from its record. -/
def node : Node State := ⟨request, readAll⟩

end Recorded
end Searcher

/-
# Records of recorded nodes

| field | holds |
| --- | --- |
| `reads` | contract, data and returned bytes of each read; the last entry for a read counts |
| `rpc` | for each method a list of results; an object with `rpc_error` is a refusal |
| `fail_calls`, `garble_calls` | numbers of questions |

On the record, a question for contracts is a list of the method, the block and the number of reads; a request is a list
of the method and its parameters. Hexadecimal texts are in lower case.
-/

import Searcher.Json.Fields
import Searcher.Node.Recorded

namespace Searcher
namespace Recorded

def Reply.ofJson (j : Json) : Reply :=
  match j.get? "rpc_error" with
  | some text => .refusal text.toText
  | none => .answer j

def State.ofJson (j : Json) : State where
  returns := (j.list "reads" fun r => (⟨(r.item 0).toAddress, (r.item 1).toBytes⟩, (r.item 2).toBytes)).reverse
  queues := (j.get "rpc").entries.map fun (method, results) => (method, results.elements.map Reply.ofJson)
  failing := j.nats "fail_calls"
  garbled := j.nats "garble_calls"

mutual

/-- The value with its hexadecimal texts in lower case. -/
def lowered : Json → Json
  | .str s => .str (if s.startsWith "0x" then s.toLower else s)
  | .arr items => .arr (loweredItems items)
  | .obj members => .obj (loweredMembers members)
  | j => j

/-- The elements with their texts in lower case. -/
def loweredItems : List Json → List Json
  | [] => []
  | j :: rest => lowered j :: loweredItems rest

/-- The members with their texts in lower case. -/
def loweredMembers : List (String × Json) → List (String × Json)
  | [] => []
  | (key, j) :: rest => (key, lowered j) :: loweredMembers rest

end

def Entry.toJson : Entry → Json
  | .reads block n => .arr [.str callMethod, block, .ofOption .count n]
  | .request method params => .arr [.str method, lowered (.arr params)]

/-- What is on the record of a node. -/
def State.record (s : State) : Json := .ofList Entry.toJson s.entries

end Recorded
end Searcher

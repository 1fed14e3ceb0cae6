/-
# Call frames

The trace of a transaction is the tree of its calls: who called whom with which data, and the calls that this call made
in turn. A frame that failed carries the text of its error.
-/

import Searcher.Json.Wire

namespace Searcher

/-- A call with the calls it made. -/
inductive CallFrame where
  | mk (sender : Address) (receiver : Option Address) (input : Bytes) (error : Option String) (calls : List CallFrame)

namespace CallFrame

/-- Who calls. -/
def sender : CallFrame → Address
  | mk sender _ _ _ _ => sender

/-- The contract called; none for some creations. -/
def receiver : CallFrame → Option Address
  | mk _ receiver _ _ _ => receiver

/-- The data of the call. -/
def input : CallFrame → Bytes
  | mk _ _ input _ _ => input

/-- Why the call failed, if it did. -/
def error : CallFrame → Option String
  | mk _ _ _ error _ => error

/-- The calls that this call made, in order. -/
def calls : CallFrame → List CallFrame
  | mk _ _ _ _ calls => calls

/-- The first four bytes of the data. -/
def selector? (frame : CallFrame) : Option Bytes := frame.input.slice? 0 4

/-- Reads a tree of at most `depth` levels. -/
def ofJsonWithin? : (depth : Nat) → Json → Option CallFrame
  | 0, _ => none
  | depth + 1, j => do
    let [sender, receiver, input, error, calls] ← j.fields? ["from", "to", "input", "error", "calls"] | none
    return mk (← Json.defaulted .zero Json.wireAddress? sender) (← Json.optional Json.wireAddress? receiver)
      (← Json.defaulted [] Json.byteString? input) (← Json.optional Json.str? error)
      (← Json.defaulted [] (fun j => do (← j.arr?).mapM (ofJsonWithin? depth)) calls)

/-- Reads a tree. -/
def ofJson? (j : Json) : Option CallFrame := ofJsonWithin? j.depth j

end CallFrame
end Searcher

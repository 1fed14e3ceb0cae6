/-
# Reading JSON

The tokens of a text build its value on a stack of open containers. What may come next is a state of its own, so each
token either fits or ends the reading. A bound on the depth of the stack is part of the reader.
-/

import Searcher.Json.Token

namespace Searcher
namespace Json

/-- An open container with what it holds so far, last first. A member waits for the value of its key. -/
inductive Frame where
  | items (read : List Json)
  | members (read : List (String × Json)) (key : String)

/-- What may come next. -/
inductive Next where
  /-- A value. -/
  | value
  /-- A value, or the end of an array that was just opened. -/
  | firstItem
  /-- A key, or the end of an object that was just opened. -/
  | firstKey
  /-- A key. -/
  | key
  /-- The colon after a key. -/
  | colon
  /-- A comma or the end of the container. -/
  | separator
  /-- Nothing: the value is complete. -/
  | finished (v : Json)

/-- The open containers, innermost first, and what may come next. -/
structure Builder where
  stack : List Frame
  next : Next

namespace Builder

/-- Puts a complete value where it belongs. -/
def put (stack : List Frame) (v : Json) : Builder :=
  match stack with
  | [] => ⟨[], .finished v⟩
  | .items read :: rest => ⟨.items (v :: read) :: rest, .separator⟩
  | .members read key :: rest => ⟨.members ((key, v) :: read) "" :: rest, .separator⟩

/-- Opens a container unless `limit` are open already. -/
def enter (limit : Nat) (stack : List Frame) (frame : Frame) (next : Next) : Option Builder :=
  if stack.length < limit then some ⟨frame :: stack, next⟩ else none

/-- Takes a token where a value may begin. -/
def begin (limit : Nat) (stack : List Frame) : Token → Option Builder
  | .openArr => enter limit stack (.items []) .firstItem
  | .openObj => enter limit stack (.members [] "") .firstKey
  | .text s => some (put stack (str s))
  | .scalar v => some (put stack v)
  | _ => none

/-- Takes a key. -/
def takeKey (stack : List Frame) : Token → Option Builder
  | .text s =>
    match stack with
    | .members read _ :: rest => some ⟨.members read s :: rest, .colon⟩
    | _ => none
  | _ => none

/-- Closes the innermost container. -/
def close (stack : List Frame) : Token → Option Builder
  | .closeArr =>
    match stack with
    | .items read :: rest => some (put rest (arr read.reverse))
    | _ => none
  | .closeObj =>
    match stack with
    | .members read _ :: rest => some (put rest (obj read.reverse))
    | _ => none
  | _ => none

/-- Goes on after a comma. -/
def advance (stack : List Frame) : Option Builder :=
  match stack with
  | .items _ :: _ => some ⟨stack, .value⟩
  | .members _ _ :: _ => some ⟨stack, .key⟩
  | [] => none

/-- Takes one token. -/
def step (limit : Nat) (b : Builder) (t : Token) : Option Builder :=
  match b.next with
  | .value => begin limit b.stack t
  | .firstItem => (close b.stack t).or (begin limit b.stack t)
  | .firstKey => (close b.stack t).or (takeKey b.stack t)
  | .key => takeKey b.stack t
  | .colon => match t with
    | .colon => some ⟨b.stack, .value⟩
    | _ => none
  | .separator => match t with
    | .comma => advance b.stack
    | t => close b.stack t
  | .finished _ => none

end Builder

/-- The value of a text whose containers stand at most `limit` deep. -/
def readWithin (limit : Nat) (text : String) : Option Json := do
  let b ← (← Token.scan text).foldlM (Builder.step limit) ⟨[], .value⟩
  match b.next with
  | .finished v => some v
  | _ => none

/-- The depth at which the services the program talks to give up. -/
def depthLimit : Nat := 127

/-- The value of a message. -/
def read (text : String) : Option Json := readWithin depthLimit text

end Json
end Searcher

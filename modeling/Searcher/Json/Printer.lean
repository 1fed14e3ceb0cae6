/-
# Printing JSON

The compact form: no blanks, control characters as escapes, all other characters as they are.
-/

import Searcher.Bytes
import Searcher.Json.Basic

namespace Searcher
namespace Json

/-- The characters that stand for one character of a string. -/
def escaped (c : Char) : List Char :=
  match c with
  | '"' => ['\\', '"']
  | '\\' => ['\\', '\\']
  | '\n' => ['\\', 'n']
  | '\r' => ['\\', 'r']
  | '\t' => ['\\', 't']
  | '\x08' => ['\\', 'b']
  | '\x0c' => ['\\', 'f']
  | c =>
    if c.toNat < 0x20 then ['\\', 'u', '0', '0', Bytes.digit (c.toNat / 16), Bytes.digit (c.toNat % 16)]
    else [c]

/-- A string with its quotes. -/
def quoted (s : String) : String :=
  "\"" ++ String.ofList (s.toList.flatMap escaped) ++ "\""

mutual

/-- The compact text of a value. -/
def render : Json → String
  | null => "null"
  | bool b => if b then "true" else "false"
  | int n => toString n
  | decimal m e => toString m ++ "e" ++ toString e
  | str s => quoted s
  | arr items => "[" ++ String.intercalate "," (renderItems items) ++ "]"
  | obj members => "\x7b" ++ String.intercalate "," (renderMembers members) ++ "\x7d"

/-- The texts of the elements of an array. -/
def renderItems : List Json → List String
  | [] => []
  | v :: rest => render v :: renderItems rest

/-- The texts of the members of an object. -/
def renderMembers : List (String × Json) → List String
  | [] => []
  | (key, v) :: rest => (quoted key ++ ":" ++ render v) :: renderMembers rest

end

end Json
end Searcher

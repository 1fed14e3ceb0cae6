/-
# JSON values

The data format of every service the program talks to. Numbers written without point and exponent are integers of
any size, all others are kept as `mantissa * 10 ^ exponent`. Members keep their order.
-/

import Searcher.Bytes

namespace Searcher

/-- A JSON value. -/
inductive Json where
  | null
  | bool (b : Bool)
  | int (n : Int)
  | decimal (mantissa exponent : Int)
  | str (s : String)
  | arr (items : List Json)
  | obj (members : List (String × Json))
deriving Inhabited, BEq

namespace Json

mutual

/-- The number of values on the longest way from this value inwards. -/
def depth : Json → Nat
  | arr items => depthOfItems items + 1
  | obj members => depthOfMembers members + 1
  | _ => 1

/-- The depth of the deepest element. -/
def depthOfItems : List Json → Nat
  | [] => 0
  | j :: rest => max (depth j) (depthOfItems rest)

/-- The depth of the deepest member. -/
def depthOfMembers : List (String × Json) → Nat
  | [] => 0
  | (_, j) :: rest => max (depth j) (depthOfMembers rest)

end

/-- The member of an object; when two have the name, the later one. -/
def get? (j : Json) (key : String) : Option Json :=
  match j with
  | obj members => (members.reverse.find? (·.1 == key)).map (·.2)
  | _ => none

/-- The member of an object, `null` when there is none. -/
def get (j : Json) (key : String) : Json := (j.get? key).getD null

/-- The element of an array, `null` when there is none. -/
def item (j : Json) (i : Nat) : Json :=
  match j with
  | arr items => items.getD i null
  | _ => null

/-- The index of an array that a text writes, without a sign or leading zeros. -/
def index? (text : String) : Option Nat :=
  let cs := text.toList
  if cs = ['0'] then some 0
  else if cs.isEmpty ∨ cs.head? = some '0' ∨ ¬ cs.all Char.isDigit then none
  else some (cs.foldl (fun acc c => acc * 10 + (c.toNat - 48)) 0)

/-- The value at the end of a way through objects by their keys and arrays by their indices. -/
def follow? (j : Json) : List String → Option Json
  | [] => some j
  | step :: rest =>
    let next := match j with
      | arr items => (index? step).bind (items[·]?)
      | j => j.get? step
    match next with
    | some j => j.follow? rest
    | none => none

/-- The elements of an array; none of any other value. -/
def elements : Json → List Json
  | arr items => items
  | _ => []

/-- The members of an object; none of any other value. -/
def entries : Json → List (String × Json)
  | obj members => members
  | _ => []

/-- Whether the value is `null`. -/
def isNull : Json → Bool
  | null => true
  | _ => false

/-- The text of a string. -/
def str? : Json → Option String
  | str s => some s
  | _ => none

/-- The truth value. -/
def bool? : Json → Option Bool
  | bool b => some b
  | _ => none

/-- The elements of an array. -/
def arr? : Json → Option (List Json)
  | arr items => some items
  | _ => none

/-- The value under a key unless it is absent or `null`. -/
def present? (j : Json) (key : String) : Option Json :=
  match j.get? key with
  | none | some null => none
  | some v => some v

end Json
end Searcher

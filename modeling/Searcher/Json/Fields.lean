/-
# Fields of JSON records

A record states amounts as decimal texts, since they do not fit into the numbers of most readers; small numbers may
stand as they are. An absent field, or one that is `null`, has the empty value of its type: zero, the zero address,
no bytes, no elements, `false`.

| reader | writer | form |
| --- | --- | --- |
| `nat`, `int` | `Json.amount`, `Json.signed`, `Json.count` | decimal text or number |
| `address` | `Json.address` | `0x` and 40 digits |
| `bytes`, `word` | `Json.bytes`, `Json.word` | `0x` and digits |
-/

import Searcher.Address
import Searcher.Json.Basic

namespace Searcher
namespace Json

/-- The integer that a decimal text writes. -/
def integer? (text : String) : Option Int :=
  let digits? (cs : List Char) : Option Nat :=
    if cs.isEmpty ∨ ¬ cs.all Char.isDigit then none
    else some (cs.foldl (fun acc c => acc * 10 + (c.toNat - 48)) 0)
  match text.toList with
  | '-' :: cs => (digits? cs).map fun n => -(n : Int)
  | cs => (digits? cs).map Int.ofNat

/-- The integer of a decimal text or a number. -/
def toInt? : Json → Option Int
  | int n => some n
  | str s => integer? s
  | _ => none

/-- The integer, zero for anything else. -/
def toInt (j : Json) : Int := j.toInt?.getD 0

/-- The number, zero for anything else and for negative integers. -/
def toNat (j : Json) : Nat := j.toInt.toNat

/-- The truth value, false for anything else. -/
def toBool (j : Json) : Bool := j.bool?.getD false

/-- The text, empty for anything else. -/
def toText (j : Json) : String := j.str?.getD ""

/-- The address that a text spells, the zero address for anything else. -/
def toAddress (j : Json) : Address := ((j.str?.bind Address.ofHex?)).getD .zero

/-- The bytes that a text spells, none for anything else. -/
def toBytes (j : Json) : Bytes := (j.str?.bind Bytes.ofHex?).getD []

/-- The word of the bytes that a text spells. -/
def toWord (j : Json) : Word := .ofBytes j.toBytes

/-- The number of a field. -/
def nat (j : Json) (key : String) : Nat := (j.get key).toNat

/-- The number of a field, `default` when it is absent. -/
def natD (j : Json) (key : String) (default : Nat) : Nat := ((j.present? key).map toNat).getD default

/-- The number of a field that may be absent. -/
def nat? (j : Json) (key : String) : Option Nat := (j.present? key).map toNat

/-- The integer of a field. -/
def integer (j : Json) (key : String) : Int := (j.get key).toInt

/-- The truth value of a field. -/
def flag (j : Json) (key : String) : Bool := (j.get key).toBool

/-- The truth value of a field that holds unless it is denied. -/
def flagD (j : Json) (key : String) (default : Bool) : Bool := ((j.present? key).map toBool).getD default

/-- The text of a field. -/
def text (j : Json) (key : String) : String := (j.get key).toText

/-- The address of a field. -/
def address (j : Json) (key : String) : Address := (j.get key).toAddress

/-- The address of a field that may be absent. -/
def address? (j : Json) (key : String) : Option Address := (j.present? key).map toAddress

/-- The bytes of a field. -/
def bytes (j : Json) (key : String) : Bytes := (j.get key).toBytes

/-- The elements of a field, each read by `f`. -/
def list {α : Type} (j : Json) (key : String) (f : Json → α) : List α := (j.get key).elements.map f

/-- The numbers of a field that is a list. -/
def nats (j : Json) (key : String) : List Nat := j.list key toNat

/-- The addresses of a field that is a list. -/
def addresses (j : Json) (key : String) : List Address := j.list key toAddress

/-- An amount, as a decimal text. -/
def ofNat (n : Nat) : Json := str (toString n)

/-- An integer, as a decimal text. -/
def ofInt (n : Int) : Json := str (toString n)

/-- A small number. -/
def count (n : Nat) : Json := int n

/-- An address, as hexadecimal text. -/
def ofAddress (a : Address) : Json := str a.hex

/-- Bytes, as hexadecimal text. -/
def ofBytes (bs : Bytes) : Json := str bs.hex

/-- A word, as hexadecimal text. -/
def ofWord (w : Word) : Json := str w.hex

/-- The value of an option, `null` for none. -/
def ofOption {α : Type} (f : α → Json) (o : Option α) : Json := (o.map f).getD null

/-- An array of the elements, each written by `f`. -/
def ofList {α : Type} (f : α → Json) (xs : List α) : Json := arr (xs.map f)

end Json
end Searcher

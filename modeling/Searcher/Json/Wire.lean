/-
# Values of the services

What the services send is read more strictly than records: a value of a wrong form makes the whole message unreadable.

| value | forms |
| --- | --- |
| number | text in base 10, or in base 16, 8 or 2 behind `0x`, `0o` or `0b`; a whole number of 64 bits |
| address, word | text of hexadecimal digits, with or without `0x`; a list of bytes |
| bytes | the same, of any length |
| structure | an object, or the list of its fields in order |

In the text of a number the case of letters does not matter, underscores are skipped, and no digits at all make zero.
-/

import Searcher.Address
import Searcher.Json.Basic

namespace Searcher
namespace Json

/-- The value of a digit or a letter of either case. -/
def digitValue? (c : Char) : Option Nat :=
  if '0' ≤ c ∧ c ≤ '9' then some (c.toNat - 48)
  else if 'a' ≤ c ∧ c ≤ 'z' then some (c.toNat - 87)
  else if 'A' ≤ c ∧ c ≤ 'Z' then some (c.toNat - 55)
  else none

/-- The number that digits write in a base, without underscores. -/
def ofDigits? (base : Nat) (cs : List Char) : Option Nat :=
  (cs.filter (· ≠ '_')).foldlM (fun acc c => do
    let d ← digitValue? c
    if d < base then some (acc * base + d) else none) 0

/-- The number of a text, its base by the first two characters. -/
def numberOfText? (text : String) : Option Nat :=
  match text.toList with
  | '0' :: 'x' :: cs | '0' :: 'X' :: cs => ofDigits? 16 cs
  | '0' :: 'o' :: cs | '0' :: 'O' :: cs => ofDigits? 8 cs
  | '0' :: 'b' :: cs | '0' :: 'B' :: cs => ofDigits? 2 cs
  | cs => ofDigits? 10 cs

/-- A whole number below `2 ^ 64` that is written as a number. -/
def whole? : Json → Option Nat
  | int n => if 0 ≤ n ∧ n < 2 ^ 64 then some n.toNat else none
  | _ => none

/-- A number below `2 ^ bits` in any of its forms. -/
def number? (bits : Nat) (j : Json) : Option Nat := do
  let n ← match j with
    | str s => numberOfText? s
    | j => j.whole?
  if n < 2 ^ bits then some n else none

/-- A string of bytes. -/
def byteString? : Json → Option Bytes
  | str s => Bytes.ofHex? s
  | arr items => items.mapM fun j => do
      let n ← j.whole?
      if n < 256 then some (UInt8.ofNat n) else none
  | _ => none

/-- A string of just so many bytes. -/
def fixedBytes? (len : Nat) (j : Json) : Option Bytes := do
  let bs ← j.byteString?
  if bs.length = len then some bs else none

/-- An address as it is sent: a string of twenty bytes. -/
def wireAddress? (j : Json) : Option Address := (j.fixedBytes? 20).map Address.ofBytes

/-- A word as it is sent: a string of thirty-two bytes. -/
def wireWord? (j : Json) : Option Word := (j.fixedBytes? 32).map Word.ofBytes

/-- The fields of a structure by their names in order, as far as they are present. -/
def fields? (names : List String) : Json → Option (List (Option Json))
  | obj members => some (names.map (obj members).get?)
  | arr items => if items.length ≤ names.length then some (names.zipIdx.map fun (_, i) => items[i]?) else none
  | _ => none

/-- A field that must be there. -/
def required {α : Type} (read : Json → Option α) (field : Option Json) : Option α := field.bind read

/-- A field that has a default. -/
def defaulted {α : Type} (default : α) (read : Json → Option α) : Option Json → Option α
  | none => some default
  | some j => read j

/-- A field that may be absent or `null`. -/
def optional {α : Type} (read : Json → Option α) : Option Json → Option (Option α)
  | none | some null => some none
  | some j => (read j).map some

end Json
end Searcher

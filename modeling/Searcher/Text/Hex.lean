/-
# Reading hexadecimal text

As `Bytes.ofHex?`, with a reason when the text is refused. Positions count bytes after the `0x`.
-/

import Searcher.Address
import Searcher.Text.Blank

namespace Searcher

/-- Why a text is not the hexadecimal form of a string of bytes. -/
inductive HexError where
  | oddLength
  | wrongLength
  | invalidCharacter (c : Char) (position : Nat)
deriving DecidableEq, Repr

namespace HexError

/-- The reason for people. -/
def message : HexError → String
  | oddLength => "odd number of digits"
  | wrongLength => "invalid string length"
  | invalidCharacter c position => "invalid character " ++ Text.quoteChar c ++ " at position " ++ toString position

end HexError

namespace Bytes

/-- The bytes of a text, as characters. -/
def units (text : String) : List Char := text.toUTF8.toList.map fun b => Char.ofNat b.toNat

/-- Reads digits, of which there must be an even number. -/
def readDigits (digits : List Char) : Except HexError Bytes :=
  match ofDigits? digits, digits.zipIdx.find? fun (c, _) => (digit? c).isNone with
  | some bs, _ => .ok bs
  | none, some (c, i) => .error (.invalidCharacter c i)
  | none, none => .error .oddLength

/-- The units after a leading `0x`. -/
def afterMark : List Char → List Char
  | '0' :: 'x' :: rest => rest
  | cs => cs

/-- Reads the hexadecimal form of bytes. -/
def read (text : String) : Except HexError Bytes :=
  let cs := units text
  if cs.length % 2 = 1 then .error .oddLength else readDigits (afterMark cs)

/-- Reads the hexadecimal form of just so many bytes. -/
def readFixed (len : Nat) (text : String) : Except HexError Bytes :=
  let cs := units text
  if cs.length % 2 = 1 then .error .oddLength
  else if (afterMark cs).length ≠ 2 * len then .error .wrongLength
  else readDigits (afterMark cs)

end Bytes
end Searcher

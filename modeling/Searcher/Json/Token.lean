/-
# JSON tokens

A text is cut into tokens by a machine that reads one character at a time, so that reading is a fold over the text.

| mode | reads |
| --- | --- |
| `between` | blanks, marks, the start of a string or of a run |
| `run` | a number or one of the words `true`, `false`, `null` |
| `text` | a string, as code points and halves of surrogate pairs |
| `escape` | the character after a backslash |
| `code` | the four digits of a numeric escape |
-/

import Searcher.Bytes
import Searcher.Json.Basic

namespace Searcher
namespace Json

/-- A token: a mark, a text, or a value that is neither text nor container. -/
inductive Token where
  | openArr
  | closeArr
  | openObj
  | closeObj
  | comma
  | colon
  | text (s : String)
  | scalar (v : Json)

/-- What the machine is in the middle of. Characters and code points are kept last first. -/
inductive Mode where
  | between
  | run (read : List Char)
  | text (units : List Nat)
  | escape (units : List Nat)
  | code (units : List Nat) (value missing : Nat)

/-- The characters of code points in which the two halves of a surrogate pair stand for one. A half alone is refused. -/
def joinUnits : List Nat → Option (List Char)
  | [] => some []
  | u :: rest =>
    if 0xD800 ≤ u ∧ u < 0xDC00 then
      match rest with
      | v :: rest =>
        if 0xDC00 ≤ v ∧ v < 0xE000 then
          (joinUnits rest).map (Char.ofNat (0x10000 + (u - 0xD800) * 0x400 + (v - 0xDC00)) :: ·)
        else none
      | [] => none
    else if 0xDC00 ≤ u ∧ u < 0xE000 then none
    else (joinUnits rest).map (Char.ofNat u :: ·)

/-- The value of decimal digits. -/
def decimalValue (digits : List Char) : Nat :=
  digits.foldl (fun acc c => acc * 10 + (c.toNat - 48)) 0

/-- The exponent of a number: nothing, or `e`, a sign and digits. -/
def exponent? : List Char → Option Int
  | [] => some 0
  | e :: rest =>
    if e ≠ 'e' ∧ e ≠ 'E' then none else
    let (negative, digits) : Bool × List Char :=
      match rest with
      | '-' :: ds => (true, ds)
      | '+' :: ds => (false, ds)
      | ds => (false, ds)
    if digits.isEmpty ∨ ¬ digits.all Char.isDigit then none
    else some (if negative then -(decimalValue digits : Int) else decimalValue digits)

/-- Whether `mantissa * 10 ^ exponent` is below the range of floating-point numbers of 64 bits. -/
def isFinite (mantissa : Nat) (exponent : Int) : Bool :=
  let size := (toString mantissa).length + exponent
  mantissa = 0 ∨ size ≤ 308 ∨
    (size = 309 ∧ mantissa * 10 ^ exponent.toNat / 10 ^ (-exponent).toNat < 2 ^ 1024)

/-- A number without its sign. A leading zero stands alone, and values out of range are refused. -/
def unsigned? (negative : Bool) (cs : List Char) : Option Json := do
  let whole := cs.takeWhile Char.isDigit
  let rest := cs.dropWhile Char.isDigit
  if whole.isEmpty ∨ (whole.head? = some '0' ∧ 1 < whole.length) then none
  let signed (n : Nat) : Int := if negative then -(n : Int) else n
  let scaled (n : Nat) (e : Int) : Option Json := if isFinite n e then some (decimal (signed n) e) else none
  match rest with
  | [] =>
    let n := decimalValue whole
    if negative ∧ n = 0 then some (decimal 0 0) else if isFinite n 0 then some (int (signed n)) else none
  | '.' :: rest =>
    let part := rest.takeWhile Char.isDigit
    if part.isEmpty then none
    let e ← exponent? (rest.dropWhile Char.isDigit)
    scaled (decimalValue (whole ++ part)) (e - part.length)
  | rest => scaled (decimalValue whole) (← exponent? rest)

/-- The value of a run of characters. -/
def scalar? (cs : List Char) : Option Json :=
  if cs = "null".toList then some null
  else if cs = "true".toList then some (bool true)
  else if cs = "false".toList then some (bool false)
  else match cs with
    | '-' :: rest => unsigned? true rest
    | cs => unsigned? false cs

/-- The characters that numbers and words consist of. -/
def inRun (c : Char) : Bool :=
  c.isAlphanum || c == '-' || c == '+' || c == '.'

/-- The characters that may stand between tokens. -/
def isBlank (c : Char) : Bool :=
  c == ' ' || c == '\t' || c == '\n' || c == '\r'

/-- The character that a backslash and this one stand for. -/
def unescape? : Char → Option Char
  | '"' => some '"'
  | '\\' => some '\\'
  | '/' => some '/'
  | 'b' => some '\x08'
  | 'f' => some '\x0c'
  | 'n' => some '\n'
  | 'r' => some '\r'
  | 't' => some '\t'
  | _ => none

/-- The machine: its mode and the tokens so far, last first. -/
structure Lexer where
  mode : Mode
  tokens : List Token

/-- Reads a character outside strings and runs. -/
def Lexer.mark (tokens : List Token) (c : Char) : Option Lexer :=
  let emit (t : Token) : Option Lexer := some ⟨.between, t :: tokens⟩
  match c with
  | '[' => emit .openArr
  | ']' => emit .closeArr
  | '\x7b' => emit .openObj
  | '\x7d' => emit .closeObj
  | ',' => emit .comma
  | ':' => emit .colon
  | '"' => some ⟨.text [], tokens⟩
  | c => if isBlank c then some ⟨.between, tokens⟩ else if inRun c then some ⟨.run [c], tokens⟩ else none

/-- Reads one character. -/
def Lexer.step (l : Lexer) (c : Char) : Option Lexer :=
  match l.mode with
  | .between => Lexer.mark l.tokens c
  | .run read =>
    if inRun c then some ⟨.run (c :: read), l.tokens⟩
    else do
      let v ← scalar? read.reverse
      Lexer.mark (.scalar v :: l.tokens) c
  | .text units =>
    if c = '"' then do
      let cs ← joinUnits units.reverse
      return ⟨.between, .text (String.ofList cs) :: l.tokens⟩
    else if c = '\\' then some ⟨.escape units, l.tokens⟩
    else if c.toNat < 0x20 then none
    else some ⟨.text (c.toNat :: units), l.tokens⟩
  | .escape units =>
    if c = 'u' then some ⟨.code units 0 4, l.tokens⟩
    else (unescape? c).map fun c => ⟨.text (c.toNat :: units), l.tokens⟩
  | .code units value missing => do
    let d ← Bytes.digit? c
    let value := value * 16 + d
    return if missing ≤ 1 then ⟨.text (value :: units), l.tokens⟩ else ⟨.code units value (missing - 1), l.tokens⟩

/-- The tokens of a text. -/
def Token.scan (text : String) : Option (List Token) := do
  let l ← text.toList.foldlM Lexer.step ⟨.between, []⟩
  match l.mode with
  | .between => return l.tokens.reverse
  | .run read => return (.scalar (← scalar? read.reverse) :: l.tokens).reverse
  | _ => none

end Json
end Searcher

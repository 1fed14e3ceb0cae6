/-
# Blanks

The characters that separate words, and texts without them at their ends.
-/

namespace Searcher
namespace Text

/-- The characters outside ASCII that have the property of white space, by their numbers. -/
def wideBlanks : List Nat :=
  [0x85, 0xA0, 0x1680, 0x2028, 0x2029, 0x202F, 0x205F, 0x3000] ++ (List.range 11).map (0x2000 + ·)

/-- Whether a character has the property of white space. -/
def isBlank (c : Char) : Bool :=
  c = ' ' ∨ (9 ≤ c.toNat ∧ c.toNat ≤ 13) ∨ wideBlanks.contains c.toNat

/-- The characters without blanks at both ends. -/
def trimChars (cs : List Char) : List Char :=
  ((cs.dropWhile isBlank).reverse.dropWhile isBlank).reverse

/-- The text without blanks at both ends. -/
def trim (s : String) : String := String.ofList (trimChars s.toList)

/-- A character between quotes; one that cannot be seen is written by its number. -/
def quoteChar (c : Char) : String :=
  let number := String.ofList (Nat.toDigits 16 c.toNat)
  let inner := match c with
    | '\'' => "\\'"
    | '\\' => "\\\\"
    | '\n' => "\\n"
    | '\r' => "\\r"
    | '\t' => "\\t"
    | '\x00' => "\\0"
    | c =>
      if c.toNat < 0x20 ∨ (0x7F ≤ c.toNat ∧ c.toNat ≤ 0xA0) ∨ c.toNat = 0xAD then "\\u\x7b" ++ number ++ "\x7d"
      else String.ofList [c]
  "'" ++ inner ++ "'"

end Text
end Searcher

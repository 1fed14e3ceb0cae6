/-
# Call data and return data

The arguments of a call are written in two parts. The head has a word of 32 bytes for each argument: the argument
itself, or, for an array, the place at which its tail starts, counted from the start of the head. The tail of an array
is the number of its elements and the elements, a word each. Call data begins with the selector of the function.

Return data is read word by word; what follows the last word read is ignored. A word is cut to the width of its type.
-/

import Searcher.Address

namespace Searcher
namespace Abi

/-- An argument of a call. -/
inductive Value where
  | word (n : Nat)
  | array (ns : List Nat)
deriving DecidableEq, Repr

/-- A number as a word. -/
def wordBytes (n : Nat) : Bytes := .ofNat 32 n

/-- The bytes after the head. -/
def Value.tail : Value → Bytes
  | word _ => []
  | array ns => wordBytes ns.length ++ ns.flatMap wordBytes

/-- The head of arguments whose tails start at `offset`. -/
def heads (offset : Nat) : List Value → Bytes
  | [] => []
  | .word n :: vs => wordBytes n ++ heads offset vs
  | v@(.array _) :: vs => wordBytes offset ++ heads (offset + v.tail.length) vs

/-- The arguments of a call. -/
def encode (vs : List Value) : Bytes := heads (32 * vs.length) vs ++ vs.flatMap Value.tail

/-- Call data of the function with a signature. -/
def callData (signature : String) (vs : List Value) : Bytes := Keccak.selector signature ++ encode vs

/-- A signed integer as the number whose word writes it in two's complement. -/
def ofInt (n : Int) : Nat := (n % 2 ^ 256).toNat

/-- The integer of `bits` bits that the low end of a word writes in two's complement. -/
def toInt (bits : Nat) (word : Nat) : Int := Int.bmod word (2 ^ bits)

/-- The number of `bits` bits at the low end of a word. -/
def toUnsigned (bits : Nat) (word : Nat) : Nat := word % 2 ^ bits

/-- The address at the low end of a word. -/
def toAddress (word : Nat) : Address := .ofNat word

/-- The first `count` words from byte `start` on. -/
def wordsAt? (data : Bytes) (start : Nat) : (count : Nat) → Option (List Nat)
  | 0 => some []
  | count + 1 => do
    let w ← data.slice? start 32
    return w.toNat :: (← wordsAt? data (start + 32) count)

/-- The first `count` words. -/
def words? (data : Bytes) (count : Nat) : Option (List Nat) := wordsAt? data 0 count

/-- The first word. -/
def word? (data : Bytes) : Option Nat := (data.slice? 0 32).map Bytes.toNat

/-- The words of an array whose elements have `width` words each. -/
def array? (data : Bytes) (width : Nat) : Option (List Nat) := do
  let start ← word? data
  let count ← (data.slice? start 32).map Bytes.toNat
  if data.length < start + 32 + 32 * width * count then none
  wordsAt? data (start + 32) (width * count)

end Abi
end Searcher

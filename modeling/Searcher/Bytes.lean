/-
# Byte strings

Everything that crosses the boundary of the program is a string of bytes: call data, return data, signed
transactions, hashes. This file fixes the type and its two written forms.

| form | writer | reader |
| --- | --- | --- |
| big-endian number | `Bytes.ofNat` | `Bytes.toNat` |
| hexadecimal digits, lower case, after `0x` | `Bytes.hex` | `Bytes.ofHex?` |

The reader of digits takes both cases and does not need the leading `0x`.

Both forms count in powers, and so does much of what follows. A power of natural numbers or integers is that of the core
language, whatever other powers a module knows, so that a formula means the same in every module.
-/

namespace Searcher

/-- The core power, before any other. -/
@[default_instance 20000]
instance (priority := 20000) corePower {α : Type u} [NatPow α] : Pow α Nat := instPowNat

/-- A string of bytes, first byte first. -/
abbrev Bytes := List UInt8

namespace Bytes

/-- The `len` low-order bytes of `n`, the most significant one first. -/
def ofNat : (len n : Nat) → Bytes
  | 0, _ => []
  | len + 1, n => UInt8.ofNat (n / 256 ^ len) :: ofNat len n

/-- The number that the bytes write in base 256, the first byte being the most significant. -/
def toNat (bs : Bytes) : Nat :=
  bs.foldl (fun acc b => acc * 256 + b.toNat) 0

/-- A number is written in exactly the bytes that were asked for, whatever its size. -/
@[simp] theorem length_ofNat (len n : Nat) : (ofNat len n).length = len := by
  induction len with
  | zero => rfl
  | succ len ih => simp [ofNat, ih]

/-- The bytes of `n` without leading zero bytes; none at all for `0`. -/
def minimal (n : Nat) : Bytes :=
  if n = 0 then [] else ofNat (n.log2 / 8 + 1) n

/-- The `len` bytes at `start`, or nothing when the string ends before them. -/
def slice? (bs : Bytes) (start len : Nat) : Option Bytes :=
  let part := (bs.drop start).take len
  if part.length = len then some part else none

/-- The character of a digit below sixteen. -/
def digit (n : Nat) : Char :=
  if n < 10 then Char.ofNat (48 + n) else Char.ofNat (87 + n)

/-- The value of a hexadecimal digit of either case. -/
def digit? (c : Char) : Option Nat :=
  if '0' ≤ c ∧ c ≤ '9' then some (c.toNat - 48)
  else if 'a' ≤ c ∧ c ≤ 'f' then some (c.toNat - 87)
  else if 'A' ≤ c ∧ c ≤ 'F' then some (c.toNat - 55)
  else none

/-- The digits of the bytes, two for each. -/
def digits (bs : Bytes) : List Char :=
  bs.flatMap fun b => [digit (b.toNat / 16), digit (b.toNat % 16)]

/-- The written form: `0x` and two lower-case digits for each byte. -/
def hex (bs : Bytes) : String :=
  "0x" ++ String.ofList (digits bs)

/-- Reads pairs of digits; an odd digit or a character of another kind is refused. -/
def ofDigits? : List Char → Option Bytes
  | [] => some []
  | [_] => none
  | hi :: lo :: rest => do
    let h ← digit? hi
    let l ← digit? lo
    return UInt8.ofNat (16 * h + l) :: (← ofDigits? rest)

/-- The digits of a text after its `0x`, which may be missing. -/
def body (text : String) : List Char :=
  match text.toList with
  | '0' :: 'x' :: rest => rest
  | cs => cs

/-- Reads the written form. -/
def ofHex? (text : String) : Option Bytes :=
  ofDigits? (body text)

end Bytes

/-- A word of 32 bytes: a hash or a storage key. -/
structure Word where
  bits : BitVec 256
deriving DecidableEq, Hashable, Inhabited

namespace Word

/-- The word whose number is `n` modulo `2 ^ 256`. -/
def ofNat (n : Nat) : Word := ⟨BitVec.ofNat 256 n⟩

/-- The word as a number. -/
def toNat (w : Word) : Nat := w.bits.toNat

/-- The word whose bytes these are, taken from the right. -/
def ofBytes (bs : Bytes) : Word := ofNat bs.toNat

/-- The 32 bytes of the word. -/
def toBytes (w : Word) : Bytes := Bytes.ofNat 32 w.toNat

/-- The word in its written form, with all 64 digits. -/
def hex (w : Word) : String := w.toBytes.hex

end Word
end Searcher

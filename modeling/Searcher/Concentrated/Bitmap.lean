/-
# The tick bitmap

A pool marks the ticks at which its liquidity changes in words of 256 bits. A tick divided by the spacing, rounded
down, is its *compressed* form `c`; its mark is bit `c mod 256` of word `c / 256`. Words are numbered with sixteen
bits and a sign.

A search looks at one word: at the bits up to the starting one when it goes left, at the bits after it when it goes
right. It returns the nearest mark, or the last tick of the word on that side.

Ticks are numbers of 32 bits with a sign, and a compressed tick is multiplied by the spacing without a check. With a
spacing of up to `2 ^ 23` nothing is lost in a search from the range of ticks; with a larger one the edge of a word may
wrap around. The ticks of a word may do so with smaller spacings, since its number is free.
-/

import Searcher.Checked

namespace Searcher

/-- A word of the bitmap with the change of liquidity at each of its marks, as read at a block. -/
structure TickWord where
  bitmap : Nat
  nets : List (Int × Int)
  block : Nat
deriving DecidableEq, Repr, Inhabited

namespace Bitmap

/-- The tick in units of the spacing, rounded down. -/
def compress (tick spacing : Int) : Int := tick / spacing

/-- The word and the bit of a compressed tick. -/
def position (compressed : Int) : Int × Nat :=
  (Int.bmod (compressed / 256) 65536, (compressed % 256).toNat)

/-- The bits up to and including `bit`. -/
def bitsUpTo (bitmap bit : Nat) : Nat := bitmap % 2 ^ (bit + 1)

/-- The bits from `bit` on, moved to the right end. -/
def bitsFrom (bitmap bit : Nat) : Nat := bitmap % wordSize / 2 ^ bit

/-- The number of zero bits at the right end of a number that is not zero. -/
def trailingZeros (n : Nat) : Nat :=
  if n = 0 then 0 else if n % 2 = 1 then 0 else trailingZeros (n / 2) + 1
termination_by n
decreasing_by omega

/-- The tick of a compressed one, as far as 32 bits hold it. -/
def tickOf (compressed spacing : Int) : Int := wrapInt 32 (compressed * spacing)

/-- What a search in one word found: a tick and whether it is marked. -/
structure Found where
  tick : Int
  marked : Bool
deriving DecidableEq, Repr

/-- The compressed tick at which the search begins: the tick itself to the left, the one after it to the right. -/
def start (tick spacing : Int) (left : Bool) : Int :=
  if left then compress tick spacing else compress tick spacing + 1

/-- The nearest mark at or before `compressed` in a word, or the first tick of the word. -/
def searchLeft (bitmap : Nat) (compressed spacing : Int) : Found :=
  let bit := (position compressed).2
  let bits := bitsUpTo bitmap bit
  if bits = 0 then ⟨tickOf (compressed - bit) spacing, false⟩
  else ⟨tickOf (compressed - (bit - bits.log2 : Int)) spacing, true⟩

/-- The nearest mark at or after `compressed` in a word, or the last tick of the word. -/
def searchRight (bitmap : Nat) (compressed spacing : Int) : Found :=
  let bit := (position compressed).2
  let bits := bitsFrom bitmap bit
  if bits = 0 then ⟨tickOf (compressed + (255 - bit : Int)) spacing, false⟩
  else ⟨tickOf (compressed + trailingZeros bits) spacing, true⟩

/-- The search from `compressed` in the given direction. -/
def search (bitmap : Nat) (compressed spacing : Int) (left : Bool) : Found :=
  if left then searchLeft bitmap compressed spacing else searchRight bitmap compressed spacing

/-- The bits that are set in a word, in rising order. -/
def setBits (bitmap : Nat) : List Nat := (List.range 256).filter fun bit => bitmap.testBit bit

/-- The positions of a bitmap are those of its 256 bits that are set. -/
theorem mem_setBits {bitmap bit : Nat} : bit ∈ setBits bitmap ↔ bit < 256 ∧ bitmap.testBit bit = true := by
  simp [setBits]

/-- The ticks that a word marks, in rising order, whatever bits they have. -/
def marks (word : Int) (bitmap : Nat) (spacing : Int) : List Int :=
  (setBits bitmap).map fun (bit : Nat) => (word * 256 + bit) * spacing

/-- The ticks that are read for a word: its marks, as far as 32 bits hold them. -/
def initializedTicks (word : Int) (bitmap : Nat) (spacing : Int) : List Int :=
  (setBits bitmap).map fun (bit : Nat) => tickOf (word * 256 + bit) spacing

/-- The change of liquidity at a tick of the word, zero where none is stated. -/
def netAt (nets : List (Int × Int)) (tick : Int) : Int :=
  ((nets.find? fun entry => entry.1 = tick).map (·.2)).getD 0

end Bitmap

/-- The word that marks those of the given ticks which lie in it. -/
def TickWord.ofNets (nets : List (Int × Int)) (spacing word : Int) (block : Nat) : TickWord :=
  let inside := nets.filter fun entry => (Bitmap.position (Bitmap.compress entry.1 spacing)).1 = word
  let bitmap := inside.foldl (fun bits entry =>
    bits ||| 2 ^ (Bitmap.position (Bitmap.compress entry.1 spacing)).2) 0
  ⟨bitmap, inside, block⟩

end Searcher

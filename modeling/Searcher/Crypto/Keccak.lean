/-
# Keccak-256

The sponge over 25 lanes of 64 bits with a rate of 136 bytes. Lane `(x, y)` stands at index `x + 5 * y`. One round is

| step | effect on lane `(x, y)` |
| --- | --- |
| θ | xor with the parities of columns `x - 1` and `x + 1`, the latter rotated by one |
| ρ, π | take lane `(x + 3 y, x)`, rotated by its own offset |
| χ | xor with `¬ (x + 1, y) ∧ (x + 2, y)` |
| ι | xor lane `(0, 0)` with the round constant |

Padding is a byte `1` after the message and the top bit of the last byte of the block.
-/

import Searcher.Bytes

namespace Searcher
namespace Keccak

/-- The 25 lanes of the sponge. -/
abbrev State := Vector UInt64 25

/-- The lane in column `x` and row `y`, both taken modulo five. -/
def State.lane (s : State) (x y : Nat) : UInt64 :=
  s.get ⟨x % 5 + 5 * (y % 5), by omega⟩

/-- The state whose lane in column `x` and row `y` is `f x y`. -/
def State.ofLanes (f : Nat → Nat → UInt64) : State :=
  Vector.ofFn fun i => f (i.val % 5) (i.val / 5)

/-- Rotation to the left by `n` bits, `n` below 64. -/
def rotate (w : UInt64) (n : Nat) : UInt64 :=
  if n = 0 then w else (w <<< UInt64.ofNat n) ||| (w >>> UInt64.ofNat (64 - n))

/-- The rotation offset of each lane. -/
def offsets : Vector Nat 25 :=
  #v[0, 1, 62, 28, 27, 36, 44, 6, 55, 20, 3, 10, 43, 25, 39, 41, 45, 15, 21, 8, 18, 2, 61, 56, 14]

/-- The constant of each of the 24 rounds. -/
def roundConstants : List UInt64 :=
  [0x0000000000000001, 0x0000000000008082, 0x800000000000808A, 0x8000000080008000, 0x000000000000808B,
   0x0000000080000001, 0x8000000080008081, 0x8000000000008009, 0x000000000000008A, 0x0000000000000088,
   0x0000000080008009, 0x000000008000000A, 0x000000008000808B, 0x800000000000008B, 0x8000000000008089,
   0x8000000000008003, 0x8000000000008002, 0x8000000000000080, 0x000000000000800A, 0x800000008000000A,
   0x8000000080008081, 0x8000000000008080, 0x0000000080000001, 0x8000000080008008]

/-- The parity of column `x`. -/
def State.parity (s : State) (x : Nat) : UInt64 :=
  s.lane x 0 ^^^ s.lane x 1 ^^^ s.lane x 2 ^^^ s.lane x 3 ^^^ s.lane x 4

/-- The step θ. -/
def theta (s : State) : State :=
  let parities := Vector.ofFn (n := 5) fun x => s.parity x
  let spread (x : Nat) : UInt64 :=
    parities.get ⟨(x + 4) % 5, by omega⟩ ^^^ rotate (parities.get ⟨(x + 1) % 5, by omega⟩) 1
  .ofLanes fun x y => s.lane x y ^^^ spread x

/-- The steps ρ and π. -/
def rhoPi (s : State) : State :=
  .ofLanes fun x y =>
    rotate (s.lane (x + 3 * y) x) (offsets.get ⟨(x + 3 * y) % 5 + 5 * (x % 5), by omega⟩)

/-- The step χ. -/
def chi (s : State) : State :=
  .ofLanes fun x y => s.lane x y ^^^ (~~~ s.lane (x + 1) y &&& s.lane (x + 2) y)

/-- One round with its constant. -/
def round (s : State) (constant : UInt64) : State :=
  let t := chi (rhoPi (theta s))
  t.set 0 (t[0] ^^^ constant)

/-- The permutation: 24 rounds. -/
def permute (s : State) : State :=
  roundConstants.foldl round s

/-- The number of bytes that one permutation absorbs. -/
def rate : Nat := 136

/-- A lane from its eight bytes, the least significant one first. -/
def laneOfBytes (bs : Bytes) : UInt64 :=
  bs.foldr (fun b acc => (acc <<< 8) ||| b.toUInt64) 0

/-- The eight bytes of a lane, the least significant one first. -/
def laneBytes (w : UInt64) : Bytes :=
  (List.range 8).map fun i => (w >>> UInt64.ofNat (8 * i)).toUInt8

/-- Absorbs one block of `rate` bytes. -/
def absorb (s : State) (block : Bytes) : State :=
  permute <| Vector.ofFn fun i =>
    s[i] ^^^ laneOfBytes ((block.drop (8 * i.val)).take 8)

/-- The message with its padding: a multiple of `rate` bytes. -/
def padded (message : Bytes) : Bytes :=
  let missing := rate - message.length % rate
  if missing = 1 then message ++ [0x81]
  else message ++ [0x01] ++ List.replicate (missing - 2) 0 ++ [0x80]

/-- Absorbs `count` blocks from the front of the message. -/
def absorbAll (s : State) (message : Bytes) : (count : Nat) → State
  | 0 => s
  | count + 1 => absorbAll (absorb s (message.take rate)) (message.drop rate) count

/-- The hash of a message: the first 32 bytes of the state after all blocks are in. -/
def hash (message : Bytes) : Bytes :=
  let blocks := padded message
  let s := absorbAll (Vector.replicate 25 0) blocks (blocks.length / rate)
  (s.toList.take 4).flatMap laneBytes

/-- The hash of a text's UTF-8 bytes. -/
def hashText (text : String) : Bytes :=
  hash text.toUTF8.toList

/-- The first four bytes of the hash of a signature: what selects a function in call data. -/
def selector (signature : String) : Bytes :=
  (hashText signature).take 4

end Keccak
end Searcher

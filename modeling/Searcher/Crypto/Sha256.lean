/-
# SHA-256

The hash runs over blocks of 64 bytes. Each block is sixteen words, from which 48 more are made; every word takes the
state of eight words one round further, and the state before the block is added to the result.

Padding is a byte `0x80`, zero bytes, and the length of the message in bits as a number of eight bytes.

`hmac` hashes a message together with a key, in two layers.
-/

import Searcher.Bytes

namespace Searcher
namespace Sha256

/-- The eight words of the state. -/
structure State where
  a : UInt32
  b : UInt32
  c : UInt32
  d : UInt32
  e : UInt32
  f : UInt32
  g : UInt32
  h : UInt32
deriving DecidableEq

/-- The state before the first block. -/
def initial : State :=
  ⟨0x6a09e667, 0xbb67ae85, 0x3c6ef372, 0xa54ff53a, 0x510e527f, 0x9b05688c, 0x1f83d9ab, 0x5be0cd19⟩

/-- The constant of each of the 64 rounds. -/
def roundConstants : List UInt32 :=
  [0x428a2f98, 0x71374491, 0xb5c0fbcf, 0xe9b5dba5, 0x3956c25b, 0x59f111f1, 0x923f82a4, 0xab1c5ed5,
   0xd807aa98, 0x12835b01, 0x243185be, 0x550c7dc3, 0x72be5d74, 0x80deb1fe, 0x9bdc06a7, 0xc19bf174,
   0xe49b69c1, 0xefbe4786, 0x0fc19dc6, 0x240ca1cc, 0x2de92c6f, 0x4a7484aa, 0x5cb0a9dc, 0x76f988da,
   0x983e5152, 0xa831c66d, 0xb00327c8, 0xbf597fc7, 0xc6e00bf3, 0xd5a79147, 0x06ca6351, 0x14292967,
   0x27b70a85, 0x2e1b2138, 0x4d2c6dfc, 0x53380d13, 0x650a7354, 0x766a0abb, 0x81c2c92e, 0x92722c85,
   0xa2bfe8a1, 0xa81a664b, 0xc24b8b70, 0xc76c51a3, 0xd192e819, 0xd6990624, 0xf40e3585, 0x106aa070,
   0x19a4c116, 0x1e376c08, 0x2748774c, 0x34b0bcb5, 0x391c0cb3, 0x4ed8aa4a, 0x5b9cca4f, 0x682e6ff3,
   0x748f82ee, 0x78a5636f, 0x84c87814, 0x8cc70208, 0x90befffa, 0xa4506ceb, 0xbef9a3f7, 0xc67178f2]

/-- Rotation to the right by `n` bits, `n` from 1 to 31. -/
def rotate (w : UInt32) (n : UInt32) : UInt32 := (w >>> n) ||| (w <<< (32 - n))

/-- The function that mixes the words made from a block, for words 15 back. -/
def smallSigma0 (w : UInt32) : UInt32 := rotate w 7 ^^^ rotate w 18 ^^^ (w >>> 3)

/-- The same for words 2 back. -/
def smallSigma1 (w : UInt32) : UInt32 := rotate w 17 ^^^ rotate w 19 ^^^ (w >>> 10)

/-- The function that mixes word `a` of the state. -/
def bigSigma0 (w : UInt32) : UInt32 := rotate w 2 ^^^ rotate w 13 ^^^ rotate w 22

/-- The function that mixes word `e` of the state. -/
def bigSigma1 (w : UInt32) : UInt32 := rotate w 6 ^^^ rotate w 11 ^^^ rotate w 25

/-- The bits of `f` where `e` has ones and those of `g` elsewhere. -/
def choice (e f g : UInt32) : UInt32 := (e &&& f) ^^^ (~~~ e &&& g)

/-- The bits that at least two of the words have. -/
def majority (a b c : UInt32) : UInt32 := (a &&& b) ^^^ (a &&& c) ^^^ (b &&& c)

/-- The word that follows sixteen words, the latest first. -/
def nextWord (recent : List UInt32) : UInt32 :=
  smallSigma1 (recent.getD 1 0) + recent.getD 6 0 + smallSigma0 (recent.getD 14 0) + recent.getD 15 0

/-- Puts `count` more words before the words so far, the latest first. -/
def extend (words : List UInt32) : (count : Nat) → List UInt32
  | 0 => words
  | count + 1 => extend (nextWord words :: words) count

/-- One round with its constant and its word. -/
def round (s : State) (constant word : UInt32) : State :=
  let t := s.h + bigSigma1 s.e + choice s.e s.f s.g + constant + word
  ⟨t + bigSigma0 s.a + majority s.a s.b s.c, s.a, s.b, s.c, s.d + t, s.e, s.f, s.g⟩

/-- A word from four bytes. -/
def wordOfBytes (bs : Bytes) : UInt32 := UInt32.ofNat bs.toNat

/-- The sixteen words of a block, the last one first. -/
def blockWords (block : Bytes) : List UInt32 :=
  ((List.range 16).map fun i => wordOfBytes ((block.drop (4 * i)).take 4)).reverse

/-- The sum of two states, word by word. -/
def State.add (s t : State) : State :=
  ⟨s.a + t.a, s.b + t.b, s.c + t.c, s.d + t.d, s.e + t.e, s.f + t.f, s.g + t.g, s.h + t.h⟩

/-- Takes in one block of 64 bytes. -/
def absorb (s : State) (block : Bytes) : State :=
  let words := (extend (blockWords block) 48).reverse
  s.add ((roundConstants.zip words).foldl (fun s (constant, word) => round s constant word) s)

/-- Takes in `count` blocks from the front of a message. -/
def absorbAll (s : State) (message : Bytes) : (count : Nat) → State
  | 0 => s
  | count + 1 => absorbAll (absorb s (message.take 64)) (message.drop 64) count

/-- The message with its padding: a multiple of 64 bytes. -/
def padded (message : Bytes) : Bytes :=
  message ++ [0x80] ++ List.replicate ((119 - message.length % 64) % 64) 0 ++ Bytes.ofNat 8 (8 * message.length)

/-- The bytes of a state. -/
def State.bytes (s : State) : Bytes :=
  [s.a, s.b, s.c, s.d, s.e, s.f, s.g, s.h].flatMap fun w => Bytes.ofNat 4 w.toNat

/-- The hash of a message. -/
def hash (message : Bytes) : Bytes :=
  let blocks := padded message
  (absorbAll initial blocks (blocks.length / 64)).bytes

/-- A key of at most 64 bytes as one block in which every byte is changed by `mask`. -/
def maskedKey (key : Bytes) (mask : UInt8) : Bytes :=
  (key ++ List.replicate (64 - key.length) 0).map (· ^^^ mask)

/-- The hash of a message under a key. -/
def hmac (key message : Bytes) : Bytes :=
  let key := if 64 < key.length then hash key else key
  hash (maskedKey key 0x5c ++ hash (maskedKey key 0x36 ++ message))

end Sha256
end Searcher

/-
# Recursive length prefix

The encoding of transactions: an item is a string of bytes or a list of items, behind a header that tells which and how
long. A string of one byte below 128 is its own encoding. Lengths from 56 on are written as a number of their own.

| first byte | item |
| --- | --- |
| below 128 | this byte |
| 128 to 183 | a string of 0 to 55 bytes |
| 184 to 191 | a string whose length takes 1 to 8 bytes |
| 192 to 247 | a list of 0 to 55 bytes |
| 248 to 255 | a list whose length takes 1 to 8 bytes |

The reader takes the shortest form of each item only.
-/

import Searcher.Address

namespace Searcher

/-- An item. -/
inductive Rlp where
  | bytes (bs : Bytes)
  | list (items : List Rlp)

namespace Rlp

/-- The header of `len` bytes of content, `base` being the header of empty content. -/
def header (base len : Nat) : Bytes :=
  if len < 56 then [UInt8.ofNat (base + len)]
  else
    let size := Bytes.minimal len
    UInt8.ofNat (base + 55 + size.length) :: size

/-- The encoding of a string. -/
def encodeBytes (bs : Bytes) : Bytes :=
  match bs with
  | [b] => if b < 128 then [b] else header 128 1 ++ [b]
  | _ => header 128 bs.length ++ bs

mutual

/-- The encoding of an item. -/
def encode : Rlp → Bytes
  | bytes bs => encodeBytes bs
  | list items =>
    let content := encodeAll items
    header 192 content.length ++ content

/-- The encodings of items, one after another. -/
def encodeAll : List Rlp → Bytes
  | [] => []
  | item :: items => encode item ++ encodeAll items

end

/-- The item of a number: its bytes without leading zeros. -/
def ofNat (n : Nat) : Rlp := bytes (.minimal n)

/-- What a header announces. -/
inductive Content where
  | bytes (bs : Bytes)
  | list (content : Bytes)

/-- Cuts content of a written length off the front; lengths below 56 and leading zeros are not written so. -/
def longContent? (size : Nat) (rest : Bytes) : Option (Bytes × Bytes) := do
  let written ← rest.slice? 0 size
  if written.head? = some 0 ∨ written.toNat < 56 then none
  let content ← Bytes.slice? (rest.drop size) 0 written.toNat
  return (content, rest.drop (size + written.toNat))

/-- The first item's content and what follows the item. -/
def content? : Bytes → Option (Content × Bytes)
  | [] => none
  | b :: rest =>
    let n := b.toNat
    if n < 128 then some (.bytes [b], rest)
    else if n < 184 then do
      let bs ← Bytes.slice? rest 0 (n - 128)
      if bs.length = 1 ∧ bs.toNat < 128 then none
      return (.bytes bs, rest.drop (n - 128))
    else if n < 192 then do
      let (bs, rest) ← longContent? (n - 183) rest
      return (.bytes bs, rest)
    else if n < 248 then do
      return (.list (← Bytes.slice? rest 0 (n - 192)), rest.drop (n - 192))
    else do
      let (content, rest) ← longContent? (n - 247) rest
      return (.list content, rest)

/-- All items of a string of at most `fuel` bytes. -/
def decodeAll? : (fuel : Nat) → Bytes → Option (List Rlp)
  | _, [] => some []
  | 0, _ :: _ => none
  | fuel + 1, b :: rest => do
    let (first, rest) ← content? (b :: rest)
    let item ← match first with
      | .bytes bs => some (bytes bs)
      | .list content => (decodeAll? fuel content).map list
    return item :: (← decodeAll? fuel rest)

/-- The items of the list at the front of a string; what follows it is ignored. -/
def decodeList? (bs : Bytes) : Option (List Rlp) := do
  match ← content? bs with
  | (.list content, _) => decodeAll? content.length content
  | _ => none

/-- The string of an item. -/
def toBytes? : Rlp → Option Bytes
  | bytes bs => some bs
  | list _ => none

/-- The items of a list. -/
def toList? : Rlp → Option (List Rlp)
  | bytes _ => none
  | list items => some items

/-- The number of an item, which has at most `width` bytes and no leading zero. -/
def toNat? (width : Nat) : Rlp → Option Nat
  | bytes bs => if bs.length ≤ width ∧ bs.head? ≠ some 0 then some bs.toNat else none
  | list _ => none

/-- The truth value of an item: the number zero or one. -/
def toBool? (item : Rlp) : Option Bool :=
  match item.toNat? 1 with
  | some 0 => some false
  | some 1 => some true
  | _ => none

/-- The address of an item. -/
def toAddress? : Rlp → Option Address
  | bytes bs => if bs.length = 20 then some (.ofBytes bs) else none
  | list _ => none

/-- The word of an item. -/
def toWord? : Rlp → Option Word
  | bytes bs => if bs.length = 32 then some (.ofBytes bs) else none
  | list _ => none

end Rlp
end Searcher

/-
# Addresses

An address is 20 bytes. It has two written forms: the plain one is lower case, and the checksummed one raises the
letters at which the hash of the plain digits has a nibble of eight or more. Messages for people use the second.
-/

import Searcher.Crypto.Keccak

namespace Searcher

/-- The address of an account or a contract. -/
structure Address where
  bits : BitVec 160
deriving DecidableEq, Hashable, Inhabited

namespace Address

/-- The address whose number is `n` modulo `2 ^ 160`. -/
def ofNat (n : Nat) : Address := ⟨BitVec.ofNat 160 n⟩

/-- The address as a number. -/
def toNat (a : Address) : Nat := a.bits.toNat

/-- The address of no account. -/
def zero : Address := ofNat 0

/-- Whether this is the address of no account. -/
def isZero (a : Address) : Bool := a = zero

/-- The address in the last twenty of these bytes. -/
def ofBytes (bs : Bytes) : Address := ofNat bs.toNat

/-- The 20 bytes of the address. -/
def toBytes (a : Address) : Bytes := Bytes.ofNat 20 a.toNat

/-- The plain written form. -/
def hex (a : Address) : String := a.toBytes.hex

/-- Reads either written form; the case of letters is not checked. -/
def ofHex? (text : String) : Option Address := do
  let bs ← Bytes.ofHex? text
  if bs.length = 20 then some (ofBytes bs) else none

/-- Raises the letters whose nibble in the hash is eight or more. -/
def raise (digits : List Char) (nibbles : List Nat) : List Char :=
  digits.zipWith (fun c n => if 8 ≤ n then c.toUpper else c) nibbles

/-- The checksummed written form. -/
def checksummed (a : Address) : String :=
  let digits := a.toBytes.digits
  let hash := Keccak.hash (digits.map fun c => UInt8.ofNat c.toNat)
  "0x" ++ String.ofList (raise digits (hash.flatMap fun b => [b.toNat / 16, b.toNat % 16]))

/-- Addresses in the order of their numbers, which is the order of their bytes. -/
instance : Ord Address := ⟨fun a b => compare a.toNat b.toNat⟩

/-- Addresses in their order, each once. -/
def sorted (addresses : List Address) : List Address :=
  addresses.eraseDups.mergeSort fun a b => a.toNat ≤ b.toNat

end Address
end Searcher

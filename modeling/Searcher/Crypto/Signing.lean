/-
# Signing keys

A key is a number below the order of the curve; it signs hashes of 32 bytes. Every hash has one signature under a key:
the secret factor is derived from both, and of the two numbers `s` that would do, the smaller one is taken.

The address of a key is the end of the hash of its public point.
-/

import Searcher.Address
import Searcher.Crypto.Secp256k1
import Searcher.Crypto.Sha256

namespace Searcher

/-- A key that signs. -/
structure SigningKey where
  secret : Nat
  secret_pos : 0 < secret
  secret_lt : secret < Secp256k1.order

namespace SigningKey

/-- The key with a number, if it is one. -/
def ofNat? (secret : Nat) : Option SigningKey :=
  if h : 0 < secret ∧ secret < Secp256k1.order then some ⟨secret, h.1, h.2⟩ else none

/-- The key that 64 digits write, with or without `0x`. -/
def ofHex? (text : String) : Option SigningKey := do
  let bs ← Bytes.ofHex? text
  if bs.length = 32 then ofNat? bs.toNat else none

/-- The address of the key's account. -/
def address (key : SigningKey) : Address :=
  match Secp256k1.times key.secret Secp256k1.generator with
  | some p => .ofBytes ((Keccak.hash (Bytes.ofNat 32 p.x ++ Bytes.ofNat 32 p.y)).drop 12)
  | none => .zero

/-- The state of the generator of secret factors: a key and a value, each of 32 bytes. -/
structure FactorState where
  key : Bytes
  value : Bytes

namespace FactorState

/-- Stirs bytes in. -/
def stir (s : FactorState) (mark : UInt8) (extra : Bytes) : FactorState :=
  let key := Sha256.hmac s.key (s.value ++ mark :: extra)
  ⟨key, Sha256.hmac key s.value⟩

/-- The state for a key and a hash. -/
def start (key : SigningKey) (hash : Nat) : FactorState :=
  let extra := Bytes.ofNat 32 key.secret ++ Bytes.ofNat 32 (hash % Secp256k1.order)
  let s : FactorState := ⟨List.replicate 32 0, List.replicate 32 1⟩
  (s.stir 0 extra).stir 1 extra

/-- The first of at most `tries` values that is a factor. -/
def factor? (s : FactorState) : (tries : Nat) → Option Nat
  | 0 => none
  | tries + 1 =>
    let value := Sha256.hmac s.key s.value
    if 0 < value.toNat ∧ value.toNat < Secp256k1.order then some value.toNat
    else (FactorState.stir ⟨s.key, value⟩ 0 []).factor? tries

end FactorState

/-- The values that are tried as a secret factor. One in 2 ^ 127 is not a factor. -/
def tries : Nat := 64

/-- The signature with a secret factor. -/
def signWith (key : SigningKey) (hash k : Nat) : Option CurveSignature := do
  let n := Secp256k1.order
  let p ← Secp256k1.times k Secp256k1.generator
  let r := p.x % n
  let s := Secp256k1.inverse k n * (hash + r * key.secret) % n
  if r = 0 ∨ s = 0 then none
  let odd := p.y % 2 = 1
  return if n / 2 < s then ⟨!odd, r, n - s⟩ else ⟨odd, r, s⟩

/-- The signature of a hash. -/
def sign (key : SigningKey) (hash : Word) : Option CurveSignature := do
  key.signWith hash.toNat (← (FactorState.start key hash.toNat).factor? tries)

end SigningKey
end Searcher

/-
# Envelopes that are rebuilt

A transaction under evaluation is one flat record for all types of envelopes, with one number `v` for the three ways in
which they write the parity of a signature. A bundle needs the envelope back.

An envelope that was taken apart is rebuilt as it was (`Envelope.ofTransaction_toTransaction`): `v` tells the chain and
the parity apart again (`Envelope.ofRecovery?_recovery`), and every other field is kept by name. An announced
transaction is rebuilt as well, but for its access list, which announcements do not tell
(`PendingTx.toTransaction?_rebuilt`). So a victim with an access list goes into a bundle as another transaction, with a
hash that its sender never signed.
-/

import Searcher.Envelope
import Searcher.Stream.Pending

namespace Searcher
namespace Envelope

/-- A recovery number tells its chain and its parity. -/
theorem ofRecovery?_recovery (chain : Option Nat) (odd : Bool) :
    ofRecovery? (recovery chain odd) = some (chain, odd) := by
  cases chain with
  | none => cases odd <;> rfl
  | some id =>
    have hv : recovery (some id) odd = 35 + (2 * id + odd.toNat) := Nat.add_assoc ..
    have hodd : odd.toNat < 2 := odd.toNat_lt
    rw [ofRecovery?, hv, if_neg (by omega), if_pos (by omega), Nat.add_sub_cancel_left,
      show (2 * id + odd.toNat) / 2 = id by omega, show (2 * id + odd.toNat) % 2 = odd.toNat by omega]
    cases odd <;> rfl

/-- A parity is read back from the number it is announced by. -/
theorem parity?_toNat (odd : Bool) : parity? odd.toNat = some odd := by
  cases odd <;> rfl

/-- A signature of an envelope is read back from its parity and its two words. -/
theorem typedSignature_toNat (s : CurveSignature) : typedSignature ⟨s.odd.toNat, s.r, s.s⟩ = .ok s := by
  rw [typedSignature, parity?_toNat]

/-- The recovery number, where an envelope has one, fits into 64 bits. -/
def RecoveryFits : Envelope → Prop
  | legacy (some id) .. => 36 + 2 * id < 2 ^ 64
  | _ => True

/-- **An envelope that is taken apart is rebuilt as it was.** The transaction of an envelope has a `v` of 64 bits, and
its envelope is the one that it came from: in every field, with its receiver, its access list and its signature. -/
theorem ofTransaction_toTransaction {e : Envelope} (h : e.RecoveryFits) (caller : Address) :
    (e.toTransaction caller).signature.v < 2 ^ 64 ∧ ofTransaction (e.toTransaction caller) = .ok e := by
  cases e with
  | legacy chain price call s =>
    have hodd : s.odd.toNat < 2 := s.odd.toNat_lt
    refine ⟨?_, ?_⟩
    · cases chain with
      | none => exact Nat.lt_of_lt_of_le (Nat.add_lt_add_left hodd 27) (by decide)
      | some id =>
        have hid : 36 + 2 * id < 2 ^ 64 := h
        change 35 + 2 * id + s.odd.toNat < 2 ^ 64
        omega
    · simp only [ofTransaction, toTransaction, ofRecovery?_recovery]
      cases chain <;> rfl
  | eip2930 chain price call access s =>
    refine ⟨Nat.lt_of_lt_of_le s.odd.toNat_lt (by decide), ?_⟩
    simp only [ofTransaction, toTransaction, typedSignature_toNat]
    rfl
  | eip1559 chain priority fee call access s =>
    refine ⟨Nat.lt_of_lt_of_le s.odd.toNat_lt (by decide), ?_⟩
    simp only [ofTransaction, toTransaction, typedSignature_toNat]
    rfl

/-- The largest chain number whose recovery number has 64 bits, and a signature of odd parity: `v` is at its limit. -/
theorem ofTransaction_toTransaction_largestChain :
    let e : Envelope := legacy (some (2 ^ 63 - 19)) 3000000000 ⟨7, 210000, none, 5, [1, 2]⟩ ⟨true, 11, 13⟩
    e.RecoveryFits ∧ (e.toTransaction .zero).signature.v < 2 ^ 64 ∧ ofTransaction (e.toTransaction .zero) = .ok e := by
  intro e
  have hfits : e.RecoveryFits := (by decide : 36 + 2 * (2 ^ 63 - 19) < 2 ^ 64)
  exact ⟨hfits, ofTransaction_toTransaction hfits .zero⟩

/-- The storage keys that an envelope announces; one without a type announces none. -/
def accessList : Envelope → List AccessItem
  | legacy .. => []
  | eip2930 _ _ _ access _ => access
  | eip1559 _ _ _ _ access _ => access

/-- The envelope without its access list, under the same signature. -/
def withoutAccessList : Envelope → Envelope
  | legacy chain price call s => legacy chain price call s
  | eip2930 chain price call _ s => eip2930 chain price call [] s
  | eip1559 chain priority fee call _ s => eip1559 chain priority fee call [] s

/-- An envelope is unchanged without its access list exactly if that is empty. -/
theorem withoutAccessList_eq_self_iff {e : Envelope} : e.withoutAccessList = e ↔ e.accessList = [] := by
  cases e <;> simp [withoutAccessList, accessList, eq_comm]

/-- Every price of the envelope is a number of 128 bits. -/
def PricesFit : Envelope → Prop
  | legacy _ price .. => price < 2 ^ 128
  | eip2930 _ price .. => price < 2 ^ 128
  | eip1559 _ priority fee .. => priority < 2 ^ 128 ∧ fee < 2 ^ 128

end Envelope

namespace PendingTx

open Envelope

/-- The call that an announced transaction makes. -/
def call (tx : PendingTx) : EnvelopeCall := ⟨tx.nonce, tx.gas, tx.receiver, tx.value, tx.input⟩

/-- The announcement tells the fields of an envelope as nodes tell them: the parity of a typed transaction as zero or
one, and that of another one with its chain. An old transaction may be told without its type and its chain, and a fee
market transaction with some gas price. -/
def Announces (tx : PendingTx) : Envelope → Prop
  | legacy chain price call s =>
    (tx.type = none ∨ tx.type = some 0) ∧ (tx.chainId = none ∨ tx.chainId = chain) ∧ tx.gasPrice = some price ∧
      tx.call = call ∧ tx.signature = ⟨recovery chain s.odd, s.r, s.s⟩
  | eip2930 chain price call _ s =>
    tx.type = some 1 ∧ tx.chainId = some chain ∧ tx.gasPrice = some price ∧ tx.call = call ∧
      tx.signature = ⟨s.odd.toNat, s.r, s.s⟩
  | eip1559 chain priority fee call _ s =>
    tx.type = some 2 ∧ tx.chainId = some chain ∧ tx.maxPriorityFeePerGas = some priority ∧
      tx.maxFeePerGas = some fee ∧ tx.call = call ∧ tx.signature = ⟨s.odd.toNat, s.r, s.s⟩

/-- A price of 128 bits is announced as it is. -/
theorem capPrice_some {price : Nat} (h : price < 2 ^ 128) : capPrice (some price) = some price :=
  congrArg some (Nat.min_eq_left (Nat.le_sub_one_of_lt h))

/-- **An announced transaction is rebuilt but for its access list.** The announcement of an envelope whose prices have
128 bits is taken for a transaction, and this one has an envelope: the one that was announced without its access list.
So it is the envelope that was signed exactly if that one has no access list. -/
theorem toTransaction?_rebuilt {tx : PendingTx} {e : Envelope} (h : tx.Announces e) (hprices : e.PricesFit) :
    ∃ t, tx.toTransaction? = some t ∧ ofTransaction t = .ok e.withoutAccessList ∧
      (ofTransaction t = .ok e ↔ e.accessList = []) := by
  suffices hrebuilt : ∃ t, tx.toTransaction? = some t ∧ ofTransaction t = .ok e.withoutAccessList by
    obtain ⟨t, ht, he⟩ := hrebuilt
    exact ⟨t, ht, he, by rw [he, Except.ok.injEq, withoutAccessList_eq_self_iff]⟩
  cases e with
  | legacy chain price call s =>
    obtain ⟨htype, hchain, hprice, rfl, hs⟩ := h
    have hkind : tx.kind? = some .legacy := by rcases htype with ht | ht <;> simp [kind?, ht]
    have hor : tx.chainId.or chain = chain := by
      rcases hchain with hc | hc <;> rw [hc]
      · rfl
      · exact Option.or_self
    refine ⟨_, by rw [toTransaction?, hkind]; rfl, ?_⟩
    simp only [ofTransaction, hs, ofRecovery?_recovery, hprice, capPrice_some hprices, hor]
    rfl
  | eip2930 chain price call access s =>
    obtain ⟨htype, hchain, hprice, rfl, hs⟩ := h
    have hkind : tx.kind? = some .eip2930 := by simp [kind?, htype]
    refine ⟨_, by rw [toTransaction?, hkind]; rfl, ?_⟩
    simp only [ofTransaction, hs, typedSignature_toNat, hprice, capPrice_some hprices, hchain]
    rfl
  | eip1559 chain priority fee call access s =>
    obtain ⟨htype, hchain, hpriority, hfee, rfl, hs⟩ := h
    have hkind : tx.kind? = some .eip1559 := by simp [kind?, htype]
    refine ⟨_, by rw [toTransaction?, hkind]; rfl, ?_⟩
    simp only [ofTransaction, hs, typedSignature_toNat, hpriority, hfee, capPrice_some hprices.1,
      capPrice_some hprices.2, hchain]
    rfl

/-- An announced fee market transaction without an access list, told with its gas price as well. -/
def feeMarketVictim : PendingTx :=
  { hash := .ofNat 1, chainId := some 56, type := some 2, sender := .ofNat 2, receiver := some (.ofNat 3), value := 5,
    input := [1, 2, 3], nonce := 7, gas := 300000, gasPrice := some 5000000000, maxFeePerGas := some 5000000000,
    maxPriorityFeePerGas := some 1000000000, signature := ⟨1, 11, 13⟩ }

/-- A fee market transaction without an access list is bundled as it was signed. -/
theorem toTransaction?_rebuilt_feeMarket :
    let e : Envelope := eip1559 56 1000000000 5000000000 feeMarketVictim.call [] ⟨true, 11, 13⟩
    feeMarketVictim.Announces e ∧ e.PricesFit ∧
      ∃ t, feeMarketVictim.toTransaction? = some t ∧ ofTransaction t = .ok e := by
  intro e
  have hannounced : feeMarketVictim.Announces e := ⟨rfl, rfl, rfl, rfl, rfl, rfl⟩
  have hprices : e.PricesFit := (by decide : 1000000000 < 2 ^ 128 ∧ 5000000000 < 2 ^ 128)
  obtain ⟨t, ht, -, hexact⟩ := toTransaction?_rebuilt hannounced hprices
  exact ⟨hannounced, hprices, t, ht, hexact.2 rfl⟩

/-- A transaction of type 1 that announces a storage key. -/
def listingVictim : Envelope :=
  eip2930 56 3000000000
    ⟨7, 210000, some (.ofNat 0x10ed43c718714eb63d5aa57b78b54704e256024e), 10 ^ 17, [0x7f, 0xf3, 0x6a, 0xb5]⟩
    [⟨.ofNat 0x0e09fabb73bd3ade0a17ecc321fd13a19e81ce82, [.ofNat 1]⟩]
    ⟨true, 0x3ae2206b39e903c089039edaff699301c550d8c750c4c3390eae2b62360de983,
      0x6258dbb612c0d75b5162daf5325f354255aa671b91d8e7a9322c0a309642b299⟩

/-- What a node tells of `listingVictim`, its access list among the rest. -/
def listingVictimContents : Json :=
  .obj [("chainId", .str "0x38"), ("type", .str "0x1"), ("from", .str "0x2c7536e3605d9c16a7a3d7b1898e529396a65c23"),
    ("to", .str "0x10ed43c718714eb63d5aa57b78b54704e256024e"), ("value", .str "0x16345785d8a0000"),
    ("input", .str "0x7ff36ab5"), ("nonce", .str "0x7"), ("gas", .str "0x33450"), ("gasPrice", .str "0xb2d05e00"),
    ("accessList", .arr [.obj [("address", .str "0x0e09fabb73bd3ade0a17ecc321fd13a19e81ce82"),
      ("storageKeys", .arr [.str "0x0000000000000000000000000000000000000000000000000000000000000001"])]]),
    ("v", .str "0x1"), ("r", .str "0x3ae2206b39e903c089039edaff699301c550d8c750c4c3390eae2b62360de983"),
    ("s", .str "0x6258dbb612c0d75b5162daf5325f354255aa671b91d8e7a9322c0a309642b299")]

/-- The announcement of `listingVictim`. -/
def listingVictimAnnounced : PendingTx :=
  { hash := .ofNat 1, chainId := some 56, type := some 1,
    sender := .ofNat 0x2c7536e3605d9c16a7a3d7b1898e529396a65c23,
    receiver := some (.ofNat 0x10ed43c718714eb63d5aa57b78b54704e256024e), value := 10 ^ 17,
    input := [0x7f, 0xf3, 0x6a, 0xb5], nonce := 7, gas := 210000, gasPrice := some 3000000000,
    signature := ⟨1, 0x3ae2206b39e903c089039edaff699301c550d8c750c4c3390eae2b62360de983,
      0x6258dbb612c0d75b5162daf5325f354255aa671b91d8e7a9322c0a309642b299⟩ }

/-- **A victim that lists storage keys is bundled as another transaction.** All its fields are announced, its access
list too; it is rebuilt without a failure, and it is not the envelope that was signed. -/
theorem listingVictim_notRebuilt :
    PendingTx.ofContents? (.ofNat 1) listingVictimContents = some listingVictimAnnounced ∧
      listingVictimAnnounced.Announces listingVictim ∧ listingVictim.PricesFit ∧
      ∃ t e, listingVictimAnnounced.toTransaction? = some t ∧ ofTransaction t = .ok e ∧ e ≠ listingVictim := by
  refine ⟨by decide +kernel, ⟨rfl, rfl, rfl, rfl, rfl⟩, (by decide : 3000000000 < 2 ^ 128),
    _, listingVictim.withoutAccessList, rfl, rfl, ?_⟩
  rw [ne_eq, withoutAccessList_eq_self_iff]
  exact List.cons_ne_nil _ _

end PendingTx
end Searcher

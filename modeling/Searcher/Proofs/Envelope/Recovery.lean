/-
# The recovery number of a rebuilt envelope

A transaction without a type may tell its chain twice: in a field, and from 35 on in the recovery number `v`, which is
27 or 28 where the signature is bound to no chain. Its envelope takes the chain of the field if there is one, and else
the chain of `v`; the parity is always that of `v`.

A recovery number is the number of one chain and one parity only (`ofRecovery?_eq_some_iff`), and with the price it is
all that the envelope needs (`ofTransaction_legacy_iff`). So the rebuilt envelope has the signature that was told
exactly where the field is absent or tells the chain of `v` (`ofTransaction_keepsRecovery`). Otherwise it is bound to a
chain that its sender did not sign for, as a signature for no chain is when a chain is announced with it
(`PendingTx.unprotectedVictim_rebound`).
-/

import Searcher.Proofs.Envelope.Rebuilt

namespace Searcher
namespace Envelope

variable {tx : Transaction} {e : Envelope} {chain : Option Nat} {odd : Bool} {v : Nat}

/-- What is read out of a recovery number is written back as that number. -/
theorem recovery_of_ofRecovery? (h : ofRecovery? v = some (chain, odd)) : recovery chain odd = v := by
  unfold ofRecovery? at h
  split at h
  · rename_i hv
    obtain ⟨rfl, rfl⟩ := Prod.mk.inj (Option.some.inj h)
    rcases hv with rfl | rfl <;> rfl
  · split at h
    · obtain ⟨rfl, rfl⟩ := Prod.mk.inj (Option.some.inj h)
      have hodd : (decide ((v - 35) % 2 = 1)).toNat = (v - 35) % 2 := by
        rcases Nat.mod_two_eq_zero_or_one (v - 35) with hv | hv <;> rw [hv] <;> rfl
      change 35 + 2 * ((v - 35) / 2) + (decide ((v - 35) % 2 = 1)).toNat = v
      omega
    · cases h

/-- **A recovery number is the number of one chain and one parity.** -/
theorem ofRecovery?_eq_some_iff : ofRecovery? v = some (chain, odd) ↔ recovery chain odd = v :=
  ⟨recovery_of_ofRecovery?, fun h => h ▸ ofRecovery?_recovery chain odd⟩

/-- A recovery number can be read if it is 27, 28 or at least 35: the numbers before any chain and those of a chain.
-/
theorem exists_ofRecovery?_iff : (∃ parts, ofRecovery? v = some parts) ↔ v = 27 ∨ v = 28 ∨ 35 ≤ v := by
  unfold ofRecovery?
  split
  · rename_i hv
    exact ⟨fun _ => by omega, fun _ => ⟨_, rfl⟩⟩
  · split
    · exact ⟨fun _ => by omega, fun _ => ⟨_, rfl⟩⟩
    · constructor
      · rintro ⟨_, h⟩
        cases h
      · omega

/-- What the envelope of a transaction without a type is, and when it has one. -/
theorem ofTransaction_legacy_iff (hkind : tx.kind = .legacy) :
    ofTransaction tx = .ok e ↔
      ∃ chain odd price, ofRecovery? tx.signature.v = some (chain, odd) ∧ tx.gasPrice = some price ∧
        e = .legacy (tx.chainId.or chain) price ⟨tx.nonce, tx.gas, tx.receiver, tx.value, tx.input⟩
          ⟨odd, tx.signature.r, tx.signature.s⟩ := by
  simp only [ofTransaction, hkind]
  constructor
  · intro h
    cases hv : ofRecovery? tx.signature.v with
    | none => rw [hv] at h; cases h
    | some parts =>
      cases hprice : tx.gasPrice with
      | none => rw [hv, hprice] at h; cases h
      | some price =>
        rw [hv, hprice] at h
        exact ⟨parts.1, parts.2, price, rfl, rfl, (Except.ok.inj h).symm⟩
  · rintro ⟨chain, odd, price, hv, hprice, rfl⟩
    rw [hv, hprice]
    rfl

/-- A legacy transaction has an envelope exactly if its recovery number can be read and its gas price is announced. -/
theorem exists_ofTransaction_legacy_iff (hkind : tx.kind = .legacy) :
    (∃ e, ofTransaction tx = .ok e) ↔
      (tx.signature.v = 27 ∨ tx.signature.v = 28 ∨ 35 ≤ tx.signature.v) ∧ tx.gasPrice ≠ none := by
  rw [← exists_ofRecovery?_iff, Option.ne_none_iff_exists']
  constructor
  · rintro ⟨e, he⟩
    obtain ⟨chain, odd, price, hv, hprice, -⟩ := (ofTransaction_legacy_iff hkind).1 he
    exact ⟨⟨_, hv⟩, price, hprice⟩
  · rintro ⟨⟨parts, hv⟩, price, hprice⟩
    exact ⟨_, (ofTransaction_legacy_iff hkind).2 ⟨_, _, price, hv, hprice, rfl⟩⟩

/-- The chain of the envelope is the one of the number where that one is told, or none is. -/
theorem or_eq_right_iff {told chain : Option Nat} : told.or chain = chain ↔ told = none ∨ told = chain := by
  cases told <;> simp

/-- **The signature is kept exactly where the chain that is told is the one of `v`, or none is told.** A transaction
without a type has an envelope where `v` is a recovery number and its price is known. The transaction of the envelope
then has the same `v`, so that 27 and 28 stay bound to no chain, and the same `r` and `s`. Where another chain is told,
and a number of 64 bits holds it, `v` is the one of that chain. -/
theorem ofTransaction_keepsRecovery (hkind : tx.kind = .legacy) (caller : Address) :
    ((∃ e, ofTransaction tx = .ok e) ↔
      (tx.signature.v = 27 ∨ tx.signature.v = 28 ∨ 35 ≤ tx.signature.v) ∧ tx.gasPrice ≠ none) ∧
    ∀ e, ofTransaction tx = .ok e →
      ∃ chain odd, tx.signature.v = recovery chain odd ∧
        (tx.chainId = none ∨ tx.chainId = chain →
          (e.toTransaction caller).chainId = chain ∧ (e.toTransaction caller).signature = tx.signature) ∧
        (e.RecoveryFits →
          (e.toTransaction caller).signature.v < 2 ^ 64 ∧
          (e.toTransaction caller).signature =
            ⟨recovery (tx.chainId.or chain) odd, tx.signature.r, tx.signature.s⟩ ∧
          ((e.toTransaction caller).signature = tx.signature ↔ tx.chainId = none ∨ tx.chainId = chain)) := by
  refine ⟨exists_ofTransaction_legacy_iff hkind, fun e he => ?_⟩
  obtain ⟨chain, odd, price, hv, -, rfl⟩ := (ofTransaction_legacy_iff hkind).1 he
  -- two chains have no recovery number in common, so the signature is the one that was told only with the chain of `v`
  have hkept (told : Option Nat) :
      (⟨recovery told odd, tx.signature.r, tx.signature.s⟩ : TxSignature) = tx.signature ↔ told = chain := by
    constructor
    · intro hs
      have htold := ofRecovery?_eq_some_iff.2 (congrArg TxSignature.v hs)
      exact (Prod.mk.inj (Option.some.inj (htold.symm.trans hv))).1
    · rintro rfl
      rw [recovery_of_ofRecovery? hv]
  refine ⟨chain, odd, (recovery_of_ofRecovery? hv).symm, fun htold => ?_, fun hfits => ?_⟩
  · have hchain := or_eq_right_iff.2 htold
    exact ⟨hchain, (hkept _).2 hchain⟩
  · exact ⟨(ofTransaction_toTransaction hfits caller).1, rfl, (hkept _).trans or_eq_right_iff⟩

/-- A transaction that tells its chain in both places has an envelope and keeps its signature. -/
theorem ofTransaction_keepsRecovery_sameChain :
    let tx : Transaction :=
      { hash := .ofNat 1, kind := .legacy, chainId := some 56, gasPrice := some 3000000000, caller := .zero, nonce := 7,
        gas := 210000, value := 5, signature := ⟨148, 11, 13⟩ }
    tx.kind = .legacy ∧ ∃ e, ofTransaction tx = .ok e ∧ (e.toTransaction .zero).chainId = some 56 ∧
      (e.toTransaction .zero).signature = ⟨148, 11, 13⟩ := by
  intro tx
  have hkind : tx.kind = .legacy := rfl
  obtain ⟨hok, hkeeps⟩ := ofTransaction_keepsRecovery hkind .zero
  obtain ⟨e, he⟩ := hok.2 ⟨by decide, by decide⟩
  obtain ⟨chain, odd, hv, hsame, -⟩ := hkeeps e he
  -- 148 is the number of chain 56 and odd parity
  have hnumber : ofRecovery? tx.signature.v = some (some 56, true) := ofRecovery?_recovery (some 56) true
  rw [hv, ofRecovery?_recovery] at hnumber
  obtain ⟨rfl, -⟩ := Prod.mk.inj (Option.some.inj hnumber)
  exact ⟨hkind, e, he, hsame (.inr rfl)⟩

end Envelope

namespace PendingTx

open Envelope

/-- A transaction that was signed for no chain. -/
def unprotectedVictim : Envelope :=
  legacy none 3000000000
    ⟨7, 210000, some (.ofNat 0x10ed43c718714eb63d5aa57b78b54704e256024e), 10 ^ 17, [0x7f, 0xf3, 0x6a, 0xb5]⟩
    ⟨false, 0x2aaccf6361f768cc8f0afbe7f4a70f1a3b1a859f84b9171402a4ff501dc88ae5,
      0x332bac55aa349bb8bcec04e6064b045935a91a1ca9b1332e92835d459c23cfd3⟩

/-- What a node tells of `unprotectedVictim`, and the chain on which it waits. -/
def unprotectedVictimContents : Json :=
  .obj [("chainId", .str "0x38"), ("type", .str "0x0"), ("from", .str "0x2c7536e3605d9c16a7a3d7b1898e529396a65c23"),
    ("to", .str "0x10ed43c718714eb63d5aa57b78b54704e256024e"), ("value", .str "0x16345785d8a0000"),
    ("input", .str "0x7ff36ab5"), ("nonce", .str "0x7"), ("gas", .str "0x33450"), ("gasPrice", .str "0xb2d05e00"),
    ("v", .str "0x1b"), ("r", .str "0x2aaccf6361f768cc8f0afbe7f4a70f1a3b1a859f84b9171402a4ff501dc88ae5"),
    ("s", .str "0x332bac55aa349bb8bcec04e6064b045935a91a1ca9b1332e92835d459c23cfd3")]

/-- The announcement of `unprotectedVictim`. -/
def unprotectedVictimAnnounced : PendingTx :=
  { hash := .ofNat 0xa442a2f7940058ce1976f9a0ae3f95bdf8569429419b0f474bb7dec0ae62c766, chainId := some 56,
    type := some 0, sender := .ofNat 0x2c7536e3605d9c16a7a3d7b1898e529396a65c23,
    receiver := some (.ofNat 0x10ed43c718714eb63d5aa57b78b54704e256024e), value := 10 ^ 17,
    input := [0x7f, 0xf3, 0x6a, 0xb5], nonce := 7, gas := 210000, gasPrice := some 3000000000,
    signature := ⟨27, 0x2aaccf6361f768cc8f0afbe7f4a70f1a3b1a859f84b9171402a4ff501dc88ae5,
      0x332bac55aa349bb8bcec04e6064b045935a91a1ca9b1332e92835d459c23cfd3⟩ }

/-- **A victim that was signed for no chain is bundled as one of the chain that is told.** It is announced with the
fields and the signature of its envelope, with 27 as `v`; it is rebuilt without a failure, and as another envelope, with
147 as `v`. -/
theorem unprotectedVictim_rebound :
    ofContents? unprotectedVictimAnnounced.hash unprotectedVictimContents = some unprotectedVictimAnnounced ∧
      unprotectedVictimAnnounced.signature = (unprotectedVictim.toTransaction .zero).signature ∧
      ∃ t e, unprotectedVictimAnnounced.toTransaction? = some t ∧ t.kind = .legacy ∧ ofTransaction t = .ok e ∧
        t.signature.v = 27 ∧ (e.toTransaction t.caller).signature.v = 147 ∧ e ≠ unprotectedVictim := by
  refine ⟨by decide +kernel, rfl, _,
    legacy (some 56) 3000000000 unprotectedVictimAnnounced.call
      ⟨false, unprotectedVictimAnnounced.signature.r, unprotectedVictimAnnounced.signature.s⟩,
    rfl, rfl, rfl, rfl, rfl, ?_⟩
  decide

end PendingTx
end Searcher

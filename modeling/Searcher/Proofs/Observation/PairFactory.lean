/-
# The exchange that a pair is thought to stand on

A pair may be thought to stand on any exchange of pairs; it is put on that of the factory it names, if this is known.
What is asked of the pair itself is the same for all of them. Only the fee that a factory tells is asked of the
factories of the exchange that the pair is thought to stand on, and looked up under the factory that the pair names. So
the thought does not matter to a pair whose factory tells no fees, and a pair whose factory does is loaded on the
factory's own exchange and on no other.
-/

import Searcher.Proofs.Observation.Loading

namespace Searcher

variable {chain : Chain} {block : Option Nat} {σ : Type} {reader : ChainReader σ}
variable {o : Observed} {f : Factory} {pair : Address} {d d₁ d₂ : Exchange}

/-- A factory tells fees pair by pair, over some base, or not at all. -/
theorem Pair.tellsFees_iff : tellsFees f ↔ ∃ base, f.fee = .factory base := by
  cases hf : f.fee <;> simp [tellsFees, hf]

/-- A pair is put on the exchange of the known factory that it names. -/
theorem PoolSpec.exchangeFrom_of_factory (hf : f ∈ Factory.all) (hpairs : f.exchange.family = .constantProduct)
    (hd : d.family = .constantProduct) (ho : o.address? pair .factory = some f.address) :
    exchangeFrom ⟨pair, d⟩ o = f.exchange := by
  have hthena {e : Exchange} (h : e.family = .constantProduct) : e ≠ .thenaFusion := by
    rintro rfl
    cases h
  have halike : asksAlike f.exchange d :=
    asksAlike_iff.2 ⟨hpairs.trans hd.symm, iff_of_false (hthena hpairs) (hthena hd)⟩
  simp only [exchangeFrom, ho, Option.bind_some, Factory.atAddress?_address hf, if_pos halike]

/-- A pair whose factory tells fees has no fee unless one was observed of this factory. -/
theorem Pair.fee?_eq_none (hf : f ∈ Factory.all) (htells : tellsFees f)
    (ho : o.address? pair .factory = some f.address) (hnone : o.get? ⟨f.address, .pairFees⟩ = none) (d : Exchange) :
    fee? o pair d = none := by
  obtain ⟨base, hbase⟩ := tellsFees_iff.1 htells
  have hcount : o.count? f.address .pairFees = none := by
    rw [Observed.count?, Observed.word?, Observed.bytes?, hnone]
    rfl
  simp only [fee?, ho, feeSource, Factory.feeSource_address hf, hbase, bind, Option.bind_some, hcount, Option.bind_none]

/-- A pair without a fee is not put together. -/
theorem Pair.state?_eq_none (h : fee? o pair d = none) : state? o pair d = none := by
  unfold state?
  rw [h]
  rcases o.words? pair .reserves 3 with _ | words
  · rfl
  · simp only [bind, Option.bind_some, Option.bind_none]
    split <;> rfl

/-- Nor is it as a pool of any exchange whose pools are pairs, if it has no fee on any exchange. -/
theorem PoolSpec.assemble?_eq_none (hd : d.family = .constantProduct) (h : ∀ e, Pair.fee? o pair e = none)
    (block timestamp : Nat) : assemble? ⟨pair, d⟩ o block timestamp = none := by
  have hfamily := (family_exchangeFrom ⟨pair, d⟩ o).trans hd
  have hcontents : contents? o pair (exchangeFrom ⟨pair, d⟩ o) block timestamp = none := by
    unfold contents?
    rw [hfamily]
    simp only [Pair.state?_eq_none (h _), bind, Option.bind_none, Option.bind_fun_none]
  simp only [assemble?, hcontents, bind, Option.bind_none]

/-- The own questions of a pool that is a pair are those of the pair. -/
theorem PoolSpec.ownQuestions_pair (pair : Address) (hd : d.family = .constantProduct) :
    ownQuestions ⟨pair, d⟩ = Pair.ownQuestions pair := by
  simp only [ownQuestions, hd]

/-- What is observed puts together the same pool on two exchanges, if it names a known factory of pairs. -/
theorem PoolSpec.assemble?_congr_exchange (hf : f ∈ Factory.all) (hpairs : f.exchange.family = .constantProduct)
    (hd₁ : d₁.family = .constantProduct) (hd₂ : d₂.family = .constantProduct)
    (ho : o.address? pair .factory = some f.address) (block timestamp : Nat) :
    assemble? ⟨pair, d₁⟩ o block timestamp = assemble? ⟨pair, d₂⟩ o block timestamp := by
  simp only [assemble?, exchangeFrom_of_factory hf hpairs hd₁ ho, exchangeFrom_of_factory hf hpairs hd₂ ho]

namespace Chain

/-- A pair is observed to name its factory, on whatever exchange of pairs it is loaded. -/
theorem address?_observed_pair (hpair : chain.factory? pair = some f.address) (hd : d.family = .constantProduct) :
    (chain.observed [⟨pair, d⟩]).address? pair .factory = some f.address :=
  (address?_observed_factory ⟨pair, d⟩ (List.mem_singleton.2 rfl) hd).trans hpair

/-- The own questions of the pair are among what is asked. -/
theorem ownQuestions_subset_pair (hd : d.family = .constantProduct) : Pair.ownQuestions pair ⊆ asked [⟨pair, d⟩] :=
  PoolSpec.ownQuestions_pair pair hd ▸ ownQuestions_subset (List.mem_singleton.2 rfl)

/-- The exchange that a pair is thought to stand on does not matter if its factory tells no fees. -/
theorem load_eq_of_not_tellsFees (hf : f ∈ Factory.all) (hpairs : f.exchange.family = .constantProduct)
    (hpair : chain.factory? pair = some f.address) (hd₁ : d₁.family = .constantProduct)
    (hd₂ : d₂.family = .constantProduct) (hfee : ¬ Pair.tellsFees f) :
    chain.load block [⟨pair, d₁⟩] = chain.load block [⟨pair, d₂⟩] := by
  have hagree : Observed.Agree (chain.observed [⟨pair, d₁⟩]) (chain.observed [⟨pair, d₂⟩]) (Pair.ownQuestions pair) :=
    agree_observed chain (Pair.ownQuestions_plain pair) (ownQuestions_subset_pair hd₁) (ownQuestions_subset_pair hd₂)
  have hnofee : Observed.AgreeOnFee (chain.observed [⟨pair, d₁⟩]) (chain.observed [⟨pair, d₂⟩]) pair := by
    intro g base hg hbase
    obtain rfl := Option.some.inj ((address?_observed_pair hpair hd₁).symm.trans hg)
    exact absurd (Pair.tellsFees_iff.2 ⟨base, Factory.feeSource_address hf ▸ hbase⟩) hfee
  have hsame (block timestamp : Nat) : PoolSpec.assemble? ⟨pair, d₁⟩ (chain.observed [⟨pair, d₁⟩]) block timestamp =
      PoolSpec.assemble? ⟨pair, d₂⟩ (chain.observed [⟨pair, d₂⟩]) block timestamp :=
    calc PoolSpec.assemble? ⟨pair, d₁⟩ (chain.observed [⟨pair, d₁⟩]) block timestamp
        = PoolSpec.assemble? ⟨pair, d₁⟩ (chain.observed [⟨pair, d₂⟩]) block timestamp :=
          PoolSpec.assemble?_congr (PoolSpec.ownQuestions_pair pair hd₁ ▸ hagree) (fun _ => hnofee) block timestamp
      _ = PoolSpec.assemble? ⟨pair, d₂⟩ (chain.observed [⟨pair, d₂⟩]) block timestamp :=
          PoolSpec.assemble?_congr_exchange hf hpairs hd₁ hd₂ (address?_observed_pair hpair hd₂) block timestamp
  simp only [load, List.filterMap_cons, List.filterMap_nil, hsame]

/-- A factory is asked for no fee because of a pair that is thought to stand on another exchange. -/
theorem get?_observed_pairFees_eq_none (hf : f ∈ Factory.all) (hne : d ≠ f.exchange) :
    (chain.observed [⟨pair, d⟩]).get? ⟨f.address, .pairFees⟩ = none := by
  refine (askedFor_self ⟨pair, d⟩ f.address).get?_observed_eq_none fun q hq hkey => hne ?_
  obtain ⟨g, hg, hexchange, rfl⟩ := PoolSpec.mem_feeQuestions hq
  have haddress : g.address = f.address := congrArg Subject.contract hkey
  obtain rfl : g = f :=
    Option.some.inj ((Factory.atAddress?_address hg).symm.trans (haddress ▸ Factory.atAddress?_address hf))
  exact hexchange.symm

/-- On another exchange than its factory's, a pair is not loaded if the factory tells fees. -/
theorem load_eq_nil (hf : f ∈ Factory.all) (hpair : chain.factory? pair = some f.address)
    (hd : d.family = .constantProduct) (hfee : Pair.tellsFees f) (hne : d ≠ f.exchange) :
    chain.load block [⟨pair, d⟩] = [] := by
  have hnone := Pair.fee?_eq_none hf hfee (address?_observed_pair hpair hd) (get?_observed_pairFees_eq_none hf hne)
  simp only [load, List.filterMap_cons, List.filterMap_nil, PoolSpec.assemble?_eq_none hd hnone]

end Chain

open Chain in
/-- **Where a pair is thought to stand matters for fees only.** Let a pair name a known factory of pairs. On two
exchanges of pairs it loads the same, without an error, unless the factory tells fees and one of the two is the
factory's exchange. If the factory tells fees, the pair is found incomplete on every exchange but the factory's. -/
theorem ChainReader.loadPools_pair (h : reader.node.Tells chain block) (hf : f ∈ Factory.all)
    (hpairs : f.exchange.family = .constantProduct) (hpair : chain.factory? pair = some f.address)
    (hd₁ : d₁.family = .constantProduct) (hd₂ : d₂.family = .constantProduct) :
    ((Pair.tellsFees f → (d₁ = f.exchange ↔ d₂ = f.exchange)) →
      ∃ pools, (∀ s, (reader.loadPools [⟨pair, d₁⟩] block s).1 = .ok pools) ∧
        ∀ s, (reader.loadPools [⟨pair, d₂⟩] block s).1 = .ok pools) ∧
    (Pair.tellsFees f → d₁ ≠ f.exchange → ∀ s, (reader.loadPools [⟨pair, d₁⟩] block s).1 = .ok []) := by
  constructor
  · intro hfees
    refine ⟨chain.load block [⟨pair, d₁⟩], fun s => loadPools_tells h _ s, fun s => ?_⟩
    suffices hload : chain.load block [⟨pair, d₁⟩] = chain.load block [⟨pair, d₂⟩] by rw [loadPools_tells h, hload]
    by_cases htells : Pair.tellsFees f
    · by_cases hown : d₁ = f.exchange
      · rw [hown, (hfees htells).1 hown]
      · rw [load_eq_nil hf hpair hd₁ htells hown,
          load_eq_nil hf hpair hd₂ htells fun h => hown ((hfees htells).2 h)]
    · exact load_eq_of_not_tellsFees hf hpairs hpair hd₁ hd₂ htells
  · intro htells hne s
    rw [loadPools_tells h, load_eq_nil hf hpair hd₁ htells hne]

/-- A pair of a factory with a fixed fee, thought to stand on two other exchanges. -/
theorem ChainReader.loadPools_pair_pancake :
    let reader := ChainReader.ofPairs Factory.pancakeswapV2.address
    (∃ pools, (∀ s, (reader.loadPools [⟨.ofNat 1, .uniswapV2⟩] none s).1 = .ok pools) ∧
      ∀ s, (reader.loadPools [⟨.ofNat 1, .mdex⟩] none s).1 = .ok pools) ∧
    (reader.loadPools [⟨.ofNat 1, .mdex⟩] none ()).1 = .ok [.ofPairs .pancakeswapV2 1 ⟨10000, 25⟩] := by
  intro reader
  have hpair : (Chain.pairsOf Factory.pancakeswapV2.address).factory? (.ofNat 1) =
      some Factory.pancakeswapV2.address := by decide +kernel
  have hmem : Factory.pancakeswapV2 ∈ Factory.all := by decide +kernel
  refine ⟨?_, by decide +kernel⟩
  exact (loadPools_pair (Node.ofChain_tells _ none) hmem rfl hpair rfl rfl).1 (by decide)

/-- **A pair of a factory that tells fees is loaded on the factory's exchange only.** Thought to stand on another one, a
pair of a known factory is not loaded. -/
theorem ChainReader.loadPools_pair_mdex :
    let reader := ChainReader.ofPairs Factory.mdex.address
    Factory.mdex ∈ Factory.all ∧ (Chain.pairsOf Factory.mdex.address).factory? (.ofNat 1) = some Factory.mdex.address ∧
      (reader.loadPools [⟨.ofNat 1, .mdex⟩] none ()).1 = .ok [.ofPairs .mdex 1 ⟨1000, 3⟩] ∧
      (reader.loadPools [⟨.ofNat 1, .uniswapV2⟩] none ()).1 = .ok [] := by
  decide +kernel

end Searcher

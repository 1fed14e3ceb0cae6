/-
# Loading many pools at once

All questions about all pools that are loaded go into one batch. Most of them call the function of their subject, so
that it does not matter which pool has them asked: what is observed of their subjects is what the chain tells
(`Chain.get?_observed`), in every batch they are part of. A pool is then the same whichever pools it is loaded with.

The fee that a factory tells of a pair is the exception. Its subject is the factory, so the pair that is asked last sets
the fee of all. A list of pools is loaded at once as it is one by one if no pool has the factory of another one asked
for a fee.
-/

import Mathlib.Data.List.Basic
import Searcher.Proofs.Node.Batch
import Searcher.Proofs.Observation.Agreement

namespace Searcher

variable {chain : Chain} {block : Option Nat} {spec : PoolSpec} {specs specs' : List PoolSpec} {q : Question}

/-- The factories have addresses of their own. -/
theorem Factory.atAddress?_address {f : Factory} (h : f ∈ all) : atAddress? f.address = some f := by
  have htable : ∀ f ∈ all, atAddress? f.address = some f := by decide +kernel
  exact htable f h

/-- The fee of a factory is told in the way that the table names for it. -/
theorem Factory.feeSource_address {f : Factory} (h : f ∈ all) : feeSource f.address = f.fee := by
  rw [feeSource, atAddress?_address h]
  rfl

/-- What a factory is asked about a pair. -/
theorem PoolSpec.mem_feeQuestions (h : q ∈ spec.feeQuestions) : ∃ f ∈ Factory.all, f.exchange = spec.exchange ∧
    q = .ask f.address .pairFees "getPairFees(address)" [spec.pool.toNat] := by
  unfold feeQuestions at h
  split at h
  · obtain ⟨f, hf, rfl⟩ := List.mem_map.1 h
    obtain ⟨hmem, hexchange⟩ := List.mem_filter.1 hf
    exact ⟨f, hmem, (by simpa using hexchange : f.exchange = spec.exchange ∧ _).1, rfl⟩
  · cases h

namespace Chain

/-- What is asked while pools are loaded. -/
def asked (specs : List PoolSpec) : List Question := ChainReader.blockQuestions ++ specs.flatMap PoolSpec.questions

/-- What is observed of a chain while pools are loaded. -/
def observed (chain : Chain) (specs : List PoolSpec) : Observed := .ofChain chain (asked specs)

/-- The number of the block that the chain is at; the block that is asked for, if the chain does not tell. -/
def number (chain : Chain) (block : Option Nat) : Nat :=
  (((chain.observed []).count? multicall .blockNumber).or block).getD 0

/-- The time of the block that the chain is at, zero if the chain does not tell. -/
def timestamp (chain : Chain) : Nat := ((chain.observed []).count? multicall .timestamp).getD 0

/-- The pools that are loaded from a chain. -/
def load (chain : Chain) (block : Option Nat) (specs : List PoolSpec) : List Pool :=
  specs.filterMap (·.assemble? (chain.observed specs) (chain.number block) chain.timestamp)

/-- The factory that a pair names. -/
def factory? (chain : Chain) (pair : Address) : Option Address :=
  ((chain (Question.ask pair .factory "factory()").read).bind Abi.word?).map Abi.toAddress

/-- The factory that pair `b` names is asked for a fee because of pool `a`. -/
def Disturbs (chain : Chain) (a b : PoolSpec) : Prop :=
  b.exchange.family = .constantProduct ∧
    ∃ q ∈ a.questions, q.key.field = .pairFees ∧ chain.factory? b.pool = some q.key.contract

instance (chain : Chain) (a b : PoolSpec) : Decidable (chain.Disturbs a b) :=
  inferInstanceAs (Decidable (_ ∧ _))

/-- Everything that is asked is plain, or is asked of a factory for the fee of some pair. -/
theorem plain_or_mem_feeQuestions (h : q ∈ asked specs) : q.Plain ∨ ∃ spec ∈ specs, q ∈ spec.feeQuestions := by
  rcases List.mem_append.1 h with h | h
  · exact .inl (ChainReader.blockQuestions_plain q h)
  · obtain ⟨spec, hspec, h⟩ := List.mem_flatMap.1 h
    rw [PoolSpec.questions_eq] at h
    rcases List.mem_append.1 h with h | h
    · exact .inl (spec.ownQuestions_plain q h)
    · exact .inr ⟨spec, hspec, h⟩

/-- The block is asked for in every batch. -/
theorem blockQuestions_subset (specs : List PoolSpec) : ChainReader.blockQuestions ⊆ asked specs :=
  List.subset_append_left _ _

/-- So is all that a pool of the batch is asked. -/
theorem questions_subset (h : spec ∈ specs) : spec.questions ⊆ asked specs :=
  fun _ hq => List.mem_append_right _ (List.mem_flatMap.2 ⟨spec, h, hq⟩)

/-- So are its own questions. -/
theorem ownQuestions_subset (h : spec ∈ specs) : spec.ownQuestions ⊆ asked specs :=
  fun _ hq => questions_subset h (spec.questions_eq ▸ List.mem_append_left _ hq)

/-- So is what factories are asked about it. -/
theorem feeQuestions_subset (h : spec ∈ specs) : spec.feeQuestions ⊆ asked specs :=
  fun _ hq => questions_subset h (spec.questions_eq ▸ List.mem_append_right _ hq)

/-- **A plain question is answered by the chain.** Whatever is asked besides, the subject of a plain question is
observed as the chain has it. -/
theorem get?_observed (hq : q ∈ asked specs) (h : q.Plain) : (chain.observed specs).get? q.key = chain q.read := by
  refine Answers.get?_ofChain hq fun q' hq' hkey => ?_
  rcases plain_or_mem_feeQuestions hq' with h' | ⟨spec, -, hfee⟩
  · exact h'.read_eq h hkey
  · obtain ⟨f, -, -, rfl⟩ := PoolSpec.mem_feeQuestions hfee
    exact absurd (congrArg Subject.field hkey).symm h.field_ne_pairFees

/-- Of plain questions two batches observe the same, if both ask them. -/
theorem agree_observed (chain : Chain) {qs : List Question} (hplain : ∀ q ∈ qs, q.Plain) (h : qs ⊆ asked specs)
    (h' : qs ⊆ asked specs') : Observed.Agree (chain.observed specs) (chain.observed specs') qs :=
  fun q hq => (get?_observed (h hq) (hplain q hq)).trans (get?_observed (h' hq) (hplain q hq)).symm

/-- A pair is observed to name the factory that it names on the chain. -/
theorem address?_observed_factory (spec : PoolSpec) (hspec : spec ∈ specs)
    (hfamily : spec.exchange.family = .constantProduct) :
    (chain.observed specs).address? spec.pool .factory = chain.factory? spec.pool := by
  have hq : Question.ask spec.pool .factory "factory()" ∈ spec.ownQuestions := by
    simp [PoolSpec.ownQuestions, hfamily, Pair.ownQuestions]
  have htold : (chain.observed specs).bytes? spec.pool .factory =
      chain (Question.ask spec.pool .factory "factory()").read :=
    get?_observed (ownQuestions_subset hspec hq) (spec.ownQuestions_plain _ hq)
  rw [Observed.address?, Observed.word?, htold, factory?]

/-- A pool is loaded at the block of the chain. -/
theorem count?_observed (specs : List PoolSpec) {field : Field} (h : field = .blockNumber ∨ field = .timestamp) :
    (chain.observed specs).count? multicall field = (chain.observed []).count? multicall field := by
  have hagree := agree_observed chain ChainReader.blockQuestions_plain (blockQuestions_subset specs)
    (blockQuestions_subset [])
  simp only [ChainReader.blockQuestions, Observed.agree_ask_cons, Observed.agree_nil, and_true] at hagree
  rcases h with rfl | rfl
  · simp only [Observed.count?, Observed.word?, hagree.2]
  · simp only [Observed.count?, Observed.word?, hagree.1]

/-- **What is loaded is a function of the chain.** Through a node that tells a chain, pools are loaded without an error,
and it matters neither how many reads are put into one question nor in which state the node is. -/
theorem loadPools_tells {σ : Type} {reader : ChainReader σ} (h : reader.node.Tells chain block)
    (specs : List PoolSpec) (s : σ) : (reader.loadPools specs block s).1 = .ok (chain.load block specs) := by
  have hrun := Batch.run_tells h reader.partSize (asked specs) s
  unfold ChainReader.loadPools ChainReader.observe
  rw [← asked, Reading.bind_apply_of_ok hrun]
  change Except.ok (specs.filterMap (·.assemble? (chain.observed specs)
    ((((chain.observed specs).count? multicall .blockNumber).or block).getD 0)
    (((chain.observed specs).count? multicall .timestamp).getD 0))) = _
  rw [count?_observed specs (.inl rfl), count?_observed specs (.inr rfl)]
  rfl

/-- Because of some pools, a factory is asked for the fee of one of them at most. -/
def AskedFor (specs : List PoolSpec) (f : Address) (spec : PoolSpec) : Prop :=
  ∀ a ∈ specs, ∀ q ∈ a.feeQuestions, q.key.contract = f → a = spec

variable {f : Address}

/-- A batch of one pool asks no factory for another pool. -/
theorem askedFor_self (spec : PoolSpec) (f : Address) : AskedFor [spec] f spec :=
  fun _ ha _ _ _ => List.mem_singleton.1 ha

/-- A factory that a pair names is asked for no fee but its own, if no other pool disturbs the pair. -/
theorem askedFor_of_not_disturbs (hfamily : spec.exchange.family = .constantProduct)
    (hf : chain.factory? spec.pool = some f) (h : ∀ a ∈ specs, a ≠ spec → ¬ chain.Disturbs a spec) :
    AskedFor specs f spec := by
  intro a ha q hq hcontract
  by_contra hne
  obtain ⟨f', -, -, rfl⟩ := PoolSpec.mem_feeQuestions hq
  refine h a ha hne ⟨hfamily, _, ?_, rfl, hf.trans (congrArg some hcontract.symm)⟩
  rw [PoolSpec.questions_eq]
  exact List.mem_append_right _ hq

/-- Where a factory is asked for one pool only, every question for its fee is one of that pool. -/
theorem AskedFor.mem_feeQuestions (h : AskedFor specs f spec) (hq : q ∈ asked specs) (hkey : q.key = ⟨f, .pairFees⟩) :
    q ∈ spec.feeQuestions := by
  rcases plain_or_mem_feeQuestions hq with hplain | ⟨a, ha, hfee⟩
  · exact absurd (congrArg Subject.field hkey) hplain.field_ne_pairFees
  · exact h a ha q hfee (congrArg Subject.contract hkey) ▸ hfee

/-- So what is observed of its fee is what the chain tells of that pool. -/
theorem AskedFor.get?_observed (h : AskedFor specs f spec) (hspec : spec ∈ specs) (hq : q ∈ spec.feeQuestions)
    (hkey : q.key = ⟨f, .pairFees⟩) : (chain.observed specs).get? ⟨f, .pairFees⟩ = chain q.read := by
  rw [← hkey]
  refine Answers.get?_ofChain (feeQuestions_subset hspec hq) fun q' hq' hsame => ?_
  -- the reads of one pool for its fee differ in the factory only
  obtain ⟨g, -, -, rfl⟩ := PoolSpec.mem_feeQuestions hq
  obtain ⟨g', -, -, rfl⟩ := PoolSpec.mem_feeQuestions (h.mem_feeQuestions hq' (hsame.trans hkey))
  have hg : g'.address = g.address := congrArg Subject.contract hsame
  rw [hg]

/-- And nothing is observed of its fee if the pool has none of its questions put to it. -/
theorem AskedFor.get?_observed_eq_none (h : AskedFor specs f spec)
    (hnone : ∀ q ∈ spec.feeQuestions, q.key ≠ ⟨f, .pairFees⟩) :
    (chain.observed specs).get? ⟨f, .pairFees⟩ = none :=
  Answers.get?_ofChain_eq_none fun q hq hkey => hnone q (h.mem_feeQuestions hq hkey) hkey

/-- What is observed of a factory that is asked for the fee of one pool does not depend on the other pools. -/
theorem AskedFor.get?_observed_congr (h : AskedFor specs f spec) (hspec : spec ∈ specs) :
    (chain.observed specs).get? ⟨f, .pairFees⟩ = (chain.observed [spec]).get? ⟨f, .pairFees⟩ := by
  have hself := askedFor_self spec f
  by_cases hasked : ∃ q ∈ spec.feeQuestions, q.key = ⟨f, .pairFees⟩
  · obtain ⟨q, hq, hkey⟩ := hasked
    rw [h.get?_observed hspec hq hkey, hself.get?_observed (List.mem_singleton.2 rfl) hq hkey]
  · have hnone : ∀ q ∈ spec.feeQuestions, q.key ≠ ⟨f, .pairFees⟩ := fun q hq hkey => hasked ⟨q, hq, hkey⟩
    rw [h.get?_observed_eq_none hnone, hself.get?_observed_eq_none hnone]

/-- A pool that no other one disturbs is the same in a batch and alone. -/
theorem assemble?_observed (hspec : spec ∈ specs) (h : ∀ a ∈ specs, a ≠ spec → ¬ chain.Disturbs a spec)
    (block timestamp : Nat) :
    spec.assemble? (chain.observed specs) block timestamp = spec.assemble? (chain.observed [spec]) block timestamp := by
  have hown := agree_observed chain spec.ownQuestions_plain (ownQuestions_subset hspec)
    (ownQuestions_subset (List.mem_singleton.2 rfl))
  refine PoolSpec.assemble?_congr hown (fun hfamily f base hf _ => ?_) block timestamp
  rw [address?_observed_factory spec hspec hfamily] at hf
  exact (askedFor_of_not_disturbs hfamily hf h).get?_observed_congr hspec

/-- **Pools are loaded together as one by one**, if none of them disturbs another. -/
theorem load_eq_flatMap (block : Option Nat) (h : ∀ a ∈ specs, ∀ b ∈ specs, a ≠ b → ¬ chain.Disturbs a b) :
    chain.load block specs = specs.flatMap fun spec => chain.load block [spec] := by
  rw [load, List.filterMap_eq_flatMap_toList]
  refine List.flatMap_congr fun spec hspec => ?_
  rw [assemble?_observed hspec fun a ha => h a ha spec hspec, load, List.filterMap_eq_flatMap_toList,
    List.flatMap_singleton]

end Chain

open Chain

variable {σ : Type} {reader : ChainReader σ}

/-- **Pools are loaded at once as they are one by one.** Let a node tell a chain, and let no pool of a list have the
factory of another one asked for a fee. Then each pool is loaded alone, or found incomplete, without an error, and
loading the list gives what loading them alone gives, in order, for every size of the parts of a batch. -/
theorem ChainReader.loadPools_eq_flatMap (h : reader.node.Tells chain block)
    (halone : ∀ a ∈ specs, ∀ b ∈ specs, a ≠ b → ¬ chain.Disturbs a b) :
    ∃ pools : PoolSpec → List Pool, (∀ spec s, (reader.loadPools [spec] block s).1 = .ok (pools spec)) ∧
      ∀ s, (reader.loadPools specs block s).1 = .ok (specs.flatMap pools) := by
  refine ⟨fun spec => chain.load block [spec], fun spec s => loadPools_tells h [spec] s, fun s => ?_⟩
  rw [loadPools_tells h, load_eq_flatMap block halone]

/-- A chain of pairs that all name one factory. It tells a fee of three for pair 1, and of five for all others. -/
def Chain.pairsOf (factory : Address) : Chain := fun r =>
  if r.target = factory then some (Abi.encode [.word (if r.data.getLast? = some 1 then 3 else 5)])
  else some (Abi.encode [.word factory.toNat, .word 1000, .word 2000])

/-- A reader of a chain of pairs. -/
def ChainReader.ofPairs (factory : Address) : ChainReader Unit := ⟨.ofChain (.pairsOf factory), 3⟩

/-- The factory of an exchange that takes a fixed fee on all pairs. -/
def Factory.pancakeswapV2 : Factory :=
  pairs .pancakeswapV2 0xcA143Ce32Fe78f1f7019d7d551a6402fC5350c73 (.fixed ⟨10000, 25⟩)

/-- The factory that tells fees. -/
def Factory.mdex : Factory := pairs .mdex 0x3CD1C46068dAEa5Ebb0d3f55F6915B10648062B8 (.factory 1000)

/-- A pair of `Chain.pairsOf` at a fee. -/
def Pool.ofPairs (f : Factory) (n : Nat) (fee : Fee) : Pool :=
  ⟨.ofNat n, f.exchange, [f.address, f.address],
    .constantProduct (Abi.toUnsigned 112 f.address.toNat) 1000 fee⟩

/-- Pairs of a factory with a fixed fee, one of them thought to stand elsewhere. -/
theorem ChainReader.loadPools_eq_flatMap_pancake :
    let specs : List PoolSpec := [⟨.ofNat 1, .mdex⟩, ⟨.ofNat 2, .pancakeswapV2⟩]
    let reader := ChainReader.ofPairs Factory.pancakeswapV2.address
    (∃ pools : PoolSpec → List Pool, (∀ spec s, (reader.loadPools [spec] none s).1 = .ok (pools spec)) ∧
      ∀ s, (reader.loadPools specs none s).1 = .ok (specs.flatMap pools)) ∧
    (reader.loadPools specs none ()).1 =
      .ok [.ofPairs .pancakeswapV2 1 ⟨10000, 25⟩, .ofPairs .pancakeswapV2 2 ⟨10000, 25⟩] := by
  intro specs reader
  exact ⟨loadPools_eq_flatMap (Node.ofChain_tells _ _) (by decide +kernel), by decide +kernel⟩

/-- **Two pairs of a factory that tells fees get one fee.** Alone they have fees of three and of five in a thousand; in
one batch, the pair that was asked last sets the fee of both. -/
theorem ChainReader.loadPools_crossTalk :
    let reader := ChainReader.ofPairs Factory.mdex.address
    (reader.loadPools [⟨.ofNat 1, .mdex⟩] none ()).1 = .ok [.ofPairs .mdex 1 ⟨1000, 3⟩] ∧
      (reader.loadPools [⟨.ofNat 2, .mdex⟩] none ()).1 = .ok [.ofPairs .mdex 2 ⟨1000, 5⟩] ∧
      (reader.loadPools [⟨.ofNat 1, .mdex⟩, ⟨.ofNat 2, .mdex⟩] none ()).1 =
        .ok [.ofPairs .mdex 1 ⟨1000, 5⟩, .ofPairs .mdex 2 ⟨1000, 5⟩] := by
  decide +kernel

end Searcher

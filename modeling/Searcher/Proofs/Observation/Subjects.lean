/-
# Subjects and the reads for them

Of two reads for one subject the later one counts, so it matters whether they are the same. For most subjects there is
one way to ask: a subject has a function (`Subject.function?`), and a question is *plain* if it calls the function of
its subject. All questions about a pool are plain (`PoolSpec.ownQuestions_plain`), whatever the exchange is and
whichever other contracts are asked, but for one: the fee of a pair that its factory tells. This is a value of the
factory, for which each pair is asked with itself as an argument (`PoolSpec.questions_eq`).
-/

import Searcher.Observation.Pools

namespace Searcher

/-- The function that a value is told by, with its arguments. There is none for values that are told pool by pool or
word by word. Known pools differ in how a balance and a price scale are asked for. -/
def Subject.function? (s : Subject) : Option (String × List Nat) :=
  match s.field with
  | .token 0 => some ("token0()", [])
  | .token 1 => some ("token1()", [])
  | .factory => some ("factory()", [])
  | .reserves => some ("getReserves()", [])
  | .swapFee => some ("swapFee()", [])
  | .slot0 => some ("slot0()", [])
  | .globalState => some ("globalState()", [])
  | .liquidity => some ("liquidity()", [])
  | .fee => some ("fee()", [])
  | .tickSpacing => some ("tickSpacing()", [])
  | .amp => some ("A()", [])
  | .balance i =>
    if (Curve.lookup s.contract).any (·.signedIndex) then some ("balances(int128)", [i])
    else some ("balances(uint256)", [i])
  | .coin i => some ("coins(uint256)", [i])
  | .offpegMultiplier => some ("offpeg_fee_multiplier()", [])
  | .exchangeRate => some ("exchangeRateStored()", [])
  | .supplyRate => some ("supplyRatePerBlock()", [])
  | .accrualBlock => some ("accrualBlockNumber()", [])
  | .pricePerShare => some ("getPricePerFullShare()", [])
  | .baseCachedAt => some ("base_cache_updated()", [])
  | .baseVirtualPrice => some ("base_virtual_price()", [])
  | .virtualPrice => some ("get_virtual_price()", [])
  | .totalSupply => some ("totalSupply()", [])
  | .balances => some ("get_balances()", [])
  | .storedRates => some ("stored_rates()", [])
  | .gamma => some ("gamma()", [])
  | .invariant => some ("D()", [])
  | .priceScale k =>
    if (Curve.lookup s.contract).any (·.kind = .crypto) then some ("price_scale()", [])
    else some ("price_scale(uint256)", [k])
  | .precisions => some ("precisions()", [])
  | .feeGamma => some ("fee_gamma()", [])
  | .midFee => some ("mid_fee()", [])
  | .outFee => some ("out_fee()", [])
  | .rampEnd => some ("future_A_gamma_time()", [])
  | .timestamp => some ("getCurrentBlockTimestamp()", [])
  | .blockNumber => some ("getBlockNumber()", [])
  | _ => none

/-- The read for a value by the function that it is told by. -/
def Subject.read? (s : Subject) : Option Read :=
  s.function?.map fun (signature, arguments) => (Question.ask s.contract s.field signature arguments).read

namespace Question

/-- The question calls the function of its subject. -/
def Plain (q : Question) : Prop := q.key.read? = some q.read

/-- Plain questions for one value call one function. -/
theorem Plain.read_eq {q q' : Question} (h : q.Plain) (h' : q'.Plain) (hkey : q.key = q'.key) : q.read = q'.read :=
  Option.some.inj (h.symm.trans (hkey ▸ h'))

/-- No plain question is for the fee of a pair: factories tell those pair by pair. -/
theorem Plain.field_ne_pairFees {q : Question} (h : q.Plain) : q.key.field ≠ .pairFees := by
  intro he
  simp [Plain, Subject.read?, Subject.function?, he] at h

/-- A question is plain if it makes the call that its subject is told by. -/
@[simp] theorem ask_plain_iff {contract : Address} {field : Field} {signature : String} {arguments : List Nat} :
    (ask contract field signature arguments).Plain ↔ (Subject.function? ⟨contract, field⟩).map
      (fun (signature, arguments) => (ask contract field signature arguments).read) =
        some (ask contract field signature arguments).read :=
  .rfl

end Question

/-- What a pair is asked is plain. -/
theorem Pair.ownQuestions_plain (pair : Address) : ∀ q ∈ Pair.ownQuestions pair, q.Plain := by
  simp [ownQuestions, Subject.function?]

/-- What a pool of concentrated liquidity is asked is plain. -/
theorem Concentrated.questions_plain (pool : Address) (exchange : Exchange) :
    ∀ q ∈ Concentrated.questions pool exchange, q.Plain := by
  unfold questions
  split <;> simp [Subject.function?]

namespace Curve

variable {info : Info}

/-- A known pool is looked up under its own address. -/
theorem lookup_self {pool : Address} (h : lookup pool = some info) : lookup info.address = some info := by
  obtain rfl : info.address = pool := by simpa using List.find?_some h
  exact h

/-- Only stableswap contracts take signed indices. -/
theorem not_signedIndex (h : lookup info.address = some info) (hk : info.kind.exchange ≠ .curveStableSwap) :
    info.signedIndex = false := by
  have htable : ∀ info ∈ pools, info.kind.exchange ≠ .curveStableSwap → info.signedIndex = false := by decide
  exact htable info (List.mem_of_find?_eq_some h) hk

/-- A balance is asked for in one way, since the table settles how an index is passed. -/
theorem balanceQuestion_plain (h : lookup info.address = some info) (i : Nat) : (balanceQuestion info i).Plain := by
  unfold balanceQuestion
  cases hs : info.signedIndex with
  | true => simp [Subject.function?, h, hs]
  | false => simp [Subject.function?, h, hs]

/-- So are all balances of a pool. -/
theorem balanceQuestions_plain (h : lookup info.address = some info) : ∀ q ∈ balanceQuestions info, q.Plain := by
  intro q hq
  obtain ⟨i, -, rfl⟩ := List.mem_map.1 hq
  exact balanceQuestion_plain h i

/-- What every Curve pool is asked is plain. -/
theorem baseQuestions_plain (h : lookup info.address = some info) : ∀ q ∈ baseQuestions info, q.Plain := by
  refine List.forall_mem_append.2 ⟨List.forall_mem_append.2 ⟨?_, balanceQuestions_plain h⟩, ?_⟩
  · simp [Subject.function?]
  · simp [Subject.function?]

/-- What the base pool of a metapool is asked is plain. -/
theorem basePoolQuestions_plain (info : Info) : ∀ q ∈ basePoolQuestions info, q.Plain := by
  unfold basePoolQuestions
  rcases hb : info.basePool.bind lookup with _ | base
  · simp
  · obtain ⟨pool, -, hbase⟩ := Option.bind_eq_some_iff.1 hb
    exact baseQuestions_plain (lookup_self hbase)

/-- What a lending coin is asked is plain. -/
theorem rateQuestions_plain (coin : Address) : ∀ q ∈ rateQuestions coin, q.Plain := by
  simp [rateQuestions, Subject.function?]

/-- What is asked of those members of a list that are of interest is plain, if it is for each member. -/
theorem plain_of_mem_flatMap_ite {α : Type} {xs : List α} {c : α → Bool} {f : α → List Question}
    (h : ∀ x, ∀ q ∈ f x, q.Plain) : ∀ q ∈ xs.flatMap fun x => if c x then f x else [], q.Plain := by
  intro q hq
  obtain ⟨x, -, hx⟩ := List.mem_flatMap.1 hq
  split at hx
  · exact h x q hx
  · cases hx

/-- What a scaling adds is plain. -/
theorem scalingQuestions_plain (info : Info) (scaling : Scaling) : ∀ q ∈ scalingQuestions info scaling, q.Plain := by
  cases scaling with
  | aave => simp [scalingQuestions, Subject.function?]
  | storedRates => exact plain_of_mem_flatMap_ite fun x => rateQuestions_plain x.1
  | lending => exact plain_of_mem_flatMap_ite fun x => rateQuestions_plain x.1
  | lendingPricePerShare =>
    exact plain_of_mem_flatMap_ite fun x => List.forall_mem_singleton.2 (by simp [Subject.function?])
  | baseVirtualPrice =>
    exact List.forall_mem_append.2 ⟨by simp [Subject.function?], basePoolQuestions_plain info⟩
  | balances => simp [scalingQuestions]
  | rates => simp [scalingQuestions]
  | rateMultipliers => simp [scalingQuestions]

/-- What volatile pools are asked is plain. Their indices are unsigned (`not_signedIndex`). -/
theorem cryptoQuestions_plain (h : lookup info.address = some info) (hk : info.kind.exchange ≠ .curveStableSwap) :
    ∀ q ∈ cryptoQuestions info, q.Plain := by
  refine List.forall_mem_append.2 ⟨?_, ?_⟩
  · simp [Subject.function?]
  · simp [Subject.function?, h, not_signedIndex h hk]

/-- Price scales of three coins are asked for by index. A pool of two has one and takes no index, hence `hk`. -/
theorem priceScaleQuestions_plain (h : lookup info.address = some info) (hk : info.kind ≠ .crypto) :
    ∀ q ∈ priceScaleQuestions info.address, q.Plain := by
  simp [priceScaleQuestions, Subject.function?, h, hk]

/-- What a kind adds is plain. -/
theorem kindQuestions_plain (h : lookup info.address = some info) : ∀ q ∈ kindQuestions info, q.Plain := by
  unfold kindQuestions
  cases hk : info.kind with
  | stable scaling =>
    exact List.forall_mem_append.2 ⟨balanceQuestions_plain h, scalingQuestions_plain info scaling⟩
  | stableNg =>
    refine List.forall_mem_append.2 ⟨?_, basePoolQuestions_plain info⟩
    simp [Subject.function?]
  | crypto =>
    refine List.forall_mem_append.2 ⟨cryptoQuestions_plain h (by simp [hk, Kind.exchange]), ?_⟩
    simp [Subject.function?, h, hk]
  | triCrypto =>
    exact List.forall_mem_append.2
      ⟨cryptoQuestions_plain h (by simp [hk, Kind.exchange]), priceScaleQuestions_plain h (by simp [hk])⟩
  | triCryptoNg =>
    refine List.forall_mem_append.2 ⟨List.forall_mem_append.2
      ⟨cryptoQuestions_plain h (by simp [hk, Kind.exchange]), priceScaleQuestions_plain h (by simp [hk])⟩, ?_⟩
    simp [Subject.function?]

/-- The coins of a pool that has to tell them are asked for plainly. -/
theorem coinQuestions_plain (info : Info) : ∀ q ∈ coinQuestions info, q.Plain := by
  unfold coinQuestions
  split <;> simp [Subject.function?]

/-- **All that a Curve pool is asked is plain.**. -/
theorem questions_plain (h : lookup info.address = some info) : ∀ q ∈ questions info, q.Plain := by
  refine List.forall_mem_append.2 ⟨List.forall_mem_append.2 ⟨?_, coinQuestions_plain info⟩, kindQuestions_plain h⟩
  simp [Subject.function?]

end Curve

namespace PoolSpec

/-- What is asked about a pool, without what factories are asked for its fee. -/
def ownQuestions (spec : PoolSpec) : List Question :=
  match spec.exchange.family with
  | .constantProduct => Pair.ownQuestions spec.pool
  | .concentrated => Concentrated.questions spec.pool spec.exchange
  | _ => ((Curve.lookup spec.pool).map Curve.questions).getD []

/-- What factories are asked about a pool. -/
def feeQuestions (spec : PoolSpec) : List Question :=
  if spec.exchange.family = .constantProduct then Pair.factoryQuestions spec.pool spec.exchange else []

/-- What is asked about a pool is its own questions first, then those to factories. -/
theorem questions_eq (spec : PoolSpec) : spec.questions = spec.ownQuestions ++ spec.feeQuestions := by
  unfold questions ownQuestions feeQuestions
  cases hf : spec.exchange.family <;> simp [Pair.questions]

/-- **A pool is asked about in one way.** All questions about a pool but those for a fee that its factory tells are
plain. -/
theorem ownQuestions_plain (spec : PoolSpec) : ∀ q ∈ spec.ownQuestions, q.Plain := by
  have hcurve : ∀ q ∈ ((Curve.lookup spec.pool).map Curve.questions).getD [], q.Plain := by
    rcases hl : Curve.lookup spec.pool with _ | info
    · simp
    · exact Curve.questions_plain (Curve.lookup_self hl)
  unfold ownQuestions
  split
  · exact Pair.ownQuestions_plain spec.pool
  · exact Concentrated.questions_plain spec.pool spec.exchange
  · exact hcurve

end PoolSpec

/-- The block is asked for plainly. -/
theorem ChainReader.blockQuestions_plain : ∀ q ∈ blockQuestions, q.Plain := by
  simp [blockQuestions, Subject.function?]

end Searcher

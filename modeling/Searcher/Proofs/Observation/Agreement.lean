/-
# What a pool is put together from

A pool is put together from the answers to its own questions and to no others, with one exception: a pair whose factory
tells fees has the fee that was observed of this factory. So two observations that agree on the own questions of a pool
(`Observed.Agree`) and on that fee put together the same pool, or neither of them puts one together
(`PoolSpec.assemble?_congr`). Each decoder of an observation has its lemma, and the lemma of a pool is put together from
them as the pool is.
-/

import Searcher.Proofs.Observation.Subjects

namespace Searcher
namespace Observed

variable {o o' : Observed}

/-- Both observations tell the same of the subjects of some questions. -/
def Agree (o o' : Observed) (questions : List Question) : Prop := ∀ q ∈ questions, o.get? q.key = o'.get? q.key

/-- Both observations tell the same fee of the factory that a pair names, if fees are told by this factory. -/
def AgreeOnFee (o o' : Observed) (pair : Address) : Prop :=
  ∀ f base, o.address? pair .factory = some f → Factory.feeSource f = .factory base →
    o.bytes? f .pairFees = o'.bytes? f .pairFees

/-- Nothing is asked, so nothing is told differently. -/
@[simp] theorem agree_nil : Agree o o' [] := by simp [Agree]

/-- Observations agree on a row of questions if they do on the first and on the rest. -/
@[simp] theorem agree_ask_cons {contract : Address} {field : Field} {signature : String} {arguments : List Nat}
    {qs : List Question} : Agree o o' (.ask contract field signature arguments :: qs) ↔
      o.bytes? contract field = o'.bytes? contract field ∧ Agree o o' qs :=
  List.forall_mem_cons

/-- They agree on two rows of questions if they do on each. -/
@[simp] theorem agree_append {qs qs' : List Question} : Agree o o' (qs ++ qs') ↔ Agree o o' qs ∧ Agree o o' qs' :=
  List.forall_mem_append

/-- They agree on one question for each member of a list if they tell the same value for each. -/
@[simp] theorem agree_map_ask {α : Type} {contract : α → Address} {field : α → Field} {signature : α → String}
    {arguments : α → List Nat} {xs : List α} :
    Agree o o' (xs.map fun x => .ask (contract x) (field x) (signature x) (arguments x)) ↔
      ∀ x ∈ xs, o.bytes? (contract x) (field x) = o'.bytes? (contract x) (field x) :=
  List.forall_mem_map

/-- They agree on some questions for each member of a list if they do for each member. -/
@[simp] theorem agree_flatMap {α : Type} {f : α → List Question} {xs : List α} :
    Agree o o' (xs.flatMap f) ↔ ∀ x ∈ xs, Agree o o' (f x) := by
  simp only [Agree, List.mem_flatMap]
  exact ⟨fun h x hx q hq => h q ⟨x, hx, hq⟩, fun h q ⟨x, hx, hq⟩ => h x hx q hq⟩

end Observed

open Observed

variable {o o' : Observed}

/-- Members of a list that are decoded alike one by one are decoded alike. -/
theorem mapM_option_congr {α β : Type} {f g : α → Option β} {xs : List α} (h : ∀ x ∈ xs, f x = g x) :
    xs.mapM f = xs.mapM g := by
  induction xs with
  | nil => rfl
  | cons x xs ih =>
    rw [List.mapM_cons, List.mapM_cons, h x List.mem_cons_self, ih fun y hy => h y (List.mem_cons_of_mem x hy)]

namespace Pair

variable {pair : Address}

/-- The fee of a pair is known alike, if it is observed alike of the factory that tells it. -/
theorem fee?_congr (h : Agree o o' (ownQuestions pair)) (hfee : AgreeOnFee o o' pair) (exchange : Exchange) :
    fee? o pair exchange = fee? o' pair exchange := by
  simp only [ownQuestions, agree_ask_cons, agree_nil, and_true] at h
  obtain ⟨-, -, hfactory, -, hswap⟩ := h
  have haddress : o'.address? pair .factory = o.address? pair .factory := by simp only [address?, word?, hfactory]
  simp only [fee?, haddress]
  cases hs : feeSource exchange (o.address? pair .factory) with
  | fixed fee => rfl
  | pair base => simp only [word?, hswap]
  | factory base =>
    rcases hf : o.address? pair .factory with _ | f
    · rfl
    · rw [hf] at hs
      simp only [bind, Option.bind_some, count?, word?, hfee f base hf hs]

/-- A pair is put together from its own answers and the fee that its factory tells. -/
theorem state?_congr (h : Agree o o' (ownQuestions pair)) (hfee : AgreeOnFee o o' pair) (exchange : Exchange) :
    state? o pair exchange = state? o' pair exchange := by
  unfold state?
  rw [fee?_congr h hfee]
  simp only [ownQuestions, agree_ask_cons, agree_nil, and_true] at h
  obtain ⟨-, -, -, hreserves, -⟩ := h
  simp only [words?, hreserves]

end Pair

/-- A pool of concentrated liquidity is put together from its own answers. -/
theorem Concentrated.state?_congr {pool : Address} {exchange : Exchange}
    (h : Agree o o' (Concentrated.questions pool exchange)) : state? o pool exchange = state? o' pool exchange := by
  by_cases hx : exchange = .thenaFusion
  · simp only [questions, if_pos hx, List.cons_append, List.nil_append, agree_ask_cons, agree_nil, and_true] at h
    obtain ⟨-, -, -, hliquidity, hspacing, hglobal⟩ := h
    simp only [state?, position?, word?, words?, hliquidity, hspacing, hglobal, if_pos hx]
  · simp only [questions, if_neg hx, List.cons_append, List.nil_append, agree_ask_cons, agree_nil, and_true] at h
    obtain ⟨-, -, -, hliquidity, hspacing, hslot, hfee⟩ := h
    simp only [state?, position?, word?, words?, hliquidity, hspacing, hslot, hfee, if_neg hx]

namespace Curve

variable {info : Info}

/-- The balances of a Curve pool are those that its balance questions tell. -/
theorem balances?_congr (h : Agree o o' (balanceQuestions info)) : balances? o info = balances? o' info := by
  refine mapM_option_congr fun i hi => ?_
  have hi : o.bytes? info.address (.balance i) = o'.bytes? info.address (.balance i) := List.forall_mem_map.1 h i hi
  rw [word?, word?, hi]

/-- The base pool of a metapool is told by the questions about it, and is absent where the table names none. -/
theorem base?_congr (h : Agree o o' (basePoolQuestions info)) : base? o info = base? o' info := by
  unfold base?
  rcases hb : info.basePool with _ | pool
  · rfl
  rcases hl : lookup pool with _ | base
  · simp only [hl, bind, Option.bind]
  rw [basePoolQuestions, hb, Option.bind_some, hl] at h
  simp only [Option.map_some, Option.getD_some, baseQuestions, agree_append, agree_ask_cons, agree_nil, and_true,
    agree_map_ask, Option.mem_toList] at h
  obtain ⟨⟨⟨hamp, hfee, hprice⟩, hbalances⟩, hshare⟩ := h
  rcases hs : base.shareToken with _ | share
  · simp only [hl, hs, word?, hamp, hfee, balances?_congr hbalances, bind, Option.bind]
  · simp only [hl, hs, word?, hamp, hfee, hprice, hshare share hs, balances?_congr hbalances, bind, Option.bind]

/-- What a lending coin is worth is told by the questions about this coin. -/
theorem rate?_congr {coin : Address} (h : Agree o o' (rateQuestions coin)) : rate? o coin = rate? o' coin := by
  simp only [rateQuestions, agree_ask_cons, agree_nil, and_true] at h
  obtain ⟨hrate, hsupply, haccrual⟩ := h
  simp only [rate?, word?, hrate, hsupply, haccrual]

/-- What is told of those coins that are asked, one by one. -/
theorem coins_congr {α : Type} {coins : List Address} {c : Nat → Bool} {other : Option α}
    (ask : Address → List Question) (told : Observed → Address → Option α)
    (htold : ∀ coin, Agree o o' (ask coin) → told o coin = told o' coin)
    (h : Agree o o' (coins.zipIdx.flatMap fun (coin, k) => if c k then ask coin else [])) :
    (coins.zipIdx.mapM fun (coin, k) => if c k then told o coin else other) =
      coins.zipIdx.mapM fun (coin, k) => if c k then told o' coin else other := by
  rw [agree_flatMap] at h
  refine mapM_option_congr fun ⟨coin, k⟩ hx => ?_
  have hcoin := h _ hx
  dsimp only at hcoin ⊢
  split at hcoin
  · simp only [htold coin hcoin]
  · simp only [if_neg ‹_›]

/-- The rates are told coin by coin, and only coins that accrue interest have one to be told. -/
theorem rates?_congr (h : Agree o o' (info.coins.zipIdx.flatMap fun (coin, k) =>
      if info.accrues k then rateQuestions coin else [])) :
    (info.coins.zipIdx.mapM fun (coin, k) => if info.accrues k then rate? o coin else some ⟨0, 0, 0⟩) =
      info.coins.zipIdx.mapM fun (coin, k) => if info.accrues k then rate? o' coin else some ⟨0, 0, 0⟩ :=
  coins_congr rateQuestions rate? (fun _ => rate?_congr) h

/-- So are the prices of shares, which only coins that are lent have. -/
theorem prices?_congr (h : Agree o o' (info.coins.zipIdx.flatMap fun (coin, k) =>
      if info.lends k then [.ask coin .pricePerShare "getPricePerFullShare()"] else [])) :
    (info.coins.zipIdx.mapM fun (coin, k) => if info.lends k then o.word? coin .pricePerShare else some 0) =
      info.coins.zipIdx.mapM fun (coin, k) => if info.lends k then o'.word? coin .pricePerShare else some 0 := by
  refine coins_congr (fun coin => [.ask coin .pricePerShare "getPricePerFullShare()"])
    (fun o coin => o.word? coin .pricePerShare) (fun coin hcoin => ?_) h
  simp only [agree_ask_cons, agree_nil, and_true] at hcoin
  simp only [word?, hcoin]

/-- How balances are scaled is told by the questions of the kind of scaling. -/
theorem scaled?_congr {s : StableState} {scaling : Scaling} (h : Agree o o' (scalingQuestions s.info scaling)) :
    scaled? o s scaling = scaled? o' s scaling := by
  cases scaling with
  | aave =>
    simp only [scalingQuestions, agree_ask_cons, agree_nil, and_true] at h
    simp only [scaled?, word?, h]
  | storedRates => simp only [scaled?, rates?_congr h]
  | lending => simp only [scaled?, rates?_congr h]
  | lendingPricePerShare => simp only [scaled?, prices?_congr h]
  | baseVirtualPrice =>
    simp only [scalingQuestions, List.cons_append, List.nil_append, agree_ask_cons] at h
    obtain ⟨hcached, hprice, hbase⟩ := h
    simp only [scaled?, base?_congr hbase, count?, word?, hcached, hprice]
  | balances => rfl
  | rates => rfl
  | rateMultipliers => rfl

/-- A pool of the next generation is told by the questions of its kind. -/
theorem stableNg?_congr {amp fee : Nat} (h : Agree o o' (kindQuestions info)) (hk : info.kind = .stableNg) :
    stableNg? o info amp fee = stableNg? o' info amp fee := by
  simp only [kindQuestions, hk, List.cons_append, List.nil_append, agree_ask_cons] at h
  obtain ⟨hoffpeg, hbalances, hrates, hbase⟩ := h
  simp only [stableNg?, base?_congr hbase, word?, array?, hoffpeg, hbalances, hrates]

/-- What the pools of the cryptoswap family are put together from, in the order in which it is asked. -/
theorem agree_cryptoQuestions (h : Agree o o' (cryptoQuestions info)) :
    (o.word? info.address .gamma = o'.word? info.address .gamma ∧
      o.word? info.address .invariant = o'.word? info.address .invariant ∧
      o.word? info.address .feeGamma = o'.word? info.address .feeGamma ∧
      o.word? info.address .midFee = o'.word? info.address .midFee ∧
      o.word? info.address .outFee = o'.word? info.address .outFee ∧
      o.word? info.address .rampEnd = o'.word? info.address .rampEnd) ∧
    balances? o info = balances? o' info := by
  simp only [cryptoQuestions, List.cons_append, List.nil_append, agree_ask_cons, agree_map_ask] at h
  obtain ⟨hgamma, hd, hfeeGamma, hmid, hout, hramp, hbalances⟩ := h
  refine ⟨by simp only [word?, hgamma, hd, hfeeGamma, hmid, hout, hramp, and_self], ?_⟩
  exact mapM_option_congr fun i hi => by rw [word?, word?, hbalances i hi]

/-- A pool of two volatile coins is told by the questions of its kind. -/
theorem crypto?_congr {amp : Nat} (h : Agree o o' (kindQuestions info)) (hk : info.kind = .crypto) :
    crypto? o info amp = crypto? o' info amp := by
  simp only [kindQuestions, hk, agree_append, agree_ask_cons, agree_nil, and_true] at h
  obtain ⟨⟨hgamma, hd, hfeeGamma, hmid, hout, hramp⟩, hbalances⟩ := agree_cryptoQuestions h.1
  have hprice : o.word? info.address (.priceScale 0) = o'.word? info.address (.priceScale 0) := by
    simp only [word?, h.2]
  simp only [crypto?, hgamma, hd, hprice, hfeeGamma, hmid, hout, hramp, hbalances]

/-- A pool of three is told by those of all volatile pools and those for its two price scales. -/
theorem triCrypto?_congr {amp : Nat} (h : Agree o o' (cryptoQuestions info))
    (hp : Agree o o' (priceScaleQuestions info.address)) : triCrypto? o info amp = triCrypto? o' info amp := by
  obtain ⟨⟨hgamma, hd, hfeeGamma, hmid, hout, hramp⟩, hbalances⟩ := agree_cryptoQuestions h
  have hprice : ∀ k ∈ [0, 1], o.word? info.address (.priceScale k) = o'.word? info.address (.priceScale k) := by
    simp only [priceScaleQuestions, agree_map_ask] at hp
    exact fun k hk => by simp only [word?, hp k hk]
  simp only [triCrypto?, hgamma, hd, hprice 0 (by simp), hprice 1 (by simp), hfeeGamma, hmid, hout, hramp, hbalances]

/-- **A Curve pool is put together from the answers to its questions**, whatever its family, with the block and its
time. -/
theorem state?_congr (h : Agree o o' (questions info)) (block timestamp : Nat) :
    state? o info block timestamp = state? o' info block timestamp := by
  simp only [questions, agree_append, agree_ask_cons, agree_nil, and_true] at h
  obtain ⟨⟨⟨hamp, hfee⟩, -⟩, hkind⟩ := h
  have hamp : o.word? info.address .amp = o'.word? info.address .amp := by simp only [word?, hamp]
  have hfee : o.word? info.address .fee = o'.word? info.address .fee := by simp only [word?, hfee]
  unfold state?
  rw [hamp, hfee]
  cases hk : info.kind with
  | stable scaling =>
    simp only [kindQuestions, hk, agree_append] at hkind
    simp only [stable?, balances?_congr hkind.1]
    refine congrArg _ (funext fun amp => congrArg _ (funext fun fee => ?_))
    rcases balances? o' info with _ | balances
    · rfl
    · simp only [bind, Option.bind]
      rw [scaled?_congr hkind.2]
  | stableNg => simp only [stableNg?_congr hkind hk]
  | crypto => simp only [crypto?_congr hkind hk]
  | triCrypto =>
    simp only [kindQuestions, hk, agree_append] at hkind
    simp only [triCrypto?_congr hkind.1 hkind.2]
  | triCryptoNg =>
    simp only [kindQuestions, hk, agree_append, agree_ask_cons, agree_nil, and_true] at hkind
    simp only [triCryptoNg?, triCrypto?_congr hkind.1.1 hkind.1.2, words?, hkind.2]

/-- So is the row of its tokens. -/
theorem tokens?_congr (h : Agree o o' (questions info)) : tokens? o info = tokens? o' info := by
  simp only [questions, agree_append] at h
  have hcoins := h.1.2
  unfold coinQuestions at hcoins
  unfold tokens?
  split
  · rw [if_pos ‹_›, agree_map_ask] at hcoins
    exact mapM_option_congr fun i hi => by rw [address?, address?, word?, word?, hcoins i hi]
  · rfl

end Curve

/-- A known factory creates pairs or concentrated pools. -/
theorem Factory.family_of_atAddress? {address : Address} {f : Factory} (h : atAddress? address = some f) :
    f.exchange.family = .constantProduct ∨ f.exchange.family = .concentrated := by
  have htable : ∀ f ∈ all, f.exchange.family = .constantProduct ∨ f.exchange.family = .concentrated := by decide
  exact htable f (List.mem_of_find?_eq_some h)

namespace PoolSpec

variable {spec : PoolSpec} {pool : Address} {exchange : Exchange}

/-- Pools of two exchanges are asked the same if these are of one family, and both or neither is the exchange whose
pools tell their fee with their price. -/
theorem asksAlike_iff {a b : Exchange} :
    asksAlike a b ↔ a.family = b.family ∧ (a = .thenaFusion ↔ b = .thenaFusion) := by
  simp [asksAlike]

/-- A pool is asked the same on the exchange that it is put on in the end. -/
theorem asksAlike_exchangeFrom (spec : PoolSpec) (o : Observed) : asksAlike (spec.exchangeFrom o) spec.exchange := by
  have hself : asksAlike spec.exchange spec.exchange := asksAlike_iff.2 ⟨rfl, .rfl⟩
  unfold exchangeFrom
  split
  · split
    · assumption
    · exact hself
  · exact hself

/-- The exchange that a factory shows is of the family that was asked for. -/
theorem family_exchangeFrom (spec : PoolSpec) (o : Observed) : (spec.exchangeFrom o).family = spec.exchange.family :=
  (asksAlike_iff.1 (spec.asksAlike_exchangeFrom o)).1

/-- So the own questions of a pool do not depend on what its factory shows. -/
theorem ownQuestions_exchangeFrom (spec : PoolSpec) (o : Observed) :
    ownQuestions ⟨spec.pool, spec.exchangeFrom o⟩ = spec.ownQuestions := by
  obtain ⟨hfamily, hthena⟩ := asksAlike_iff.1 (spec.asksAlike_exchangeFrom o)
  simp only [ownQuestions, Concentrated.questions, hfamily, hthena]

/-- The tokens and the factory of a pair, and of a pool of concentrated liquidity, are among its own answers. -/
theorem tokens?_congr (h : Agree o o' (ownQuestions ⟨pool, exchange⟩))
    (hfamily : exchange.family = .constantProduct ∨ exchange.family = .concentrated) :
    o.tokens? pool = o'.tokens? pool ∧ o.address? pool .factory = o'.address? pool .factory := by
  rcases hfamily with hfamily | hfamily
  · simp only [ownQuestions, hfamily, Pair.ownQuestions, agree_ask_cons] at h
    simp only [tokens?, address?, word?, h, and_self]
  · simp only [ownQuestions, hfamily, Concentrated.questions, List.cons_append, agree_ask_cons] at h
    simp only [tokens?, address?, word?, h, and_self]

/-- The exchange of a pool is settled by its own answers. -/
theorem exchangeFrom_congr (h : Agree o o' spec.ownQuestions) : spec.exchangeFrom o = spec.exchangeFrom o' := by
  by_cases hfamily : spec.exchange.family = .constantProduct ∨ spec.exchange.family = .concentrated
  · simp only [exchangeFrom, (tokens?_congr h hfamily).2]
  · -- no factory is known for other pools, so what is observed of one does not count
    have hkept : ∀ o, spec.exchangeFrom o = spec.exchange := by
      intro o
      unfold exchangeFrom
      split
      · rename_i f hf
        obtain ⟨address, -, hf⟩ := Option.bind_eq_some_iff.1 hf
        refine if_neg fun halike => hfamily ?_
        exact (asksAlike_iff.1 halike).1 ▸ Factory.family_of_atAddress? hf
      · rfl
    rw [hkept, hkept]

/-- **A pool of any family is put together from its own answers**, and a pair from the fee of its factory as well. -/
theorem contents?_congr (h : Agree o o' (ownQuestions ⟨pool, exchange⟩))
    (hfee : exchange.family = .constantProduct → AgreeOnFee o o' pool) (block timestamp : Nat) :
    contents? o pool exchange block timestamp = contents? o' pool exchange block timestamp := by
  have hcurve (h : Agree o o' (((Curve.lookup pool).map Curve.questions).getD [])) :
      (do let info ← Curve.lookup pool
          return (← Curve.tokens? o info, ← Curve.state? o info block timestamp)) =
        (do let info ← Curve.lookup pool
            return (← Curve.tokens? o' info, ← Curve.state? o' info block timestamp)) := by
    rcases hl : Curve.lookup pool with _ | info
    · rfl
    · rw [hl] at h
      simp only [bind, Option.bind_some, Curve.tokens?_congr h, Curve.state?_congr h]
  unfold contents?
  cases hf : exchange.family with
  | constantProduct =>
    have htokens := (tokens?_congr h (.inl hf)).1
    simp only [ownQuestions, hf] at h
    simp only [htokens, Pair.state?_congr h (hfee hf)]
  | concentrated =>
    have htokens := (tokens?_congr h (.inr hf)).1
    simp only [ownQuestions, hf] at h
    simp only [htokens, Concentrated.state?_congr h]
  | stableSwap | stableSwapNg | cryptoSwap | triCrypto | triCryptoNg =>
    simp only [ownQuestions, hf] at h
    exact hcurve h

/-- **A pool is put together from the answers to its own questions.** For a pair the fee counts besides that its
factory tells, if the factory tells fees. -/
theorem assemble?_congr (h : Agree o o' spec.ownQuestions)
    (hfee : spec.exchange.family = .constantProduct → AgreeOnFee o o' spec.pool) (block timestamp : Nat) :
    spec.assemble? o block timestamp = spec.assemble? o' block timestamp := by
  have hcontents : contents? o spec.pool (spec.exchangeFrom o) block timestamp =
      contents? o' spec.pool (spec.exchangeFrom o) block timestamp :=
    contents?_congr (spec.ownQuestions_exchangeFrom o ▸ h) (spec.family_exchangeFrom o ▸ hfee) block timestamp
  simp only [assemble?, ← exchangeFrom_congr h, hcontents]

end PoolSpec
end Searcher

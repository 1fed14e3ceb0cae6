/-
# Observing Curve pools

What a known Curve pool is asked depends on the contract it runs: its parameters and balances, the rates of the coins
that it lends out, and the state of the pool it is built on.
-/

import Searcher.Observation.Question
import Searcher.Pool

namespace Searcher
namespace Curve

/-- Asks a pool for the balance of a coin. -/
def balanceQuestion (info : Info) (i : Nat) : Question :=
  .ask info.address (.balance i) (if info.signedIndex then "balances(int128)" else "balances(uint256)") [i]

/-- Asks a pool for the balances of its coins, one by one. -/
def balanceQuestions (info : Info) : List Question := (List.range info.coinCount).map (balanceQuestion info)

/-- What is asked of a pool on which others are built. -/
def baseQuestions (base : Info) : List Question :=
  [.ask base.address .amp "A()", .ask base.address .fee "fee()",
    .ask base.address .virtualPrice "get_virtual_price()"] ++
  balanceQuestions base ++
  (base.shareToken.toList.map fun share => .ask share .totalSupply "totalSupply()")

/-- What is asked of the pool that another one is built on. -/
def basePoolQuestions (info : Info) : List Question := ((info.basePool.bind lookup).map baseQuestions).getD []

/-- Whether a coin is lent out. -/
def Info.lends (info : Info) (k : Nat) : Bool := info.lending.getD k false

/-- Whether the exchange rate of a coin is asked for. -/
def Info.accrues (info : Info) (k : Nat) : Bool := info.kind = .stable .storedRates ∨ info.lends k

/-- What a coin that is lent out is asked. -/
def rateQuestions (coin : Address) : List Question :=
  [.ask coin .exchangeRate "exchangeRateStored()", .ask coin .supplyRate "supplyRatePerBlock()",
    .ask coin .accrualBlock "accrualBlockNumber()"]

/-- What is asked because of the way a stableswap pool scales its balances. -/
def scalingQuestions (info : Info) : Scaling → List Question
  | .aave => [.ask info.address .offpegMultiplier "offpeg_fee_multiplier()"]
  | .storedRates | .lending =>
    info.coins.zipIdx.flatMap fun (coin, k) => if info.accrues k then rateQuestions coin else []
  | .lendingPricePerShare =>
    info.coins.zipIdx.flatMap fun (coin, k) =>
      if info.lends k then [.ask coin .pricePerShare "getPricePerFullShare()"] else []
  | .baseVirtualPrice =>
    [.ask info.address .baseCachedAt "base_cache_updated()",
      .ask info.address .baseVirtualPrice "base_virtual_price()"] ++ basePoolQuestions info
  | _ => []

/-- What every pool of the cryptoswap family is asked. -/
def cryptoQuestions (info : Info) : List Question :=
  let pool := info.address
  [.ask pool .gamma "gamma()", .ask pool .invariant "D()", .ask pool .feeGamma "fee_gamma()",
    .ask pool .midFee "mid_fee()", .ask pool .outFee "out_fee()", .ask pool .rampEnd "future_A_gamma_time()"] ++
  (List.range info.coinCount).map fun i => .ask pool (.balance i) "balances(uint256)" [i]

/-- Asks a pool of three coins for its two price scales. -/
def priceScaleQuestions (pool : Address) : List Question :=
  [0, 1].map fun k => .ask pool (.priceScale k) "price_scale(uint256)" [k]

/-- What is asked because of the contract that a pool runs. -/
def kindQuestions (info : Info) : List Question :=
  let pool := info.address
  match info.kind with
  | .stable scaling => balanceQuestions info ++ scalingQuestions info scaling
  | .stableNg =>
    [.ask pool .offpegMultiplier "offpeg_fee_multiplier()", .ask pool .balances "get_balances()",
      .ask pool .storedRates "stored_rates()"] ++ basePoolQuestions info
  | .crypto => cryptoQuestions info ++ [.ask pool (.priceScale 0) "price_scale()"]
  | .triCrypto => cryptoQuestions info ++ priceScaleQuestions pool
  | .triCryptoNg => cryptoQuestions info ++ priceScaleQuestions pool ++ [.ask pool .precisions "precisions()"]

/-- Asks a pool for the coins that are not known of it. -/
def coinQuestions (info : Info) : List Question :=
  if info.coins.isEmpty then (List.range info.coinCount).map fun i => .ask info.address (.coin i) "coins(uint256)" [i]
  else []

/-- What is asked about a known pool. -/
def questions (info : Info) : List Question :=
  [.ask info.address .amp "A()", .ask info.address .fee "fee()"] ++ coinQuestions info ++ kindQuestions info

/-- The tokens of a pool in the order in which it is quoted. -/
def tokens? (o : Observed) (info : Info) : Option (List Address) :=
  if info.coins.isEmpty then (List.range info.coinCount).mapM fun i => o.address? info.address (.coin i)
  else some info.listedTokens

/-- The balances of a pool, read one by one. -/
def balances? (o : Observed) (info : Info) : Option (List Nat) :=
  (List.range info.coinCount).mapM fun i => o.word? info.address (.balance i)

/-- The pool that another one is built on, with its virtual price. -/
def base? (o : Observed) (info : Info) : Option (BasePool × Nat) := do
  let base ← lookup (← info.basePool)
  let state : BasePool :=
    { info := base
      amp := ← o.word? base.address .amp
      fee := ← o.word? base.address .fee
      balances := ← balances? o base
      shareSupply := ← o.word? (← base.shareToken) .totalSupply }
  return (state, ← o.word? base.address .virtualPrice)

/-- The exchange rate of a coin. -/
def rate? (o : Observed) (coin : Address) : Option LendingRate := do
  return ⟨← o.word? coin .exchangeRate, ← o.word? coin .supplyRate, ← o.word? coin .accrualBlock⟩

/-- The state of a stableswap pool, completed by what its scaling needs. -/
def scaled? (o : Observed) (s : StableState) : Scaling → Option StableState
  | .aave => do return { s with offpegMultiplier := ← o.word? s.info.address .offpegMultiplier }
  | .storedRates | .lending => do
    let rates ← s.info.coins.zipIdx.mapM fun (coin, k) =>
      if s.info.accrues k then rate? o coin else some ⟨0, 0, 0⟩
    return { s with lendingRates := rates }
  | .lendingPricePerShare => do
    let prices ← s.info.coins.zipIdx.mapM fun (coin, k) =>
      if s.info.lends k then o.word? coin .pricePerShare else some 0
    return { s with pricesPerShare := prices }
  | .baseVirtualPrice => do
    let (base, virtualPrice) ← base? o s.info
    let view : MetaView :=
      ⟨base, ← o.count? s.info.address .baseCachedAt, ← o.word? s.info.address .baseVirtualPrice, virtualPrice⟩
    return { s with metaView := some view }
  | _ => some s

/-- The state of a stableswap pool at a block. -/
def stable? (o : Observed) (info : Info) (scaling : Scaling) (amp fee block timestamp : Nat) : Option StableState := do
  let balances ← balances? o info
  scaled? o { info, amp, fee, balances, block, timestamp } scaling

/-- The state of a stableswap pool of the newer contract. -/
def stableNg? (o : Observed) (info : Info) (amp fee : Nat) : Option StableNgState := do
  let base ← if info.isMeta then (base? o info).map fun b => some b.1 else some none
  return ⟨info, amp, fee, ← o.word? info.address .offpegMultiplier, ← o.array? info.address .balances 1,
    ← o.array? info.address .storedRates 1, base⟩

/-- A list that has just `n` elements. -/
def vector? (n : Nat) (xs : List Nat) : Option (Vector Nat n) :=
  if h : xs.length = n then some ⟨xs.toArray, by simpa using h⟩ else none

/-- The state of a pool of two volatile coins. -/
def crypto? (o : Observed) (info : Info) (amp : Nat) : Option CryptoState := do
  let pool := info.address
  return {
    info, amp
    gamma := ← o.word? pool .gamma
    d := ← o.word? pool .invariant
    priceScale := ← o.word? pool (.priceScale 0)
    feeGamma := ← o.word? pool .feeGamma
    midFee := ← o.word? pool .midFee
    outFee := ← o.word? pool .outFee
    rampEnd := ← o.word? pool .rampEnd
    balances := ← vector? 2 (← balances? o info) }

/-- The state of a pool of three volatile coins. -/
def triCrypto? (o : Observed) (info : Info) (amp : Nat) : Option TriCryptoState := do
  let pool := info.address
  return {
    info, amp
    gamma := ← o.word? pool .gamma
    d := ← o.word? pool .invariant
    priceScale := Cryptoswap.two (← o.word? pool (.priceScale 0)) (← o.word? pool (.priceScale 1))
    feeGamma := ← o.word? pool .feeGamma
    midFee := ← o.word? pool .midFee
    outFee := ← o.word? pool .outFee
    rampEnd := ← o.word? pool .rampEnd
    balances := ← vector? 3 (← balances? o info) }

/-- The state of a pool of three volatile coins that runs the newer contract. -/
def triCryptoNg? (o : Observed) (info : Info) (amp timestamp : Nat) : Option TriCryptoNgState := do
  let s ← triCrypto? o info amp
  let precisions ← vector? 3 (← o.words? info.address .precisions 3)
  return {
    amp, precisions, timestamp
    gamma := s.gamma
    d := s.d
    priceScale := s.priceScale
    feeGamma := s.feeGamma
    midFee := s.midFee
    outFee := s.outFee
    rampEnd := s.rampEnd
    balances := s.balances }

/-- The state of a known pool at a block. -/
def state? (o : Observed) (info : Info) (block timestamp : Nat) : Option PoolState := do
  let amp ← o.word? info.address .amp
  let fee ← o.word? info.address .fee
  match info.kind with
  | .stable scaling => return .stableSwap (← stable? o info scaling amp fee block timestamp)
  | .stableNg => return .stableSwapNg (← stableNg? o info amp fee)
  | .crypto => return .cryptoSwap (← crypto? o info amp)
  | .triCrypto => return .triCrypto (← triCrypto? o info amp)
  | .triCryptoNg => return .triCryptoNg (← triCryptoNg? o info amp timestamp)

end Curve
end Searcher

/-
# Records of pools

A pool record names its `address`, the number of its exchange under `dex`, its `tokens` and its `state`; the state says
its family under `kind`.

| kind | fields |
| --- | --- |
| `v2` | `reserve0`, `reserve1`, `fee` |
| `v3` | as in the records of tick data |
| `stable` | `info`, `a`, `fee`, `balances`, `offpeg`, `lending_rates`, `price_per_share`, `block_number`, `timestamp`, `meta` |
| `stable_ng` | `info`, `a`, `fee`, `offpeg`, `balances`, `stored_rates`, `base` |
| `crypto`, `tricrypto`, `tricrypto_ng` | `a`, `gamma`, `d`, `price_scale`, the three fees, `future_a_gamma_time`, `balances` |

A description under `info` is the address of a known pool, or is written out.
-/

import Searcher.Pool
import Searcher.Record.Ticks

namespace Searcher

namespace Fee

/-- The fee of a pair of numbers, or the standard one. -/
def ofJson : Json → Fee
  | .arr [base, taken] => ⟨base.toNat, taken.toNat⟩
  | _ => .standard

def toJson (fee : Fee) : Json := .arr [.ofNat fee.base, .ofNat fee.taken]

end Fee

namespace Json

/-- The two numbers of a field. -/
def twoNats (j : Json) (key : String) : Vector Nat 2 :=
  let xs := j.nats key
  Cryptoswap.two (xs.getD 0 0) (xs.getD 1 0)

/-- The three numbers of a field. -/
def threeNats (j : Json) (key : String) : Vector Nat 3 :=
  let xs := j.nats key
  Cryptoswap.three (xs.getD 0 0) (xs.getD 1 0) (xs.getD 2 0)

def ofNats (xs : List Nat) : Json := ofList ofNat xs

def ofAddresses (xs : List Address) : Json := ofList ofAddress xs

end Json

namespace Curve

/-- The names of kinds in records. -/
def kindNames : List (String × Kind) :=
  [("balances", .stable .balances), ("rates", .stable .rates), ("aave", .stable .aave),
    ("stored_rates", .stable .storedRates), ("lending", .stable .lending),
    ("lending_pps", .stable .lendingPricePerShare), ("rate_multipliers", .stable .rateMultipliers),
    ("base_virtual_price", .stable .baseVirtualPrice), ("stable_ng", .stableNg), ("crypto", .crypto),
    ("tricrypto", .triCrypto), ("tricrypto_ng", .triCryptoNg)]

namespace Info

def ofJson (j : Json) : Info :=
  match j with
  | .str _ => (lookup j.toAddress).getD default
  | j =>
    { address := j.address "address"
      kind := (kindNames.lookup (j.text "family")).getD default
      coinCount := j.natD "n_coins" 2
      coins := j.addresses "coins"
      precisions := j.nats "precision_mul"
      rateMultipliers := j.nats "rate_multipliers"
      lending := j.list "lending" Json.toBool
      ampScale := j.nat? "a_precision"
      roundsDown := j.flag "get_y_minus_one"
      plusOne := j.flag "get_d_plus_one"
      shareToken := j.address? "lp_token"
      basePool := j.address? "base_pool"
      baseCoinCount := j.nat "base_n_coins"
      baseCacheExpires := j.nat "base_cache_expires"
      signedIndex := j.flag "vyper_v1" }

/-- The fields of the description. -/
def fields (info : Info) : List (String × Json) :=
  [("address", .ofAddress info.address),
    ("family", .str (((kindNames.find? fun entry => entry.2 = info.kind).map (·.1)).getD "")),
    ("n_coins", .count info.coinCount), ("coins", .ofAddresses info.coins),
    ("precision_mul", .ofNats info.precisions), ("rate_multipliers", .ofNats info.rateMultipliers),
    ("lending", .ofList .bool info.lending), ("a_precision", .ofOption .ofNat info.ampScale),
    ("get_y_minus_one", .bool info.roundsDown), ("get_d_plus_one", .bool info.plusOne),
    ("lp_token", .ofOption .ofAddress info.shareToken), ("base_pool", .ofOption .ofAddress info.basePool),
    ("base_n_coins", .count info.baseCoinCount), ("base_cache_expires", .ofNat info.baseCacheExpires),
    ("vyper_v1", .bool info.signedIndex)]

end Info

namespace BasePool

def ofJson (j : Json) : BasePool :=
  ⟨.ofJson (j.get "info"), j.nat "a", j.nat "fee", j.nats "balances", j.nat "lp_total_supply"⟩

def toJson (p : BasePool) : Json :=
  .obj [("info", .ofAddress p.info.address), ("a", .ofNat p.amp), ("fee", .ofNat p.fee),
    ("balances", .ofNats p.balances), ("lp_total_supply", .ofNat p.shareSupply)]

end BasePool

namespace LendingRate

def ofJson (j : Json) : LendingRate := ⟨(j.item 0).toNat, (j.item 1).toNat, (j.item 2).toNat⟩

def toJson (r : LendingRate) : Json := .ofNats [r.stored, r.perBlock, r.accrualBlock]

end LendingRate

namespace MetaView

def ofJson (j : Json) : MetaView :=
  ⟨.ofJson (j.get "base"), j.nat "base_cache_updated", j.nat "base_virtual_price", j.nat "live_virtual_price"⟩

def toJson (v : MetaView) : Json :=
  .obj [("base", v.base.toJson), ("base_cache_updated", .ofNat v.cachedAt),
    ("base_virtual_price", .ofNat v.cachedVirtualPrice), ("live_virtual_price", .ofNat v.liveVirtualPrice)]

end MetaView

namespace StableState

def ofJson (j : Json) : StableState :=
  { info := .ofJson (j.get "info")
    amp := j.nat "a"
    fee := j.nat "fee"
    balances := j.nats "balances"
    offpegMultiplier := j.nat "offpeg"
    lendingRates := j.list "lending_rates" LendingRate.ofJson
    pricesPerShare := j.nats "price_per_share"
    block := j.nat "block_number"
    timestamp := j.nat "timestamp"
    metaView := (j.present? "meta").map MetaView.ofJson }

def fields (s : StableState) : List (String × Json) :=
  [("info", .ofAddress s.info.address), ("a", .ofNat s.amp), ("fee", .ofNat s.fee), ("balances", .ofNats s.balances),
    ("offpeg", .ofNat s.offpegMultiplier), ("lending_rates", .ofList LendingRate.toJson s.lendingRates),
    ("price_per_share", .ofNats s.pricesPerShare), ("block_number", .ofNat s.block),
    ("timestamp", .ofNat s.timestamp), ("meta", .ofOption MetaView.toJson s.metaView)]

end StableState

namespace StableNgState

def ofJson (j : Json) : StableNgState :=
  ⟨.ofJson (j.get "info"), j.nat "a", j.nat "fee", j.nat "offpeg", j.nats "balances", j.nats "stored_rates",
    (j.present? "base").map BasePool.ofJson⟩

def fields (s : StableNgState) : List (String × Json) :=
  [("info", .ofAddress s.info.address), ("a", .ofNat s.amp), ("fee", .ofNat s.fee),
    ("offpeg", .ofNat s.offpegMultiplier), ("balances", .ofNats s.balances), ("stored_rates", .ofNats s.rates),
    ("base", .ofOption BasePool.toJson s.base)]

end StableNgState

namespace CryptoState

def ofJson (j : Json) : CryptoState :=
  ⟨.ofJson (j.get "info"), j.nat "a", j.nat "gamma", j.nat "d", j.nat "price_scale", j.nat "fee_gamma",
    j.nat "mid_fee", j.nat "out_fee", j.nat "future_a_gamma_time", j.twoNats "balances"⟩

def fields (s : CryptoState) : List (String × Json) :=
  [("info", .ofAddress s.info.address), ("a", .ofNat s.amp), ("gamma", .ofNat s.gamma), ("d", .ofNat s.d),
    ("price_scale", .ofNat s.priceScale), ("fee_gamma", .ofNat s.feeGamma), ("mid_fee", .ofNat s.midFee),
    ("out_fee", .ofNat s.outFee), ("future_a_gamma_time", .ofNat s.rampEnd), ("balances", .ofNats s.balances.toList)]

end CryptoState

namespace TriCryptoState

def ofJson (j : Json) : TriCryptoState :=
  ⟨.ofJson (j.get "info"), j.nat "a", j.nat "gamma", j.nat "d", j.twoNats "price_scale", j.nat "fee_gamma",
    j.nat "mid_fee", j.nat "out_fee", j.nat "future_a_gamma_time", j.threeNats "balances"⟩

def fields (s : TriCryptoState) : List (String × Json) :=
  [("info", .ofAddress s.info.address), ("a", .ofNat s.amp), ("gamma", .ofNat s.gamma), ("d", .ofNat s.d),
    ("price_scale", .ofNats s.priceScale.toList), ("fee_gamma", .ofNat s.feeGamma), ("mid_fee", .ofNat s.midFee),
    ("out_fee", .ofNat s.outFee), ("future_a_gamma_time", .ofNat s.rampEnd), ("balances", .ofNats s.balances.toList)]

end TriCryptoState

namespace TriCryptoNgState

def ofJson (j : Json) : TriCryptoNgState :=
  ⟨j.nat "a", j.nat "gamma", j.nat "d", j.twoNats "price_scale", j.threeNats "precisions", j.nat "fee_gamma",
    j.nat "mid_fee", j.nat "out_fee", j.nat "future_a_gamma_time", j.threeNats "balances", j.nat "timestamp"⟩

def fields (s : TriCryptoNgState) : List (String × Json) :=
  [("a", .ofNat s.amp), ("gamma", .ofNat s.gamma), ("d", .ofNat s.d), ("price_scale", .ofNats s.priceScale.toList),
    ("precisions", .ofNats s.precisions.toList), ("fee_gamma", .ofNat s.feeGamma), ("mid_fee", .ofNat s.midFee),
    ("out_fee", .ofNat s.outFee), ("future_a_gamma_time", .ofNat s.rampEnd), ("balances", .ofNats s.balances.toList),
    ("timestamp", .ofNat s.timestamp)]

end TriCryptoNgState
end Curve

/-- The name of a family in records. -/
def Family.key : Family → String
  | constantProduct => "v2"
  | concentrated => "v3"
  | stableSwap => "stable"
  | stableSwapNg => "stable_ng"
  | cryptoSwap => "crypto"
  | triCrypto => "tricrypto"
  | triCryptoNg => "tricrypto_ng"

namespace PoolState

def ofJson (j : Json) : PoolState :=
  match j.text "kind" with
  | "v3" => .concentrated (.ofJson j)
  | "stable" => .stableSwap (.ofJson j)
  | "stable_ng" => .stableSwapNg (.ofJson j)
  | "crypto" => .cryptoSwap (.ofJson j)
  | "tricrypto" => .triCrypto (.ofJson j)
  | "tricrypto_ng" => .triCryptoNg (.ofJson j)
  | _ => .constantProduct (j.nat "reserve0") (j.nat "reserve1") (.ofJson (j.get "fee"))

def toJson (s : PoolState) : Json :=
  .obj (("kind", .str s.family.key) :: match s with
    | .constantProduct reserve0 reserve1 fee =>
      [("reserve0", .ofNat reserve0), ("reserve1", .ofNat reserve1), ("fee", fee.toJson)]
    | .concentrated s => s.fields
    | .stableSwap s => s.fields
    | .stableSwapNg s => s.fields
    | .cryptoSwap s => s.fields
    | .triCrypto s => s.fields
    | .triCryptoNg s => s.fields)

end PoolState

namespace Exchange

def ofJson (j : Json) : Exchange := (ofId? j.toNat).getD default

def toJson (e : Exchange) : Json := .count e.id

end Exchange

namespace Pool

def ofJson (j : Json) : Pool :=
  ⟨j.address "address", .ofJson (j.get "dex"), j.addresses "tokens", .ofJson (j.get "state")⟩

def toJson (p : Pool) : Json :=
  .obj [("address", .ofAddress p.address), ("dex", p.exchange.toJson), ("tokens", .ofAddresses p.tokens),
    ("state", p.state.toJson)]

end Pool
end Searcher

/-
# Known Curve pools

A Curve pool is priced by constants of its contract that no call returns: how it scales balances, which roundings it
makes, which coins it lends out, on which pool it is built. The table lists the pools the program knows.
-/

import Searcher.Checked
import Searcher.Exchange

namespace Searcher
namespace Curve

/-- How a stableswap pool scales its balances. -/
inductive Scaling where
  /-- Not at all. -/
  | balances
  /-- By a precision for each coin. -/
  | rates
  /-- By precisions, with a scaled amplification and a fee that rises off the peg. -/
  | aave
  /-- By exchange rates that accrue to the current block. -/
  | storedRates
  /-- By exchange rates of those coins that are lent out, with an unscaled amplification. -/
  | lending
  /-- By the price per share of those coins that are lent out. -/
  | lendingPricePerShare
  /-- By a fixed rate for each coin. -/
  | rateMultipliers
  /-- The last coin by the virtual price of the base pool. -/
  | baseVirtualPrice
deriving DecidableEq, Repr, Inhabited

/-- The contract that a pool runs. -/
inductive Kind where
  | stable (scaling : Scaling)
  | stableNg
  | crypto
  | triCrypto
  | triCryptoNg
deriving DecidableEq, Repr, Inhabited

/-- What is known of a pool without asking the chain. -/
structure Info where
  address : Address
  kind : Kind
  coinCount : Nat := 2
  /-- The coins of the pool itself, or none when it is listed by index alone. -/
  coins : List Address := []
  /-- What the balance of each coin is multiplied by. -/
  precisions : List Nat := []
  /-- The fixed rate of each coin. -/
  rateMultipliers : List Nat := []
  /-- Which coins are lent out. -/
  lending : List Bool := []
  /-- What the amplification is multiplied by. -/
  ampScale : Option Nat := none
  /-- The contract takes one unit off each output. -/
  roundsDown : Bool := false
  /-- The contract adds one to the divisors of its invariant. -/
  plusOne : Bool := false
  /-- The token of shares in the pool, where that is another contract. -/
  shareToken : Option Address := none
  /-- The pool in whose shares the last coin is denominated. -/
  basePool : Option Address := none
  baseCoinCount : Nat := 0
  /-- The seconds for which a cached virtual price is used. -/
  baseCacheExpires : Nat := 0
  /-- The contract takes signed coin indices. -/
  signedIndex : Bool := false
deriving DecidableEq, Inhabited

/-- The exchange on which pools of a kind are listed. -/
def Kind.exchange : Kind → Exchange
  | stable _ => .curveStableSwap
  | stableNg => .curveStableSwapNg
  | crypto => .curveCryptoSwap
  | triCrypto => .curveTriCrypto
  | triCryptoNg => .curveTriCryptoNg

namespace Info

/-- Whether the pool is built on another one. -/
def isMeta (info : Info) : Bool := info.basePool.isSome

/-- Whether a token is a coin of the pool itself. -/
def hasCoin (info : Info) (token : Address) : Bool := info.coins.contains token

/-- The factor of the amplification, one when it is not scaled. -/
def scale (info : Info) : Nat := info.ampScale.getD 1

/-- The unit that the contract takes off each output. -/
def roundingUnit (info : Info) : Nat := if info.roundsDown then 1 else 0

end Info

/-- The pool of three dollar coins on which metapools are built. -/
def threePool : Address := .ofNat 0xbebc44782c7db0a1a60cb6fe97d0b483032ff1c7

/-- The share token of `threePool`. -/
def threePoolShare : Address := .ofNat 0x6c3f90f043a72fa612cbac8115ee7e52bde6e490

def dai : Address := .ofNat 0x6b175474e89094c44da98b954eedeac495271d0f
def usdc : Address := .ofNat 0xa0b86991c6218b36c1d19d4a2e9eb0ce3606eb48
def usdt : Address := .ofNat 0xdac17f958d2ee523a2206206994597c13d831ec7
def weth : Address := .ofNat 0xc02aaa39b223fe8d0a0e5c4f27ead9083c756cc2
def wbtc : Address := .ofNat 0x2260fac5e5542a773aa44fbcfedf7c193bc2c599
def cDai : Address := .ofNat 0x5d3a536e4d6dbd6114cc1ead35777bab948e3643
def cUsdc : Address := .ofNat 0x39aa39c021dfbae8fac545936693ac917d5e7563

/-- The known pools. -/
def pools : List Info :=
  [{ address := .ofNat 0xdc24316b9ae028f1497c275eb9192a3ea0f67022, kind := .stable .balances,
     coins := [.ofNat 0xeeeeeeeeeeeeeeeeeeeeeeeeeeeeeeeeeeeeeeee, .ofNat 0xae7ab96520de3a18e5e111b5eaab095312d7fe84],
     precisions := [1, 10 ^ 12], roundsDown := true, plusOne := true,
     shareToken := some (.ofNat 0x06325440d014e39736583c165c2963ba99faf14e) },
   { address := .ofNat 0x9c3b46c0ceb5b9e304fcd6d88fc50f7dd24b31bc, kind := .stable .rateMultipliers,
     coins := [weth, .ofNat 0x5e8422345238f34275888049021821e8e08caa1f], rateMultipliers := [10 ^ 18, 10 ^ 18],
     roundsDown := true },
   { address := threePool, kind := .stable .rates, coinCount := 3, coins := [dai, usdc, usdt],
     precisions := [1, 10 ^ 12, 10 ^ 12], roundsDown := true, shareToken := some threePoolShare },
   { address := .ofNat 0xa5407eae9ba41422680e2e00537571bcc53efbfd, kind := .stable .lending, coinCount := 4,
     coins := [dai, usdc, usdt, .ofNat 0x57ab1ec28d129707052df4df418d58a2d46d5f51],
     precisions := [1, 10 ^ 12, 10 ^ 12, 1], lending := [false, false, false, false], signedIndex := true },
   { address := .ofNat 0x52ea46506b9cc5ef470c5bf89f17dc28bb35d85c, kind := .stable .lending, coinCount := 3,
     coins := [cDai, cUsdc, usdt], precisions := [1, 10 ^ 12, 10 ^ 12], lending := [true, true, false],
     signedIndex := true },
   { address := .ofNat 0xdebf20617708857ebe4f679508e7b7863a8a8eee, kind := .stable .aave, coinCount := 3,
     precisions := [1, 10 ^ 12, 10 ^ 12], ampScale := some 100 },
   { address := .ofNat 0x2dded6da1bf5dbdf597c45fcfaa3194e53ecfeaf, kind := .stable .storedRates, coinCount := 3,
     coins := [.ofNat 0x8e595470ed749b85c6f7669de83eae304c2ec68f, .ofNat 0x76eb2fe28b36b3ee97f3adae0c69606eedb2a37c,
       .ofNat 0x48759f220ed983db51fa7a8c0d2aab8f3ce4166a],
     precisions := [1, 10 ^ 12, 10 ^ 12], ampScale := some 100, roundsDown := true },
   { address := .ofNat 0xa2b47e3d5c44877cca798226b7b8118f9bfb7a56, kind := .stable .lending,
     coins := [cDai, cUsdc], precisions := [1, 10 ^ 12], lending := [true, true], signedIndex := true },
   { address := .ofNat 0x06364f10b501e868329afbc005b3492902d6c763, kind := .stable .lendingPricePerShare,
     coinCount := 4,
     coins := [.ofNat 0x99d1fa417f94dcd62bfe781a1213c092a47041bc, .ofNat 0x9777d7e2b60bb01759d0e2f8be2095df444cb07e,
       .ofNat 0x1be5d71f2da660bfdee8012ddc58d024448a0a59, .ofNat 0x8e870d67f660d95d5be530380d0ec0bd388289e1],
     precisions := [1, 10 ^ 12, 10 ^ 12, 1], lending := [true, true, true, false], roundsDown := true,
     signedIndex := true },
   { address := .ofNat 0x0f9cb53ebe405d49a0bbdbd291a65ff571bc83e1, kind := .stable .baseVirtualPrice,
     coins := [.ofNat 0x674c6ad92fd080e4004b2312b45f796a192d27a0, threePoolShare], precisions := [1, 1],
     ampScale := some 100, roundsDown := true, basePool := some threePool, baseCoinCount := 3,
     baseCacheExpires := 600 },
   { address := .ofNat 0x4f062658eaaf2c1ccf8c8e36d6824cdf41167956, kind := .stable .baseVirtualPrice,
     coins := [.ofNat 0x056fd409e1d7a124bd7017459dfea2f387b6d5cd, threePoolShare], precisions := [10 ^ 16, 1],
     ampScale := some 100, roundsDown := true, basePool := some threePool, baseCoinCount := 3,
     baseCacheExpires := 600 },
   { address := .ofNat 0xa5588f7cdf560811710a2d82d3c9c99769db1dcb, kind := .stableNg },
   { address := .ofNat 0xce6431d21e3fb1036ce9973a3312368ed96f5ce7, kind := .stableNg },
   { address := .ofNat 0x00e6fd108c4640d21b40d02f18dd6fe7c7f725ca, kind := .stableNg,
     coins := [.ofNat 0x0e573ce2736dd9637a0b21058352e1667925c7a8, threePoolShare], basePool := some threePool,
     baseCoinCount := 3 },
   { address := .ofNat 0xc83b79c07ece44b8b99ffa0e235c00add9124f9e, kind := .stableNg,
     coins := [.ofNat 0x59d9356e565ab3a36dd77763fc0d87feaf85508c, threePoolShare], basePool := some threePool,
     baseCoinCount := 3 },
   { address := .ofNat 0x9409280dc1e6d33ab7a8c6ec03e5763fb61772b5, kind := .crypto,
     coins := [weth, .ofNat 0x5a98fcbea516cf06857215779fd812ca3bef1b32] },
   { address := .ofNat 0xb576491f1e6e5e62f1d8f26062ee822b40b0e0d4, kind := .crypto,
     coins := [weth, .ofNat 0x4e3fbd56cd56c3e72c1403e103b45db9da5b9d2b] },
   { address := .ofNat 0xd51a44d3fae010294c616388b506acda1bfaae46, kind := .triCrypto, coinCount := 3,
     coins := [usdt, wbtc, weth], precisions := [10 ^ 12, 10 ^ 10, 1] },
   { address := .ofNat 0x7f86bf177dd4f3494b841a37e810a34dd56c829b, kind := .triCryptoNg, coinCount := 3,
     coins := [usdc, wbtc, weth] },
   { address := .ofNat 0x2570f1bd5d2735314fc102eb12fc1afe9e6e7193, kind := .triCryptoNg, coinCount := 3,
     coins := [.ofNat 0x7f39c581f595b53c5cb19bd0b3f8da6c935e2ca0, .ofNat 0xae78736cd615f374d3085123a210448e74fc6393,
       .ofNat 0xac3e018457b222d93114458476f3e3416abbe38f] }]

/-- The known pool at an address. -/
def lookup (pool : Address) : Option Info := pools.find? fun info => info.address = pool

/-- The tokens that a metapool trades through its base pool: its own coins but the last, then those of the base. -/
def Info.underlyingCoins (info : Info) : Option (List Address) := do
  let base ← lookup (← info.basePool)
  if info.coinCount = 0 then none
  return info.coins.take (info.coinCount - 1) ++ base.coins

/-- The tokens under which the pool is listed: the underlying ones of a metapool, its own coins otherwise. -/
def Info.listedTokens (info : Info) : List Address := info.underlyingCoins.getD info.coins

/-- The known pools that are listed for both tokens. -/
def poolsFor (a b : Address) : List Info :=
  pools.filter fun info => info.listedTokens.contains a ∧ info.listedTokens.contains b

end Curve
end Searcher

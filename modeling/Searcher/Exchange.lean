/-
# Exchanges

Each exchange has a number, which the attacker contract dispatches on, and belongs to a pricing family.

| family | exchanges |
| --- | --- |
| concentrated | 1, 3, 5, 15 |
| Curve | 16 to 20, a family each |
| constant product | all others |
-/

namespace Searcher

/-- A way to price swaps. -/
inductive Family where
  | constantProduct
  | concentrated
  | stableSwap
  | stableSwapNg
  | cryptoSwap
  | triCrypto
  | triCryptoNg
deriving DecidableEq, Repr, Inhabited

/-- An exchange that the program trades on. -/
inductive Exchange where
  | uniswapV2 | uniswapV3 | sushiswapV2 | sushiswapV3 | pancakeswapV2 | pancakeswapV3 | thena | biswap | apeswap | mdex
  | babyswap | nomiswap | waultswap | gibxswap | bakeryswap | thenaFusion | curveStableSwap | curveStableSwapNg
  | curveCryptoSwap | curveTriCrypto | curveTriCryptoNg
deriving DecidableEq, Repr, Inhabited

namespace Exchange

/-- All exchanges in the order of their numbers. -/
def all : List Exchange :=
  [uniswapV2, uniswapV3, sushiswapV2, sushiswapV3, pancakeswapV2, pancakeswapV3, thena, biswap, apeswap, mdex,
    babyswap, nomiswap, waultswap, gibxswap, bakeryswap, thenaFusion, curveStableSwap, curveStableSwapNg,
    curveCryptoSwap, curveTriCrypto, curveTriCryptoNg]

/-- The number of the exchange. -/
def id (e : Exchange) : Nat := e.ctorIdx

/-- The exchange with a number. -/
def ofId? (n : Nat) : Option Exchange := all[n]?

/-- **Numbers are read back:** the number of an exchange stands for it, in the order that `all` lists them. -/
theorem ofId?_id (e : Exchange) : ofId? e.id = some e := by
  cases e <;> rfl

/-- The pricing family of the exchange. -/
def family : Exchange → Family
  | uniswapV3 | sushiswapV3 | pancakeswapV3 | thenaFusion => .concentrated
  | curveStableSwap => .stableSwap
  | curveStableSwapNg => .stableSwapNg
  | curveCryptoSwap => .cryptoSwap
  | curveTriCrypto => .triCrypto
  | curveTriCryptoNg => .triCryptoNg
  | _ => .constantProduct

/-- Whether its pools are pairs of reserves. -/
def isConstantProduct (e : Exchange) : Bool := e.family = .constantProduct

/-- The name of the exchange for people. -/
def name : Exchange → String
  | uniswapV2 => "Uniswap V2"
  | uniswapV3 => "Uniswap V3"
  | sushiswapV2 => "SushiSwap V2"
  | sushiswapV3 => "SushiSwap V3"
  | pancakeswapV2 => "PancakeSwap V2"
  | pancakeswapV3 => "PancakeSwap V3"
  | thena => "Thena"
  | biswap => "Biswap"
  | apeswap => "ApeSwap"
  | mdex => "MDEX"
  | babyswap => "BabySwap"
  | nomiswap => "NomiSwap"
  | waultswap => "WaultSwap"
  | gibxswap => "GibXSwap"
  | bakeryswap => "BakerySwap"
  | thenaFusion => "Thena Fusion"
  | curveStableSwap => "Curve StableSwap"
  | curveStableSwapNg => "Curve StableSwap-NG"
  | curveCryptoSwap => "Curve CryptoSwap"
  | curveTriCrypto => "Curve TriCrypto"
  | curveTriCryptoNg => "Curve TriCrypto-NG"

end Exchange
end Searcher

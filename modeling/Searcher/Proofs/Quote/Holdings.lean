/-
# What quotes are paid from

A pool is listed for tokens, and some contract holds each of them: the pool, or for a coin of a base pool that pool.
`PoolState.Lists` says which listings there are, and what the holders have of each token. A pair has one, and so have
the pools of volatile coins. A stableswap pool is listed for its own coins, or, when it is built on another pool, for
the coins that it trades through it. Which of the two a quote means is read off the tokens, so the table of known pools
has to keep them apart: no coin of a base pool is a coin of a metapool on it (`Curve.underlyingCoins_known`).

What a pool with a listing pays for a token is covered by what is held of it (`Pool.quoteAt_covered`), route by route
as in `Searcher.Proofs.Curve.Payout`; a pair always keeps some of its output token (`Pool.quoteAt_lt`).
-/

import Searcher.Proofs.Curve.Payout
import Searcher.Proofs.Solver.Sandwich

namespace Searcher
namespace Curve

open Checked

/-- The pool's own coins in their order: those known of it, or as many as it has where none are known. -/
def Info.OwnCoins (info : Info) (tokens : List Address) : Prop :=
  tokens.length = info.coinCount ∧ (info.coins = [] ∨ tokens = info.coins)

/-! ### The table of known pools -/

variable {info : Info} {tokens : List Address}

/-- Coins are unknown only of pools that are quoted by index, whatever their tokens are. -/
theorem kind_of_coins_eq_nil (known : info ∈ pools) (h : info.coins = []) :
    info.kind = .stable .aave ∨ info.kind = .stableNg := by
  have htable : ∀ info ∈ pools, info.coins = [] → info.kind = .stable .aave ∨ info.kind = .stableNg := by decide
  exact htable info known h

/-- A pool that is listed through its base pool has two coins, and none of the base pool's coins is its own. -/
theorem underlyingCoins_known (known : info ∈ pools) (h : info.underlyingCoins = some tokens) :
    (info.kind = .stable .baseVirtualPrice ∨ info.kind = .stableNg) ∧ info.coinCount = 2 ∧ info.coins ≠ [] ∧
      ∀ token ∈ tokens.tail, info.hasCoin token = false := by
  have htable : ∀ info ∈ pools, ∀ tokens ∈ info.underlyingCoins,
      (info.kind = .stable .baseVirtualPrice ∨ info.kind = .stableNg) ∧ info.coinCount = 2 ∧ info.coins ≠ [] ∧
        ∀ token ∈ tokens.tail, info.hasCoin token = false := by decide
  exact htable info known tokens h

/-- A pool whose coins are known lists as many as it has. -/
theorem coins_length (known : info ∈ pools) (h : info.coins ≠ []) : info.coins.length = info.coinCount := by
  have htable : ∀ info ∈ pools, info.coins ≠ [] → info.coins.length = info.coinCount := by decide
  exact htable info known h

/-- What is looked up is one of the known pools. -/
theorem mem_of_lookup {pool : Address} (h : lookup pool = some info) : info ∈ pools := List.mem_of_find?_eq_some h

/-! ### Which coins a quote means -/

variable {i j amountIn out k : Nat}

/-- Every entry of a pool's own list is a coin of the pool. -/
theorem hasCoin_getElem (hk : k < info.coins.length) : (info.coins[k]?).any info.hasCoin = true := by
  rw [List.getElem?_eq_getElem hk]
  exact List.contains_iff_mem.2 (List.getElem_mem hk)

/-- Of two different tokens of a listing through the base pool, one is no coin of the metapool. -/
theorem not_own_and_own (known : info ∈ pools) (h : info.underlyingCoins = some tokens) (hij : i ≠ j)
    (hi : i < tokens.length) (hj : j < tokens.length) :
    ¬ ((tokens[i]?).any info.hasCoin = true ∧ (tokens[j]?).any info.hasCoin = true) := by
  have hlater : ∀ k, 0 < k → k < tokens.length → (tokens[k]?).any info.hasCoin = false := by
    intro k hpos hk
    have hmem : tokens[k] ∈ tokens.tail := by
      rw [List.mem_iff_getElem]
      exact ⟨k - 1, by rw [List.length_tail]; omega, by rw [List.getElem_tail]; congr 1; omega⟩
    rw [List.getElem?_eq_getElem hk]
    exact (underlyingCoins_known known h).2.2.2 _ hmem
  rintro ⟨hi', hj'⟩
  obtain hpos | hpos : 0 < i ∨ 0 < j := by omega
  · rw [hlater i hpos hi] at hi'
    cases hi'
  · rw [hlater j hpos hj] at hj'
    cases hj'

namespace StableState

variable {s : StableState}

/-- A pool that is scaled in some way is of the kind that is so scaled. -/
theorem kind_of_scaling {scaling : Scaling} (h : s.scaling = .ok scaling) : s.info.kind = .stable scaling := by
  unfold StableState.scaling at h
  split at h
  · rename_i scaling' hkind
    obtain rfl : scaling' = scaling := Except.ok.inj h
    exact hkind
  · cases h

/-- A swap of a pool's own coins is paid by the pool. -/
theorem swap_own_covered (known : s.info ∈ pools) (own : s.info.OwnCoins tokens) (hi : i < tokens.length)
    (hj : j < tokens.length) (h : s.swap tokens i j amountIn = .ok out) : Covers s.balances j out := by
  obtain ⟨scaling, hscaling, h⟩ := bind_eq_ok.1 h
  have hkind := kind_of_scaling hscaling
  -- but for the one scaling that does not look at the tokens, the coins of the pool are known
  have hown : scaling ≠ .aave → ∀ k < tokens.length, s.ownCoin tokens k = true := by
    intro hne k hk
    obtain hnil | rfl := own.2
    · obtain h | h := kind_of_coins_eq_nil known hnil
      · rw [hkind] at h
        exact absurd (Kind.stable.inj h) hne
      · rw [hkind] at h
        cases h
    · exact hasCoin_getElem hk
  cases scaling with
  | balances => exact swapBalances_covered h
  | rates => exact swapRates_covered h
  | aave => exact swapAave_covered h
  | storedRates =>
    rw [hown (by decide) i hi] at h
    exact swapStoredRates_covered h
  | lending =>
    rw [hown (by decide) i hi] at h
    exact swapLending_covered h
  | lendingPricePerShare =>
    rw [hown (by decide) i hi, hown (by decide) j hj] at h
    exact swapLending_covered h
  | rateMultipliers => exact swapRateMultipliers_covered h
  | baseVirtualPrice =>
    rw [if_pos ⟨hown (by decide) i hi, hown (by decide) j hj⟩] at h
    exact swapMeta_covered h

/-- A swap through the base pool is paid by the metapool in its first coin, and by the base pool in the others. -/
theorem swap_base_covered {v : MetaView} (known : s.info ∈ pools) (listed : s.info.underlyingCoins = some tokens)
    (hview : s.metaView = some v) (hcount : s.balances.length = s.info.coinCount) (hij : i ≠ j)
    (hi : i < tokens.length) (hj : j < tokens.length) (h : s.swap tokens i j amountIn = .ok out) :
    Covers (s.balances.take (s.info.coinCount - 1) ++ v.base.balances) j out := by
  obtain ⟨scaling, hscaling, h⟩ := bind_eq_ok.1 h
  have hkind := kind_of_scaling hscaling
  obtain rfl : scaling = .baseVirtualPrice := by
    obtain h | h := (underlyingCoins_known known listed).1
    · exact Kind.stable.inj (hkind.symm.trans h)
    · rw [hkind] at h
      cases h
  have hboth : ¬ (s.ownCoin tokens i = true ∧ s.ownCoin tokens j = true) := not_own_and_own known listed hij hi hj
  rw [← hcount]
  change (if s.ownCoin tokens i = true ∧ s.ownCoin tokens j = true then s.swapMeta i j amountIn
    else s.swapUnderlying i j amountIn) = .ok out at h
  rw [if_neg hboth] at h
  exact swapUnderlying_covered hview h

end StableState

namespace StableNgState

variable {s : StableNgState}

/-- A swap of a pool's own coins is paid by the pool, in the next generation too. Listed coins that are not known are
quoted by index, so they are the pool's own. -/
theorem swap_own_covered (own : s.info.OwnCoins tokens) (hi : i < tokens.length) (hj : j < tokens.length)
    (h : s.swap tokens i j amountIn = .ok out) : Covers s.balances j out := by
  unfold StableNgState.swap at h
  rw [if_pos] at h
  · exact swapOwn_covered h
  · obtain hnil | rfl := own.2
    · simp [hnil]
    · simp only [ownCoin, hasCoin_getElem hi, hasCoin_getElem hj, Bool.and_self, Bool.or_true]

/-- A swap through the base pool is paid by the metapool or by the base pool, in the next generation too. -/
theorem swap_base_covered {base : BasePool} (known : s.info ∈ pools) (listed : s.info.underlyingCoins = some tokens)
    (hbase : s.base = some base) (hij : i ≠ j) (hi : i < tokens.length) (hj : j < tokens.length)
    (h : s.swap tokens i j amountIn = .ok out) :
    Covers (s.balances.take (s.info.coinCount - 1) ++ base.balances) j out := by
  obtain ⟨-, hcount, hsome, -⟩ := underlyingCoins_known known listed
  unfold StableNgState.swap at h
  rw [if_neg] at h
  · rw [hcount]
    exact swapUnderlying_covered hbase h
  · have hboth := not_own_and_own known listed hij hi hj
    simpa [hsome, ownCoin] using hboth

end StableNgState
end Curve

namespace ConstantProduct

variable {amountIn reserveIn reserveOut out : Nat} {fee : Fee}

/-- A pair keeps some of its output token. -/
theorem amountOut_lt (h : amountOut amountIn reserveIn reserveOut fee = .ok out) : out < reserveOut := by
  obtain ⟨hdenominator, rfl⟩ := amountOut_eq_ok h
  obtain ⟨hin, hout⟩ := reserves_pos h
  -- a fee without a base leaves nothing of an input, and nothing is paid at all
  have hbase : fee.base ≠ 0 := by
    intro hzero
    simp [Fee.keep, hzero] at hdenominator
  have hweight : 0 < reserveIn * fee.base := Nat.mul_pos (by omega) (by omega)
  refine Nat.div_lt_of_lt_mul ?_
  exact Nat.mul_lt_mul_of_pos_right (by omega) (by omega)

end ConstantProduct

open Curve

/-- A listing of a pool, and what is held of each token of it by the contract that pays it: the pool itself, or, for the
coins of its base pool, that pool. -/
inductive PoolState.Lists : PoolState → List Address → List Nat → Prop
  | constantProduct {token0 token1 : Address} {reserve0 reserve1 : Nat} {fee : Fee} :
    Lists (.constantProduct reserve0 reserve1 fee) [token0, token1] [reserve0, reserve1]
  | stableSwap {s : StableState} {tokens : List Address} (known : s.info ∈ pools) (own : s.info.OwnCoins tokens) :
    Lists (.stableSwap s) tokens s.balances
  | stableSwapBase {s : StableState} {tokens : List Address} {v : MetaView} (known : s.info ∈ pools)
    (listed : s.info.underlyingCoins = some tokens) (view : s.metaView = some v)
    (base : s.info.basePool.bind lookup = some v.base.info) (count : s.balances.length = s.info.coinCount) :
    Lists (.stableSwap s) tokens (s.balances.take (s.info.coinCount - 1) ++ v.base.balances)
  | stableSwapNg {s : StableNgState} {tokens : List Address} (known : s.info ∈ pools) (own : s.info.OwnCoins tokens) :
    Lists (.stableSwapNg s) tokens s.balances
  | stableSwapNgBase {s : StableNgState} {tokens : List Address} {base : BasePool} (known : s.info ∈ pools)
    (listed : s.info.underlyingCoins = some tokens) (view : s.base = some base)
    (info : s.info.basePool.bind lookup = some base.info) :
    Lists (.stableSwapNg s) tokens (s.balances.take (s.info.coinCount - 1) ++ base.balances)
  | cryptoSwap {s : CryptoState} {tokens : List Address} (count : tokens.length = 2) :
    Lists (.cryptoSwap s) tokens s.balances.toList
  | triCrypto {s : TriCryptoState} {tokens : List Address} (count : tokens.length = 3) :
    Lists (.triCrypto s) tokens s.balances.toList
  | triCryptoNg {s : TriCryptoNgState} {tokens : List Address} (count : tokens.length = 3) :
    Lists (.triCryptoNg s) tokens s.balances.toList

namespace Pool

variable {σ : Type} {pool : Pool} {ticks : TickSource σ} {holdings : List Nat} {amountIn i j out : Nat} {t t' : σ}

/-- A token is found at a position of the pool's list. -/
theorem indexOf?_lt {token : Address} (h : pool.indexOf? token = some i) : i < pool.tokens.length := by
  obtain ⟨hlt, -⟩ := List.findIdx?_eq_some_iff_getElem.1 h
  exact hlt

/-- Of the reserve that a pair pays from, some is left. -/
theorem quoteAt_lt (hlists : pool.state.Lists pool.tokens holdings) (hfamily : pool.state.family = .constantProduct)
    (hij : i ≠ j) (hi : i < pool.tokens.length) (hj : j < pool.tokens.length)
    (h : pool.quoteAt ticks amountIn i j t = (.ok out, t')) : ∃ held, holdings[j]? = some held ∧ out < held := by
  obtain ⟨address, exchange, tokens, state⟩ := pool
  change state.Lists tokens holdings at hlists
  cases hlists with
  | @constantProduct token0 token1 reserve0 reserve1 fee =>
    change i < 2 at hi
    change j < 2 at hj
    obtain ⟨rfl, rfl⟩ | ⟨rfl, rfl⟩ : (i = 0 ∧ j = 1) ∨ (i = 1 ∧ j = 0) := by omega
    · obtain ⟨hout, -⟩ := Ticking.lift_eq_ok.1 h
      exact ⟨reserve1, rfl, ConstantProduct.amountOut_lt hout⟩
    · obtain ⟨hout, -⟩ := Ticking.lift_eq_ok.1 h
      exact ⟨reserve0, rfl, ConstantProduct.amountOut_lt hout⟩
  | _ => cases hfamily

/-- What is paid for a token of a listing is covered by what is held of it. -/
theorem quoteAt_covered (hlists : pool.state.Lists pool.tokens holdings) (hij : i ≠ j) (hi : i < pool.tokens.length)
    (hj : j < pool.tokens.length) (h : pool.quoteAt ticks amountIn i j t = (.ok out, t')) : Covers holdings j out := by
  obtain ⟨address, exchange, tokens, state⟩ := pool
  change state.Lists tokens holdings at hlists
  cases hlists with
  | constantProduct =>
    obtain ⟨held, hheld, hlt⟩ := quoteAt_lt .constantProduct rfl hij hi hj h
    exact ⟨held, hheld, Nat.le_of_lt hlt⟩
  | stableSwap known own =>
    obtain ⟨hout, -⟩ := Ticking.lift_eq_ok.1 h
    exact StableState.swap_own_covered known own hi hj hout
  | stableSwapBase known listed view base count =>
    obtain ⟨hout, -⟩ := Ticking.lift_eq_ok.1 h
    exact StableState.swap_base_covered known listed view count hij hi hj hout
  | stableSwapNg known own =>
    obtain ⟨hout, -⟩ := Ticking.lift_eq_ok.1 h
    exact StableNgState.swap_own_covered own hi hj hout
  | stableSwapNgBase known listed view base =>
    obtain ⟨hout, -⟩ := Ticking.lift_eq_ok.1 h
    exact StableNgState.swap_base_covered known listed view hij hi hj hout
  | cryptoSwap count =>
    obtain ⟨hout, -⟩ := Ticking.lift_eq_ok.1 h
    exact CryptoState.swap_covered hout
  | triCrypto count =>
    obtain ⟨hout, -⟩ := Ticking.lift_eq_ok.1 h
    exact TriCryptoState.swap_covered hout
  | triCryptoNg count =>
    obtain ⟨hout, -⟩ := Ticking.lift_eq_ok.1 h
    exact TriCryptoNgState.swap_covered hout

/-- **A quote is the quote of two positions:** it succeeds where both tokens are listed at different places and the
formula of the pool's family does, from the same state and to the same state. -/
theorem quote_eq_ok {ticks : Address → TickSource σ} {tokenIn tokenOut : Address}
    (h : pool.quote ticks amountIn tokenIn tokenOut t = (.ok out, t')) :
    ∃ i j, pool.indexOf? tokenIn = some i ∧ pool.indexOf? tokenOut = some j ∧ i ≠ j ∧
      pool.quoteAt (ticks pool.address) amountIn i j t = (.ok out, t') := by
  unfold quote at h
  cases hi : pool.indexOf? tokenIn with
  | none =>
    rw [hi] at h
    cases (Prod.mk.inj h).1
  | some i =>
    cases hj : pool.indexOf? tokenOut with
    | none =>
      rw [hi, hj] at h
      cases (Prod.mk.inj h).1
    | some j =>
      simp only [hi, hj] at h
      by_cases hij : i = j
      · rw [if_neg (not_not_intro hij)] at h
        cases (Prod.mk.inj h).1
      · rw [if_pos hij] at h
        exact ⟨i, j, rfl, rfl, hij, h⟩

end Pool
end Searcher

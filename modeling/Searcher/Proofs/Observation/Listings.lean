/-
# The listings of loaded pools

What a pool is listed for is settled when it is first loaded: a refresh replaces its state and leaves its tokens. So the
tokens have to fit every state that may be loaded for the address later. They do, because tokens and state both come
from the same entry of the table of known pools (`PoolSpec.contents?_lists`), and a pool is loaded again under the
exchange it has (`Pool.Loaded.invariant`). So a loaded pool has a listing, for its own coins or through its base pool,
and its quotes are paid from what is held of them (`Pool.quote_covered`).
-/

import Searcher.Observation.Pools
import Searcher.Proofs.Quote.Holdings

namespace Searcher
namespace Curve

variable {o : Observed} {info : Info} {tokens : List Address} {block timestamp amp fee : Nat}

/-- What is decoded of a list has one value for each member. -/
theorem length_of_mapM? {α β : Type} {f : α → Option β} {xs : List α} {ys : List β} (h : xs.mapM f = some ys) :
    ys.length = xs.length := by
  induction xs generalizing ys with
  | nil =>
    obtain rfl : [] = ys := Option.some.inj h
    rfl
  | cons x xs ih =>
    simp only [List.mapM_cons, Option.bind_eq_bind, Option.bind_eq_some_iff] at h
    obtain ⟨y, -, rest, hrest, h⟩ := h
    obtain rfl : y :: rest = ys := Option.some.inj h
    rw [List.length_cons, List.length_cons, ih hrest]

/-- Pools of volatile coins have two or three of them. -/
theorem volatile_coinCount (known : info ∈ pools) : (info.kind = .crypto → info.coinCount = 2) ∧
    (info.kind = .triCrypto → info.coinCount = 3) ∧ (info.kind = .triCryptoNg → info.coinCount = 3) := by
  have htable : ∀ info ∈ pools, (info.kind = .crypto → info.coinCount = 2) ∧
      (info.kind = .triCrypto → info.coinCount = 3) ∧ (info.kind = .triCryptoNg → info.coinCount = 3) := by decide
  exact htable info known

/-- The tokens that a known pool is loaded with: its listing, or as many as it has coins when none are known. -/
def Info.Loads (info : Info) (tokens : List Address) : Prop :=
  if info.coins = [] then tokens.length = info.coinCount else tokens = info.listedTokens

/-- The tokens that a Curve pool is loaded with are its own coins, or the list that goes through its base pool. -/
theorem tokens?_loads (h : tokens? o info = some tokens) : info.Loads tokens := by
  unfold tokens? at h
  unfold Info.Loads
  by_cases hcoins : info.coins = []
  · rw [if_pos hcoins]
    rw [if_pos (List.isEmpty_iff.2 hcoins)] at h
    rw [length_of_mapM? h, List.length_range]
  · rw [if_neg hcoins]
    rw [if_neg (fun hempty => hcoins (List.isEmpty_iff.1 hempty))] at h
    exact (Option.some.inj h).symm

/-- They are the pool's own coins, or those that it trades through its base pool. -/
theorem Info.Loads.own_or_base (known : info ∈ pools) (h : info.Loads tokens) :
    info.underlyingCoins = none ∧ info.OwnCoins tokens ∨ info.underlyingCoins = some tokens := by
  unfold Info.Loads at h
  cases hbase : info.underlyingCoins with
  | none =>
    refine .inl ⟨rfl, ?_⟩
    split at h
    · rename_i hcoins
      exact ⟨h, .inl hcoins⟩
    · rename_i hcoins
      obtain rfl : tokens = info.coins := by rw [h, Info.listedTokens, hbase]; rfl
      exact ⟨coins_length known hcoins, .inr rfl⟩
  | some underlying =>
    have hcoins := (underlyingCoins_known known hbase).2.2.1
    rw [if_neg hcoins, Info.listedTokens, hbase] at h
    exact .inr (congrArg some h.symm)

/-- The base pool that is put together is the one that the table names. -/
theorem base?_info {base : BasePool × Nat} (h : base? o info = some base) :
    info.basePool.bind lookup = some base.1.info := by
  simp only [base?, Option.bind_eq_bind, Option.bind_eq_some_iff] at h
  obtain ⟨address, haddress, baseInfo, hinfo, amp, -, fee, -, balances, -, share, -, supply, -, price, -, h⟩ := h
  obtain rfl := Option.some.inj h
  rw [haddress]
  exact hinfo

/-- A state is completed by what its scaling needs: that of a metapool by the base pool it is built on. -/
theorem scaled?_eq_some {s s' : StableState} {scaling : Scaling} (h : scaled? o s scaling = some s') :
    s'.info = s.info ∧ s'.balances = s.balances ∧ (scaling = .baseVirtualPrice →
      ∃ v, s'.metaView = some v ∧ s.info.basePool.bind lookup = some v.base.info) := by
  cases scaling with
  | aave | storedRates | lending | lendingPricePerShare =>
    simp only [scaled?, Option.bind_eq_bind, Option.bind_eq_some_iff] at h
    obtain ⟨added, -, h⟩ := h
    obtain rfl := Option.some.inj h
    exact ⟨rfl, rfl, fun hmeta => nomatch hmeta⟩
  | balances | rates | rateMultipliers =>
    obtain rfl := Option.some.inj h
    exact ⟨rfl, rfl, fun hmeta => nomatch hmeta⟩
  | baseVirtualPrice =>
    simp only [scaled?, Option.bind_eq_bind, Option.bind_eq_some_iff] at h
    obtain ⟨base, hbase, cachedAt, -, cached, -, h⟩ := h
    obtain rfl := Option.some.inj h
    exact ⟨rfl, rfl, fun _ => ⟨_, rfl, base?_info hbase⟩⟩

/-- A stableswap pool of the first generation holds a balance for each token of its own, or for each coin of its base
pool that its list goes through. -/
theorem stable?_lists {s : StableState} {scaling : Scaling} (known : info ∈ pools)
    (hkind : info.kind = .stable scaling) (hloads : info.Loads tokens)
    (h : stable? o info scaling amp fee block timestamp = some s) :
    ∃ holdings, PoolState.Lists (.stableSwap s) tokens holdings := by
  simp only [stable?, Option.bind_eq_bind, Option.bind_eq_some_iff] at h
  obtain ⟨balances, hbalances, h⟩ := h
  obtain ⟨hinfo, hsame, hview⟩ := scaled?_eq_some h
  have hlength : balances.length = info.coinCount := by
    rw [length_of_mapM? hbalances, List.length_range]
  change s.info = info at hinfo
  change s.balances = balances at hsame
  subst hinfo hsame
  obtain ⟨-, own⟩ | listed := hloads.own_or_base known
  · exact ⟨_, .stableSwap known own⟩
  · obtain hbase | hbase := (underlyingCoins_known known listed).1
    · obtain ⟨v, hv, hinfo⟩ := hview (Kind.stable.inj (hkind.symm.trans hbase))
      exact ⟨_, .stableSwapBase known listed hv hinfo hlength⟩
    · rw [hkind] at hbase
      cases hbase

/-- So does one of the next generation. -/
theorem stableNg?_lists {s : StableNgState} (known : info ∈ pools) (hloads : info.Loads tokens)
    (h : stableNg? o info amp fee = some s) : ∃ holdings, PoolState.Lists (.stableSwapNg s) tokens holdings := by
  obtain ⟨hinfo, hbase⟩ : s.info = info ∧ (info.isMeta = true → ∃ base, s.base = some base ∧
      info.basePool.bind lookup = some base.info) := by
    unfold stableNg? at h
    by_cases hmeta : info.isMeta = true
    · simp only [if_pos hmeta, Option.bind_eq_bind, Option.bind_eq_some_iff, Option.map_eq_some_iff] at h
      obtain ⟨base, ⟨b, hb, rfl⟩, offpeg, -, balances, -, rates, -, h⟩ := h
      obtain rfl := Option.some.inj h
      exact ⟨rfl, fun _ => ⟨b.1, rfl, base?_info hb⟩⟩
    · simp only [if_neg hmeta, Option.bind_eq_bind, Option.bind_eq_some_iff] at h
      obtain ⟨base, -, offpeg, -, balances, -, rates, -, h⟩ := h
      obtain rfl := Option.some.inj h
      exact ⟨rfl, fun hmeta' => absurd hmeta' hmeta⟩
  subst hinfo
  obtain ⟨-, own⟩ | listed := hloads.own_or_base known
  · exact ⟨_, .stableSwapNg known own⟩
  · have hmeta : s.info.isMeta = true := by
      by_contra hplain
      rw [Info.underlyingCoins, Option.not_isSome_iff_eq_none.1 hplain] at listed
      cases listed
    obtain ⟨base, hview, hinfo⟩ := hbase hmeta
    exact ⟨_, .stableSwapNgBase known listed hview hinfo⟩

/-- A pool of another kind is loaded with as many tokens as it has coins. -/
theorem Info.Loads.length (known : info ∈ pools) (h : info.Loads tokens)
    (hstable : ∀ scaling, info.kind ≠ .stable scaling) (hng : info.kind ≠ .stableNg) :
    tokens.length = info.coinCount := by
  obtain ⟨-, own⟩ | listed := h.own_or_base known
  · exact own.1
  · obtain hkind | hkind := (underlyingCoins_known known listed).1
    · exact absurd hkind (hstable _)
    · exact absurd hkind hng

/-- The state that is told of a known pool fits every list of tokens that it may have been loaded with. -/
theorem state?_lists {state : PoolState} (known : info ∈ pools) (hloads : info.Loads tokens)
    (h : state? o info block timestamp = some state) : ∃ holdings, state.Lists tokens holdings := by
  simp only [state?, Option.bind_eq_bind, Option.bind_eq_some_iff] at h
  obtain ⟨amp, -, fee, -, h⟩ := h
  have hlength := hloads.length known
  cases hkind : info.kind with
  | stable scaling =>
    rw [hkind] at h
    obtain ⟨s, hs, h⟩ := Option.bind_eq_some_iff.1 h
    obtain rfl := Option.some.inj h
    exact stable?_lists known hkind hloads hs
  | stableNg =>
    rw [hkind] at h
    obtain ⟨s, hs, h⟩ := Option.bind_eq_some_iff.1 h
    obtain rfl := Option.some.inj h
    exact stableNg?_lists known hloads hs
  | crypto =>
    have hcount := (volatile_coinCount known).1 hkind
    rw [hkind] at h hlength
    obtain ⟨s, hs, h⟩ := Option.bind_eq_some_iff.1 h
    obtain rfl := Option.some.inj h
    exact ⟨_, .cryptoSwap ((hlength (fun _ => nofun) nofun).trans hcount)⟩
  | triCrypto =>
    have hcount := (volatile_coinCount known).2.1 hkind
    rw [hkind] at h hlength
    obtain ⟨s, hs, h⟩ := Option.bind_eq_some_iff.1 h
    obtain rfl := Option.some.inj h
    exact ⟨_, .triCrypto ((hlength (fun _ => nofun) nofun).trans hcount)⟩
  | triCryptoNg =>
    have hcount := (volatile_coinCount known).2.2 hkind
    rw [hkind] at h hlength
    obtain ⟨s, hs, h⟩ := Option.bind_eq_some_iff.1 h
    obtain rfl := Option.some.inj h
    exact ⟨_, .triCryptoNg ((hlength (fun _ => nofun) nofun).trans hcount)⟩

end Curve

open Curve

variable {o : Observed} {block timestamp : Nat}

namespace PoolSpec

variable {pool : Address} {exchange : Exchange} {tokens : List Address} {state : PoolState}

/-- The tokens that a pool of a family is loaded with at an address. -/
def Loads (pool : Address) : Family → List Address → Prop
  | .constantProduct, tokens => tokens.length = 2
  | .concentrated, tokens => tokens.length = 2
  | _, tokens => ∃ info, lookup pool = some info ∧ info.Loads tokens

/-- Two tokens are loaded of a pair, and of a pool of concentrated liquidity. -/
theorem tokens?_length (h : o.tokens? pool = some tokens) : tokens.length = 2 := by
  simp only [Observed.tokens?, Option.bind_eq_bind, Option.bind_eq_some_iff] at h
  obtain ⟨token0, -, token1, -, h⟩ := h
  obtain rfl := Option.some.inj h
  rfl

/-- A pair holds its two reserves. -/
theorem pair_lists (h : Pair.state? o pool exchange = some state) (htokens : tokens.length = 2) :
    ∃ holdings, state.Lists tokens holdings := by
  obtain ⟨token0, token1, rfl⟩ := List.length_eq_two.1 htokens
  obtain ⟨words, -, h⟩ := Option.bind_eq_some_iff.1 h
  match words, h with
  | [reserve0, reserve1, last], h =>
    obtain ⟨fee, -, h⟩ := Option.bind_eq_some_iff.1 h
    obtain rfl := Option.some.inj h
    exact ⟨_, .constantProduct⟩

/-- The tokens and the state that are told of a Curve pool are those of one known pool. -/
theorem curve_contents {result : List Address × PoolState} (h : (do
      let info ← lookup pool
      return (← Curve.tokens? o info, ← Curve.state? o info block timestamp)) = some result) :
    ∃ info, lookup pool = some info ∧ info.Loads result.1 ∧
      ∀ tokens', info.Loads tokens' → ∃ holdings, result.2.Lists tokens' holdings := by
  simp only [Option.bind_eq_bind, Option.bind_eq_some_iff] at h
  obtain ⟨info, hinfo, tokens, htokens, state, hstate, h⟩ := h
  obtain rfl := Option.some.inj h
  exact ⟨info, hinfo, tokens?_loads htokens, fun _ hloads => state?_lists (mem_of_lookup hinfo) hloads hstate⟩

/-- What is told of a pool is a list of tokens for its family, and a state that fits all such lists. -/
theorem contents?_lists (h : contents? o pool exchange block timestamp = some (tokens, state)) :
    Loads pool exchange.family tokens ∧ (exchange.family ≠ .concentrated →
      ∀ tokens', Loads pool exchange.family tokens' → ∃ holdings, state.Lists tokens' holdings) := by
  unfold contents? at h
  cases hfamily : exchange.family with
  | constantProduct =>
    simp only [hfamily, Option.bind_eq_bind, Option.bind_eq_some_iff] at h
    obtain ⟨_, htokens, _, hstate, h⟩ := h
    obtain ⟨rfl, rfl⟩ := Prod.mk.inj (Option.some.inj h)
    exact ⟨tokens?_length htokens, fun _ tokens' hloads => pair_lists hstate hloads⟩
  | concentrated =>
    simp only [hfamily, Option.bind_eq_bind, Option.bind_eq_some_iff] at h
    obtain ⟨_, htokens, _, hstate, h⟩ := h
    obtain ⟨rfl, rfl⟩ := Prod.mk.inj (Option.some.inj h)
    exact ⟨tokens?_length htokens, fun hne => absurd rfl hne⟩
  | stableSwap | stableSwapNg | cryptoSwap | triCrypto | triCryptoNg =>
    rw [hfamily] at h
    obtain ⟨info, hinfo, htokens, hstate⟩ := curve_contents h
    refine ⟨⟨info, hinfo, htokens⟩, fun _ tokens' hloads => ?_⟩
    obtain ⟨info', hinfo', hloads⟩ := hloads
    obtain rfl : info = info' := Option.some.inj (hinfo.symm.trans hinfo')
    exact hstate tokens' hloads

/-- The exchange that a factory shows is of the family that was asked for. -/
theorem exchangeFrom_family (spec : PoolSpec) (o : Observed) : (spec.exchangeFrom o).family = spec.exchange.family := by
  unfold exchangeFrom
  split
  · split
    · rename_i halike
      exact (of_decide_eq_true halike).1
    · rfl
  · rfl

/-- A pool that is put together has the address and the family that were asked for. -/
theorem assemble?_eq_some {spec : PoolSpec} {pool : Pool} (h : spec.assemble? o block timestamp = some pool) :
    pool.address = spec.pool ∧ pool.exchange.family = spec.exchange.family ∧ pool.state.family = spec.exchange.family ∧
      contents? o spec.pool pool.exchange block timestamp = some (pool.tokens, pool.state) := by
  simp only [assemble?, Option.bind_eq_bind, Option.bind_eq_some_iff] at h
  obtain ⟨⟨tokens, state⟩, hcontents, h⟩ := h
  unfold Pool.make at h
  split at h
  · rename_i hfamily
    obtain rfl := Option.some.inj h
    have hsame := spec.exchangeFrom_family o
    exact ⟨rfl, hsame, hfamily.symm.trans hsame, hcontents⟩
  · cases h

end PoolSpec

/-- A pool that was loaded, and perhaps refreshed since. -/
inductive Pool.Loaded : Pool → Prop
  | first {spec : PoolSpec} {o : Observed} {block timestamp : Nat} {pool : Pool}
    (h : spec.assemble? o block timestamp = some pool) : Loaded pool
  | again {o : Observed} {block timestamp : Nat} {pool fresh : Pool} (h : Loaded pool)
    (hfresh : pool.spec.assemble? o block timestamp = some fresh) : Loaded (pool.withStateOf fresh)

namespace Pool

/-- A loaded pool keeps the tokens of its family at its address, and its state fits all of these. -/
theorem Loaded.invariant {pool : Pool} (h : pool.Loaded) :
    PoolSpec.Loads pool.address pool.exchange.family pool.tokens ∧ pool.state.family = pool.exchange.family ∧
      (pool.exchange.family ≠ .concentrated → ∀ tokens, PoolSpec.Loads pool.address pool.exchange.family tokens →
        ∃ holdings, pool.state.Lists tokens holdings) := by
  induction h with
  | @first spec o block timestamp pool h =>
    obtain ⟨haddress, hexchange, hfamily, hcontents⟩ := PoolSpec.assemble?_eq_some h
    rw [← haddress] at hcontents
    obtain ⟨hloads, hlists⟩ := PoolSpec.contents?_lists hcontents
    exact ⟨hloads, hfamily.trans hexchange.symm, hlists⟩
  | @again o block timestamp pool fresh _ hfresh ih =>
    obtain ⟨haddress, hexchange, hfamily, hcontents⟩ := PoolSpec.assemble?_eq_some hfresh
    change fresh.exchange.family = pool.exchange.family at hexchange
    obtain ⟨-, hlists⟩ := PoolSpec.contents?_lists hcontents
    rw [hexchange] at hlists
    exact ⟨ih.1, hfamily, hlists⟩

/-- **A loaded pool holds what it lists.** This is what bounds its quotes; of concentrated liquidity no balance is
loaded. -/
theorem Loaded.lists {pool : Pool} (h : pool.Loaded) (hfamily : pool.state.family ≠ .concentrated) :
    ∃ holdings, pool.state.Lists pool.tokens holdings := by
  obtain ⟨hloads, hsame, hlists⟩ := h.invariant
  rw [hsame] at hfamily
  exact hlists hfamily pool.tokens hloads

variable {σ : Type}

/-- **A quote pays at most what is held.** Every loaded pool but a concentrated one has a listing, which says what the
contract that pays holds of each token. Whatever the amount and the tokens, a quote of a pool with a listing is at most
what is held of the output token, and for a pair it is less than that. -/
theorem quote_covered (pool : Pool) (ticks : Address → TickSource σ) (amountIn : Nat) (tokenIn tokenOut : Address)
    (t : σ) :
    (pool.Loaded → pool.state.family ≠ .concentrated → ∃ holdings, pool.state.Lists pool.tokens holdings) ∧
      ∀ holdings out t', pool.state.Lists pool.tokens holdings →
        pool.quote ticks amountIn tokenIn tokenOut t = (.ok out, t') →
        ∃ j held, pool.indexOf? tokenOut = some j ∧ holdings[j]? = some held ∧ out ≤ held ∧
          (pool.state.family = .constantProduct → out < held) := by
  refine ⟨Loaded.lists, fun holdings out t' hlists h => ?_⟩
  obtain ⟨i, j, hi, hj, hij, hquote⟩ := quote_eq_ok h
  have hi' := indexOf?_lt hi
  have hj' := indexOf?_lt hj
  obtain ⟨held, hheld, hle⟩ := quoteAt_covered hlists hij hi' hj' hquote
  refine ⟨j, held, hj, hheld, hle, fun hfamily => ?_⟩
  obtain ⟨held', hheld', hlt⟩ := quoteAt_lt hlists hfamily hij hi' hj' hquote
  obtain rfl : held = held' := Option.some.inj (hheld.symm.trans hheld')
  exact hlt

end Pool

/-- A metapool of the next generation. -/
def PoolSpec.metapool : PoolSpec := ⟨.ofNat 0x00e6fd108c4640d21b40d02f18dd6fe7c7f725ca, .curveStableSwapNg⟩

/-- What is told of it and of the pool that it is built on. -/
def Observed.metapool : Observed :=
  let pool := PoolSpec.metapool.pool
  let told (contract : Address) (field : Field) (value : Abi.Value) : Subject × Option Bytes :=
    (⟨contract, field⟩, some (Abi.encode [value]))
  [told pool .amp (.word 200), told pool .fee (.word (10 ^ 6)), told pool .offpegMultiplier (.word (5 * e10)),
    told pool .balances (.array [3000000 * e18, 2900000 * e18]), told pool .storedRates (.array [e18, 1034 * 10 ^ 15]),
    told threePool .amp (.word 2000), told threePool .fee (.word (10 ^ 6)), told threePool .virtualPrice (.word e18),
    told threePool (.balance 0) (.word (10 ^ 8 * e18)), told threePool (.balance 1) (.word (10 ^ 14)),
    told threePool (.balance 2) (.word (10 ^ 14)), told threePoolShare .totalSupply (.word (29 * 10 ^ 7 * e18))]

/-- The metapool as it is loaded. -/
def Pool.metapool : Pool := (PoolSpec.metapool.assemble? .metapool 0 0).getD default

/-- A metapool is loaded, and a thousand of its own coin are quoted in a coin that its base pool pays. -/
theorem Pool.quote_covered_metapool :
    let ticks : Address → TickSource Unit := fun _ => .complete fun _ => default
    let coin : Address := .ofNat 0x0e573ce2736dd9637a0b21058352e1667925c7a8
    ∃ holdings, metapool.state.Lists metapool.tokens holdings ∧
      metapool.quote ticks (1000 * e18) coin usdt () = (.ok 1000312835, ()) ∧
      ∃ j held, metapool.indexOf? usdt = some j ∧ holdings[j]? = some held ∧ 1000312835 ≤ held ∧
        (metapool.state.family = .constantProduct → 1000312835 < held) := by
  intro ticks coin
  have hassembled : PoolSpec.metapool.assemble? .metapool 0 0 = some metapool := by decide +kernel
  have hfamily : metapool.state.family ≠ .concentrated := by decide +kernel
  have hpaid : (metapool.quote ticks (1000 * e18) coin usdt ()).1 = .ok 1000312835 := by decide +kernel
  have hquote : metapool.quote ticks (1000 * e18) coin usdt () = (.ok 1000312835, ()) :=
    Prod.ext hpaid (Subsingleton.elim _ _)
  obtain ⟨hlists, hcovered⟩ := quote_covered metapool ticks (1000 * e18) coin usdt ()
  obtain ⟨holdings, hholdings⟩ := hlists (.first hassembled) hfamily
  exact ⟨holdings, hholdings, hquote, hcovered holdings 1000312835 () hholdings hquote⟩

end Searcher

/-
# The market around a victim

For each victim the pools that paths may use are loaded anew at one block: those that trade a pair of tokens that a
path may link, and the victim's own. Of an address that was found more than once, the first exchange counts.

Paths whose size no formula gives are tried with a small amount; those that pay nothing are dropped.
-/

import Searcher.Observation.Discovery
import Searcher.Observation.TickWords
import Searcher.PathFinder

namespace Searcher

/-- The pools that were loaded for a victim, with the index of all pools that are known. -/
structure VictimMarket where
  pools : List Pool
  index : PoolIndex

namespace VictimMarket

/-- The loaded pools by address. -/
def market (m : VictimMarket) : Market := Market.ofList m.pools

/-- The pools that were found and those of the victim, each address once. -/
def specs (found : List PoolSpec) (events : List SwapEvent) : List PoolSpec :=
  let own : List PoolSpec := events.map fun e => ⟨e.pool, e.exchange⟩
  (found ++ own).foldl (fun specs spec => if specs.any (·.pool = spec.pool) then specs else specs ++ [spec]) []

/-- What pools may hold: all of their tokens. -/
def holdings (pools : List Pool) : List Holding :=
  pools.flatMap fun pool => pool.tokens.map fun token => ⟨pool.address, token⟩

/-- The victim's swaps with the exchanges that its pools turned out to stand on. -/
def resolve (m : VictimMarket) (events : List SwapEvent) : List SwapEvent :=
  events.map fun e =>
    match m.market e.pool with
    | some pool => { e with exchange := pool.exchange }
    | none => e

variable {σ : Type}

/-- Loads the pools of pairs of tokens and those of the victim. -/
def load (reader : ChainReader σ) (events : List SwapEvent) (pairs : List PathFinder.TokenPair) (block : Nat) :
    Reading σ VictimMarket := do
  let found ← pairs.mapM fun p => reader.findPools p.1 p.2
  let pools ← reader.loadPools (specs found.flatten events) (some block)
  let balances ← reader.tokenBalances (holdings pools) (some block)
  return ⟨pools, .ofPools pools (balances.map fun (h, amount) => ⟨h.holder, h.token, amount⟩)⟩

/-- The tokens of paths that are no reference tokens, each once. -/
def rareTokens (paths : List Path) : List Address :=
  (paths.flatMap fun p => p.tokens.filter fun t => ¬ Token.isReference t).eraseDups

/-- Adds the pools of rare tokens against the reference tokens to the index, with what they hold of the rare ones. -/
def addReferencePools (m : VictimMarket) (reader : ChainReader σ) (paths : List Path) (block : Nat) :
    Reading σ VictimMarket := do
  let found ← (rareTokens paths).mapM fun token => do
    let ofToken ← Token.references.mapM fun (reference, _) => do
      return (← reader.findPools token reference).map fun spec => (spec, token, reference)
    return ofToken.flatten
  let found := found.flatten
  let index := found.foldl (fun (index : PoolIndex) (spec, token, reference) =>
    index.addPool spec.pool spec.exchange [token, reference]) m.index
  let balances ← reader.tokenBalances (found.map fun (spec, token, _) => ⟨spec.pool, token⟩) (some block)
  return { m with index := balances.foldl (fun (index : PoolIndex) (h, amount) =>
    index.setBalance h.holder h.token amount) index }

/-- The amount with which paths are tried. -/
def probeAmount : Nat := 10 ^ 14

/-- A path as it is kept: a path that has no size takes the one it was tried with. Nothing if it does not pay. -/
def screenPath (m : VictimMarket) (reader : ChainReader σ) (block : Nat) (path : Path) :
    StateM (TickCache × σ) (Option Path) := do
  if path.isConstantProduct then return some path
  match ← m.market.quoteLoading reader.tickLoader path probeAmount block with
  | .ok out =>
    if out = 0 then return none
    return some (if path.amountIn = 0 then { path with amountIn := probeAmount } else path)
  | .error _ => return none

/-- The pools of paths that no formula sizes, in the order of their addresses. -/
def quotedPools (m : VictimMarket) (paths : List Path) : List Pool :=
  let addresses := (paths.filter fun p => ¬ p.isConstantProduct).flatMap (·.pools)
  (Address.sorted addresses).filterMap m.market

/-- Reads the tick words around the current ticks, as far as it succeeds. -/
def preload (m : VictimMarket) (reader : ChainReader σ) (paths : List Path) (block : Nat) :
    StateM (TickCache × σ) Unit :=
  discard (reader.fillAround (m.quotedPools paths) Concentrated.wordRadius block).run

/-- The paths that pay. -/
def screen (m : VictimMarket) (reader : ChainReader σ) (paths : List Path) (block : Nat) :
    StateM (TickCache × σ) (List Path) := do
  m.preload reader paths block
  return (← paths.mapM (m.screenPath reader block)).filterMap id

end VictimMarket
end Searcher

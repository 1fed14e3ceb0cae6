/-
# Loaded pools and the quotes of paths

A market is the pools that were loaded, by address. A path is quoted by handing the output of each hop to the next.

Concentrated pools on the way read tick words. Where one is missing from the cache the quote stops there; a loader then
fetches the words around it and the quote is made again, for at most `Concentrated.maxSteps` rounds.
-/

import Searcher.Concentrated.TickCache
import Searcher.Path
import Searcher.Pool

namespace Searcher

/-- The loaded pools by address. -/
abbrev Market := Address → Option Pool

namespace Market

/-- The market of a list of pools. The last pool at an address is the one that counts. -/
def ofList (pools : List Pool) : Market := fun address => pools.reverse.find? fun p => p.address = address

/-- The output of one hop. -/
def quoteLeg {σ : Type} (market : Market) (ticks : Address → TickSource σ) (amount : Nat) (leg : Leg) :
    Ticking σ Nat :=
  match market leg.pool with
  | none => throw (.unknownPool leg.pool)
  | some pool => pool.quote ticks amount leg.tokenIn leg.tokenOut

/-- The output of a path. -/
def quotePath {σ : Type} (market : Market) (ticks : Address → TickSource σ) (path : Path) (amountIn : Nat) :
    Ticking σ Nat :=
  path.legs.foldlM (market.quoteLeg ticks) amountIn

end Market

/-- Reads tick words of a pool into a cache, with states `τ` of its own. It returns how many words it wrote, or why it
failed. -/
structure TickLoader (τ : Type) where
  load : (pool : Pool) → (words : List Int) → (block : Nat) → StateM (TickCache × τ) (Except String Nat)

namespace Market

/-- The path's quote from the cache as it is. -/
def quoteCached {τ : Type} (market : Market) (path : Path) (amountIn block : Nat) :
    StateM (TickCache × τ) (Quote Nat) :=
  fun (cache, t) =>
    let (quote, cache) := market.quotePath (TickCache.source · block) path amountIn cache
    (quote, cache, t)

/-- Loads the words around a missing one. It is an error when that word is still missing afterwards. -/
def loadAround {τ : Type} (market : Market) (loader : TickLoader τ) (block : Nat) (address : Address) (word : Int) :
    ExceptT QuoteError (StateM (TickCache × τ)) Unit := do
  let some pool := market address | throw (.unknownPool address)
  match ← ExceptT.lift (loader.load pool (Concentrated.wordsAround word Concentrated.wordRadius) block) with
  | .error reason => throw (.fetch reason)
  | .ok _ =>
    unless (← getThe (TickCache × τ)).1.isFresh ⟨address, word⟩ block do
      throw (.fetch (s!"tick word {word} of " ++ address.checksummed ++ s!" unreadable at block {block}"))

/-- Quotes and loads in turn, at most `rounds` times. -/
def quoteRounds {τ : Type} (market : Market) (loader : TickLoader τ) (path : Path) (amountIn block : Nat) :
    (rounds : Nat) → ExceptT QuoteError (StateM (TickCache × τ)) Nat
  | 0 => throw (.tickBudgetExceeded Concentrated.maxSteps)
  | rounds + 1 => do
    match ← ExceptT.lift (market.quoteCached path amountIn block) with
    | .ok out => return out
    | .error (.missingTickWord address word) =>
      market.loadAround loader block address word
      market.quoteRounds loader path amountIn block rounds
    | .error e => throw e

/-- The path's quote at a block. Tick words that it lacks are loaded on the way. -/
def quoteLoading {τ : Type} (market : Market) (loader : TickLoader τ) (path : Path) (amountIn block : Nat) :
    ExceptT QuoteError (StateM (TickCache × τ)) Nat :=
  market.quoteRounds loader path amountIn block Concentrated.maxSteps

end Market
end Searcher

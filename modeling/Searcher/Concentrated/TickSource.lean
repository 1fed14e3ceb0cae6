/-
# Where tick data comes from

A quote reads two things about ticks: the words of the bitmap, and the change of liquidity at a marked tick. A source
answers both and may fail or change its own state while it does; a cache of words, which reorders its entries at every
use, and the complete data of a chain, which never fails, are both sources.
-/

import Searcher.Concentrated.Bitmap

namespace Searcher

/-- A computation that reads ticks from a source with states `σ`. Changes to the state stay when it fails. -/
abbrev Ticking (σ : Type) := ExceptT QuoteError (StateM σ)

/-- A computation that reads no ticks. -/
def Ticking.ofQuote {σ α : Type} (q : Quote α) : Ticking σ α := ExceptT.mk (pure q)

/-- Tick data of one pool. -/
structure TickSource (σ : Type) where
  /-- The bits of a word of the bitmap. -/
  bitmap : (word : Int) → Ticking σ Nat
  /-- The change of liquidity at a tick of a pool with the given spacing. -/
  net : (tick spacing : Int) → Ticking σ Int

namespace TickSource

/-- The source that finds whole words, or fails to. -/
def ofWords {σ : Type} (find : (word : Int) → Ticking σ TickWord) : TickSource σ where
  bitmap word := do return (← find word).bitmap
  net tick spacing := do
    return Bitmap.netAt (← find (Bitmap.position (Bitmap.compress tick spacing)).1).nets tick

/-- The source that knows every word. -/
def complete {σ : Type} (words : Int → TickWord) : TickSource σ :=
  ofWords fun word => pure (words word)

/-- The nearest marked tick in the direction of a swap, or the edge of its word. -/
def nextTick {σ : Type} (source : TickSource σ) (tick spacing : Int) (left : Bool) : Ticking σ Bitmap.Found := do
  let compressed := Bitmap.start tick spacing left
  let bitmap ← source.bitmap (Bitmap.position compressed).1
  return Bitmap.search bitmap compressed spacing left

end TickSource
end Searcher

/-
# Sources of fixed tick data

A source *reads* fixed tick data when all that it ever answers, from the states that it can be in, are these data, or
that a word is missing. The data themselves are such a source, and so is a cache whose fresh words are those of a
chain. A swap or a quote that succeeds over a source succeeds over the data that it reads, with the same outcome, so
that facts about fixed data are facts about every source of them.
-/

import Searcher.Proofs.Concentrated.Advance
import Searcher.Proofs.Loading.Cache

namespace Searcher

variable {τ σ α : Type} {good : τ → Prop}

/-- What succeeds, succeeds where it follows. -/
theorem Follows.ok {known : Address → Prop} {x : Ticking τ α} {y : Ticking σ α} (h : Follows good known x y) {t : τ}
    (ht : good t) {a : α} (hx : (x t).1 = .ok a) (s : σ) : (y s).1 = .ok a := by
  rcases (h t ht s).2 with ⟨pool, word, -, he⟩ | ⟨heq, -⟩
  · cases he.symm.trans hx
  · exact heq.symm.trans hx

namespace TickSource

/-- **The source reads fixed tick data** in its good states. -/
def Reads (source : TickSource τ) (good : τ → Prop) (bits : Int → Nat) (nets : Int → Int → Int) : Prop :=
  source.Follows good (fun _ => True) (fixed (σ := Unit) bits nets)

/-- A source of fixed words reads what is fixed. -/
theorem reads_fixed (bits : Int → Nat) (nets : Int → Int → Int) :
    (fixed (σ := σ) bits nets).Reads (fun _ => True) bits nets where
  bitmap _ := .pure _
  net _ _ := .pure _

/-- A source of all words of a chain is one of fixed words. -/
theorem complete_eq_fixed (words : Int → TickWord) :
    complete (σ := σ) words = fixed (fun word => (words word).bitmap) fun tick spacing =>
      Bitmap.netAt (words (Bitmap.position (Bitmap.compress tick spacing)).1).nets tick := rfl

end TickSource

/-- Read through a cache that agrees with a chain, the ticks of a pool are fixed. -/
theorem TickCache.reads_source (pool : Address) (chain : ChainWords) (block : Nat) :
    (TickCache.source pool block).Reads (·.Agrees chain block) (fun word => (chain pool word).bitmap)
      fun tick spacing => Bitmap.netAt (chain pool (Bitmap.position (Bitmap.compress tick spacing)).1).nets tick := by
  rw [TickSource.Reads, ← TickSource.complete_eq_fixed]
  exact follows_source trivial

variable {bits : Int → Nat} {nets : Int → Int → Int} {source : TickSource τ} {s : τ}

/-- A swap over a source that reads fixed data is one over the data. -/
theorem TickSource.Reads.swapWithin_ok (reads : source.Reads good bits nets) (hs : good s) {state : ConcentratedState}
    {amountIn budget : Nat} {zeroForOne : Bool} {swap : Concentrated.Outcome}
    (h : (state.swapWithin source amountIn zeroForOne budget s).1 = .ok swap) :
    (state.swapWithin (.fixed (σ := Unit) bits nets) amountIn zeroForOne budget ()).1 = .ok swap :=
  (Concentrated.follows_swapWithin reads state amountIn zeroForOne budget).ok hs h ()

/-- A quote over sources that read fixed data is one over the data. -/
theorem Market.quotePath_ok {market : Market} {sources : Address → TickSource τ} {bits : Address → Int → Nat}
    {nets : Address → Int → Int → Int} (reads : ∀ address, (sources address).Reads good (bits address) (nets address))
    (hs : good s) {path : Path} {amountIn out : Nat} (h : (market.quotePath sources path amountIn s).1 = .ok out) :
    (market.quotePath (fun address => .fixed (σ := Unit) (bits address) (nets address)) path amountIn ()).1 =
      .ok out := by
  have follows : Follows good (fun _ => True) (market.quotePath sources path amountIn)
      (market.quotePath (fun address => .fixed (σ := Unit) (bits address) (nets address)) path amountIn) := by
    refine follows_quotePath (fun address pool _ => ?_) path amountIn
    exact reads pool.address
  exact follows.ok hs h ()

end Searcher

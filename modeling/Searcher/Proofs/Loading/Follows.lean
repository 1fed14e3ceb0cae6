/-
# Quotes over two sources of ticks

A quote reads ticks only through its source. So what holds between two sources holds between the quotes over them, and
here the relation is that the first source *follows* the second: started in a good state it stays in good states, and
it either reports a word as missing or gives the very answer of the second. `Follows` is that relation between
computations. It goes through every way to put computations together (`Follows.bind`, `Follows.lift`), hence from the
two reads of a source to a step of a swap, by induction over the steps to a whole swap (`Concentrated.follows_walk`),
and over the hops to the quote of a path (`Market.follows_quotePath`).
-/

import Searcher.Market
import Searcher.Proofs.Curve.Numeric
import Searcher.Proofs.Ticking

namespace Searcher

variable {τ σ α β : Type} {good : τ → Prop} {known : Address → Prop}

/-- **`x` follows `y`.** From every good state `x` ends in a good state. It reports a missing word of a known pool, or
it has the outcome of `y` and reports none. -/
def Follows (good : τ → Prop) (known : Address → Prop) (x : Ticking τ α) (y : Ticking σ α) : Prop :=
  ∀ t, good t → ∀ s, good (x t).2 ∧
    ((∃ pool word, known pool ∧ (x t).1 = .error (.missingTickWord pool word)) ∨
      ((x t).1 = (y s).1 ∧ ∀ pool word, (x t).1 ≠ .error (.missingTickWord pool word)))

namespace Follows

/-- A formula that reads nothing follows itself. It reports no word as missing, because it fails by its numbers alone.
-/
theorem lift {q : Quote α} (h : q.numeric = q) :
    Follows good known (liftM q : Ticking τ α) (liftM q : Ticking σ α) := by
  intro t ht s
  refine ⟨ht, .inr ⟨rfl, fun pool word e => ?_⟩⟩
  -- a missing word is not an error of numbers
  have := Quote.numeric_eq_self_iff.1 h _ e
  simp at this

/-- The same of a formula that is taken for a computation over a source. -/
theorem ofQuote {q : Quote α} (h : q.numeric = q) :
    Follows good known (Ticking.ofQuote q : Ticking τ α) (Ticking.ofQuote q : Ticking σ α) :=
  lift h

/-- A value follows itself. -/
theorem pure (a : α) : Follows good known (Pure.pure a : Ticking τ α) (Pure.pure a : Ticking σ α) :=
  lift (Quote.numeric_ok a)

/-- So does an error that is not about a missing word. -/
theorem throw {e : QuoteError} (h : ∀ pool word, e ≠ .missingTickWord pool word) :
    Follows good known (MonadExcept.throw e : Ticking τ α) (MonadExcept.throw e : Ticking σ α) := by
  intro t ht s
  refine ⟨ht, .inr ⟨rfl, fun pool word he => h pool word ?_⟩⟩
  exact Except.error.inj he

/-- **Two computations in a row follow two in a row.** Where the first reports a word the second is not run. Otherwise
the first has the same outcome over both sources, and leaves a good state for the second. -/
theorem bind {x : Ticking τ α} {y : Ticking σ α} {f : α → Ticking τ β} {g : α → Ticking σ β}
    (hx : Follows good known x y) (hf : ∀ a, Follows good known (f a) (g a)) :
    Follows good known (x >>= f) (y >>= g) := by
  intro t ht s
  rw [Ticking.bind_apply, Ticking.bind_apply]
  obtain ⟨ht', h⟩ := hx t ht s
  rcases hxt : x t with ⟨e | a, t'⟩ <;> rw [hxt] at ht' h
  · rcases h with ⟨pool, word, hk, he⟩ | ⟨hy, hne⟩
    · exact ⟨ht', .inl ⟨pool, word, hk, by simpa using he⟩⟩
    · rcases hys : y s with ⟨e' | a', s'⟩ <;> rw [hys] at hy
      · exact ⟨ht', .inr ⟨by simpa using hy, fun pool word he => hne pool word (by simpa using he)⟩⟩
      · simp at hy
  · rcases h with ⟨pool, word, -, he⟩ | ⟨hy, -⟩
    · simp at he
    · rcases hys : y s with ⟨e' | a', s'⟩ <;> rw [hys] at hy
      · simp at hy
      · obtain rfl : a = a' := by simpa using hy
        exact hf a t' ht' s'

/-- A choice follows one on the same condition, branch by branch. -/
theorem ite (c : Prop) [Decidable c] {x x' : Ticking τ α} {y y' : Ticking σ α} (h : Follows good known x y)
    (h' : Follows good known x' y') : Follows good known (if c then x else x') (if c then y else y') := by
  split
  · exact h
  · exact h'

/-- A row of computations follows one, by induction over the row. -/
theorem foldlM {ι : Type} {f : β → ι → Ticking τ β} {g : β → ι → Ticking σ β}
    (h : ∀ b i, Follows good known (f b i) (g b i)) (is : List ι) (b : β) :
    Follows good known (is.foldlM f b) (is.foldlM g b) := by
  induction is generalizing b with
  | nil => exact .pure b
  | cons i is ih =>
    rw [List.foldlM_cons, List.foldlM_cons]
    exact .bind (h b i) ih

end Follows

/-- The reads of `x` follow those of `y`. -/
structure TickSource.Follows (good : τ → Prop) (known : Address → Prop) (x : TickSource τ) (y : TickSource σ) :
    Prop where
  bitmap : ∀ word, Searcher.Follows good known (x.bitmap word) (y.bitmap word)
  net : ∀ tick spacing, Searcher.Follows good known (x.net tick spacing) (y.net tick spacing)

namespace Concentrated

variable {x : TickSource τ} {y : TickSource σ}

/-- The next marked tick is found by reading words, in the same order over both sources. -/
theorem follows_nextTick (h : x.Follows good known y) (tick spacing : Int) (left : Bool) :
    Follows good known (x.nextTick tick spacing left) (y.nextTick tick spacing left) :=
  .bind (h.bitmap _) fun _ => .pure _

/-- Arriving at a tick reads its net liquidity if it is marked, and is a formula otherwise. -/
theorem follows_arrive (h : x.Follows good known y) (spacing : Int) (zeroForOne : Bool) (p : Progress) (tick : Int)
    (marked : Bool) (root : Nat) (s : Step) :
    Follows good known (arrive x spacing zeroForOne p tick marked root s)
      (arrive y spacing zeroForOne p tick marked root s) := by
  unfold arrive
  refine .bind (.lift (by simp)) fun spent => .bind (.lift (by simp)) fun remaining => ?_
  refine .bind (.lift (by simp)) fun amountOut => .ite _ (.ite _ ?_ (.pure _)) (.ite _ ?_ (.pure _))
  · exact .bind (h.net _ _) fun net => .bind (.lift (by simp)) fun liquidity => .pure _
  · exact .bind (.lift (by simp)) fun tick => .pure _

/-- One step of a swap reads the next tick and arrives at it. -/
theorem follows_advance (h : x.Follows good known y) (fee : Nat) (spacing : Int) (zeroForOne : Bool) (p : Progress) :
    Follows good known (advance x fee spacing zeroForOne p) (advance y fee spacing zeroForOne p) := by
  unfold advance
  refine .bind (follows_nextTick h _ _ _) fun found => .bind (.lift (by simp)) fun root => ?_
  exact .bind (.lift (by simp)) fun s => follows_arrive h _ _ _ _ _ _ _

/-- **The steps of a swap follow one another:** by induction over the budget of steps that is left. -/
theorem follows_walk (h : x.Follows good known y) (fee : Nat) (spacing : Int) (zeroForOne : Bool) (budget left : Nat)
    (p : Progress) :
    Follows good known (walk x fee spacing zeroForOne budget left p) (walk y fee spacing zeroForOne budget left p) := by
  induction left generalizing p with
  | zero => exact .ite _ (.pure _) (.throw (by simp))
  | succ left ih => exact .ite _ (.pure _) (.bind (follows_advance h _ _ _ _) ih)

/-- So does a swap within a budget, which starts with the tick of its root. -/
theorem follows_swapWithin (h : x.Follows good known y) (state : ConcentratedState) (amountIn : Nat)
    (zeroForOne : Bool) (budget : Nat) :
    Follows good known (state.swapWithin x amountIn zeroForOne budget)
      (state.swapWithin y amountIn zeroForOne budget) := by
  unfold ConcentratedState.swapWithin
  refine .ite _ (.throw (by simp)) (.ite _ (.throw (by simp)) ?_)
  exact .bind (follows_walk h _ _ _ _ _ _) fun p => .ite _ (.throw (by simp)) (.pure _)

/-- So does a swap. -/
theorem follows_swap (h : x.Follows good known y) (state : ConcentratedState) (amountIn : Nat) (zeroForOne : Bool) :
    Follows good known (state.swap x amountIn zeroForOne) (state.swap y amountIn zeroForOne) :=
  follows_swapWithin h state amountIn zeroForOne maxSteps

end Concentrated

/-- A quote by positions reads ticks if its pool is one of concentrated liquidity. All other families read nothing. -/
theorem Pool.follows_quoteAt {x : TickSource τ} {y : TickSource σ} (h : x.Follows good known y) (pool : Pool)
    (amountIn i j : Nat) : Follows good known (pool.quoteAt x amountIn i j) (pool.quoteAt y amountIn i j) := by
  unfold Pool.quoteAt
  cases pool.state with
  | constantProduct reserve0 reserve1 fee => exact .ite _ (.ofQuote (by simp)) (.ofQuote (by simp))
  | concentrated s => exact .bind (Concentrated.follows_swap h _ _ _) fun swap => .pure _
  | stableSwap s => exact .ofQuote (by simp)
  | stableSwapNg s => exact .ofQuote (by simp)
  | cryptoSwap s => exact .ofQuote (by simp)
  | triCrypto s => exact .ofQuote (by simp)
  | triCryptoNg s => exact .ofQuote (by simp)

/-- A quote of two tokens looks for their positions first, which is the same over both sources. -/
theorem Pool.follows_quote {xs : Address → TickSource τ} {ys : Address → TickSource σ} (pool : Pool)
    (h : (xs pool.address).Follows good known (ys pool.address)) (amountIn : Nat) (tokenIn tokenOut : Address) :
    Follows good known (pool.quote xs amountIn tokenIn tokenOut) (pool.quote ys amountIn tokenIn tokenOut) := by
  unfold Pool.quote
  split
  · exact .ite _ (pool.follows_quoteAt h _ _ _) (.throw (by simp))
  · exact .throw (by simp)

/-- **Paths follow where pools do.** If the first source of every pool of the market follows its second one, the
quotes of a path over the first sources follow those over the second. -/
theorem Market.follows_quotePath {market : Market} {xs : Address → TickSource τ} {ys : Address → TickSource σ}
    (h : ∀ address pool, market address = some pool → (xs pool.address).Follows good known (ys pool.address))
    (path : Path) (amountIn : Nat) :
    Follows good known (market.quotePath xs path amountIn) (market.quotePath ys path amountIn) := by
  refine .foldlM (fun amount leg => ?_) _ _
  unfold Market.quoteLeg
  rcases hp : market leg.pool with _ | pool
  · exact .throw (by simp)
  · exact pool.follows_quote (h _ _ hp) _ _ _

end Searcher

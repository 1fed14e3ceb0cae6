/-
# Loading ticks on the way does not change a quote

A quote from the cache stops at the first word that it lacks. The words around that one are loaded and the quote is
made again from the start, while the cache may drop what it loaded before. If loading is truthful, every cache on the
way agrees with the chain (`TickLoader.Truthful.agrees`), so each attempt either stops at a missing word once more or
has the outcome of the quote that reads the chain itself (`follows_quoteCached`). By induction over the rounds that is
all that can come out, besides a load that failed and a budget that is used up (`quoteRounds_settles`).
-/

import Searcher.Proofs.Loading.Cache

namespace Searcher

variable {τ σ : Type}

namespace TickLoader

/-- **A truthful loader.** Where it succeeds at a block, it has inserted words of the chain, of the pool and among the
numbers it was asked for, as read at that block, and has done nothing else to the cache. -/
def Truthful (loader : TickLoader τ) (chain : ChainWords) (block : Nat) : Prop :=
  ∀ pool words cache t count cache' t', loader.load pool words block (cache, t) = (.ok count, cache', t') →
    ∃ loaded : List Int, (∀ word ∈ loaded, word ∈ words) ∧
      cache' = loaded.foldl
        (fun cache word => cache.insert ⟨pool.address, word⟩ { chain pool.address word with block := block }) cache

/-- What a truthful loader leaves in a cache agrees with the chain. -/
theorem Truthful.agrees {loader : TickLoader τ} {chain : ChainWords} {block : Nat}
    (truthful : loader.Truthful chain block) {cache cache' : TickCache} (h : cache.Agrees chain block) {pool : Pool}
    {words : List Int} {t t' : τ} {count : Nat}
    (hl : loader.load pool words block (cache, t) = (.ok count, cache', t')) : cache'.Agrees chain block := by
  obtain ⟨loaded, -, rfl⟩ := truthful _ _ _ _ _ _ _ hl
  exact h.insert_all pool.address block loaded

/-- The loader that has the chain at hand. -/
def ofChain (chain : ChainWords) : TickLoader Unit where
  load pool words block := fun (cache, t) =>
    (.ok words.length, words.foldl
      (fun cache word => cache.insert ⟨pool.address, word⟩ { chain pool.address word with block := block }) cache, t)

/-- A loader that reads the chain itself is truthful. -/
theorem ofChain_truthful (chain : ChainWords) (block : Nat) : (ofChain chain).Truthful chain block := by
  intro pool words cache t count cache' t' h
  exact ⟨words, fun _ hw => hw, (congrArg (·.2.1) h).symm⟩

end TickLoader

/-- Each pool is found under its own address. -/
def Market.Keyed (market : Market) : Prop := ∀ address pool, market address = some pool → pool.address = address

/-- **The market of a list of pools is keyed by their addresses,** since a pool is looked up by its own. -/
theorem Market.ofList_keyed (pools : List Pool) : (Market.ofList pools).Keyed := by
  intro address pool h
  simpa using List.find?_some h

namespace Market

variable {market : Market} {loader : TickLoader τ} {chain : ChainWords} {cache cache' : TickCache} {t t' : τ}
  {block : Nat}

/-- Loading failed, or it took too long, or the outcome is the exact one and not a missing word. -/
def Settles (exact q : Quote Nat) : Prop :=
  (∃ reason, q = .error (.fetch reason)) ∨ (∃ ticks, q = .error (.tickBudgetExceeded ticks)) ∨
    (q = exact ∧ ∀ address word, q ≠ .error (.missingTickWord address word))

/-- Words around one that is missing are loaded, or the loader gives a reason why they are not. -/
theorem loadAround_cases {address : Address} {pool : Pool} {word : Int} {r : Quote Unit}
    (hp : market address = some pool)
    (h : market.loadAround loader block address word (cache, t) = (r, cache', t')) :
    (∃ reason, r = .error (.fetch reason)) ∨ r = .ok () ∧ ∃ count,
      loader.load pool (Concentrated.wordsAround word Concentrated.wordRadius) block (cache, t) =
        (.ok count, cache', t') := by
  simp only [loadAround, hp] at h
  rw [Ticking.bind_apply, Ticking.state_apply] at h
  rcases hl : loader.load pool (Concentrated.wordsAround word Concentrated.wordRadius) block (cache, t) with
    ⟨reason | count, c, u⟩ <;> rw [hl] at h
  · obtain ⟨rfl, -⟩ := Prod.mk.inj h
    exact .inl ⟨_, rfl⟩
  · change (if c.isFresh ⟨address, word⟩ block then _ else _ : Ticking (TickCache × τ) Unit) (c, u) = _ at h
    split at h
    · obtain ⟨rfl, hc⟩ := Prod.mk.inj h
      obtain ⟨rfl, rfl⟩ := Prod.mk.inj hc
      exact .inr ⟨rfl, count, rfl⟩
    · obtain ⟨rfl, -⟩ := Prod.mk.inj h
      exact .inl ⟨_, rfl⟩

/-- The quote from a cache that agrees with the chain follows the one from the chain. -/
theorem follows_quoteCached (keyed : market.Keyed) (chain : ChainWords) (block : Nat) (path : Path) (amountIn : Nat) :
    Follows (·.Agrees chain block) (fun address => ∃ pool, market address = some pool)
      (market.quotePath (TickCache.source · block) path amountIn)
      (market.quotePath (fun address => TickSource.complete (σ := σ) (chain address)) path amountIn) := by
  refine follows_quotePath (fun address pool hp => TickCache.follows_source ⟨pool, ?_⟩) path amountIn
  rw [keyed _ _ hp, hp]

/-- A round whose quote misses a word loads around it and goes on to the next. -/
theorem quoteRounds_missing {path : Path} {amountIn : Nat} {address : Address} {word : Int} (rounds : Nat)
    (h : market.quotePath (TickCache.source · block) path amountIn cache =
      (.error (.missingTickWord address word), cache')) :
    market.quoteRounds loader path amountIn block (rounds + 1) (cache, t) =
      (market.loadAround loader block address word >>= fun _ =>
        market.quoteRounds loader path amountIn block rounds) (cache', t) := by
  rw [quoteRounds, Ticking.bind_apply, Ticking.state_apply, quoteCached, h]

/-- A round whose quote misses no word is the last. -/
theorem quoteRounds_of_ne_missing {path : Path} {amountIn : Nat} {q : Quote Nat} (rounds : Nat)
    (h : market.quotePath (TickCache.source · block) path amountIn cache = (q, cache'))
    (hq : ∀ address word, q ≠ .error (.missingTickWord address word)) :
    market.quoteRounds loader path amountIn block (rounds + 1) (cache, t) = (q, cache', t) := by
  rw [quoteRounds, Ticking.bind_apply, Ticking.state_apply, quoteCached, h]
  rcases q with e | out
  · cases e with
    | missingTickWord address word => exact absurd rfl (hq address word)
    | _ => rfl
  · rfl

/-- **The rounds settle at the quote over the chain.** Each round either has the outcome of that quote, or reports a
word and loads it from the chain. What is left, when rounds run out, is that a word is missing. -/
theorem quoteRounds_settles (keyed : market.Keyed) (truthful : loader.Truthful chain block)
    (agrees : cache.Agrees chain block) (path : Path) (amountIn rounds : Nat) (s : σ) :
    Settles (market.quotePath (fun address => TickSource.complete (chain address)) path amountIn s).1
      (market.quoteRounds loader path amountIn block rounds (cache, t)).1 := by
  induction rounds generalizing cache t with
  | zero => exact .inr (.inl ⟨_, rfl⟩)
  | succ rounds ih =>
    obtain ⟨hc, h⟩ := follows_quoteCached keyed chain block path amountIn cache agrees s
    rcases hq : market.quotePath (TickCache.source · block) path amountIn cache with ⟨q, c⟩
    rw [hq] at hc h
    rcases h with ⟨address, word, ⟨pool, hp⟩, rfl⟩ | ⟨hex, hne⟩
    · -- one more round, with whatever the cache still holds of the words that were loaded
      rw [quoteRounds_missing rounds hq, Ticking.bind_apply]
      rcases hl : market.loadAround loader block address word (c, t) with ⟨r, c', t'⟩
      obtain ⟨reason, rfl⟩ | ⟨rfl, count, hl⟩ := loadAround_cases hp hl
      · exact .inl ⟨reason, rfl⟩
      · exact ih (truthful.agrees hc hl)
    · rw [quoteRounds_of_ne_missing rounds hq hne]
      exact .inr (.inr ⟨hex, hne⟩)

/-- **Loading on the way does not change a quote.** Let the loader be truthful and the cache's fresh words be the
chain's. Then a quote that loads what it lacks never ends at a missing word, whatever the path, the amount, the
capacity of the cache and the order in which words go missing. Unless a load fails or the rounds run out, its outcome,
an amount or an error, is the one of the quote that reads the chain itself at every hop.

The market has to be keyed by address, because a missing word is named by the address of the pool that the quote stopped
at, and loaded for the pool that the market has there. A market that is built from a list of pools is keyed
(`Market.ofList_keyed`), and a search builds its market so (`VictimMarket.market`). -/
theorem quoteLoading_eq (keyed : market.Keyed) (truthful : loader.Truthful chain block)
    (agrees : cache.Agrees chain block) (path : Path) (amountIn : Nat) (t : τ) (s : σ) :
    (∀ address word, (market.quoteLoading loader path amountIn block (cache, t)).1 ≠
        .error (.missingTickWord address word)) ∧
      ((∃ reason, (market.quoteLoading loader path amountIn block (cache, t)).1 = .error (.fetch reason)) ∨
        (∃ ticks, (market.quoteLoading loader path amountIn block (cache, t)).1 = .error (.tickBudgetExceeded ticks)) ∨
        (market.quoteLoading loader path amountIn block (cache, t)).1 =
          (market.quotePath (fun address => TickSource.complete (chain address)) path amountIn s).1) := by
  rcases quoteRounds_settles keyed truthful agrees path amountIn Concentrated.maxSteps s (t := t) with
    ⟨reason, h⟩ | ⟨ticks, h⟩ | ⟨h, hne⟩
  · exact ⟨fun address word => by simp [quoteLoading, h], .inl ⟨reason, h⟩⟩
  · exact ⟨fun address word => by simp [quoteLoading, h], .inr (.inl ⟨ticks, h⟩)⟩
  · exact ⟨hne, .inr (.inr h)⟩

/-- A pool with the same liquidity at every price. -/
def flatPool : Pool :=
  ⟨.ofNat 1, .uniswapV3, [.ofNat 2, .ofNat 3], .concentrated ⟨2 ^ 96, 0, 10 ^ 18, 3000, 60⟩⟩

/-- From an empty cache for three words two loads of five words each are needed, and some of each are dropped. -/
theorem quoteLoading_eq_three_words :
    let market := ofList [flatPool]
    let path := Path.ofHops 0 [(.uniswapV3, .ofNat 1)] [.ofNat 2, .ofNat 3]
    let chain : ChainWords := fun _ _ => ⟨0, [], 0⟩
    (market.quoteLoading (.ofChain chain) path 1000 7 (.empty 3, ())).1 = .ok 996 ∧
      (market.quotePath (fun address => TickSource.complete (chain address)) path 1000 ()).1 = .ok 996 := by
  intro market path chain
  have hq : (market.quoteLoading (.ofChain chain) path 1000 7 (.empty 3, ())).1 = .ok 996 :=
    Quote.eq_ok_of_toOption (by decide +kernel)
  have h := quoteLoading_eq (ofList_keyed [flatPool]) (TickLoader.ofChain_truthful chain 7)
    (TickCache.agrees_empty 3) path 1000 () ()
  rcases h.2 with ⟨reason, h⟩ | ⟨ticks, h⟩ | h
  · exact absurd (hq.symm.trans h) (by simp)
  · exact absurd (hq.symm.trans h) (by simp)
  · exact ⟨hq, h.symm.trans hq⟩

end Market
end Searcher

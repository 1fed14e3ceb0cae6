/-
# The link pairs are all that a search reads

A search asks the index only for pools of the link pairs, and two indexes that have the same edges between two tokens,
in the same order, give the same answers about them. A pool has no edge between two tokens unless it lists both. So of
many pools it is enough to index those that list both tokens of a link pair: the paths are the same
(`PathFinder.paths_linkPairs`).
-/

import Searcher.PathFinder
import Searcher.Proofs.Paths.Index

namespace Searcher

open PathFinder (TokenPair)

/-- Whether the pool lists both tokens of one of some pairs. -/
def Pool.listsOneOf (pool : Pool) (pairs : List TokenPair) : Bool :=
  pairs.any fun pair => pair.1 ∈ pool.tokens ∧ pair.2 ∈ pool.tokens

namespace PoolIndex

variable {index index' : PoolIndex} {a b : Address} {pools : List Pool} {keep : Pool → Bool}

/-- Two indexes have the same edges between two tokens, and the same balances. -/
structure Agree (index index' : PoolIndex) (a b : Address) : Prop where
  forth : index.directed a b = index'.directed a b
  back : index.directed b a = index'.directed b a
  balances : index.balances = index'.balances

/-- Agreement on two tokens is agreement on them in the other order. -/
theorem Agree.symm (h : Agree index index' a b) : Agree index index' b a := ⟨h.back, h.forth, h.balances⟩

/-- Indexes that agree about two tokens choose among the same pools for them. -/
theorem Agree.funded (h : Agree index index' a b) (exclude : List Address) :
    index.funded a b exclude = index'.funded a b exclude := by
  have hbalance : index.balance = index'.balance := by
    funext pool token
    rw [balance, balance, h.balances]
  rw [PoolIndex.funded, PoolIndex.funded, ranked, ranked, between, between, h.forth, h.back, hbalance]

/-- So they name the same two pools, since those are read off the pools to choose from. -/
theorem Agree.deepestTwo (h : Agree index index' a b) (exclude : List Address) :
    index.deepestTwo a b exclude = index'.deepestTwo a b exclude := by
  rw [PoolIndex.deepestTwo, PoolIndex.deepestTwo, h.funded]

/-- And the same deepest pool, which is the first of the two. -/
theorem Agree.deepest (h : Agree index index' a b) (exclude : List Address) :
    index.deepest a b exclude = index'.deepest a b exclude := by
  rw [← deepestTwo_fst, ← deepestTwo_fst, h.deepestTwo]

/-- Pools without any of the edges that are asked for can be left out. -/
theorem filter_edges (q : TokenEdge → Bool) (h : ∀ pool ∈ pools, ¬ keep pool → (edgesOfPool pool).filter q = []) :
    ((pools.filter keep).flatMap edgesOfPool).filter q = (pools.flatMap edgesOfPool).filter q := by
  induction pools with
  | nil => rfl
  | cons pool pools ih =>
    rw [List.forall_mem_cons] at h
    by_cases hkeep : keep pool
    · rw [List.filter_cons_of_pos hkeep, List.flatMap_cons, List.flatMap_cons, List.filter_append, List.filter_append,
        ih h.2]
    · rw [List.filter_cons_of_neg hkeep, List.flatMap_cons, List.filter_append, ih h.2, h.1 hkeep, List.nil_append]

/-- An index of some of the pools has the same links between two tokens, if all pools that list both are kept. -/
theorem directed_filter (distinct : (pools.map (·.address)).Nodup) (balances : List ObservedBalance)
    (h : ∀ pool ∈ pools, a ∈ pool.tokens → b ∈ pool.tokens → a ≠ b → keep pool) :
    (ofPools (pools.filter keep) balances).directed a b = (ofPools pools balances).directed a b := by
  have distinct' : ((pools.filter keep).map (·.address)).Nodup := distinct.sublist (List.filter_sublist.map _)
  rw [directed, directed, edges_ofPools distinct, edges_ofPools distinct', List.filter_reverse, List.filter_reverse,
    filter_edges]
  intro pool hpool hkeep
  refine List.filter_eq_nil_iff.2 fun edge hedge hends => hkeep ?_
  obtain ⟨-, hfirst, hsecond, hne⟩ := mem_edgesOf hedge
  obtain ⟨rfl, rfl⟩ : edge.first = a ∧ edge.second = b := by simpa using hends
  exact h pool hpool hfirst hsecond hne

end PoolIndex

namespace PathFinder

variable {index index' : PoolIndex} {pairs : List TokenPair} {pair : TokenPair} {e : SwapEvent} {wrapped : Address}

/-- The pairs that are kept after one more, which is left out if its tokens are the same or known. -/
def keepPair (kept : List TokenPair) (p : TokenPair) : List TokenPair :=
  if p.1 = p.2 ∨ kept.any (samePair p) then kept else p :: kept

/-- Keeping a pair of tokens loses no pair that was kept. -/
theorem subset_keepPair (kept : List TokenPair) (p : TokenPair) : kept ⊆ keepPair kept p := by
  unfold keepPair
  split
  · exact List.Subset.refl _
  · exact List.subset_cons_self _ _

/-- A pair of different tokens is kept in one order or the other. -/
theorem samePair_mem_keepPair (kept : List TokenPair) (hne : pair.1 ≠ pair.2) :
    ∃ q ∈ keepPair kept pair, samePair pair q := by
  unfold keepPair
  split
  · rename_i hknown
    simpa using hknown.resolve_left hne
  · exact ⟨pair, List.mem_cons_self, by simp [samePair]⟩

/-- What is kept stays, and every pair of different tokens has its turn. -/
theorem samePair_mem_foldl (kept : List TokenPair) (hne : pair.1 ≠ pair.2)
    (h : (∃ q ∈ kept, samePair pair q) ∨ pair ∈ pairs) : ∃ q ∈ pairs.foldl keepPair kept, samePair pair q := by
  induction pairs generalizing kept with
  | nil => exact h.resolve_right List.not_mem_nil
  | cons p pairs ih =>
    refine ih _ ?_
    rcases h with ⟨q, hq, hsame⟩ | hmem
    · exact .inl ⟨q, subset_keepPair kept p hq, hsame⟩
    · rcases List.mem_cons.1 hmem with rfl | hmem
      · exact .inl (samePair_mem_keepPair kept hne)
      · exact .inr hmem

/-- Of every pair of different tokens, one with the same tokens is kept. -/
theorem samePair_mem_distinctPairs (h : pair ∈ pairs) (hne : pair.1 ≠ pair.2) :
    ∃ q ∈ distinctPairs pairs, samePair pair q := by
  obtain ⟨q, hq, hsame⟩ := samePair_mem_foldl [] hne (.inr h)
  exact ⟨q, List.mem_reverse.2 hq, hsame⟩

/-- An index of the pools of some pairs has all edges of these pairs. -/
theorem agree_listsOneOf {pools : List Pool} (distinct : (pools.map (·.address)).Nodup)
    (balances : List ObservedBalance) (h : pair ∈ pairs) :
    PoolIndex.Agree (.ofPools (pools.filter (·.listsOneOf (distinctPairs pairs))) balances) (.ofPools pools balances)
      pair.1 pair.2 := by
  have hkeep (pool : Pool) (hfirst : pair.1 ∈ pool.tokens) (hsecond : pair.2 ∈ pool.tokens) (hne : pair.1 ≠ pair.2) :
      pool.listsOneOf (distinctPairs pairs) := by
    obtain ⟨q, hq, hsame⟩ := samePair_mem_distinctPairs h hne
    refine List.any_eq_true.2 ⟨q, hq, decide_eq_true ?_⟩
    simp only [samePair, decide_eq_true_eq] at hsame
    rcases hsame with rfl | ⟨h1, h2⟩
    · exact ⟨hfirst, hsecond⟩
    · exact ⟨h2 ▸ hsecond, h1 ▸ hfirst⟩
  constructor
  · exact PoolIndex.directed_filter distinct balances fun pool _ => hkeep pool
  · exact PoolIndex.directed_filter distinct balances fun pool _ hsecond hfirst hne =>
      hkeep pool hfirst hsecond hne.symm
  · rfl

/-- The pairs that a search for arbitrages against an event reads. -/
def linkPairs (e : SwapEvent) (wrapped : Address) : List TokenPair :=
  if e.touches wrapped then [(e.tokenIn, e.tokenOut)]
  else [(wrapped, e.tokenOut), (e.tokenIn, wrapped), (e.tokenIn, e.tokenOut)]

/-- A search for arbitrages reads the index at its link pairs. -/
theorem cyclesAgainst_congr (h : ∀ pair ∈ linkPairs e wrapped, PoolIndex.Agree index index' pair.1 pair.2) :
    cyclesAgainst e index wrapped = cyclesAgainst e index' wrapped := by
  unfold cyclesAgainst
  unfold linkPairs at h
  by_cases htouches : e.touches wrapped
  · rw [if_pos htouches, List.forall_mem_singleton] at h
    rw [if_pos htouches, if_pos htouches]
    unfold directCycles
    by_cases hin : e.tokenIn = wrapped
    · simp only [hin, if_true] at h ⊢
      rw [h.deepest]
    · have hout : e.tokenOut = wrapped := by simpa [SwapEvent.touches, hin] using htouches
      rw [hout] at h
      simp only [hin, if_false]
      rw [h.symm.deepest]
  · rw [if_neg htouches] at h
    simp only [List.forall_mem_cons] at h
    obtain ⟨hout, hin, hboth, -⟩ := h
    rw [if_neg htouches, if_neg htouches, triangle, triangle, detour, detour, hout.deepest, hin.symm.deepest,
      hin.symm.deepestTwo, hboth.deepest]

/-- A search for sandwiches reads the index between the wrapped token and the one that the victim pays in. -/
theorem routeTo_congr (h : e.tokenIn ≠ wrapped → PoolIndex.Agree index index' wrapped e.tokenIn) :
    routeTo e index wrapped = routeTo e index' wrapped := by
  unfold routeTo
  by_cases hin : e.tokenIn = wrapped
  · rw [if_pos hin, if_pos hin]
  · rw [if_neg hin, if_neg hin, (h hin).deepest]

/-- **Indexing only the link pairs loses no path.** Of pools with different addresses, index only those that list both
tokens of a link pair. Then all arbitrages are found that are found when all pools are indexed, in the same order, and
so are all sandwiches. -/
theorem paths_linkPairs {pools : List Pool} (distinct : (pools.map (·.address)).Nodup)
    (balances : List ObservedBalance) (events : List SwapEvent) (wrapped : Address) :
    arbitrages events (.ofPools pools balances) wrapped =
        arbitrages events (.ofPools (pools.filter (·.listsOneOf (arbitragePairs events wrapped))) balances) wrapped ∧
      sandwiches events (.ofPools pools balances) wrapped =
        sandwiches events (.ofPools (pools.filter (·.listsOneOf (sandwichPairs events wrapped))) balances) wrapped := by
  constructor
  · rw [arbitrages, arbitrages]
    congr 1
    refine List.flatMap_congr fun e he => (cyclesAgainst_congr fun pair hpair => ?_).symm
    have hlinked : pair ∈ events.flatMap (linkPairs · wrapped) := List.mem_flatMap.2 ⟨e, he, hpair⟩
    exact agree_listsOneOf distinct balances hlinked
  · rw [sandwiches, sandwiches]
    congr 1
    refine List.filterMap_congr fun e he => (routeTo_congr fun hin => ?_).symm
    have hlinked : (wrapped, e.tokenIn) ∈
        (events.filter fun e => e.tokenIn ≠ wrapped).map fun e => (wrapped, e.tokenIn) :=
      List.mem_map.2 ⟨e, List.mem_filter.2 ⟨he, by simpa using hin⟩, rfl⟩
    exact agree_listsOneOf distinct balances hlinked

/-- Three pools that a victim's tokens 1 and 2 and the wrapped token 9 are linked by, one of them of three coins, and
one pool of another token. -/
def linkedPools : List Pool :=
  [⟨.ofNat 30, .uniswapV2, [.ofNat 1, .ofNat 2], default⟩, ⟨.ofNat 31, .biswap, [.ofNat 9, .ofNat 7], default⟩,
    ⟨.ofNat 32, .curveStableSwap, [.ofNat 2, .ofNat 9, .ofNat 1], default⟩,
    ⟨.ofNat 33, .biswap, [.ofNat 9, .ofNat 1], default⟩]

/-- The pool of the other token is left out, and both cycles are found. -/
theorem paths_linkPairs_threeCoins :
    let victim : SwapEvent := ⟨.uniswapV2, .ofNat 30, .ofNat 1, .ofNat 2, 10, 9⟩
    let balances : List ObservedBalance :=
      [⟨.ofNat 32, .ofNat 9, 50⟩, ⟨.ofNat 33, .ofNat 9, 70⟩, ⟨.ofNat 32, .ofNat 1, 5⟩]
    let arbitraged := linkedPools.filter (·.listsOneOf (arbitragePairs [victim] (.ofNat 9)))
    let sandwiched := linkedPools.filter (·.listsOneOf (sandwichPairs [victim] (.ofNat 9)))
    arbitraged.length = 3 ∧ sandwiched.length = 2 ∧
      arbitrages [victim] (.ofPools linkedPools balances) (.ofNat 9) =
        arbitrages [victim] (.ofPools arbitraged balances) (.ofNat 9) ∧
      sandwiches [victim] (.ofPools linkedPools balances) (.ofNat 9) =
        sandwiches [victim] (.ofPools sandwiched balances) (.ofNat 9) ∧
      (arbitrages [victim] (.ofPools linkedPools balances) (.ofNat 9)).map Path.pools =
        [[.ofNat 32, .ofNat 30, .ofNat 33], [.ofNat 33, .ofNat 32, .ofNat 30, .ofNat 32]] := by
  intro victim balances arbitraged sandwiched
  have distinct : (linkedPools.map (·.address)).Nodup := by decide +kernel
  obtain ⟨harbitrages, hsandwiches⟩ := paths_linkPairs distinct balances [victim] (.ofNat 9)
  refine ⟨by decide +kernel, by decide +kernel, harbitrages, hsandwiches, ?_⟩
  simp only [arbitrages, cyclesAgainst, directCycles, triangle, detour, PoolIndex.deepest, PoolIndex.deepestTwo,
    PoolIndex.funded, PoolIndex.ranked_eq_insertionSort]
  decide +kernel

end PathFinder
end Searcher

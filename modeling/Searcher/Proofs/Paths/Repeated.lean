/-
# Pools that a path uses twice

A quote takes every hop at the state in which its pool was loaded, so it is exact only where no pool serves two hops.

An index is *simple* if every pool was added with different tokens. Then no two of its edges are parallel at one pool
(`PoolIndex.Simple.pairwise_edges`), so the pools between two tokens are all different
(`PoolIndex.Simple.nodup_between`), and the deepest one is not the second deepest
(`PoolIndex.Simple.deepest_ne_secondDeepest`). No link is at the victim's pool either. That leaves the links between
different pairs of tokens: one pool can be the deepest of two pairs, if it trades the wrapped token and both tokens of
the victim. It takes a pool of three tokens or more (`PoolIndex.TradesAll.three_le`), and then the path may use it twice
(`PathFinder.paths_oneLinkRepeats`).
-/

import Mathlib.Data.List.Pairwise
import Mathlib.Data.List.Perm.Subperm
import Searcher.Proofs.Paths.AroundVictim

namespace Searcher

namespace TokenEdge

/-- The edges join the same tokens at the same pool. -/
def Parallel (e e' : TokenEdge) : Prop :=
  e.link.pool = e'.link.pool ∧ (e.first = e'.first ∧ e.second = e'.second ∨ e.first = e'.second ∧ e.second = e'.first)

/-- Edges are parallel in either order. -/
theorem Parallel.symm {e e' : TokenEdge} (h : e.Parallel e') : e'.Parallel e :=
  ⟨h.1.symm, h.2.imp (fun hends => ⟨hends.1.symm, hends.2.symm⟩) fun hends => ⟨hends.2.symm, hends.1.symm⟩⟩

instance : Std.Symm fun e e' : TokenEdge => ¬ e.Parallel e' := ⟨fun _ _ hne h => hne h.symm⟩

end TokenEdge

namespace PoolIndex

variable {index : PoolIndex} {link first second : PoolLink} {a b : Address} {exclude : List Address}

/-- The indexes that pools of different tokens and balances can be put into one by one. -/
inductive Simple : PoolIndex → Prop
  | empty : Simple {}
  | addPool {index : PoolIndex} (h : Simple index) (pool : Address) (exchange : Exchange) {tokens : List Address}
      (distinct : tokens.Nodup) : Simple (index.addPool pool exchange tokens)
  | setBalance {index : PoolIndex} (h : Simple index) (pool token : Address) (amount : Nat) :
      Simple (index.setBalance pool token amount)

/-- A simple index has been reached: it is built from the empty one like any other. -/
theorem Simple.reached (h : index.Simple) : index.Reached := by
  induction h with
  | empty => exact .empty
  | addPool _ pool exchange _ ih => exact ih.addPool pool exchange _
  | setBalance _ pool token amount ih => exact ih.setBalance pool token amount

/-- The index of pools of different tokens, with any balances, is simple. -/
theorem simple_ofPools {pools : List Pool} (distinct : ∀ p ∈ pools, p.tokens.Nodup) (balances : List ObservedBalance) :
    (ofPools pools balances).Simple := by
  rw [ofPools_eq_foldl]
  refine List.foldlRecOn _ _ ?_ fun _ hindex b _ => hindex.setBalance b.pool b.token b.amount
  exact List.foldlRecOn _ _ .empty fun _ hindex p hp => hindex.addPool p.address p.exchange (distinct p hp)

/-- A pool that lists its tokens once each has no parallel edges of its own. -/
theorem pairwise_edgesOf {tokens : List Address} (distinct : tokens.Nodup) :
    (edgesOf link tokens).Pairwise fun e e' => ¬ e.Parallel e' := by
  induction tokens with
  | nil => exact .nil
  | cons token rest ih =>
    obtain ⟨hnew, hrest⟩ := List.nodup_cons.1 distinct
    rw [edgesOf, List.pairwise_append]
    refine ⟨List.pairwise_map.2 ((hrest.filter _).imp ?_), ih hrest, ?_⟩
    · rintro b b' hne ⟨-, ⟨-, hsame⟩ | ⟨hcrossed, hcrossed'⟩⟩
      · exact hne hsame
      · exact hne (hcrossed'.trans hcrossed)
    · rintro e he e' he' ⟨-, hends⟩
      obtain ⟨b, -, rfl⟩ := List.mem_map.1 he
      obtain ⟨-, hfirst, hsecond, -⟩ := mem_edgesOf he'
      rcases hends with ⟨hsame, -⟩ | ⟨hcrossed, -⟩
      · rw [← hsame] at hfirst
        exact hnew hfirst
      · rw [← hcrossed] at hsecond
        exact hnew hsecond

/-- **A simple index has no parallel edges at a pool.** -/
theorem Simple.pairwise_edges (h : index.Simple) : index.edges.Pairwise fun e e' => ¬ e.Parallel e' := by
  induction h with
  | empty => exact .nil
  | @addPool index h pool exchange tokens distinct ih =>
    rcases hnew : index.pool? pool with _ | known
    · rw [edges_addPool exchange tokens hnew, List.pairwise_append, List.pairwise_reverse]
      refine ⟨(pairwise_edgesOf distinct).imp fun hne hparallel => hne hparallel.symm, ih, ?_⟩
      -- an edge that was there is at a pool of the index
      intro e he e' he' hparallel
      obtain ⟨⟨_, hknown, -⟩, -⟩ := h.reached.sound e' he'
      obtain ⟨hlink, -⟩ := mem_edgesOf (List.mem_reverse.1 he)
      rw [← hparallel.1, hlink, hnew] at hknown
      cases hknown
    · rw [PoolIndex.addPool, if_pos (by simp [hnew])]
      exact ih
  | setBalance _ pool token amount ih => exact ih

/-- So between two tokens of a simple index every pool stands once. -/
theorem Simple.nodup_directed (h : index.Simple) (a b : Address) : ((index.directed a b).map (·.pool)).Nodup := by
  rw [directed, List.map_map]
  refine List.pairwise_map.2 ((h.pairwise_edges.filter _).imp_of_mem ?_)
  intro e e' he he' hne hpool
  obtain ⟨-, hends⟩ := List.mem_filter.1 he
  obtain ⟨-, hends'⟩ := List.mem_filter.1 he'
  obtain ⟨hfirst, hsecond⟩ : e.first = a ∧ e.second = b := by simpa using hends
  obtain ⟨hfirst', hsecond'⟩ : e'.first = a ∧ e'.second = b := by simpa using hends'
  exact hne ⟨hpool, .inl ⟨hfirst.trans hfirst'.symm, hsecond.trans hsecond'.symm⟩⟩

/-- **A simple index names a pool once between two tokens.** -/
theorem Simple.nodup_between (h : index.Simple) (a b : Address) : ((index.between a b).map (·.pool)).Nodup := by
  rw [between, List.map_append, List.nodup_append]
  refine ⟨h.nodup_directed a b, h.nodup_directed b a, ?_⟩
  intro pool hforth pool' hback hsame
  obtain ⟨link, hlink, rfl⟩ := List.mem_map.1 hforth
  obtain ⟨link', hlink', rfl⟩ := List.mem_map.1 hback
  obtain ⟨e, he, rfl⟩ := List.mem_map.1 hlink
  obtain ⟨e', he', rfl⟩ := List.mem_map.1 hlink'
  obtain ⟨hmem, hends⟩ := List.mem_filter.1 he
  obtain ⟨hmem', hends'⟩ := List.mem_filter.1 he'
  obtain ⟨hfirst, hsecond⟩ : e.first = a ∧ e.second = b := by simpa using hends
  obtain ⟨hfirst', hsecond'⟩ : e'.first = b ∧ e'.second = a := by simpa using hends'
  have hne : e ≠ e' := by
    rintro rfl
    exact (h.reached.sound e hmem).2 (hfirst.trans hsecond'.symm)
  exact h.pairwise_edges.forall hmem hmem' hne ⟨hsame, .inr ⟨hfirst.trans hsecond'.symm, hsecond.trans hfirst'.symm⟩⟩

/-- It does among the links with a balance too, with some pools left out. -/
theorem Simple.nodup_funded (h : index.Simple) (a b : Address) (exclude : List Address) :
    ((index.funded a b exclude).map (·.pool)).Nodup := by
  have hcandidates := (h.nodup_between a b).sublist
    ((List.filter_sublist (p := fun link : PoolLink => ¬ exclude.contains link.pool)).map PoolLink.pool)
  have hranked : ((index.ranked a b a exclude).map (·.pool)).Nodup :=
    ((List.mergeSort_perm _ _).map PoolLink.pool).nodup_iff.2 hcandidates
  exact hranked.sublist (List.filter_sublist.map PoolLink.pool)

/-- **The deepest pool is not the second deepest.** -/
theorem Simple.deepest_ne_secondDeepest (h : index.Simple) (hfirst : index.deepest a b exclude = some first)
    (hsecond : index.secondDeepest a b exclude = some second) : first.pool ≠ second.pool := by
  have hnodup := h.nodup_funded a b exclude
  rw [← deepestTwo_fst] at hfirst
  unfold secondDeepest at hsecond
  unfold deepestTwo at hfirst hsecond
  rcases hfunded : index.funded a b exclude with _ | ⟨link, rest⟩
  · simp [hfunded] at hfirst
  · rw [hfunded, List.map_cons, List.nodup_cons] at hnodup
    obtain rfl : link = first := by simpa [hfunded] using hfirst
    have hmem : second ∈ rest := List.mem_of_head? (by simpa [hfunded] using hsecond)
    exact fun hsame => hnodup.1 (hsame ▸ List.mem_map_of_mem hmem)

/-- The pool trades the wrapped token and both tokens of an event, and these are three. -/
structure TradesAll (index : PoolIndex) (wrapped : Address) (e : SwapEvent) (pool : Address) : Prop where
  distinct : [wrapped, e.tokenIn, e.tokenOut].Nodup
  listed : ∃ known, index.pool? pool = some known ∧ [wrapped, e.tokenIn, e.tokenOut] ⊆ known.tokens

/-- A pool that trades all three is no pair. -/
theorem TradesAll.three_le {wrapped pool : Address} {e : SwapEvent} (h : index.TradesAll wrapped e pool) :
    ∃ known ∈ index.pools, 3 ≤ known.tokens.length := by
  obtain ⟨known, hknown, hsubset⟩ := h.listed
  exact ⟨known, List.mem_of_find?_eq_some hknown, (h.distinct.subperm hsubset).length_le⟩

/-- A pool that is linked for two pairs of tokens has all of them. -/
theorem Sound.tradesAll (h : index.Sound) {wrapped : Address} {e : SwapEvent} {c d : Address}
    (distinct : [wrapped, e.tokenIn, e.tokenOut].Nodup) (hcovered : [wrapped, e.tokenIn, e.tokenOut] ⊆ [a, b, c, d])
    (hfirst : first ∈ index.between a b) (hsecond : second ∈ index.between c d) (hsame : first.pool = second.pool) :
    index.TradesAll wrapped e first.pool := by
  obtain ⟨tokens, hknown, ha, hb⟩ := h.lists hfirst
  obtain ⟨tokens', hknown', hc, hd⟩ := h.lists hsecond
  rw [← hsame, hknown, Option.some.injEq, IndexedPool.mk.injEq] at hknown'
  obtain ⟨-, -, rfl⟩ := hknown'
  refine ⟨distinct, _, hknown, fun token htoken => ?_⟩
  have := hcovered htoken
  simp only [List.mem_cons, List.not_mem_nil, or_false] at this
  rcases this with rfl | rfl | rfl | rfl <;> assumption

end PoolIndex

namespace PathFinder

variable {index : PoolIndex} {wrapped a b : Address} {link : PoolLink} {e : SwapEvent} {p : Path}

/-- The pools of the path are all different, but for one that may serve two hops: not the victim's, and one that trades
the wrapped token and both tokens of the victim. -/
def MayRepeat (index : PoolIndex) (wrapped : Address) (e : SwapEvent) (p : Path) : Prop :=
  p.pools.Nodup ∨ ∃ pool ∈ p.pools, pool ≠ e.pool ∧ index.TradesAll wrapped e pool ∧ (p.pools.erase pool).Nodup

/-- A pool that is left out is not among the links. -/
theorem pool_ne_of_mem_funded (h : link ∈ index.funded a b [e.pool]) : link.pool ≠ e.pool := by
  simpa using (PoolIndex.funded_spec h).2.1

/-- The other hop of a cycle of two is not at the victim's pool. -/
theorem directCycles_nodup (hp : p ∈ directCycles e index wrapped) : p.pools.Nodup := by
  unfold directCycles at hp
  rcases hlink : index.deepest wrapped (if e.tokenIn = wrapped then e.tokenOut else e.tokenIn) [e.pool] with _ | link
  · simp [hlink] at hp
  · have hne := pool_ne_of_mem_funded (PoolIndex.mem_funded_of_deepest hlink)
    simp only [hlink] at hp
    split at hp
    · obtain rfl := List.mem_singleton.1 hp
      simpa [Path.ofHops, hop] using hne
    · obtain rfl := List.mem_singleton.1 hp
      simpa [Path.ofHops, hop] using hne.symm

/-- The two links of a triangle are different, or at a pool of all three tokens. -/
theorem triangle_mayRepeat (h : index.Sound) (hin : e.tokenIn ≠ wrapped) (hout : e.tokenOut ≠ wrapped)
    (hp : triangle e index wrapped = some p) (hvalid : p.isValid) : MayRepeat index wrapped e p := by
  obtain ⟨front, hfront, hp⟩ := Option.bind_eq_some_iff.1 hp
  obtain ⟨back, hback, hp⟩ := Option.bind_eq_some_iff.1 hp
  obtain rfl := Option.some.inj hp
  have hfront := PoolIndex.mem_funded_of_deepest hfront
  have hback := PoolIndex.mem_funded_of_deepest hback
  have hne := pool_ne_of_mem_funded hfront
  have hne' := pool_ne_of_mem_funded hback
  have hpools : (Path.ofHops 0 [hop front, (e.exchange, e.pool), hop back]
    [wrapped, e.tokenOut, e.tokenIn, wrapped]).pools = [front.pool, e.pool, back.pool] := rfl
  unfold MayRepeat
  rw [hpools]
  by_cases hsame : front.pool = back.pool
  · have hswap : e.tokenOut ≠ e.tokenIn := by
      simp [Path.isValid, Path.ofHops, Path.changesTokens] at hvalid
      exact hvalid.1.2.1
    refine .inr ⟨front.pool, by simp, hne, ?_, by simpa using hne'.symm⟩
    exact h.tradesAll (by simp [hin.symm, hout.symm, hswap.symm]) (by simp) (PoolIndex.funded_spec hfront).1
      (PoolIndex.funded_spec hback).1 hsame
  · exact .inl (by simp [hsame, hne, hne'.symm])

/-- The outer links of a detour are different. The link in between is at another pool than both, or it and one of them
are at a pool of all three tokens. -/
theorem detour_mayRepeat (h : index.Simple) (hin : e.tokenIn ≠ wrapped) (hout : e.tokenOut ≠ wrapped)
    (hp : detour e index wrapped = some p) : MayRepeat index wrapped e p := by
  obtain ⟨first, hfirst, hp⟩ := Option.bind_eq_some_iff.1 hp
  have hfirst : index.deepest wrapped e.tokenIn [e.pool] = some first :=
    (index.deepestTwo_fst wrapped e.tokenIn [e.pool]).symm.trans hfirst
  obtain ⟨second, hsecond, hp⟩ := Option.bind_eq_some_iff.1 hp
  obtain ⟨middle, hmiddle, hp⟩ := Option.bind_eq_some_iff.1 hp
  obtain rfl := Option.some.inj hp
  have houter := h.deepest_ne_secondDeepest hfirst hsecond
  have hfirst := PoolIndex.mem_funded_of_deepest hfirst
  have hsecond := PoolIndex.mem_funded_of_secondDeepest hsecond
  have hmiddle := PoolIndex.mem_funded_of_deepest hmiddle
  have hne := pool_ne_of_mem_funded hfirst
  have hne' := pool_ne_of_mem_funded hsecond
  have hne'' := pool_ne_of_mem_funded hmiddle
  have hbetween := (PoolIndex.funded_spec hmiddle).1
  have distinct : [wrapped, e.tokenIn, e.tokenOut].Nodup := by
    simp [hin.symm, hout.symm, h.reached.sound.ne_of_mem_between hbetween]
  have hpools : (Path.ofHops 0 [hop first, hop middle, (e.exchange, e.pool), hop second]
    [wrapped, e.tokenIn, e.tokenOut, e.tokenIn, wrapped]).pools =
      [first.pool, middle.pool, e.pool, second.pool] := rfl
  unfold MayRepeat
  rw [hpools]
  -- only the middle link joins other tokens than the outer two, so it alone can share a pool with one of them
  by_cases hsame : middle.pool = first.pool
  · refine .inr ⟨middle.pool, by simp, hne'', ?_, by simp [hsame, hne, houter, hne'.symm]⟩
    exact h.reached.sound.tradesAll distinct (by simp) hbetween (PoolIndex.funded_spec hfirst).1 hsame
  · by_cases hsame' : middle.pool = second.pool
    · refine .inr ⟨middle.pool, by simp, hne'', ?_, by simp [hsame', houter, hne, hne'.symm]⟩
      exact h.reached.sound.tradesAll distinct (by simp) hbetween (PoolIndex.funded_spec hsecond).1 hsame'
    · exact .inl (by simp [Ne.symm hsame, hne, houter, hne'', hsame', hne'.symm])

/-- **A cycle against an event repeats at most one pool**, and only one that trades the wrapped token and both tokens
of the victim. -/
theorem cyclesAgainst_mayRepeat (h : index.Simple) (hp : p ∈ cyclesAgainst e index wrapped) (hvalid : p.isValid) :
    MayRepeat index wrapped e p := by
  unfold cyclesAgainst at hp
  split at hp
  · exact .inl (directCycles_nodup hp)
  · rename_i htouches
    obtain ⟨hin, hout⟩ : e.tokenIn ≠ wrapped ∧ e.tokenOut ≠ wrapped := by simpa [SwapEvent.touches] using htouches
    rcases List.mem_append.1 hp with hp | hp
    · exact triangle_mayRepeat h.reached.sound hin hout (Option.mem_toList.1 hp) hvalid
    · exact detour_mayRepeat h hin hout (Option.mem_toList.1 hp)

/-- **A route to the wrapped token repeats no pool.** Its second leg leaves out the pool of the first. -/
theorem routeTo_nodup (hp : routeTo e index wrapped = some p) : p.pools.Nodup := by
  unfold routeTo at hp
  split at hp
  · obtain rfl := Option.some.inj hp
    exact List.nodup_singleton _
  · obtain ⟨front, hfront, rfl⟩ := Option.map_eq_some_iff.1 hp
    simpa [Path.ofHops, hop] using pool_ne_of_mem_funded (PoolIndex.mem_funded_of_deepest hfront)

/-- **A path uses no pool twice, but for a link pool of three tokens.** In an index of pools of different tokens, the
pools of a sandwich are all different. So are those of an arbitrage, but for one that may serve two of the hops before
and behind the victim's, and that trades the wrapped token and both tokens of the victim. Where all pools are pairs
there is none. -/
theorem paths_oneLinkRepeats (h : index.Simple) (events : List SwapEvent) (wrapped : Address) :
    (∀ p ∈ sandwiches events index wrapped, p.pools.Nodup) ∧
    ∀ p ∈ arbitrages events index wrapped,
      (∃ e ∈ events, Opposes index wrapped e p ∧ MayRepeat index wrapped e p) ∧
      ((∀ known ∈ index.pools, known.tokens.length ≤ 2) → p.pools.Nodup) := by
  constructor
  · intro p hp
    obtain ⟨hp, -⟩ := List.mem_filter.1 hp
    obtain ⟨e, -, hp⟩ := List.mem_filterMap.1 hp
    exact routeTo_nodup hp
  · intro p hp
    obtain ⟨hp, hkept⟩ := List.mem_filter.1 hp
    obtain ⟨e, he, hp⟩ := List.mem_flatMap.1 hp
    obtain ⟨hvalid, -⟩ : p.isValid ∧ p.isCycle := by simpa using hkept
    have hrepeat := cyclesAgainst_mayRepeat h hp hvalid
    refine ⟨⟨e, he, (cyclesAgainst_opposes h.reached.sound hp).2, hrepeat⟩, fun hpairs => ?_⟩
    refine hrepeat.resolve_right ?_
    rintro ⟨pool, -, -, hall, -⟩
    obtain ⟨known, hknown, hthree⟩ := hall.three_le
    exact absurd (hpairs known hknown) (by omega)

/-- The four pools are a simple index, each with its two tokens. -/
theorem fourPools_simple : fourPools.Simple := PoolIndex.simple_ofPools (by decide) _

/-- The detour through four pairs uses each of them once. -/
theorem paths_oneLinkRepeats_pairs :
    let victim : SwapEvent := ⟨.uniswapV2, .ofNat 30, .ofNat 1, .ofNat 2, 10, 9⟩
    fourPools.Simple ∧ (∀ known ∈ fourPools.pools, known.tokens.length ≤ 2) ∧
      ∃ p, arbitrages [victim] fourPools (.ofNat 9) = [p] ∧ p.pools.Nodup := by
  intro victim
  have hpaths : arbitrages [victim] fourPools (.ofNat 9) = [Path.ofHops 0
      [(.pancakeswapV2, .ofNat 34), (.biswap, .ofNat 31), (.uniswapV2, .ofNat 30), (.uniswapV2, .ofNat 33)]
      [.ofNat 9, .ofNat 1, .ofNat 2, .ofNat 1, .ofNat 9]] := by
    simp only [arbitrages, cyclesAgainst, directCycles, triangle, detour, PoolIndex.deepest, PoolIndex.deepestTwo,
      PoolIndex.funded, PoolIndex.ranked_eq_insertionSort]
    decide +kernel
  have hpairs : ∀ known ∈ fourPools.pools, known.tokens.length ≤ 2 := by decide
  exact ⟨fourPools_simple, hpairs, _, hpaths,
    ((paths_oneLinkRepeats fourPools_simple [victim] (.ofNat 9)).2 _ (hpaths ▸ List.mem_singleton_self _)).2 hpairs⟩

/-- The victim's pair, and a pool that trades the wrapped token 9 and both tokens of the pair. -/
def threeCoins : PoolIndex :=
  ((({} : PoolIndex).addPool (.ofNat 30) .uniswapV2 [.ofNat 1, .ofNat 2]).addPool (.ofNat 31) .curveTriCrypto
    [.ofNat 1, .ofNat 2, .ofNat 9]).setBalance (.ofNat 31) (.ofNat 9) 1000

/-- **A cycle can leave and come back through one pool**, the deepest for both tokens of the victim. -/
theorem arbitrages_threeCoins :
    let victim : SwapEvent := ⟨.uniswapV2, .ofNat 30, .ofNat 1, .ofNat 2, 10, 9⟩
    threeCoins.Simple ∧
      (arbitrages [victim] threeCoins (.ofNat 9)).map Path.pools = [[.ofNat 31, .ofNat 30, .ofNat 31]] ∧
      ∃ p ∈ arbitrages [victim] threeCoins (.ofNat 9), ¬ p.pools.Nodup := by
  intro victim
  have hsimple : threeCoins.Simple :=
    ((PoolIndex.Simple.empty.addPool _ _ (by decide)).addPool _ _ (by decide)).setBalance _ _ _
  have hpaths : arbitrages [victim] threeCoins (.ofNat 9) = [Path.ofHops 0
      [(.curveTriCrypto, .ofNat 31), (.uniswapV2, .ofNat 30), (.curveTriCrypto, .ofNat 31)]
      [.ofNat 9, .ofNat 2, .ofNat 1, .ofNat 9]] := by
    simp only [arbitrages, cyclesAgainst, directCycles, triangle, detour, PoolIndex.deepest, PoolIndex.deepestTwo,
      PoolIndex.funded, PoolIndex.ranked_eq_insertionSort]
    decide +kernel
  exact ⟨hsimple, by rw [hpaths]; rfl, _, hpaths ▸ List.mem_singleton_self _, by decide⟩

end PathFinder
end Searcher

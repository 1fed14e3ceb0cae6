/-
# Paths are well formed around their victim

An arbitrage trades *against* the event that it answers: in one hop at the pool of the event, from the token that the
victim took out to the one that it paid in. A sandwich trades *along* the event, in its last hop. All other hops are at
link pools (`PoolIndex.Funds`): another pool than the victim's, which the index has on the exchange of the hop with both
tokens of the hop, and which has been seen to hold some of the token that the pools were ranked by, the wrapped token if
the hop trades it.

The shapes of the paths are built from two lists, of hops and of tokens; read hop by hop they are legs
(`Path.legs_ofHops_cons`).
-/

import Searcher.PathFinder
import Searcher.Proofs.Paths.Index

namespace Searcher

namespace Path

theorem legs_ofHops_nil (amountIn : Nat) (tokens : List Address) : (ofHops amountIn [] tokens).legs = [] := rfl

/-- The first hop trades the first token for the second one. -/
theorem legs_ofHops_cons (amountIn : Nat) (hop : Exchange × Address) (hops : List (Exchange × Address))
    (a b : Address) (tokens : List Address) :
    (ofHops amountIn (hop :: hops) (a :: b :: tokens)).legs =
      ⟨some hop.1, hop.2, a, b⟩ :: (ofHops amountIn hops (b :: tokens)).legs := by
  have hfirst : (ofHops amountIn (hop :: hops) (a :: b :: tokens)).exchangeAt 0 = some hop.1 := Exchange.ofId?_id hop.1
  rw [legs, legs]
  simp only [ofHops, List.map_cons, List.zipIdx_cons', List.filterMap_cons, List.filterMap_map] at hfirst ⊢
  simp only [List.getElem?_cons_zero, List.getElem?_cons_succ, Nat.zero_add, hfirst]
  rfl

/-- A valid path has a leg at each of its pools. -/
theorem map_pool_legs {p : Path} (h : p.isValid) : p.legs.map (·.pool) = p.pools := by
  simp only [isValid, decide_eq_true_eq] at h
  have htokens : p.tokens.length = p.pools.length + 1 := h.2.2.1
  rw [legs, List.map_filterMap]
  refine (List.filterMap_eq_map_iff_forall_eq_some.2 ?_).trans (List.zipIdx_map_fst 0 p.pools)
  rintro ⟨pool, i⟩ hi
  have hi : i < p.pools.length := by simpa using (List.mem_zipIdx hi).2.1
  simp only [List.getElem?_eq_getElem (show i < p.tokens.length by omega),
    List.getElem?_eq_getElem (show i + 1 < p.tokens.length by omega), Option.map_some]

/-- A valid path has as many legs as hops. -/
theorem length_legs {p : Path} (h : p.isValid) : p.legs.length = p.length := by
  rw [← List.length_map (·.pool), map_pool_legs h, length]

end Path

/-- The hop that an event makes. -/
def SwapEvent.along (e : SwapEvent) : Leg := ⟨some e.exchange, e.pool, e.tokenIn, e.tokenOut⟩

/-- The hop against an event. -/
def SwapEvent.against (e : SwapEvent) : Leg := ⟨some e.exchange, e.pool, e.tokenOut, e.tokenIn⟩

/-- The hop is at a link pool: not the pool of the victim, linked by the index between the tokens of the hop, which it
lists both on the exchange of the hop, and holding some of the wrapped token if the hop trades it, else of the token
that is paid in. -/
structure PoolIndex.Funds (index : PoolIndex) (wrapped victim : Address) (leg : Leg) : Prop where
  pool_ne : leg.pool ≠ victim
  linked : ∃ exchange, leg.exchange = some exchange ∧
    ⟨leg.pool, exchange⟩ ∈ index.between leg.tokenIn leg.tokenOut ∧
    index.Lists ⟨leg.pool, exchange⟩ leg.tokenIn leg.tokenOut
  funded : index.balance leg.pool (if leg.tokenOut = wrapped then wrapped else leg.tokenIn) ≠ 0

namespace PathFinder

variable {index : PoolIndex} {wrapped a b victim : Address} {link : PoolLink} {e : SwapEvent} {p : Path}

/-- The path trades against an event in one hop, and at link pools in all others. -/
def Opposes (index : PoolIndex) (wrapped : Address) (e : SwapEvent) (p : Path) : Prop :=
  ∃ before behind, p.legs = before ++ e.against :: behind ∧ ∀ leg ∈ before ++ behind, index.Funds wrapped e.pool leg

/-- The path trades along an event in its last hop, and before it at one link pool at most. -/
def Follows (index : PoolIndex) (wrapped : Address) (e : SwapEvent) (p : Path) : Prop :=
  ∃ before, p.legs = before ++ [e.along] ∧ before.length ≤ 1 ∧ ∀ leg ∈ before, index.Funds wrapped e.pool leg

/-- A hop from the token that its pool was ranked by. -/
theorem funds_forth (h : index.Sound) (hne : b ≠ wrapped) (hlink : link ∈ index.funded a b [victim]) :
    index.Funds wrapped victim ⟨some link.exchange, link.pool, a, b⟩ := by
  obtain ⟨hbetween, hvictim, hfunded⟩ := PoolIndex.funded_spec hlink
  exact ⟨by simpa using hvictim, ⟨_, rfl, hbetween, h.lists hbetween⟩, by simpa [hne] using hfunded⟩

/-- A hop back to the wrapped token. -/
theorem funds_back (h : index.Sound) (hlink : link ∈ index.funded wrapped a [victim]) :
    index.Funds wrapped victim ⟨some link.exchange, link.pool, a, wrapped⟩ := by
  obtain ⟨hbetween, hvictim, hfunded⟩ := PoolIndex.funded_spec hlink
  exact ⟨by simpa using hvictim, ⟨_, rfl, PoolIndex.mem_between_comm.1 hbetween, (h.lists hbetween).symm⟩,
    by simpa using hfunded⟩

/-- The cycle of two hops: one at the victim's pool, the other between the same tokens. -/
theorem directCycles_opposes (h : index.Sound) (htouches : e.touches wrapped) (hp : p ∈ directCycles e index wrapped) :
    p.tokens.head? = some wrapped ∧ Opposes index wrapped e p := by
  unfold directCycles at hp
  by_cases hin : e.tokenIn = wrapped
  · rcases hlink : index.deepest wrapped e.tokenOut [e.pool] with _ | link
    · simp [hin, hlink] at hp
    · obtain rfl : p = .ofHops e.amountIn [hop link, (e.exchange, e.pool)] [wrapped, e.tokenOut, wrapped] := by
        simpa [hin, hlink] using hp
      have hfunded := PoolIndex.mem_funded_of_deepest hlink
      have hne := h.ne_of_mem_between (PoolIndex.funded_spec hfunded).1
      refine ⟨rfl, [⟨some link.exchange, link.pool, wrapped, e.tokenOut⟩], [], ?_,
        List.forall_mem_singleton.2 (funds_forth h hne.symm hfunded)⟩
      simp only [Path.legs_ofHops_cons, Path.legs_ofHops_nil, SwapEvent.against, hin]
      rfl
  · have hout : e.tokenOut = wrapped := by simpa [SwapEvent.touches, hin] using htouches
    rcases hlink : index.deepest wrapped e.tokenIn [e.pool] with _ | link
    · simp [hin, hlink] at hp
    · obtain rfl : p = .ofHops 0 [(e.exchange, e.pool), hop link] [wrapped, e.tokenIn, wrapped] := by
        simpa [hin, hlink] using hp
      refine ⟨rfl, [], [⟨some link.exchange, link.pool, e.tokenIn, wrapped⟩], ?_,
        List.forall_mem_singleton.2 (funds_back h (PoolIndex.mem_funded_of_deepest hlink))⟩
      simp only [Path.legs_ofHops_cons, Path.legs_ofHops_nil, SwapEvent.against, hout]
      rfl

/-- The cycle of three hops has the victim's pool in the middle. -/
theorem triangle_opposes (h : index.Sound) (hout : e.tokenOut ≠ wrapped) (hp : triangle e index wrapped = some p) :
    p.tokens.head? = some wrapped ∧ Opposes index wrapped e p := by
  obtain ⟨front, hfront, hp⟩ := Option.bind_eq_some_iff.1 hp
  obtain ⟨back, hback, hp⟩ := Option.bind_eq_some_iff.1 hp
  obtain rfl := Option.some.inj hp
  refine ⟨rfl, [⟨some front.exchange, front.pool, wrapped, e.tokenOut⟩],
    [⟨some back.exchange, back.pool, e.tokenIn, wrapped⟩], ?_, ?_⟩
  · simp only [Path.legs_ofHops_cons, Path.legs_ofHops_nil]
    rfl
  · exact List.forall_mem_cons.2 ⟨funds_forth h hout (PoolIndex.mem_funded_of_deepest hfront),
      List.forall_mem_singleton.2 (funds_back h (PoolIndex.mem_funded_of_deepest hback))⟩

/-- The cycle of four hops has the victim's pool after the two that lead to it. -/
theorem detour_opposes (h : index.Sound) (hin : e.tokenIn ≠ wrapped) (hout : e.tokenOut ≠ wrapped)
    (hp : detour e index wrapped = some p) : p.tokens.head? = some wrapped ∧ Opposes index wrapped e p := by
  obtain ⟨first, hfirst, hp⟩ := Option.bind_eq_some_iff.1 hp
  have hfirst : index.deepest wrapped e.tokenIn [e.pool] = some first :=
    (index.deepestTwo_fst wrapped e.tokenIn [e.pool]).symm.trans hfirst
  obtain ⟨second, hsecond, hp⟩ := Option.bind_eq_some_iff.1 hp
  obtain ⟨middle, hmiddle, hp⟩ := Option.bind_eq_some_iff.1 hp
  obtain rfl := Option.some.inj hp
  refine ⟨rfl, [⟨some first.exchange, first.pool, wrapped, e.tokenIn⟩,
      ⟨some middle.exchange, middle.pool, e.tokenIn, e.tokenOut⟩],
    [⟨some second.exchange, second.pool, e.tokenIn, wrapped⟩], ?_, ?_⟩
  · simp only [Path.legs_ofHops_cons, Path.legs_ofHops_nil]
    rfl
  · exact List.forall_mem_cons.2 ⟨funds_forth h hin (PoolIndex.mem_funded_of_deepest hfirst),
      List.forall_mem_cons.2 ⟨funds_forth h hout (PoolIndex.mem_funded_of_deepest hmiddle),
        List.forall_mem_singleton.2 (funds_back h (PoolIndex.mem_funded_of_secondDeepest hsecond))⟩⟩

/-- **Cycles against an event** start at the wrapped token and trade against it, whichever of the shapes they have. -/
theorem cyclesAgainst_opposes (h : index.Sound) (hp : p ∈ cyclesAgainst e index wrapped) :
    p.tokens.head? = some wrapped ∧ Opposes index wrapped e p := by
  unfold cyclesAgainst at hp
  split at hp
  · rename_i htouches
    exact directCycles_opposes h htouches hp
  · rename_i htouches
    obtain ⟨hin, hout⟩ : e.tokenIn ≠ wrapped ∧ e.tokenOut ≠ wrapped := by simpa [SwapEvent.touches] using htouches
    rcases List.mem_append.1 hp with hp | hp
    · exact triangle_opposes h hout (Option.mem_toList.1 hp)
    · exact detour_opposes h hin hout (Option.mem_toList.1 hp)

/-- **A route after an event** starts at the wrapped token and pays for what the event pays for. -/
theorem routeTo_follows (h : index.Sound) (hp : routeTo e index wrapped = some p) :
    p.tokens.head? = some wrapped ∧ Follows index wrapped e p := by
  unfold routeTo at hp
  split at hp
  · rename_i hin
    obtain rfl := Option.some.inj hp
    refine ⟨rfl, [], ?_, Nat.zero_le _, fun _ hleg => nomatch hleg⟩
    simp only [Path.legs_ofHops_cons, Path.legs_ofHops_nil, SwapEvent.along, hin]
    rfl
  · rename_i hin
    obtain ⟨front, hfront, rfl⟩ := Option.map_eq_some_iff.1 hp
    refine ⟨rfl, [⟨some front.exchange, front.pool, wrapped, e.tokenIn⟩], ?_, Nat.le_refl _,
      List.forall_mem_singleton.2 (funds_forth h hin (PoolIndex.mem_funded_of_deepest hfront))⟩
    simp only [Path.legs_ofHops_cons, Path.legs_ofHops_nil]
    rfl

/-- **Paths are well formed around their victim.** Whatever was put into the index, every arbitrage is valid, starts and
ends on the wrapped token, and trades in one hop against an event and in all others at link pools. Every sandwich is
valid, starts on the wrapped token, and has one hop or two, of which the last trades along an event and the other one at
a link pool. -/
theorem paths_aroundVictim (h : index.Reached) (events : List SwapEvent) (wrapped : Address) :
    (∀ p ∈ arbitrages events index wrapped, p.isValid ∧ p.legs.length = p.length ∧
      p.tokens.head? = some wrapped ∧ p.tokens.getLast? = some wrapped ∧ ∃ e ∈ events, Opposes index wrapped e p) ∧
    ∀ p ∈ sandwiches events index wrapped, p.isValid ∧ p.legs.length = p.length ∧
      p.tokens.head? = some wrapped ∧ ∃ e ∈ events, Follows index wrapped e p := by
  constructor
  · intro p hp
    obtain ⟨hp, hkept⟩ := List.mem_filter.1 hp
    obtain ⟨e, he, hp⟩ := List.mem_flatMap.1 hp
    obtain ⟨hvalid, hcycle⟩ : p.isValid ∧ p.isCycle := by simpa using hkept
    obtain ⟨hstart, hopposes⟩ := cyclesAgainst_opposes h.sound hp
    have hends : p.tokens.head? = p.tokens.getLast? := by
      simp only [Path.isCycle, decide_eq_true_eq] at hcycle
      exact hcycle.2
    exact ⟨hvalid, Path.length_legs hvalid, hstart, hends ▸ hstart, e, he, hopposes⟩
  · intro p hp
    obtain ⟨hp, hvalid⟩ := List.mem_filter.1 hp
    obtain ⟨e, he, hp⟩ := List.mem_filterMap.1 hp
    obtain ⟨hstart, hfollows⟩ := routeTo_follows h.sound hp
    exact ⟨hvalid, Path.length_legs hvalid, hstart, e, he, hfollows⟩

/-- Two pools of the tokens 1 and 2, the deeper one the victim's, and two of the wrapped token 9 and token 1. -/
def fourPools : PoolIndex :=
  .ofPools [⟨.ofNat 30, .uniswapV2, [.ofNat 1, .ofNat 2], default⟩, ⟨.ofNat 31, .biswap, [.ofNat 2, .ofNat 1], default⟩,
      ⟨.ofNat 33, .uniswapV2, [.ofNat 9, .ofNat 1], default⟩,
      ⟨.ofNat 34, .pancakeswapV2, [.ofNat 1, .ofNat 9], default⟩]
    [⟨.ofNat 30, .ofNat 1, 900⟩, ⟨.ofNat 31, .ofNat 1, 500⟩, ⟨.ofNat 33, .ofNat 9, 1000⟩, ⟨.ofNat 34, .ofNat 9, 2000⟩]

/-- The four pools are an index that has been reached. -/
theorem fourPools_reached : fourPools.Reached := PoolIndex.reached_ofPools _ _

/-- Two victims, one that trades token 1 for token 2 and one that pays in the wrapped token. The detour of four hops
leads around the first, the cycle of two around the second. The sandwich of the first reaches its pool through another
one, the sandwich of the second begins at its pool. -/
theorem paths_aroundVictim_detour :
    let victim : SwapEvent := ⟨.uniswapV2, .ofNat 30, .ofNat 1, .ofNat 2, 10, 9⟩
    let buyer : SwapEvent := ⟨.uniswapV2, .ofNat 33, .ofNat 9, .ofNat 1, 7, 6⟩
    let four := Path.ofHops 0
      [(.pancakeswapV2, .ofNat 34), (.biswap, .ofNat 31), (.uniswapV2, .ofNat 30), (.uniswapV2, .ofNat 33)]
      [.ofNat 9, .ofNat 1, .ofNat 2, .ofNat 1, .ofNat 9]
    let cycle := Path.ofHops 7 [(.pancakeswapV2, .ofNat 34), (.uniswapV2, .ofNat 33)] [.ofNat 9, .ofNat 1, .ofNat 9]
    let two := Path.ofHops 0 [(.pancakeswapV2, .ofNat 34), (.uniswapV2, .ofNat 30)] [.ofNat 9, .ofNat 1, .ofNat 2]
    let one := Path.ofHops 7 [(.uniswapV2, .ofNat 33)] [.ofNat 9, .ofNat 1]
    arbitrages [victim, buyer] fourPools (.ofNat 9) = [four, cycle] ∧
      sandwiches [victim, buyer] fourPools (.ofNat 9) = [two, one] ∧
      (∀ p ∈ [four, cycle], p.isValid ∧ ∃ e ∈ [victim, buyer], Opposes fourPools (.ofNat 9) e p) ∧
      ∀ p ∈ [two, one], p.isValid ∧ ∃ e ∈ [victim, buyer], Follows fourPools (.ofNat 9) e p := by
  intro victim buyer four cycle two one
  have harbitrages : arbitrages [victim, buyer] fourPools (.ofNat 9) = [four, cycle] := by
    simp only [arbitrages, cyclesAgainst, directCycles, triangle, detour, PoolIndex.deepest, PoolIndex.deepestTwo,
      PoolIndex.funded, PoolIndex.ranked_eq_insertionSort]
    decide +kernel
  have hsandwiches : sandwiches [victim, buyer] fourPools (.ofNat 9) = [two, one] := by
    simp only [sandwiches, routeTo, PoolIndex.deepest, PoolIndex.ranked_eq_insertionSort]
    decide +kernel
  obtain ⟨hopposes, hfollows⟩ := paths_aroundVictim fourPools_reached [victim, buyer] (.ofNat 9)
  rw [harbitrages] at hopposes
  rw [hsandwiches] at hfollows
  refine ⟨harbitrages, hsandwiches, ?_, ?_⟩
  · intro p hp
    obtain ⟨hvalid, -, -, -, hevent⟩ := hopposes p hp
    exact ⟨hvalid, hevent⟩
  · intro p hp
    obtain ⟨hvalid, -, -, hevent⟩ := hfollows p hp
    exact ⟨hvalid, hevent⟩

end PathFinder
end Searcher

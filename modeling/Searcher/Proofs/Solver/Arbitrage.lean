/-
# Closed-form arbitrage is what the moved pools pay

The solver reads a path as a row of hops: reserves in the direction of each leg, moved by the victim's events one by
one. Here the events move the pools themselves instead, on the side that each event names and whatever the direction
of a leg is (`Market.after`). A hop moved by an event is the hop of the moved pool (`Hop.ofPool?_after`), and a hop pays
what its pool quotes (`Pool.quote_eq`). So a row of hops pays exactly what the path does over the moved pools, and the
revenue that the solver reports is the one that an exact quote shows.
-/

import Searcher.Proofs.Ticking
import Searcher.Solver.Mobius

namespace Searcher

variable {σ : Type}

/-- Every leg of a path is at one of its pools. -/
theorem Path.pool_mem (path : Path) {leg : Leg} (h : leg ∈ path.legs) : leg.pool ∈ path.pools := by
  obtain ⟨⟨pool, i⟩, hp, h⟩ := List.mem_filterMap.1 h
  have hpool : pool ∈ path.pools := List.fst_mem_of_mem_zipIdx hp
  dsimp only at h
  split at h
  · obtain rfl := Option.some.inj h
    exact hpool
  · cases h

/-- The event trades the two tokens of the pool. -/
def SwapEvent.Trades (e : SwapEvent) (pool : Pool) : Prop :=
  pool.tokens = [e.tokenIn, e.tokenOut] ∨ pool.tokens = [e.tokenOut, e.tokenIn]

/-- The pool after an event at it: the input is added to the reserve of its token, the output leaves the other one. An
output above the reserve leaves nothing here; no hop comes out of such an event (`Hop.after`). -/
def Pool.after (pool : Pool) (e : SwapEvent) : Pool :=
  match pool.state with
  | .constantProduct reserve0 reserve1 fee =>
    if pool.indexOf? e.tokenIn = some 0 then
      { pool with state := .constantProduct (reserve0 + e.amountIn) (reserve1 - e.amountOut) fee }
    else { pool with state := .constantProduct (reserve0 - e.amountOut) (reserve1 + e.amountIn) fee }
  | _ => pool

/-- The market with every pool moved by the events at it. -/
def Market.after (market : Market) (events : List SwapEvent) : Market := fun address =>
  (market address).map fun pool => (events.filter fun e => e.pool = address).foldl Pool.after pool

namespace Pool

/-- An event moves no tokens into or out of the list of a pool. -/
@[simp] theorem after_tokens (pool : Pool) (e : SwapEvent) : (pool.after e).tokens = pool.tokens := by
  unfold after
  cases pool.state with
  | constantProduct reserve0 reserve1 fee => exact (apply_ite Pool.tokens ..).trans (ite_self _)
  | _ => rfl

/-- An event adds what it pays in to one reserve, and takes what it pays out off the other. -/
theorem after_state {pool : Pool} {reserve0 reserve1 : Nat} {fee : Fee}
    (h : pool.state = .constantProduct reserve0 reserve1 fee) (e : SwapEvent) :
    (pool.after e).state = if pool.indexOf? e.tokenIn = some 0 then
      .constantProduct (reserve0 + e.amountIn) (reserve1 - e.amountOut) fee
    else .constantProduct (reserve0 - e.amountOut) (reserve1 + e.amountIn) fee := by
  simp only [after, h]
  exact apply_ite Pool.state ..

end Pool

namespace Hop

variable {pool : Pool} {tokenIn tokenOut : Address} {hop hop' : Hop} {e : SwapEvent}

/-- A hop is that of a pair which lists both tokens at different places, its reserves in the order of the hop. -/
theorem ofPool?_eq_some : ofPool? pool tokenIn tokenOut = some hop ↔
    ∃ reserve0 reserve1 fee i j, pool.state = .constantProduct reserve0 reserve1 fee ∧
      pool.indexOf? tokenIn = some i ∧ pool.indexOf? tokenOut = some j ∧ i ≠ j ∧
      hop = if i = 0 then ⟨reserve0, reserve1, fee⟩ else ⟨reserve1, reserve0, fee⟩ := by
  unfold ofPool?
  cases pool.state with
  | constantProduct reserve0 reserve1 fee =>
    cases pool.indexOf? tokenIn <;> cases pool.indexOf? tokenOut <;> simp
    grind
  | _ => simp

/-- The hops of a pool of two tokens. -/
theorem ofPool?_pair {a b : Address} (ht : pool.tokens = [a, b]) : ofPool? pool tokenIn tokenOut = some hop ↔
    ∃ reserve0 reserve1 fee, pool.state = .constantProduct reserve0 reserve1 fee ∧ a ≠ b ∧
      (tokenIn = a ∧ tokenOut = b ∧ hop = ⟨reserve0, reserve1, fee⟩ ∨
        tokenIn = b ∧ tokenOut = a ∧ hop = ⟨reserve1, reserve0, fee⟩) := by
  have index (t : Address) (i : Nat) : pool.indexOf? t = some i ↔ t = a ∧ i = 0 ∨ t ≠ a ∧ t = b ∧ i = 1 := by
    simp only [Pool.indexOf?, ht, List.idxOf?_cons, List.idxOf?_nil]
    grind
  rw [ofPool?_eq_some]
  simp only [index]
  constructor
  · rintro ⟨reserve0, reserve1, fee, i, j, hs, ⟨rfl, rfl⟩ | ⟨hi, rfl, rfl⟩, ⟨rfl, rfl⟩ | ⟨hj, rfl, rfl⟩, hij, rfl⟩
    · exact absurd rfl hij
    · exact ⟨reserve0, reserve1, fee, hs, Ne.symm hj, .inl ⟨rfl, rfl, rfl⟩⟩
    · exact ⟨reserve0, reserve1, fee, hs, Ne.symm hi, .inr ⟨rfl, rfl, rfl⟩⟩
    · exact absurd rfl hij
  · rintro ⟨reserve0, reserve1, fee, hs, hab, ⟨rfl, rfl, rfl⟩ | ⟨rfl, rfl, rfl⟩⟩
    · exact ⟨reserve0, reserve1, fee, 0, 1, hs, .inl ⟨rfl, rfl⟩, .inr ⟨hab.symm, rfl, rfl⟩, by simp, rfl⟩
    · exact ⟨reserve0, reserve1, fee, 1, 0, hs, .inr ⟨hab.symm, rfl, rfl⟩, .inl ⟨rfl, rfl⟩, by simp, rfl⟩

/-- An event moves a hop as it moves the reserves, in whichever direction of the two it goes. -/
theorem after_eq_some (h : hop.after e tokenIn = some hop') :
    hop' = if e.tokenIn = tokenIn then ⟨hop.reserveIn + e.amountIn, hop.reserveOut - e.amountOut, hop.fee⟩
      else ⟨hop.reserveIn - e.amountOut, hop.reserveOut + e.amountIn, hop.fee⟩ := by
  unfold after gained spent at h
  grind

/-- **A moved hop is the hop of the moved pool.** -/
theorem ofPool?_after (trades : e.Trades pool) (h : ofPool? pool tokenIn tokenOut = some hop)
    (h' : hop.after e tokenIn = some hop') : ofPool? (pool.after e) tokenIn tokenOut = some hop' := by
  -- the event names the tokens in the order of the pool or the other way round, and so does the leg
  rcases trades with ht | ht
  · obtain ⟨reserve0, reserve1, fee, hs, hne, h⟩ := (ofPool?_pair ht).1 h
    have hfirst : pool.indexOf? e.tokenIn = some 0 := by simp [Pool.indexOf?, ht, List.idxOf?_cons]
    rw [ofPool?_pair ((pool.after_tokens e).trans ht), Pool.after_state hs, if_pos hfirst]
    refine ⟨_, _, _, rfl, hne, ?_⟩
    rcases h with ⟨rfl, rfl, rfl⟩ | ⟨rfl, rfl, rfl⟩
    · exact .inl ⟨rfl, rfl, (after_eq_some h').trans (if_pos rfl)⟩
    · exact .inr ⟨rfl, rfl, (after_eq_some h').trans (if_neg hne)⟩
  · obtain ⟨reserve0, reserve1, fee, hs, hne, h⟩ := (ofPool?_pair ht).1 h
    have hsecond : pool.indexOf? e.tokenIn ≠ some 0 := by
      simp [Pool.indexOf?, ht, List.idxOf?_cons, hne]
    rw [ofPool?_pair ((pool.after_tokens e).trans ht), Pool.after_state hs, if_neg hsecond]
    refine ⟨_, _, _, rfl, hne, ?_⟩
    rcases h with ⟨rfl, rfl, rfl⟩ | ⟨rfl, rfl, rfl⟩
    · exact .inl ⟨rfl, rfl, (after_eq_some h').trans (if_neg hne.symm)⟩
    · exact .inr ⟨rfl, rfl, (after_eq_some h').trans (if_pos rfl)⟩

/-- **A hop after events is the hop of the pool after them**, by induction over the events. -/
theorem ofPool?_foldl {events : List SwapEvent} (trades : ∀ e ∈ events, e.Trades pool)
    (h : ofPool? pool tokenIn tokenOut = some hop)
    (h' : events.foldlM (fun hop e => hop.after e tokenIn) hop = some hop') :
    ofPool? (events.foldl Pool.after pool) tokenIn tokenOut = some hop' := by
  induction events generalizing pool hop with
  | nil => exact h.trans h'
  | cons e events ih =>
    obtain ⟨mid, hm, h'⟩ := Option.bind_eq_some_iff.1 h'
    have hmid := ofPool?_after (trades e (by simp)) h hm
    exact ih (fun e' he' => by simpa [SwapEvent.Trades] using trades e' (by simp [he'])) hmid h'

end Hop

/-- **A hop pays what its pool quotes.** -/
theorem Pool.quote_eq {pool : Pool} {tokenIn tokenOut : Address} {hop : Hop}
    (h : Hop.ofPool? pool tokenIn tokenOut = some hop) (ticks : Address → TickSource σ) (amountIn : Nat) :
    pool.quote ticks amountIn tokenIn tokenOut = Ticking.ofQuote (hop.amountOut amountIn) := by
  obtain ⟨reserve0, reserve1, fee, i, j, hs, hi, hj, hij, rfl⟩ := Hop.ofPool?_eq_some.1 h
  simp only [Pool.quote, hi, hj, if_pos hij, Pool.quoteAt, hs, Hop.amountOut]
  by_cases h0 : i = 0
  · simp [h0]
  · simp [h0]

namespace Market

variable {market : Market} {path : Path} {events : List SwapEvent}

/-- A leg is quoted as its hop is, over any source of ticks. -/
theorem quoteLeg_eq {leg : Leg} {hop : Hop} (h : Hop.ofLeg? market events leg = some hop)
    (trades : ∀ e ∈ events, e.pool = leg.pool → ∀ pool, market e.pool = some pool → e.Trades pool)
    (ticks : Address → TickSource σ) (amount : Nat) :
    (market.after events).quoteLeg ticks amount leg = Ticking.ofQuote (hop.amountOut amount) := by
  obtain ⟨pool, hp, h⟩ := Option.bind_eq_some_iff.1 h
  obtain ⟨start, hs, h⟩ := Option.bind_eq_some_iff.1 h
  have trades' : ∀ e ∈ events.filter fun e => e.pool = leg.pool, e.Trades pool := by
    intro e he
    obtain ⟨he, hleg⟩ := List.mem_filter.1 he
    have hleg : e.pool = leg.pool := by simpa using hleg
    exact trades e he hleg pool (hleg ▸ hp)
  have moved := Hop.ofPool?_foldl trades' hs h
  simp only [quoteLeg, after, hp, Option.map_some]
  exact Pool.quote_eq moved ticks amount

/-- **A path is quoted as its hops are chained**, leg by leg. -/
theorem foldlM_quoteLeg {legs : List Leg} {hops : List Hop} (h : legs.mapM (Hop.ofLeg? market events) = some hops)
    (trades : ∀ leg ∈ legs, ∀ e ∈ events, e.pool = leg.pool → ∀ pool, market e.pool = some pool → e.Trades pool)
    (ticks : Address → TickSource σ) (amount : Nat) :
    legs.foldlM ((market.after events).quoteLeg ticks) amount = Ticking.ofQuote (Hop.chain amount hops) := by
  induction legs generalizing hops amount with
  | nil =>
    obtain rfl : [] = hops := Option.some.inj h
    rfl
  | cons leg legs ih =>
    rw [List.mapM_cons] at h
    obtain ⟨hop, hl, h⟩ := Option.bind_eq_some_iff.1 h
    obtain ⟨rest, hr, h⟩ := Option.bind_eq_some_iff.1 h
    obtain rfl : hop :: rest = hops := Option.some.inj h
    rw [List.foldlM_cons, quoteLeg_eq hl (trades leg (by simp)), Hop.chain, List.foldlM_cons, Ticking.ofQuote_bind]
    congr 1
    funext amount
    exact ih hr (fun leg' h' => trades leg' (by simp [h'])) amount

/-- **A row of hops pays what its path does.** -/
theorem quotePath_after {hops : List Hop} (h : Hop.ofPath? market path events = some hops)
    (trades : ∀ e ∈ events, e.pool ∈ path.pools → ∀ pool, market e.pool = some pool → e.Trades pool)
    (ticks : Address → TickSource σ) (amountIn : Nat) :
    (market.after events).quotePath ticks path amountIn = Ticking.ofQuote (Hop.chain amountIn hops) := by
  unfold Hop.ofPath? at h
  split at h
  · refine foldlM_quoteLeg h (fun leg hleg e he hpool => trades e he ?_) ticks amountIn
    rw [hpool]
    exact path.pool_mem hleg
  · cases h

end Market

/-- An optimum is a positive amount. -/
theorem Mobius.optimum_pos {map : Mobius} {x : Nat} (h : map.optimum = some x) : 0 < x := by
  unfold optimum at h
  split at h
  · cases h
  · obtain ⟨square, -, h⟩ := Option.bind_eq_some_iff.1 h
    obtain ⟨excess, -, h⟩ := Option.bind_eq_some_iff.1 h
    unfold Wide.amount? at h
    split at h
    · rename_i hx
      obtain rfl := Option.some.inj h
      exact Nat.pos_of_ne_zero hx.2
    · cases h

namespace Opportunity

/-- An opportunity that is worth something has an output above its input. -/
theorem ofOutput_ne_none {x out : Nat} (h : ofOutput x out ≠ none) :
    ofOutput x out = ⟨x, out - x⟩ ∧ x < out := by
  unfold ofOutput at h ⊢
  split at h
  · rename_i hx
    exact ⟨if_pos hx, hx⟩
  · exact absurd rfl h

/-- What the solver reports of a row of hops is a gain that the row pays. -/
theorem ofHops_ne_none {hops : List Hop} (h : ofHops hops ≠ none) :
    0 < (ofHops hops).amountIn ∧ 0 < (ofHops hops).revenue ∧
      Hop.chain (ofHops hops).amountIn hops = .ok ((ofHops hops).amountIn + (ofHops hops).revenue) := by
  unfold ofHops at h ⊢
  split at h
  · exact absurd rfl h
  · rename_i hpositive
    rw [if_neg hpositive]
    rcases hx : (Mobius.compose hops).bind Mobius.optimum with _ | x <;> rw [hx] at h
    · exact absurd rfl h
    · obtain ⟨map, -, hopt⟩ := Option.bind_eq_some_iff.1 hx
      simp only at h ⊢
      rcases hout : Hop.chain x hops with e | out <;> rw [hout] at h
      · exact absurd rfl h
      · obtain ⟨heq, hlt⟩ := ofOutput_ne_none h
        simp only [heq]
        exact ⟨Mobius.optimum_pos hopt, Nat.sub_pos_of_lt hlt, by rw [hout]; congr 1; omega⟩

/-- **The solver's answers are exact quotes.** Let each event at a pool of the path trade the two tokens of that pool.
If the path has hops after the events, they pay for every input what the path is quoted over the moved pools, an amount
or an error. So an opportunity that the solver reports is an input and a gain above zero, and the quote of that input is
the input and the gain together. -/
theorem arbitrage_realised {market : Market} {path : Path} {events : List SwapEvent}
    (trades : ∀ e ∈ events, e.pool ∈ path.pools → ∀ pool, market e.pool = some pool → e.Trades pool)
    (ticks : Address → TickSource σ) (s : σ) :
    (∀ hops, Hop.ofPath? market path events = some hops → ∀ x,
        Hop.chain x hops = ((market.after events).quotePath ticks path x s).1) ∧
      (arbitrage path market events ≠ none →
        0 < (arbitrage path market events).amountIn ∧ 0 < (arbitrage path market events).revenue ∧
          ((market.after events).quotePath ticks path (arbitrage path market events).amountIn s).1 =
            .ok ((arbitrage path market events).amountIn + (arbitrage path market events).revenue)) := by
  have realised : ∀ hops, Hop.ofPath? market path events = some hops → ∀ x,
      Hop.chain x hops = ((market.after events).quotePath ticks path x s).1 := by
    intro hops h x
    rw [Market.quotePath_after h trades ticks x]
    rfl
  refine ⟨realised, fun h => ?_⟩
  unfold arbitrage at h ⊢
  split at h
  · rename_i hcycle
    rw [if_pos hcycle]
    rcases hhops : Hop.ofPath? market path events with _ | hops <;> rw [hhops] at h
    · exact absurd rfl h
    · obtain ⟨hamount, hrevenue, hchain⟩ := ofHops_ne_none h
      exact ⟨hamount, hrevenue, (realised hops hhops _).symm.trans hchain⟩
  · exact absurd rfl h

/-- Two pairs that list the same tokens in opposite orders. -/
def opposedPools : List Pool :=
  [⟨.ofNat 1, .uniswapV2, [.ofNat 3, .ofNat 4], .constantProduct 100000 200000000 .standard⟩,
    ⟨.ofNat 2, .pancakeswapV2, [.ofNat 4, .ofNat 3], .constantProduct 2000000000 1000000 .standard⟩]

/-- A victim pays into the pair that the second hop trades the other way. -/
theorem arbitrage_realised_opposed :
    let path := Path.ofHops 0 [(.pancakeswapV2, .ofNat 2), (.uniswapV2, .ofNat 1)] [.ofNat 3, .ofNat 4, .ofNat 3]
    let market := Market.ofList opposedPools
    let victim : SwapEvent := ⟨.uniswapV2, .ofNat 1, .ofNat 3, .ofNat 4, 10000, 18132217⟩
    let ticks := fun _ => TickSource.complete (σ := Unit) fun _ => ⟨0, [], 0⟩
    arbitrage path market [victim] = ⟨8094, 781⟩ ∧
      ((market.after [victim]).quotePath ticks path 8094 ()).1 = .ok 8875 := by
  intro path market victim ticks
  have hsolved : arbitrage path market [victim] = ⟨8094, 781⟩ := by decide +kernel
  have trades : ∀ e ∈ [victim], e.pool ∈ path.pools → ∀ pool, market e.pool = some pool → e.Trades pool := by
    intro e he _ pool hp
    obtain rfl := List.mem_singleton.1 he
    have hfound : market victim.pool = opposedPools.head? := by decide +kernel
    obtain rfl := Option.some.inj (hfound.symm.trans hp)
    exact .inl rfl
  obtain ⟨-, -, h⟩ := (arbitrage_realised trades ticks ()).2 (by rw [hsolved]; decide)
  rw [hsolved] at h
  exact ⟨hsolved, h⟩

end Opportunity
end Searcher

/-
# A sandwich earns what is reported

What the solver reports of a sandwich was reckoned with integer swaps, one pool at a time: the front-run, the victim and
the sale at the victim's pool (`Sandwich.Round`), and on a path of two hops the purchase before them and the sale behind
them at the first pool. Here these are the trades of one market. Each swap moves a pool as the event does that tells of
it (`Hop.ofLeg?_concat`), and no other pool (`Hop.ofLeg?_append_of_ne`); so where the pools of the path are distinct,
the sales begin at the hops that the path has after the events of all trades before them, and none of them at a state
that has gone by.

The first pool is asked for an input that buys the size. It buys at least the size, except that the last unit of the
input could take it out of 256 bits; with reserves of 112 bits it does not (`ConstantProduct.amountIn_eq`).
-/

import Searcher.Proofs.Pair.LeastInput
import Searcher.Proofs.Paths.AroundVictim

namespace Searcher

/-- The event swaps at the pool of a leg, in its direction. -/
structure SwapEvent.IsAlong (e : SwapEvent) (leg : Leg) : Prop where
  pool_eq : e.pool = leg.pool
  tokenIn_eq : e.tokenIn = leg.tokenIn
  tokenOut_eq : e.tokenOut = leg.tokenOut

/-- A pair keeps its reserves in 112 bits, and its fee is a part of at most ten thousand. -/
def PoolState.Packed : PoolState → Prop
  | .constantProduct reserve0 reserve1 fee => reserve0 < reserveSize ∧ reserve1 < reserveSize ∧ fee.base ≤ 10000
  | _ => True

namespace Hop

variable {hop moved : Hop} {market : Market} {events : List SwapEvent} {e : SwapEvent} {leg : Leg}
  {tokenIn : Address} {amountIn out : ℕ}

/-- **A swap moves a hop as the event does that tells of it.** -/
theorem after_eq_moved (h : hop.swap amountIn = .ok (out, moved)) (htoken : e.tokenIn = tokenIn)
    (hin : e.amountIn = amountIn) (hout : e.amountOut = out) : hop.after e tokenIn = some moved := by
  obtain ⟨-, hfits, hle, rfl⟩ := swap_eq_ok.1 h
  subst hin hout
  simp [after, gained, spent, htoken, hfits, hle]

/-- One more event at the pool of a leg moves its hop as the swap did. -/
theorem ofLeg?_concat (h : ofLeg? market events leg = some hop) (hswap : hop.swap amountIn = .ok (out, moved))
    (he : e.IsAlong leg) (hin : e.amountIn = amountIn) (hout : e.amountOut = out) :
    ofLeg? market (events ++ [e]) leg = some moved := by
  obtain ⟨pool, hpool, h⟩ := Option.bind_eq_some_iff.1 h
  obtain ⟨start, hstart, h⟩ := Option.bind_eq_some_iff.1 h
  have hmoved := after_eq_moved hswap he.tokenIn_eq hin hout
  refine Option.bind_eq_some_iff.2 ⟨pool, hpool, Option.bind_eq_some_iff.2 ⟨start, hstart, ?_⟩⟩
  have hfilter : (events ++ [e]).filter (fun e => e.pool = leg.pool) =
      events.filter (fun e => e.pool = leg.pool) ++ [e] := by
    simp [List.filter_append, he.pool_eq]
  rw [hfilter, List.foldlM_append, h, Option.bind_eq_bind, Option.bind_some]
  simp [hmoved]

/-- Events at other pools do not move it. -/
theorem ofLeg?_append_of_ne (events : List SwapEvent) {elsewhere : List SwapEvent}
    (hne : ∀ e ∈ elsewhere, e.pool ≠ leg.pool) :
    ofLeg? market (events ++ elsewhere) leg = ofLeg? market events leg := by
  have hnone : elsewhere.filter (fun e => e.pool = leg.pool) = [] := by simpa using hne
  rw [ofLeg?, List.filter_append, hnone, List.append_nil, ofLeg?]

/-- The hop of a packed pair has narrow reserves. -/
theorem ofLeg?_packed (h : ofLeg? market [] leg = some hop)
    (hpacked : ∀ pool, market leg.pool = some pool → pool.state.Packed) :
    hop.reserveIn < reserveSize ∧ hop.reserveOut < reserveSize ∧ hop.fee.base ≤ 10000 := by
  rw [ofLeg?_nil] at h
  obtain ⟨pool, hpool, h⟩ := Option.bind_eq_some_iff.1 h
  obtain ⟨reserve0, reserve1, fee, i, j, hstate, -, -, -, rfl⟩ := ofPool?_eq_some.1 h
  obtain ⟨h0, h1, hbase⟩ : PoolState.Packed (.constantProduct reserve0 reserve1 fee) := hstate ▸ hpacked pool hpool
  split
  · exact ⟨h0, h1, hbase⟩
  · exact ⟨h1, h0, hbase⟩

theorem ofPath?_eq_mapM {path : Path} (hvalid : path.isValid) (market : Market) (events : List SwapEvent) :
    ofPath? market path events = path.legs.mapM (ofLeg? market events) := if_pos hvalid

end Hop

namespace Sandwich

variable {path : Path} {market : Market} {victim : SwapEvent} {bps : ℕ} {o : Opportunity}

/-- A front-run of `x` at a hop, the victim behind it, and the sale of all that the front-run bought: exact swaps, each
at what the one before left. The victim is paid at least `minOut`, and the sale recovers `y`. -/
structure Round (target : Hop) (victimIn minOut x y : ℕ) where
  bought : ℕ
  moved : Hop
  victimOut : ℕ
  after : Hop
  sold : Hop
  front : target.swap x = .ok (bought, moved)
  victim : moved.swap victimIn = .ok (victimOut, after)
  minOut_le : minOut ≤ victimOut
  back : after.reversed.swap bought = .ok (y, sold)

namespace Round

variable {target first : Hop} {minOut x y cost arrived : ℕ}

/-- The events of the front-run and of the victim. -/
def events (round : Round target victim.amountIn minOut x y) : List SwapEvent :=
  [{ victim with amountIn := x, amountOut := round.bought }, { victim with amountOut := round.victimOut }]

/-- A front-run that was sized and sold back is a round. -/
theorem exists_of_frontRun {front : FrontRun} {sold : Hop}
    (h : frontRun target victim.amountIn minOut = some front)
    (hback : sellBack front.after front.bought = .ok (y, sold)) :
    Nonempty (Round target victim.amountIn minOut front.amountIn y) := by
  obtain ⟨_, -, h⟩ := Option.bind_eq_some_iff.1 h
  obtain ⟨moved, out, hfront, hvictim, hmin⟩ := shave_eq_some h
  exact ⟨⟨front.bought, moved, out, front.after, sold, hfront, hvictim, hmin, hback⟩⟩

/-- **The sale begins at the hop that the victim's pool has after both events,** whatever happened before. -/
theorem ofLeg?_events (round : Round target victim.amountIn minOut x y) {last : Leg} (halong : victim.IsAlong last)
    {before : List SwapEvent} (h : Hop.ofLeg? market before last = some target) :
    Hop.ofLeg? market (before ++ round.events) last = some round.after := by
  have hfront := Hop.ofLeg?_concat (e := { victim with amountIn := x, amountOut := round.bought }) h round.front
    ⟨halong.pool_eq, halong.tokenIn_eq, halong.tokenOut_eq⟩ rfl rfl
  have hvictim := Hop.ofLeg?_concat (e := { victim with amountOut := round.victimOut }) hfront round.victim
    ⟨halong.pool_eq, halong.tokenIn_eq, halong.tokenOut_eq⟩ rfl rfl
  rwa [List.append_assoc] at hvictim

/-- All events of a round are at the victim's pool. -/
theorem pool_of_mem_events {round : Round target victim.amountIn minOut x y} {e : SwapEvent} (he : e ∈ round.events) :
    e.pool = victim.pool := by
  simp only [events, List.mem_cons, List.not_mem_nil, or_false] at he
  rcases he with rfl | rfl <;> rfl

/-- Behind a purchase at another pool the hops of both legs are the ones that the trades have left. -/
theorem mapM_ofLeg?_events (round : Round target victim.amountIn minOut x y) {leg last : Leg} {moved : Hop}
    (halong : victim.IsAlong last) (hne : leg.pool ≠ last.pool) (hfirst : Hop.ofLeg? market [] leg = some first)
    (hlast : Hop.ofLeg? market [] last = some target) (hbuy : first.swap cost = .ok (arrived, moved))
    {entry : SwapEvent} (hentry : entry.IsAlong leg) (hin : entry.amountIn = cost) (hout : entry.amountOut = arrived) :
    [leg, last].mapM (Hop.ofLeg? market (entry :: round.events)) = some [moved, round.after] := by
  have hbought : Hop.ofLeg? market [entry] leg = some moved := Hop.ofLeg?_concat hfirst hbuy hentry hin hout
  have hfirst' : Hop.ofLeg? market (entry :: round.events) leg = some moved := by
    refine (Hop.ofLeg?_append_of_ne [entry] fun e he => ?_).trans hbought
    rw [pool_of_mem_events he, halong.pool_eq]
    exact hne.symm
  have hentered : Hop.ofLeg? market [entry] last = some target := by
    refine (Hop.ofLeg?_append_of_ne [] fun e he => ?_).trans hlast
    rw [List.mem_singleton.1 he, hentry.pool_eq]
    exact hne
  have hlast' : Hop.ofLeg? market (entry :: round.events) last = some round.after :=
    round.ofLeg?_events halong hentered
  simp [List.mapM_cons, hfirst', hlast']

end Round

/-- The purchase before a front-run through a first pool. In a packed pool it buys at least the size, and what the
sale pays there is its cost and the revenue. -/
theorem throughFirst_packed {first : Hop} {x y : ℕ} (h : throughFirst first x y = some o)
    (hne : o ≠ .none) (hin : first.reserveIn < reserveSize) (hout : first.reserveOut < reserveSize)
    (hbase : first.fee.base ≤ 10000) :
    ∃ arrived moved sold, first.swap o.amountIn = .ok (arrived, moved) ∧ x ≤ arrived ∧
      moved.reversed.swap y = .ok (o.amountIn + o.revenue, sold) ∧ 0 < o.revenue := by
  obtain ⟨arrived, moved, sold, hcost, hswap, hsold, hpos⟩ := throughFirst_eq_some h hne
  have hasked := ConstantProduct.amountIn_eq (ConstantProduct.product_lt_wordSize hin hout hbase) hcost
  have hne : o.amountIn ≠ 0 := hasked ▸ Nat.succ_ne_zero _
  exact ⟨arrived, moved, sold, hswap, ConstantProduct.le_amountOut hcost hne (Hop.swap_eq_ok.1 hswap).1, hsold, hpos⟩

/-- **The reported revenue is earned by exact trades.** Let the pools of a path be distinct, and its pairs packed. What
the solver reports along the path is the revenue of a round at the last hop, the victim's. On a path of one hop the
round's front-run is the reported input, and its sale returns that and the revenue. On a path of two hops the reported
input buys at least the front-run at the first hop, and what the round recovers is sold there for the reported input and
the revenue together. All sales are made at the hops that the path has after the events of the trades before them. -/
theorem solve_earned (hdistinct : path.pools.Nodup)
    (hpacked : ∀ address ∈ path.pools, ∀ pool, market address = some pool → pool.state.Packed)
    (hsolve : solve path market victim bps = o) (hne : o ≠ .none) :
    0 < o.revenue ∧ ∃ last x y target, ∃ round : Round target victim.amountIn (minimumOut victim.amountOut bps) x y,
      victim.IsAlong last ∧
      ((path.legs = [last] ∧ Hop.ofPath? market path [] = some [target] ∧ o.amountIn = x ∧ o.revenue = y - x ∧
          Hop.ofPath? market path round.events = some [round.after]) ∨
        ∃ leg first arrived moved sold, path.legs = [leg, last] ∧ Hop.ofPath? market path [] = some [first, target] ∧
          first.swap o.amountIn = .ok (arrived, moved) ∧ x ≤ arrived ∧
          moved.reversed.swap y = .ok (o.amountIn + o.revenue, sold) ∧
          ∀ entry : SwapEvent, entry.IsAlong leg → entry.amountIn = o.amountIn → entry.amountOut = arrived →
            Hop.ofPath? market path (entry :: round.events) = some [moved, round.after]) := by
  obtain ⟨hvalid, hvictim, shape, hshape, hsolved⟩ := solve_ne_none (hsolve ▸ hne)
  rw [hsolve] at hsolved
  obtain ⟨htokenIn, htokenOut, target, front, y, sold, htarget, hfront, hback, hreport⟩ := ofShape_eq_some hsolved
  obtain ⟨round⟩ := Round.exists_of_frontRun hfront hback
  have hpools := Path.map_pool_legs hvalid
  simp only [Hop.ofPath?_eq_mapM hvalid]
  obtain ⟨last, hlegs, rfl⟩ | ⟨leg, last, hlegs, rfl⟩ := legs_of_shape? hshape
  · have htarget : Hop.ofLeg? market [] last = some target := htarget
    obtain rfl : o = .ofOutput front.amountIn y := hreport
    obtain ⟨heq, hlt⟩ := Opportunity.ofOutput_ne_none hne
    rw [← hpools, hlegs] at hvictim
    have halong : victim.IsAlong last := ⟨(Option.some.inj hvictim).symm, htokenIn, htokenOut⟩
    have hafter : Hop.ofLeg? market round.events last = some round.after := round.ofLeg?_events halong htarget
    rw [heq, hlegs]
    refine ⟨Nat.sub_pos_of_lt hlt, last, front.amountIn, y, target, round, halong, .inl ⟨rfl, ?_, rfl, rfl, ?_⟩⟩
    · simp [List.mapM_cons, htarget]
    · simp [List.mapM_cons, hafter]
  · have htarget : Hop.ofLeg? market [] last = some target := htarget
    obtain ⟨first, hfirst, hreport⟩ := hreport
    rw [← hpools, hlegs] at hvictim hdistinct hpacked
    have halong : victim.IsAlong last := ⟨(Option.some.inj hvictim).symm, htokenIn, htokenOut⟩
    have hother : leg.pool ≠ last.pool := by simpa using hdistinct
    obtain ⟨hin, hout, hbase⟩ := Hop.ofLeg?_packed hfirst (hpacked leg.pool (by simp))
    obtain ⟨arrived, moved, sold, hbuy, harrived, hsold, hrevenue⟩ := throughFirst_packed hreport hne hin hout hbase
    rw [hlegs]
    refine ⟨hrevenue, last, front.amountIn, y, target, round, halong,
      .inr ⟨leg, first, arrived, moved, sold, rfl, ?_, hbuy, harrived, hsold, fun entry hentry hin hout =>
        round.mapM_ofLeg?_events halong hother hfirst htarget hbuy hentry hin hout⟩⟩
    simp [List.mapM_cons, hfirst, htarget]

/-- A front-run of 2665 buys the 531 that were sized, and is sold back for 3171. -/
theorem solve_earned_fine :
    let victim : SwapEvent := ⟨.uniswapV2, .ofNat 2, .ofNat 4, .ofNat 5, 10000, 9066⟩
    solve pathOfTwo fineMarket victim 100 = ⟨2665, 506⟩ ∧ pathOfTwo.pools.Nodup ∧
      (∀ address ∈ pathOfTwo.pools, ∀ pool, fineMarket address = some pool → pool.state.Packed) ∧
      ∃ x y first target arrived moved sold, Nonempty (Round target 10000 (minimumOut 9066 100) x y) ∧
        Hop.ofPath? fineMarket pathOfTwo [] = some [first, target] ∧ first.swap 2665 = .ok (arrived, moved) ∧
        x ≤ arrived ∧ moved.reversed.swap y = .ok (3171, sold) := by
  intro victim
  have hsolved : solve pathOfTwo fineMarket victim 100 = ⟨2665, 506⟩ := by decide +kernel
  have hdistinct : pathOfTwo.pools.Nodup := by decide
  have hpacked : ∀ address ∈ pathOfTwo.pools, ∀ pool, fineMarket address = some pool → pool.state.Packed := by
    intro address _ pool hpool
    have hmem := List.mem_of_find?_eq_some hpool
    simp only [List.mem_reverse, List.mem_cons, List.not_mem_nil, or_false] at hmem
    rcases hmem with rfl | rfl <;> exact ⟨by decide, by decide, by decide⟩
  obtain ⟨-, last, x, y, target, round, -, ⟨hlegs, -⟩ | hthrough⟩ := solve_earned hdistinct hpacked hsolved (by decide)
  · have hlength : pathOfTwo.legs.length = 2 := by decide +kernel
    rw [hlegs] at hlength
    cases hlength
  · obtain ⟨leg, first, arrived, moved, sold, -, hhops, hbuy, harrived, hsold, -⟩ := hthrough
    exact ⟨hsolved, hdistinct, hpacked, x, y, first, target, arrived, moved, sold, ⟨round⟩, hhops, hbuy, harrived,
      hsold⟩

end Sandwich
end Searcher

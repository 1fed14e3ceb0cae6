/-
# What a sandwich leaves its victim

The solver sizes a front-run at the victim's pool and checks, with integer swaps, that the victim still gets its minimum
behind it (`Sandwich.shave_eq_some`). What is sent is an amount of the first token of the path, which is traded through
all of its hops (`Hop.arriving`). On a path of one hop the two are the same. On a path of two hops the first pool is
paid the least amount that buys the size there, and for this amount it may pay out more than the size: a unit of its
input token can be worth many of its output token. So the size that was checked is a lower bound of what arrives at the
victim's pool (`ConstantProduct.le_amountOut`). The victim keeps its minimum where the two agree, and may lose it where
they do not.
-/

import Searcher.Proofs.Quote.Numeric
import Searcher.Proofs.Solver.Arbitrage
import Searcher.Solver.Sandwich

namespace Searcher
namespace ConstantProduct

variable {wanted given cost out reserveIn reserveOut : Nat} {fee : Fee}

/-- What a pair pays is the quotient of its formula, over a divisor that is not zero. -/
theorem amountOut_eq_ok (h : amountOut given reserveIn reserveOut fee = .ok out) :
    reserveIn * fee.base + given * fee.keep ≠ 0 ∧
      out = given * fee.keep * reserveOut / (reserveIn * fee.base + given * fee.keep) := by
  unfold amountOut at h
  split at h
  · cases h
  · obtain ⟨-, -, h⟩ := Checked.bind_eq_ok.1 h
    obtain ⟨kept, hkept, h⟩ := Checked.bind_eq_ok.1 h
    obtain ⟨numerator, hnumerator, h⟩ := Checked.bind_eq_ok.1 h
    obtain ⟨weighed, hweighed, h⟩ := Checked.bind_eq_ok.1 h
    obtain ⟨denominator, hdenominator, h⟩ := Checked.bind_eq_ok.1 h
    obtain ⟨-, rfl⟩ := Checked.fit_eq_ok.1 hkept
    obtain ⟨-, rfl⟩ := Checked.fit_eq_ok.1 hnumerator
    obtain ⟨-, rfl⟩ := Checked.fit_eq_ok.1 hweighed
    obtain ⟨-, rfl⟩ := Checked.fit_eq_ok.1 hdenominator
    exact Checked.div_eq_ok.1 h

/-- A pair that quotes holds something on both sides. -/
theorem reserves_pos (h : amountOut given reserveIn reserveOut fee = .ok out) : 0 < reserveIn ∧ 0 < reserveOut := by
  unfold amountOut at h
  split at h
  · cases h
  · omega

/-- Why a pair does not quote: a reserve is empty, a number does not fit, or nothing of the input counts. -/
theorem amountOut_eq_error {e : QuoteError} (h : amountOut given reserveIn reserveOut fee = .error e) :
    e = .insufficientLiquidity ∧ (reserveIn = 0 ∨ reserveOut = 0) ∨ e = .overflow ∨
      e = .divisionByZero ∧ reserveIn * fee.base + given * fee.keep = 0 := by
  unfold amountOut at h
  split at h
  · rename_i hempty
    exact .inl ⟨(Except.error.inj h).symm, hempty⟩
  · simp only [Checked.add, Checked.mul, Checked.bind_eq_error, Checked.fit_eq_error, Checked.fit_eq_ok,
      Checked.div_eq_error] at h
    grind

/-- The input for an output. Its last unit may take it out of 256 bits. -/
theorem amountIn_eq_ok (h : amountIn wanted reserveIn reserveOut fee = .ok cost) :
    wanted < reserveOut ∧ (reserveOut - wanted) * fee.keep ≠ 0 ∧ reserveIn * wanted * fee.base < wordSize ∧
      cost = wrap (reserveIn * wanted * fee.base / ((reserveOut - wanted) * fee.keep) + 1) := by
  unfold amountIn at h
  split at h
  · cases h
  · rename_i hwanted
    simp only [Checked.mul, Checked.bind_eq_ok, Checked.fit_eq_ok, Checked.sub_eq_ok, Checked.div_eq_ok] at h
    obtain ⟨_, ⟨-, rfl⟩, _, ⟨hfits, rfl⟩, _, ⟨-, rfl⟩, _, ⟨-, rfl⟩, _, ⟨hne, rfl⟩, h⟩ := h
    exact ⟨Nat.lt_of_not_le hwanted, hne, hfits, (Except.ok.inj h).symm⟩

/-- Whether an input buys an output, without the rounding. -/
theorem le_amountOut_iff (hwanted : wanted ≤ reserveOut) (hout : amountOut given reserveIn reserveOut fee = .ok out) :
    wanted ≤ out ↔ reserveIn * wanted * fee.base ≤ (reserveOut - wanted) * fee.keep * given := by
  obtain ⟨hne, rfl⟩ := amountOut_eq_ok hout
  have hleft : wanted * (reserveIn * fee.base + given * fee.keep) =
      reserveIn * wanted * fee.base + wanted * (given * fee.keep) := by grind
  have hright : given * fee.keep * reserveOut =
      (reserveOut - wanted) * fee.keep * given + wanted * (given * fee.keep) := by
    obtain ⟨rest, rfl⟩ := Nat.exists_eq_add_of_le hwanted
    rw [Nat.add_sub_cancel_left]
    grind
  rw [Nat.le_div_iff_mul_le (Nat.pos_of_ne_zero hne), hleft, hright, Nat.add_le_add_iff_right]

/-- **The input that a pair asks for an output buys at least that output,** unless its last unit took it to zero. -/
theorem le_amountOut (hcost : amountIn wanted reserveIn reserveOut fee = .ok cost) (hpos : cost ≠ 0)
    (hout : amountOut cost reserveIn reserveOut fee = .ok out) : wanted ≤ out := by
  obtain ⟨hlt, hne, hfits, hasked⟩ := amountIn_eq_ok hcost
  rw [le_amountOut_iff (Nat.le_of_lt hlt) hout]
  have hquotient := Nat.div_le_self (reserveIn * wanted * fee.base) ((reserveOut - wanted) * fee.keep)
  have hunwrapped : cost = reserveIn * wanted * fee.base / ((reserveOut - wanted) * fee.keep) + 1 := by
    rcases Nat.lt_or_ge (reserveIn * wanted * fee.base / ((reserveOut - wanted) * fee.keep) + 1) wordSize with hlt | hge
    · exact hasked.trans (Nat.mod_eq_of_lt hlt)
    · have hword : reserveIn * wanted * fee.base / ((reserveOut - wanted) * fee.keep) + 1 = wordSize := by omega
      rw [hasked, hword, wrap, Nat.mod_self] at hpos
      exact absurd rfl hpos
  rw [hunwrapped]
  exact Nat.le_of_lt (Nat.lt_mul_div_succ _ (Nat.pos_of_ne_zero hne))

end ConstantProduct

namespace Hop

variable {hop moved : Hop} {amountIn out : Nat}

/-- What arrives behind a row of hops, each of which trades all that the one before paid. -/
def arriving (hops : List Hop) (amountIn : Nat) : Quote Nat :=
  hops.foldlM (fun amount hop => return (← hop.swap amount).1) amountIn

/-- Through one hop arrives what it pays. -/
theorem arriving_singleton (h : hop.swap amountIn = .ok (out, moved)) : arriving [hop] amountIn = .ok out := by
  simp only [arriving, List.foldlM_cons, List.foldlM_nil, h]
  rfl

/-- What a swap pays is taken from the one reserve, and its input added to the other. -/
theorem swap_eq_ok : hop.swap amountIn = .ok (out, moved) ↔
    hop.amountOut amountIn = .ok out ∧ hop.reserveIn + amountIn < wordSize ∧ out ≤ hop.reserveOut ∧
      moved = ⟨hop.reserveIn + amountIn, hop.reserveOut - out, hop.fee⟩ := by
  constructor
  · intro h
    obtain ⟨s, hs, h⟩ := Checked.bind_eq_ok.1 h
    obtain ⟨paid, hpaid, hs⟩ := Checked.bind_eq_ok.1 hs
    obtain ⟨hfits, hs⟩ := Checked.bind_fit_eq_ok.1 hs
    obtain ⟨hle, hs⟩ := Checked.bind_sub_eq_ok.1 hs
    obtain rfl := Except.ok.inj hs
    obtain ⟨rfl, rfl⟩ := Prod.mk.inj (Except.ok.inj h)
    exact ⟨hpaid, hfits, hle, rfl⟩
  · rintro ⟨hpaid, hfits, hle, rfl⟩
    refine Checked.bind_eq_ok.2 ⟨⟨_, _, out⟩, Checked.bind_eq_ok.2 ⟨out, hpaid, ?_⟩, rfl⟩
    exact Checked.bind_fit_eq_ok.2 ⟨hfits, Checked.bind_sub_eq_ok.2 ⟨hle, rfl⟩⟩

/-- Without events before, the hop of a leg is that of the pool as it is. -/
theorem ofLeg?_nil (market : Market) (leg : Leg) :
    ofLeg? market [] leg = (market leg.pool).bind fun pool => ofPool? pool leg.tokenIn leg.tokenOut := by
  simp [ofLeg?, bind]

end Hop

namespace Sandwich

variable {path : Path} {market : Market} {victim : SwapEvent} {bps : Nat}

/-- What a victim is paid that trades `victimIn` at the last of a row of hops, after `amountIn` has been traded through
all of them. -/
def victimOut (before : List Hop) (target : Hop) (amountIn victimIn : Nat) : Quote Nat := do
  let (_, moved) ← target.swap (← Hop.arriving before amountIn)
  let (out, _) ← moved.swap victimIn
  return out

/-- The front-run of `amountIn` along a path leaves the victim at its last pool the minimum that it insists on. -/
def LeavesMinimum (market : Market) (path : Path) (victim : SwapEvent) (bps amountIn : Nat) : Prop :=
  ∃ before target out, Hop.ofPath? market path [] = some (before ++ [target]) ∧
    victimOut before target amountIn victim.amountIn = .ok out ∧ minimumOut victim.amountOut bps ≤ out

/-- **A sized front-run was checked** with the victim behind it. -/
theorem shave_eq_some {hop : Hop} {victimIn minOut rounds x : Nat} {front : FrontRun}
    (h : shave hop victimIn minOut rounds x = some front) :
    ∃ moved out, hop.swap front.amountIn = .ok (front.bought, moved) ∧ moved.swap victimIn = .ok (out, front.after) ∧
      minOut ≤ out := by
  induction rounds generalizing x with
  | zero => cases h
  | succ rounds ih =>
    unfold shave at h
    split at h
    · cases h
    · obtain ⟨⟨bought, moved⟩, hfront, h⟩ := Option.bind_eq_some_iff.1 h
      obtain ⟨⟨out, after⟩, hvictim, h⟩ := Option.bind_eq_some_iff.1 h
      dsimp only at h
      split at h
      · rename_i hmin
        obtain rfl := Option.some.inj h
        exact ⟨moved, out, Quote.eq_ok_of_toOption hfront, Quote.eq_ok_of_toOption hvictim, hmin⟩
      · exact ih h

/-- **The victim gets its minimum after a front run that arrives.** The amount in front of the victim's hop is then
the one that was found to be bearable. -/
theorem frontRun_victimOut {target : Hop} {victimIn minOut cost : Nat} {before : List Hop} {front : FrontRun}
    (h : frontRun target victimIn minOut = some front) (harrive : Hop.arriving before cost = .ok front.amountIn) :
    ∃ out, victimOut before target cost victimIn = .ok out ∧ minOut ≤ out := by
  obtain ⟨x, -, h⟩ := Option.bind_eq_some_iff.1 h
  obtain ⟨moved, out, hfront, hvictim, hmin⟩ := shave_eq_some h
  refine ⟨out, ?_, hmin⟩
  simp only [victimOut, harrive, hfront, hvictim, bind, Except.bind]
  rfl

/-- What is reported of a sandwich through a first pool: the front-run costs `amountIn` there, which is what the pool
asks for the size `x`, and what the sale pays there is that and the revenue. -/
theorem throughFirst_eq_some {first : Hop} {x recovered : Nat} {o : Opportunity}
    (h : throughFirst first x recovered = some o) (hne : o ≠ .none) :
    ∃ arrived moved sold, ConstantProduct.amountIn x first.reserveIn first.reserveOut first.fee = .ok o.amountIn ∧
      first.swap o.amountIn = .ok (arrived, moved) ∧
      sellBack moved recovered = .ok (o.amountIn + o.revenue, sold) ∧ 0 < o.revenue := by
  obtain ⟨cost, hcost, h⟩ := Option.bind_eq_some_iff.1 h
  obtain ⟨⟨arrived, moved⟩, hswap, h⟩ := Option.bind_eq_some_iff.1 h
  obtain ⟨⟨out, sold⟩, hsold, h⟩ := Option.bind_eq_some_iff.1 h
  obtain rfl := Option.some.inj h
  obtain ⟨heq, hlt⟩ := Opportunity.ofOutput_ne_none hne
  rw [heq]
  refine ⟨arrived, moved, sold, Quote.eq_ok_of_toOption hcost, Quote.eq_ok_of_toOption hswap, ?_, Nat.sub_pos_of_lt hlt⟩
  change _ = Except.ok (cost + (out - cost), sold)
  rw [Nat.add_sub_cancel' (Nat.le_of_lt hlt)]
  exact Quote.eq_ok_of_toOption hsold

/-- What a sandwich reports: the front-run that was sized at the victim's pool, spent as it is or bought through a first
pool, and the sale of what it bought there. -/
theorem ofShape_eq_some {shape : Shape} {o : Opportunity} (h : ofShape shape market victim bps = some o) :
    victim.tokenIn = shape.last.tokenIn ∧ victim.tokenOut = shape.last.tokenOut ∧
    ∃ target front recovered sold, Hop.ofLeg? market [] shape.last = some target ∧
      frontRun target victim.amountIn (minimumOut victim.amountOut bps) = some front ∧
      sellBack front.after front.bought = .ok (recovered, sold) ∧
      match shape with
      | .direct _ => o = .ofOutput front.amountIn recovered
      | .through leg _ => ∃ first, Hop.ofLeg? market [] leg = some first ∧
          throughFirst first front.amountIn recovered = some o := by
  simp only [Hop.ofLeg?_nil]
  simp only [ofShape] at h
  by_cases hguard : victim.tokenIn ≠ shape.last.tokenIn ∨ victim.tokenOut ≠ shape.last.tokenOut
  · rw [if_pos hguard] at h
    cases h
  · rw [if_neg hguard] at h
    obtain ⟨htokenIn, htokenOut⟩ := not_or.1 hguard
    obtain ⟨pool, hpool, h⟩ := Option.bind_eq_some_iff.1 h
    obtain ⟨target, htarget, h⟩ := Option.bind_eq_some_iff.1 h
    obtain ⟨front, hfront, h⟩ := Option.bind_eq_some_iff.1 h
    obtain ⟨⟨recovered, sold⟩, hsold, h⟩ := Option.bind_eq_some_iff.1 h
    refine ⟨Decidable.not_not.1 htokenIn, Decidable.not_not.1 htokenOut, target, front, recovered, sold,
      Option.bind_eq_some_iff.2 ⟨pool, hpool, htarget⟩, hfront, Quote.eq_ok_of_toOption hsold, ?_⟩
    cases shape with
    | direct last => exact (Option.some.inj h).symm
    | through leg last =>
      obtain ⟨firstPool, hpool, h⟩ := Option.bind_eq_some_iff.1 h
      obtain ⟨first, hfirst, h⟩ := Option.bind_eq_some_iff.1 h
      exact ⟨first, Option.bind_eq_some_iff.2 ⟨firstPool, hpool, hfirst⟩, h⟩

/-- A path that the solver takes has one or two legs. -/
theorem legs_of_shape? {legs : List Leg} {shape : Shape} (h : shape? legs = some shape) :
    (∃ last, legs = [last] ∧ shape = .direct last) ∨
      ∃ first last, legs = [first, last] ∧ shape = .through first last := by
  unfold shape? at h
  split at h
  · exact .inl ⟨_, rfl, (Option.some.inj h).symm⟩
  · exact .inr ⟨_, _, rfl, (Option.some.inj h).symm⟩
  · cases h

/-- The legs of a path that the solver takes, by the hops it reads. What it reports as the input arrives at the last hop
as the front-run that was sized there, or as more. -/
theorem ofShape_arriving {legs : List Leg} {shape : Shape} {o : Opportunity} (hshape : shape? legs = some shape)
    (h : ofShape shape market victim bps = some o) (hne : o ≠ .none) :
    ∃ before target front arrived, legs.mapM (Hop.ofLeg? market []) = some (before ++ [target]) ∧
      frontRun target victim.amountIn (minimumOut victim.amountOut bps) = some front ∧
      Hop.arriving before o.amountIn = .ok arrived ∧ (before = [] → arrived = front.amountIn) ∧
      (o.amountIn ≠ 0 → front.amountIn ≤ arrived) := by
  obtain ⟨-, -, target, front, recovered, -, htarget, hfront, -, h⟩ := ofShape_eq_some h
  obtain ⟨last, rfl, rfl⟩ | ⟨leg, last, rfl, rfl⟩ := legs_of_shape? hshape
  · obtain rfl : o = .ofOutput front.amountIn recovered := h
    obtain ⟨heq, -⟩ := Opportunity.ofOutput_ne_none hne
    rw [heq]
    refine ⟨[], target, front, front.amountIn, ?_, hfront, rfl, fun _ => rfl, fun _ => Nat.le_refl _⟩
    have htarget : Hop.ofLeg? market [] last = some target := htarget
    simp [List.mapM_cons, htarget]
  · obtain ⟨first, hfirst, h⟩ := h
    obtain ⟨arrived, moved, -, hcost, hswap, -, -⟩ := throughFirst_eq_some h hne
    have htarget : Hop.ofLeg? market [] last = some target := htarget
    refine ⟨[first], target, front, arrived, ?_, hfront, Hop.arriving_singleton hswap, by simp, fun hpos => ?_⟩
    · simp [List.mapM_cons, hfirst, htarget]
    · exact ConstantProduct.le_amountOut hcost hpos (Hop.swap_eq_ok.1 hswap).1

/-- **What a solution is:** the one of the shape of its path, which is valid and ends at the victim's pool. -/
theorem solve_ne_none (h : solve path market victim bps ≠ .none) :
    path.isValid ∧ path.pools.getLast? = some victim.pool ∧ ∃ shape, shape? path.legs = some shape ∧
      ofShape shape market victim bps = some (solve path market victim bps) := by
  unfold solve at h ⊢
  split at h
  · rename_i hpath
    rw [if_pos hpath]
    rcases ho : (shape? path.legs).bind fun shape => ofShape shape market victim bps with _ | o <;> rw [ho] at h
    · exact absurd rfl h
    · obtain ⟨shape, hshape, hsolved⟩ := Option.bind_eq_some_iff.1 ho
      exact ⟨hpath.1, hpath.2.2, shape, hshape, hsolved⟩
  · exact absurd rfl h

/-- **When a sandwich leaves its victim the minimum.** Let the solver report a sandwich along a path. The pools of the
path are hops, the last of which is the victim's, and a front-run was sized there. The reported input can be traded
through the hops before, and what arrives is never less than the size. On a path of one hop, and wherever no more than
the size arrives, the victim gets at least its minimum. -/
theorem solve_leavesMinimum (h : solve path market victim bps ≠ .none) :
    ∃ before target front arrived, Hop.ofPath? market path [] = some (before ++ [target]) ∧
      frontRun target victim.amountIn (minimumOut victim.amountOut bps) = some front ∧
      Hop.arriving before (solve path market victim bps).amountIn = .ok arrived ∧
      ((solve path market victim bps).amountIn ≠ 0 → front.amountIn ≤ arrived) ∧
      (before = [] ∨ arrived = front.amountIn →
        LeavesMinimum market path victim bps (solve path market victim bps).amountIn) := by
  obtain ⟨hvalid, -, shape, hshape, hsolved⟩ := solve_ne_none h
  obtain ⟨before, target, front, arrived, hlegs, hfront, harrive, hdirect, hle⟩ := ofShape_arriving hshape hsolved h
  have hpath : Hop.ofPath? market path [] = some (before ++ [target]) := (if_pos hvalid).trans hlegs
  refine ⟨before, target, front, arrived, hpath, hfront, harrive, hle, fun hsame => ?_⟩
  obtain rfl : arrived = front.amountIn := hsame.elim hdirect id
  obtain ⟨out, hout, hmin⟩ := frontRun_victimOut hfront harrive
  exact ⟨before, target, out, hpath, hout, hmin⟩

/-- A pair of five units of the first token for one of the second, and the victim's pair. -/
def fineMarket : Market := Market.ofList
  [⟨.ofNat 1, .pancakeswapV2, [.ofNat 4, .ofNat 3], .constantProduct 1000000 5000000 .standard⟩,
    ⟨.ofNat 2, .uniswapV2, [.ofNat 4, .ofNat 5], .constantProduct 100000 100000 .standard⟩]

/-- A pair of seven hundred units of the second token for one of the first, and the victim's pair. -/
def coarseMarket : Market := Market.ofList
  [⟨.ofNat 1, .pancakeswapV2, [.ofNat 4, .ofNat 3], .constantProduct 700000 1000 .standard⟩,
    ⟨.ofNat 2, .uniswapV2, [.ofNat 4, .ofNat 5], .constantProduct 100000 100000 .standard⟩]

/-- The path through both pairs. -/
def pathOfTwo : Path :=
  Path.ofHops 0 [(.pancakeswapV2, .ofNat 1), (.uniswapV2, .ofNat 2)] [.ofNat 3, .ofNat 4, .ofNat 5]

/-- A front-run of 2665 buys just the 531 that were sized. -/
theorem solve_leavesMinimum_fine :
    let victim : SwapEvent := ⟨.uniswapV2, .ofNat 2, .ofNat 4, .ofNat 5, 10000, 9066⟩
    solve pathOfTwo fineMarket victim 100 = ⟨2665, 506⟩ ∧ LeavesMinimum fineMarket pathOfTwo victim 100 2665 := by
  intro victim
  have hsolved : solve pathOfTwo fineMarket victim 100 = ⟨2665, 506⟩ := by decide +kernel
  have hne : solve pathOfTwo fineMarket victim 100 ≠ .none := by
    rw [hsolved]
    decide
  obtain ⟨before, target, front, arrived, hpath, hfront, harrive, -, hmin⟩ := solve_leavesMinimum hne
  rw [hsolved] at harrive hmin
  refine ⟨hsolved, hmin (.inr ?_)⟩
  have hhops : Hop.ofPath? fineMarket pathOfTwo [] =
      some ([⟨5000000, 1000000, .standard⟩] ++ [⟨100000, 100000, .standard⟩]) := by decide +kernel
  obtain ⟨rfl, htarget⟩ := List.append_inj' (Option.some.inj (hhops.symm.trans hpath)) rfl
  obtain rfl := List.singleton_inj.1 htarget
  have hsize : (frontRun ⟨100000, 100000, .standard⟩ 10000 (minimumOut 9066 100)).map (·.amountIn) = some 531 := by
    decide +kernel
  have harrived : (Hop.arriving [⟨5000000, 1000000, .standard⟩] 2665).toOption = some 531 := by decide +kernel
  rw [hfront] at hsize
  rw [harrive] at harrived
  exact (Option.some.inj harrived).trans (Option.some.inj hsize).symm

/-- **A front-run of one unit leaves the victim short.** It buys 697 where 675 were sized, so the victim gets 49407 of
the 49424 that it insists on. -/
theorem coarse_breaksMinimum :
    let victim : SwapEvent := ⟨.uniswapV2, .ofNat 2, .ofNat 4, .ofNat 5, 100000, 49924⟩
    solve pathOfTwo coarseMarket victim 100 = ⟨1, 2⟩ ∧ pathOfTwo.pools.Nodup ∧
      ¬ LeavesMinimum coarseMarket pathOfTwo victim 100 1 := by
  intro victim
  refine ⟨by decide +kernel, by decide, ?_⟩
  rintro ⟨before, target, out, hpath, hout, hmin⟩
  have hhops : Hop.ofPath? coarseMarket pathOfTwo [] =
      some ([⟨1000, 700000, .standard⟩] ++ [⟨100000, 100000, .standard⟩]) := by decide +kernel
  obtain ⟨rfl, htarget⟩ := List.append_inj' (Option.some.inj (hhops.symm.trans hpath)) rfl
  obtain rfl := List.singleton_inj.1 htarget
  have hpaid : (victimOut [⟨1000, 700000, .standard⟩] ⟨100000, 100000, .standard⟩ 1 100000).toOption = some 49407 := by
    decide +kernel
  rw [hout] at hpaid
  obtain rfl : out = 49407 := Option.some.inj hpaid
  exact absurd hmin (by decide)

end Sandwich
end Searcher

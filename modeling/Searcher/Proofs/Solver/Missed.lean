/-
# What a zero answer can miss

The solver tries one input, the size of the map, and answers zero when the hops do not gain there. The hops round down,
each in its own unit, and the size is rounded down as well, so another input may gain where the size does not. With a
pool of thirteen units in the middle this is far from a rounding error: at `Opportunity.coarseHops` the size buys one
of the thirteen and gains nothing, while an input a little above it buys two and gains more than half of itself.

What can be missed is bounded by what the rounding costs at the size (`Mobius.loss`): what the map pays there less what
the hops do, and `k / (q + k size)` for the size itself. Where that is at most one unit a zero answer is right.
-/

import Searcher.Proofs.Solver.Optimum

namespace Searcher
namespace Mobius

variable {map : Mobius} {hops : List Hop}

/-- What rounding can cost where the hops pay `paid` for the size. -/
def loss (map : Mobius) (paid : ℕ) : ℚ := map.output map.size - paid + map.k / (map.q + map.k * map.size)

/-- No input has more profit than the size, up to the rounding of the size. -/
theorem profit_lt (hq : 0 < map.q) (h : map.q ≤ map.p) (hk : 0 < map.k) (y : ℕ) :
    map.profit y < map.profit map.size + map.k / (map.q + map.k * map.size) := by
  rcases Nat.lt_or_ge map.size y with hy | hy
  · exact (profit_le_size_succ hq h hk hy).trans_lt (profit_size_succ_lt hq h hk)
  · have hrest : (0 : ℚ) < map.k / (map.q + map.k * map.size) := by positivity
    have := profit_le_size hq h hk hy
    linarith

end Mobius

namespace Opportunity

variable {map : Mobius} {hops : List Hop} {paid : ℕ}

/-- A zero answer means that the size does not pay more than itself. -/
theorem paid_le_size (hne : hops ≠ []) (hreserves : ∀ hop ∈ hops, hop.reserveIn ≠ 0 ∧ hop.reserveOut ≠ 0)
    (hmap : Mobius.compose hops = some map) (hq : 0 < map.q)
    (hoptimum : map.size ≠ 0 → map.optimum = some map.size)
    (hpaid : Hop.chain map.size hops = .ok paid) (hzero : ofHops hops = none) : paid ≤ map.size := by
  rcases Nat.eq_zero_or_pos map.size with hsize | hsize
  · have houtput := Mobius.chain_le_output hmap hpaid
    rw [hsize, Nat.mul_zero, Nat.add_zero, Nat.mul_zero, Nat.le_zero, Nat.mul_eq_zero] at houtput
    omega
  · have hguard : ¬ (hops.isEmpty || hops.any fun h => h.reserveIn = 0 ∨ h.reserveOut = 0) = true := by
      simp only [Bool.or_eq_true, List.isEmpty_iff, List.any_eq_true, decide_eq_true_eq]
      rintro (h | ⟨hop, hhop, h | h⟩)
      · exact hne h
      · exact (hreserves hop hhop).1 h
      · exact (hreserves hop hhop).2 h
    rw [ofHops, if_neg hguard, hmap, Option.bind_some, hoptimum hsize.ne'] at hzero
    simp only [hpaid, ofOutput] at hzero
    split at hzero
    · have := congrArg Opportunity.amountIn hzero
      change map.size = 0 at this
      omega
    · omega

/-- A gain of less than one unit is none. -/
theorem le_of_gain_lt {y out : ℕ} {bound : ℚ} (h : (out : ℚ) - y < bound) (hbound : bound ≤ 1) : out ≤ y := by
  have : (out : ℚ) < (y + 1 : ℕ) := by
    push_cast
    linarith
  exact Nat.lt_succ_iff.1 (by exact_mod_cast this)

/-- **What a zero answer misses is less than the loss.** Nothing is missed where there is no gain at the margin, and
nothing where the loss is at most one unit. -/
theorem gain_lt_loss (hne : hops ≠ [])
    (hreserves : ∀ hop ∈ hops, hop.reserveIn ≠ 0 ∧ hop.reserveOut ≠ 0 ∧ hop.reserveOut < wordSize)
    (hmap : Mobius.compose hops = some map) (hsquare : map.p * map.q < 2 ^ 1024)
    (hpaid : Hop.chain map.size hops = .ok paid) (hzero : ofHops hops = none) {y out : ℕ}
    (hout : Hop.chain y hops = .ok out) :
    (y < out → (out : ℚ) - y < map.loss paid) ∧ (map.p ≤ map.q ∨ map.loss paid ≤ 1 → out ≤ y) := by
  have hpositive : ∀ hop ∈ hops, 0 < hop.reserveIn := fun hop hhop => Nat.pos_of_ne_zero (hreserves hop hhop).1
  have hq := Mobius.compose_q_pos hpositive hmap hout
  have hgain := Mobius.gain_le_profit hmap hq hout
  rcases Nat.lt_or_ge map.q map.p with hpq | hpq
  · have hp : map.p ≤ wordSize * map.k := Mobius.compose_p_le hne (fun hop hhop => (hreserves hop hhop).2.2.le) hmap
    have hk : 0 < map.k := Nat.pos_of_ne_zero fun hzero => by
      rw [hzero] at hp
      omega
    have hoptimum := Mobius.optimum_eq_size hpq hk hsquare (Mobius.size_lt hpq hp)
    have hpaid' : (paid : ℚ) ≤ map.size := by
      exact_mod_cast paid_le_size hne (fun hop hhop => ⟨(hreserves hop hhop).1, (hreserves hop hhop).2.1⟩) hmap hq
        hoptimum hpaid hzero
    have hless : (out : ℚ) - y < map.loss paid := by
      have := Mobius.profit_lt hq hpq.le hk y
      unfold Mobius.profit at this hgain
      unfold Mobius.loss
      linarith
    exact ⟨fun _ => hless, fun h => le_of_gain_lt hless (h.resolve_left (by omega))⟩
  · have hnone : out ≤ y := le_of_gain_lt (hgain.trans_lt ((Mobius.profit_nonpos hpq y).trans_lt one_pos)) le_rfl
    exact ⟨fun h => absurd h (by omega), fun _ => hnone⟩

/-- Two pairs at which the size pays what it costs. -/
def evenHops : List Hop := [⟨405, 575, .standard⟩, ⟨751, 585, .standard⟩]

/-- There a zero answer is right, although there is a gain at the margin. -/
theorem gain_evenHops : ∃ map, Mobius.compose evenHops = some map ∧ map.q < map.p ∧ ofHops evenHops = none ∧
    ∀ y out, Hop.chain y evenHops = .ok out → out ≤ y := by
  have hreserves : ∀ hop ∈ evenHops, hop.reserveIn ≠ 0 ∧ hop.reserveOut ≠ 0 ∧ hop.reserveOut < wordSize := by decide
  have hmap : Mobius.compose evenHops = some ⟨334359777375, 304155000000, 1320302175⟩ := by decide +kernel
  have hzero : ofHops evenHops = none := by decide +kernel
  have hpaid : Hop.chain 11 evenHops = .ok 11 := Quote.eq_ok_of_toOption (by decide +kernel)
  have hsize : Mobius.size ⟨334359777375, 304155000000, 1320302175⟩ = 11 := by decide +kernel
  refine ⟨_, hmap, by decide, hzero, fun y out hout => ?_⟩
  refine (gain_lt_loss (List.cons_ne_nil _ _) hreserves hmap (by decide +kernel) (hsize ▸ hpaid) hzero hout).2 (.inr ?_)
  rw [Mobius.loss, Mobius.output, hsize]
  norm_num

/-- Two pairs with one token of whose units they hold thirteen and five. -/
def coarseHops : List Hop := [⟨10 ^ 20, 13, .standard⟩, ⟨5, 10 ^ 20, .standard⟩]

/-- **A zero answer can be wrong:** the size gains nothing, but an input behind it does. -/
theorem ofHops_coarseHops : coarseHops ≠ [] ∧ (∀ hop ∈ coarseHops, hop.reserveIn ≠ 0 ∧ hop.reserveOut ≠ 0) ∧
    (∃ map paid, Mobius.compose coarseHops = some map ∧ map.p * map.q < 2 ^ 1024 ∧
      Hop.chain map.size coarseHops = .ok paid) ∧
    ofHops coarseHops = none ∧
    Hop.chain 18236527765113522386 coarseHops = .ok (18236527765113522386 + 10273623793365173639) := by
  refine ⟨List.cons_ne_nil _ _, by decide, ?_, by decide +kernel, ?_⟩
  · refine ⟨⟨1292211700000000000000000000, 500000000000000000000000000, 17907117⟩, 16624979156244789061, ?_⟩
    exact ⟨by decide +kernel, by decide +kernel, Quote.eq_ok_of_toOption (by decide +kernel)⟩
  · exact Quote.eq_ok_of_toOption (by decide +kernel)

end Opportunity
end Searcher

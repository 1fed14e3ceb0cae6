/-
# The map of a row of hops

A row of hops maps an input `y` to `p y / (q + k y)`, up to the rounding of each hop, which is downwards. So what the
row pays is never above that fraction (`chain_le_output`), and it is never more than the pools hold (`compose_p_le`).
-/

import Searcher.Proofs.Solver.Sandwich
import Mathlib.Algebra.Order.Field.Rat
import Mathlib.Tactic.Positivity
import Mathlib.Tactic.Ring

namespace Searcher
namespace Mobius

variable {map map' : Mobius} {hop : Hop} {hops : List Hop}

/-- The map followed by a hop, whatever the size of the coefficients. -/
def followedBy (map : Mobius) (hop : Hop) : Mobius :=
  ⟨hop.fee.keep * hop.reserveOut * map.p, hop.fee.base * hop.reserveIn * map.q,
    hop.fee.base * hop.reserveIn * map.k + hop.fee.keep * map.p⟩

/-- A composition that fits is the composition without a limit. -/
theorem next_eq_some (h : map.next hop = some map') : map' = map.followedBy hop := by
  simp only [next, Wide.mul, Wide.add, Option.bind_eq_bind, Option.bind_eq_some_iff, Wide.fit_eq_some] at h
  obtain ⟨_, ⟨-, rfl⟩, _, ⟨-, rfl⟩, _, ⟨-, rfl⟩, _, ⟨-, rfl⟩, _, ⟨-, rfl⟩, _, ⟨-, rfl⟩, _, ⟨-, rfl⟩, h⟩ := h
  exact (Option.some.inj h).symm

/-- The first of several hops is composed first. -/
theorem foldlM_next_cons (h : (hop :: hops).foldlM next map = some map') :
    hops.foldlM next (map.followedBy hop) = some map' := by
  rw [List.foldlM_cons, Option.bind_eq_bind, Option.bind_eq_some_iff] at h
  obtain ⟨mid, hmid, h⟩ := h
  obtain rfl := next_eq_some hmid
  exact h

/-- What one hop after another keeps of a map holds of the map of the whole row. -/
theorem foldlM_next_induct {P : Mobius → Prop} (hstep : ∀ map, ∀ hop ∈ hops, P map → P (map.followedBy hop))
    (h : hops.foldlM next map = some map') (hP : P map) : P map' := by
  induction hops generalizing map with
  | nil =>
    obtain rfl := Option.some.inj h
    exact hP
  | cons hop hops ih =>
    exact ih (fun map hop' h' => hstep map hop' (by simp [h'])) (foldlM_next_cons h) (hstep map hop (by simp) hP)

/-- A hop that quotes an amount takes a part of something. -/
theorem base_pos_of_amountOut {amount out : ℕ} (h : hop.amountOut amount = .ok out) : 0 < hop.fee.base := by
  obtain ⟨hne, -⟩ := ConstantProduct.amountOut_eq_ok h
  refine Nat.pos_of_ne_zero fun hzero => hne ?_
  simp [hzero, Fee.keep]

/-- The map of a row that quotes an input has a weight on the input's side. -/
theorem compose_q_pos (hreserves : ∀ hop ∈ hops, 0 < hop.reserveIn) (h : compose hops = some map) {y out : ℕ}
    (hout : Hop.chain y hops = .ok out) : 0 < map.q := by
  have hbase : ∀ hop ∈ hops, 0 < hop.fee.base := by
    clear h hreserves
    induction hops generalizing y with
    | nil => simp
    | cons hop hops ih =>
      obtain ⟨arrived, harrived, hout⟩ := Checked.bind_eq_ok.1 hout
      exact List.forall_mem_cons.2 ⟨base_pos_of_amountOut harrived, ih hout⟩
  refine foldlM_next_induct (P := fun map => 0 < map.q) ?_ h Nat.one_pos
  intro map hop hhop hq
  exact Nat.mul_pos (Nat.mul_pos (hbase hop hhop) (hreserves hop hhop)) hq

/-- No row pays more than its pools hold: `p` is at most `k` times a bound of the reserves that are paid from. -/
theorem compose_p_le {bound : ℕ} (hne : hops ≠ []) (hreserves : ∀ hop ∈ hops, hop.reserveOut ≤ bound)
    (h : compose hops = some map) : map.p ≤ bound * map.k := by
  have hstep : ∀ map : Mobius, ∀ hop ∈ hops, (map.followedBy hop).p ≤ bound * (map.followedBy hop).k := by
    intro map hop hhop
    calc hop.fee.keep * hop.reserveOut * map.p = hop.reserveOut * (hop.fee.keep * map.p) := by ring
      _ ≤ bound * (hop.fee.base * hop.reserveIn * map.k + hop.fee.keep * map.p) :=
        Nat.mul_le_mul (hreserves hop hhop) (Nat.le_add_left _ _)
  cases hops with
  | nil => exact absurd rfl hne
  | cons hop hops =>
    refine foldlM_next_induct (P := fun map => map.p ≤ bound * map.k) ?_ (foldlM_next_cons h) (hstep id hop (by simp))
    exact fun map hop' hmem _ => hstep map hop' (by simp [hmem])

/-! ### What a row pays -/

/-- What the map pays for an input, not rounded. -/
def output (map : Mobius) (y : ℕ) : ℚ := map.p * y / (map.q + map.k * y)

/-- One hop pays at most what it would without rounding. -/
theorem followedBy_le {amount out y : ℕ} (h : hop.amountOut amount = .ok out)
    (hamount : amount * (map.q + map.k * y) ≤ map.p * y) :
    out * ((map.followedBy hop).q + (map.followedBy hop).k * y) ≤ (map.followedBy hop).p * y := by
  obtain ⟨hne, hout⟩ := ConstantProduct.amountOut_eq_ok h
  have hdenominator := Nat.pos_of_ne_zero hne
  have hrounded := Nat.div_mul_le_self (amount * hop.fee.keep * hop.reserveOut)
    (hop.reserveIn * hop.fee.base + amount * hop.fee.keep)
  rw [← hout] at hrounded
  set weight := hop.reserveIn * hop.fee.base
  set keep := hop.fee.keep
  set reserve := hop.reserveOut
  have hq : (map.followedBy hop).q + (map.followedBy hop).k * y =
      weight * (map.q + map.k * y) + keep * (map.p * y) := by
    simp only [followedBy, weight, keep]
    ring
  have hp : (map.followedBy hop).p * y = keep * reserve * (map.p * y) := by
    simp only [followedBy, keep, reserve]
    ring
  rw [hq, hp]
  refine Nat.le_of_mul_le_mul_right ?_ hdenominator
  calc out * (weight * (map.q + map.k * y) + keep * (map.p * y)) * (weight + amount * keep)
      = out * (weight + amount * keep) * (weight * (map.q + map.k * y) + keep * (map.p * y)) := by ring
    _ ≤ amount * keep * reserve * (weight * (map.q + map.k * y) + keep * (map.p * y)) :=
        Nat.mul_le_mul_right _ hrounded
    _ = keep * reserve * (weight * (amount * (map.q + map.k * y)) + amount * keep * (map.p * y)) := by ring
    _ ≤ keep * reserve * (weight * (map.p * y) + amount * keep * (map.p * y)) := by gcongr
    _ = keep * reserve * (map.p * y) * (weight + amount * keep) := by ring

/-- **A row of hops pays at most what its map does.** -/
theorem chain_le_output (h : compose hops = some map) {y out : ℕ} (hout : Hop.chain y hops = .ok out) :
    out * (map.q + map.k * y) ≤ map.p * y := by
  suffices ∀ (start : Mobius) (amount : ℕ), amount * (start.q + start.k * y) ≤ start.p * y →
      hops.foldlM next start = some map → Hop.chain amount hops = .ok out →
        out * (map.q + map.k * y) ≤ map.p * y from this id y (by simp [id]) h hout
  clear h hout
  intro start amount hstart h hout
  induction hops generalizing start amount with
  | nil =>
    obtain rfl := Option.some.inj h
    obtain rfl := Except.ok.inj hout
    exact hstart
  | cons hop hops ih =>
    obtain ⟨arrived, harrived, hout⟩ := Checked.bind_eq_ok.1 hout
    exact ih _ _ (followedBy_le harrived hstart) (foldlM_next_cons h) hout

end Mobius
end Searcher

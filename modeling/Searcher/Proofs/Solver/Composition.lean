/-
# A row of hops as one fraction

Not rounded, a hop maps `y` to `c R' y / (n R + c y)`, and a row of hops maps an input through each of them in turn
(`Hop.outputs`). The map that the solver composes has this as its value wherever no hop on the way divides by zero
(`Mobius.HasValue.foldlM_next`). The induction goes from the front: a map that has the value `z` at an input, followed
by a hop, has the value that the hop has at `z` (`Mobius.HasValue.followedBy`), because its divisor is the product of
the two divisors.

A row that is quoted has no such zero, since every pair on the way holds something. What is quoted is rounded down at
each hop, and so is at most the value.
-/

import Searcher.Proofs.Solver.FrontRun
import Mathlib.Tactic.LinearCombination

namespace Searcher

namespace Hop

/-- What the weighed reserves and input of a hop come to, by which its output is divided. -/
def divisor (hop : Hop) (y : ℚ) : ℚ := hop.fee.base * hop.reserveIn + hop.fee.keep * y

/-- What a row of hops pays, not rounded. -/
def outputs (hops : List Hop) (y : ℚ) : ℚ := hops.foldl (fun y hop => hop.output y) y

/-- A row of hops is defined at an input where none of them divides by zero on the way. -/
def DefinedAt : List Hop → ℚ → Prop
  | [], _ => True
  | hop :: hops, y => hop.divisor y ≠ 0 ∧ DefinedAt hops (hop.output y)

variable {hop : Hop} {hops : List Hop}

theorem output_eq_div (hop : Hop) (y : ℚ) : hop.output y = hop.fee.keep * y * hop.reserveOut / hop.divisor y := rfl

/-- **A row that is quoted is defined** at every input that is not negative. -/
theorem definedAt_of_chain {amount out : ℕ} (h : chain amount hops = .ok out) {y : ℚ} (hy : 0 ≤ y) :
    DefinedAt hops y := by
  induction hops generalizing amount y with
  | nil => trivial
  | cons hop hops ih =>
    obtain ⟨arrived, harrived, h⟩ := Checked.bind_eq_ok.1 h
    have hbase := Mobius.base_pos_of_amountOut harrived
    have hin := (ConstantProduct.reserves_pos harrived).1
    have hdivisor : 0 < hop.divisor y := by
      unfold divisor
      positivity
    refine ⟨hdivisor.ne', ih h ?_⟩
    rw [output_eq_div]
    positivity

end Hop

namespace Mobius

variable {map : Mobius} {hop : Hop} {hops : List Hop} {x z : ℚ}

/-- The map takes `x` to `z`, and does not divide by zero there. -/
structure HasValue (map : Mobius) (x z : ℚ) : Prop where
  divisor_ne_zero : (map.q : ℚ) + map.k * x ≠ 0
  eq : map.p * x / (map.q + map.k * x) = z

/-- The identity has every number as its value there. -/
theorem HasValue.id (x : ℚ) : id.HasValue x x := by
  constructor <;> simp [Mobius.id]

/-- The same without a quotient: the value times the divisor is the numerator. -/
theorem HasValue.mul_eq (h : map.HasValue x z) : map.p * x = z * (map.q + map.k * x) :=
  (div_eq_iff h.divisor_ne_zero).1 h.eq

/-- The divisor of a map that is followed by a hop is the product of the two divisors. -/
theorem followedBy_divisor (h : map.HasValue x z) (hop : Hop) :
    ((map.followedBy hop).q : ℚ) + (map.followedBy hop).k * x = (map.q + map.k * x) * hop.divisor z := by
  simp only [followedBy, Hop.divisor]
  push_cast
  linear_combination (hop.fee.keep : ℚ) * h.mul_eq

/-- **A map that is followed by a hop takes its value through the hop.** -/
theorem HasValue.followedBy (h : map.HasValue x z) (hop : Hop) (hz : hop.divisor z ≠ 0) :
    (map.followedBy hop).HasValue x (hop.output z) := by
  have hdivisor := followedBy_divisor h hop
  constructor
  · rw [hdivisor]
    exact mul_ne_zero h.divisor_ne_zero hz
  · rw [hdivisor, Hop.output_eq_div, div_eq_div_iff (mul_ne_zero h.divisor_ne_zero hz) hz]
    simp only [Mobius.followedBy]
    push_cast
    linear_combination (hop.fee.keep : ℚ) * hop.reserveOut * hop.divisor z * h.mul_eq

/-- The map of a row takes the value of the map that it began with through the row. -/
theorem HasValue.foldlM_next (h : map.HasValue x z) {map' : Mobius} (hmap : hops.foldlM next map = some map')
    (hz : Hop.DefinedAt hops z) : map'.HasValue x (Hop.outputs hops z) := by
  induction hops generalizing map z with
  | nil =>
    obtain rfl := Option.some.inj hmap
    exact h
  | cons hop hops ih => exact ih (h.followedBy hop hz.1) (foldlM_next_cons hmap) hz.2

/-- **The composed map is the composition.** Where no hop of a row divides by zero on the way of an input, whole or not,
the map of the row does not either, and takes the input to what the hops make of it one after another. An amount that
the row pays is at most what the map does, and at most what the hops would pay without rounding. -/
theorem compose_isComposition (h : compose hops = some map) :
    (∀ x : ℚ, Hop.DefinedAt hops x →
      (map.q : ℚ) + map.k * x ≠ 0 ∧ map.p * x / (map.q + map.k * x) = Hop.outputs hops x) ∧
    ∀ x y : ℕ, Hop.chain x hops = .ok y →
      y * (map.q + map.k * x) ≤ map.p * x ∧ Hop.DefinedAt hops x ∧ (y : ℚ) ≤ Hop.outputs hops x := by
  refine ⟨fun x hx => ?_, fun x y hy => ?_⟩
  · obtain ⟨hne, heq⟩ := (HasValue.id x).foldlM_next h hx
    exact ⟨hne, heq⟩
  · have hle := chain_le_output h hy
    have hx := Hop.definedAt_of_chain hy (Nat.cast_nonneg x)
    obtain ⟨hne, heq⟩ := (HasValue.id (x : ℚ)).foldlM_next h hx
    refine ⟨hle, hx, ?_⟩
    have hpos : (0 : ℚ) < map.q + map.k * x := lt_of_le_of_ne (by positivity) hne.symm
    rw [← heq, le_div_iff₀ hpos]
    exact_mod_cast hle

/-- Three pairs with three fees pay 3023 for three thousand, where their map has 3024.4. -/
theorem compose_isComposition_mixedFees :
    let hops : List Hop := [⟨500000, 800000, ⟨10000, 25⟩⟩, ⟨400000, 1000000, ⟨1000, 2⟩⟩, ⟨2000000, 520000, .standard⟩]
    let map : Mobius := ⟨4128876897600000000000000000, 4000000000000000000000000000, 31848227880000000000000⟩
    compose hops = some map ∧ Hop.chain 3000 hops = .ok 3023 ∧ Hop.DefinedAt hops (3000 : ℕ) ∧
      map.p * ((3000 : ℕ) : ℚ) / (map.q + map.k * (3000 : ℕ)) = Hop.outputs hops (3000 : ℕ) ∧
      3023 * (map.q + map.k * 3000) ≤ map.p * 3000 := by
  intro hops map
  have hmap : compose hops = some map := by decide +kernel
  have hchain : Hop.chain 3000 hops = .ok 3023 := by decide +kernel
  obtain ⟨hvalue, hquoted⟩ := compose_isComposition hmap
  obtain ⟨hle, hdefined, -⟩ := hquoted 3000 3023 hchain
  exact ⟨hmap, hchain, hdefined, (hvalue _ hdefined).2, hle⟩

end Mobius
end Searcher

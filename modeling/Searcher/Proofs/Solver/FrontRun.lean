/-
# The largest front-run that a victim bears

A victim pays `v` into a hop with the reserves `R -> R'` and insists on `m`. Behind a front-run of `y`, and if nothing
were rounded, it would be paid

    c v (R' - c y R' / (n R + c y)) / (n (R + y) + c v)

which is at least `m` exactly where `m (n R + c y) (n (R + y) + c v) ≤ n c R R' v` (`le_victimOutput_iff`). Multiplied
out this is the quadratic of the solver (`Quadratic.bears_iff`), and its root rounded down is the last whole input that
keeps it (`Quadratic.le_floor_iff`). In a regular pool the quadratic has room (`Quadratic.ofVictim_fits`), so that a
front-run is missing only where the victim bears none (`maxFrontRun_eq_none_iff`).

The integer swaps round down twice. The front-run buys no more than it would without rounding, so it leaves no less to
the victim; and the victim's output is rounded down, but not below the whole number `m` (`Bears.minOut_le`). So what
was sized is never shaved (`maxFrontRun_isLargest`).
-/

import Searcher.Proofs.SquareRoot
import Searcher.Proofs.Solver.Capacity
import Searcher.Proofs.Solver.Sandwich
import Mathlib.Algebra.Order.Field.Rat
import Mathlib.Tactic.Positivity
import Mathlib.Tactic.Ring

namespace Searcher

namespace Wide

/-! ### Widths -/

/-- A product has at most as many bits as its factors together. -/
theorem mul_lt_pow {a b i j k : ℕ} (ha : a < 2 ^ i) (hb : b < 2 ^ j) (hk : i + j ≤ k) : a * b < 2 ^ k := by
  refine lt_of_lt_of_le ?_ (Nat.pow_le_pow_right (by decide) hk)
  rw [Nat.pow_add]
  exact Nat.mul_lt_mul'' ha hb

/-- A sum has at most one bit more than its terms. -/
theorem add_lt_pow {a b i j k : ℕ} (ha : a < 2 ^ i) (hb : b < 2 ^ j) (hi : i < k) (hj : j < k) : a + b < 2 ^ k := by
  obtain ⟨k, rfl⟩ := Nat.exists_eq_succ_of_ne_zero (Nat.ne_zero_of_lt hi)
  have hi : 2 ^ i ≤ 2 ^ k := Nat.pow_le_pow_right (by decide) (Nat.le_of_lt_succ hi)
  have hj : 2 ^ j ≤ 2 ^ k := Nat.pow_le_pow_right (by decide) (Nat.le_of_lt_succ hj)
  rw [Nat.pow_succ]
  omega

/-- A number that is narrow enough is a wide one. -/
theorem lt_limit {a i : ℕ} (ha : a < 2 ^ i) (hi : i ≤ 1024) : a < 2 ^ 1024 := by
  refine lt_of_lt_of_le ha ?_
  gcongr
  decide

end Wide

/-- What a hop pays for an input, not rounded. -/
def Hop.output (hop : Hop) (y : ℚ) : ℚ :=
  hop.fee.keep * y * hop.reserveOut / (hop.fee.base * hop.reserveIn + hop.fee.keep * y)

namespace Sandwich

variable {hop : Hop} {victimIn minOut x y : ℕ} {p : Quadratic}

/-- What a victim is paid behind a front-run of `y`, not rounded. -/
def victimOutput (hop : Hop) (victimIn : ℕ) (y : ℚ) : ℚ :=
  hop.fee.keep * victimIn * (hop.reserveOut - hop.output y) /
    (hop.fee.base * (hop.reserveIn + y) + hop.fee.keep * victimIn)

/-- The victim gets its minimum behind a front-run of `y`, in whole numbers. -/
def Bears (hop : Hop) (victimIn minOut y : ℕ) : Prop :=
  minOut * (hop.fee.base * hop.reserveIn + hop.fee.keep * y) *
      (hop.fee.base * (hop.reserveIn + y) + hop.fee.keep * victimIn) ≤
    hop.fee.base * hop.fee.keep * hop.reserveIn * hop.reserveOut * victimIn

/-- What the victim gets after an amount `y`, as one quotient: the reserves have moved by `y` and what it pays for it.
-/
theorem victimOutput_eq (h : 0 < hop.fee.base * hop.reserveIn) (y : ℕ) :
    victimOutput hop victimIn y =
      (hop.fee.base * hop.fee.keep * hop.reserveIn * hop.reserveOut * victimIn : ℕ) /
        ((hop.fee.base * hop.reserveIn + hop.fee.keep * y) *
          (hop.fee.base * (hop.reserveIn + y) + hop.fee.keep * victimIn) : ℕ) := by
  have hweight : (hop.fee.base * hop.reserveIn + hop.fee.keep * y : ℚ) ≠ 0 := by
    have : (0 : ℚ) < hop.fee.base * hop.reserveIn := by exact_mod_cast h
    positivity
  rw [victimOutput, Hop.output]
  push_cast
  rw [sub_div' hweight, mul_div_assoc', div_div]
  congr 1
  ring

/-- **The victim gets its minimum exactly if the amount can be borne.** This turns the quotient into the inequality
that the quadratic is made of. -/
theorem le_victimOutput_iff (h : 0 < hop.fee.base * hop.reserveIn) :
    (minOut : ℚ) ≤ victimOutput hop victimIn y ↔ Bears hop victimIn minOut y := by
  have hweight : 0 < (hop.fee.base * hop.reserveIn + hop.fee.keep * y) *
      (hop.fee.base * (hop.reserveIn + y) + hop.fee.keep * victimIn) := by
    refine Nat.mul_pos (Nat.add_pos_left h _) (Nat.add_pos_left ?_ _)
    rw [Nat.mul_add]
    exact Nat.add_pos_left h _
  rw [victimOutput_eq h, le_div_iff₀ (by exact_mod_cast hweight), Bears, Nat.mul_assoc minOut]
  exact_mod_cast Iff.rfl

/-! ### The root of the quadratic -/

namespace Quadratic

/-- The weight that the victim's minimum needs without a front-run. -/
def held (hop : Hop) (victimIn minOut : ℕ) : ℕ :=
  (hop.fee.base * hop.fee.base * hop.reserveIn * hop.reserveIn +
    hop.fee.base * hop.fee.keep * hop.reserveIn * victimIn) * minOut

/-- The weight that there is for it. -/
def room (hop : Hop) (victimIn : ℕ) : ℕ :=
  hop.fee.base * hop.fee.keep * hop.reserveIn * hop.reserveOut * victimIn

/-- The quadratic of a victim, of whatever size. -/
def exact (hop : Hop) (victimIn minOut : ℕ) : Quadratic where
  a := hop.fee.base * hop.fee.keep * minOut
  b := (hop.fee.base * (hop.fee.base + hop.fee.keep) * hop.reserveIn + hop.fee.keep * hop.fee.keep * victimIn) * minOut
  negC := room hop victimIn - held hop victimIn minOut

/-- The quadratic that is computed is the exact one, and negative without a front-run. -/
theorem ofVictim_eq_some (h : ofVictim hop victimIn minOut = some p) :
    p = exact hop victimIn minOut ∧ held hop victimIn minOut < room hop victimIn := by
  simp only [ofVictim, Wide.mul, Wide.add, Option.bind_eq_bind, Option.bind_eq_some_iff, Wide.fit_eq_some] at h
  obtain ⟨_, ⟨-, rfl⟩, _, ⟨-, rfl⟩, _, ⟨-, rfl⟩, lead, hlead, square, hsquare, _, ⟨-, rfl⟩, _, ⟨-, rfl⟩, reserves,
    hreserves, trade, htrade, _, ⟨-, rfl⟩, _, ⟨-, rfl⟩, room, hroom, negC, hnegC, h⟩ := h
  obtain rfl := Wide.product_eq_some hlead
  obtain rfl := Wide.product_eq_some hsquare
  obtain rfl := Wide.product_eq_some hreserves
  obtain rfl := Wide.product_eq_some htrade
  obtain rfl := Wide.product_eq_some hroom
  obtain ⟨hle, rfl⟩ := Wide.sub_eq_some.1 hnegC
  split at h
  · cases h
  · rename_i hne
    obtain rfl := Option.some.inj h
    exact ⟨rfl, Nat.lt_of_sub_ne_zero hne⟩

/-- **Multiplied out, the victim's bound is the quadratic.** -/
theorem bears_iff :
    Bears hop victimIn minOut y ↔
      held hop victimIn minOut + ((exact hop victimIn minOut).a * y ^ 2 + (exact hop victimIn minOut).b * y) ≤
        room hop victimIn := by
  rw [Bears, held, room, exact]
  ring_nf

/-- A quadratic that is negative without a front-run needs something on both sides of the pool. -/
theorem pos_of_held_lt (h : held hop victimIn minOut < room hop victimIn) :
    0 < hop.fee.base * hop.reserveIn ∧ 0 < hop.fee.base * hop.fee.keep := by
  have hpos : room hop victimIn ≠ 0 := by omega
  simp only [room, ne_eq, Nat.mul_eq_zero, not_or] at hpos
  obtain ⟨⟨⟨⟨hbase, hkeep⟩, hreserve⟩, -⟩, -⟩ := hpos
  exact ⟨Nat.mul_pos (Nat.pos_of_ne_zero hbase) (Nat.pos_of_ne_zero hreserve),
    Nat.mul_pos (Nat.pos_of_ne_zero hbase) (Nat.pos_of_ne_zero hkeep)⟩

/-- The positive root rounded down, of whatever size. -/
def floor (p : Quadratic) : ℕ := (Root.isqrt (p.b * p.b + 4 * p.a * p.negC) - p.b) / (p.a * 2)

/-- The root of the discriminant is at least `b`, so the numerator of the floor is not negative. -/
theorem b_le_isqrt (p : Quadratic) : p.b ≤ Root.isqrt (p.b * p.b + 4 * p.a * p.negC) := by
  rw [Root.le_isqrt, Nat.pow_two]
  exact Nat.le_add_right _ _

/-- **The floor of the root is the last input at which the quadratic is not positive.** -/
theorem le_floor_iff (ha : 0 < p.a) : y ≤ p.floor ↔ p.a * y ^ 2 + p.b * y ≤ p.negC := by
  have hsquare : (p.a * 2 * y + p.b) ^ 2 = p.b * p.b + 4 * p.a * (p.a * y ^ 2 + p.b * y) := by ring
  calc y ≤ p.floor
      ↔ p.a * 2 * y + p.b ≤ Root.isqrt (p.b * p.b + 4 * p.a * p.negC) := by
        rw [floor, Nat.le_div_iff_mul_le (by omega), Nat.mul_comm y, Nat.le_sub_iff_add_le p.b_le_isqrt]
    _ ↔ p.b * p.b + 4 * p.a * (p.a * y ^ 2 + p.b * y) ≤ p.b * p.b + 4 * p.a * p.negC := by
        rw [Root.le_isqrt, hsquare]
    _ ↔ p.a * y ^ 2 + p.b * y ≤ p.negC := by
        rw [Nat.add_le_add_iff_left, Nat.mul_le_mul_left_iff (by omega)]

/-- The root that is found is the floor, unless that is zero. -/
theorem root_eq_some (h : p.root = some x) : x = p.floor ∧ x ≠ 0 := by
  simp only [root, Wide.mul, Wide.add, Option.bind_eq_bind, Option.bind_eq_some_iff, Wide.fit_eq_some] at h
  obtain ⟨_, ⟨-, rfl⟩, product, hproduct, _, ⟨-, rfl⟩, numerator, hnumerator, _, ⟨-, rfl⟩, h⟩ := h
  obtain rfl := Wide.product_eq_some hproduct
  obtain ⟨-, rfl⟩ := Wide.sub_eq_some.1 hnumerator
  obtain ⟨-, hne, rfl⟩ := Wide.amount?_eq_some.1 h
  exact ⟨rfl, hne⟩

end Quadratic

/-- A front-run that is sized is the floor of the victim's root. -/
theorem maxFrontRun_eq_some (h : maxFrontRun hop victimIn minOut = some x) :
    x = (Quadratic.exact hop victimIn minOut).floor ∧ x ≠ 0 ∧ 0 < minOut ∧
      Quadratic.held hop victimIn minOut < Quadratic.room hop victimIn := by
  unfold maxFrontRun at h
  split at h
  · cases h
  · rename_i hguard
    obtain ⟨p, hp, hroot⟩ := Option.bind_eq_some_iff.1 h
    obtain ⟨rfl, hheld⟩ := Quadratic.ofVictim_eq_some hp
    obtain ⟨hx, hne⟩ := Quadratic.root_eq_some hroot
    exact ⟨hx, hne, by omega, hheld⟩

/-- The victim bears a front-run exactly if it is not above the floor of its root. -/
theorem bears_iff_le_floor (hmin : 0 < minOut)
    (hheld : Quadratic.held hop victimIn minOut < Quadratic.room hop victimIn) :
    Bears hop victimIn minOut y ↔ y ≤ (Quadratic.exact hop victimIn minOut).floor := by
  have ha : 0 < (Quadratic.exact hop victimIn minOut).a := Nat.mul_pos (Quadratic.pos_of_held_lt hheld).2 hmin
  rw [Quadratic.bears_iff, Quadratic.le_floor_iff ha]
  exact (Nat.le_sub_iff_add_le' hheld.le).symm

/-- **The victim bears a front-run exactly if it is not larger.** -/
theorem bears_iff_le (h : maxFrontRun hop victimIn minOut = some x) : Bears hop victimIn minOut y ↔ y ≤ x := by
  obtain ⟨rfl, -, hmin, hheld⟩ := maxFrontRun_eq_some h
  exact bears_iff_le_floor hmin hheld

/-! ### Where the quadratic has room -/

/-- A victim does not insist on more than the pool holds. -/
theorem Bears.minOut_le_reserveOut (h : Bears hop victimIn minOut y)
    (hpos : 0 < hop.fee.base * hop.reserveIn * (hop.fee.keep * victimIn)) : minOut ≤ hop.reserveOut := by
  refine Nat.le_of_mul_le_mul_right ?_ hpos
  calc minOut * (hop.fee.base * hop.reserveIn * (hop.fee.keep * victimIn))
      = minOut * (hop.fee.base * hop.reserveIn) * (hop.fee.keep * victimIn) := by ring
    _ ≤ minOut * (hop.fee.base * hop.reserveIn + hop.fee.keep * y) *
          (hop.fee.base * (hop.reserveIn + y) + hop.fee.keep * victimIn) :=
        Nat.mul_le_mul (Nat.mul_le_mul_left _ (Nat.le_add_right _ _)) (Nat.le_add_left _ _)
    _ ≤ hop.fee.base * hop.fee.keep * hop.reserveIn * hop.reserveOut * victimIn := h
    _ = hop.reserveOut * (hop.fee.base * hop.reserveIn * (hop.fee.keep * victimIn)) := by ring

/-- A victim that insists on something bears no more than the pool's weight. -/
theorem Bears.le_weight (h : Bears hop victimIn minOut y) (hmin : 0 < minOut) (hpos : 0 < hop.fee.keep * victimIn) :
    hop.fee.keep * y ≤ hop.fee.base * hop.reserveIn * hop.reserveOut := by
  refine Nat.le_of_mul_le_mul_right ?_ hpos
  calc hop.fee.keep * y * (hop.fee.keep * victimIn)
      ≤ minOut * (hop.fee.base * hop.reserveIn + hop.fee.keep * y) *
          (hop.fee.base * (hop.reserveIn + y) + hop.fee.keep * victimIn) :=
        Nat.mul_le_mul ((Nat.le_add_left _ _).trans (Nat.le_mul_of_pos_left _ hmin)) (Nat.le_add_left _ _)
    _ ≤ hop.fee.base * hop.fee.keep * hop.reserveIn * hop.reserveOut * victimIn := h
    _ = hop.fee.base * hop.reserveIn * hop.reserveOut * (hop.fee.keep * victimIn) := by ring

namespace Quadratic

/-- The coefficients are so small that the root has room. -/
structure Fits (p : Quadratic) : Prop where
  a_lt : p.a < 2 ^ 140
  b_lt : p.b < 2 ^ 397
  negC_lt : p.negC < 2 ^ 508

open Wide (mul_lt_pow add_lt_pow lt_limit)

/-- **In a regular pool a quadratic that is negative without a front-run has room.** -/
theorem ofVictim_fits (h : hop.Regular) (hin : 0 < victimIn) (hword : victimIn < wordSize)
    (hheld : held hop victimIn minOut < room hop victimIn) (hm : minOut < 2 ^ 112) :
    ofVictim hop victimIn minOut = some (exact hop victimIn minOut) ∧ (exact hop victimIn minOut).Fits := by
  have hn : hop.fee.base < 2 ^ 14 := h.base_le.trans_lt (by decide)
  have hc : hop.fee.keep < 2 ^ 14 := h.keep_le.trans_lt (by decide)
  have hr : hop.reserveIn < 2 ^ 112 := h.reserveIn_lt
  have hr' : hop.reserveOut < 2 ^ 112 := h.reserveOut_lt
  have hv : victimIn < 2 ^ 256 := hword
  -- the factors have 14, 112 or 256 bits: a product adds the widths, and a sum takes one bit more than the wider part
  have hnc := mul_lt_pow (k := 28) hn hc (by decide)
  have ha := mul_lt_pow (k := 140) hnc hm (by decide)
  have hsum := add_lt_pow (k := 15) hn hc (by decide) (by decide)
  have hlead := mul_lt_pow (k := 141) (mul_lt_pow (k := 29) hn hsum (by decide)) hr (by decide)
  have hsquare := mul_lt_pow (k := 284) (mul_lt_pow (k := 28) hc hc (by decide)) hv (by decide)
  have hweight := add_lt_pow (k := 285) hlead hsquare (by decide) (by decide)
  have hb := mul_lt_pow (k := 397) hweight hm (by decide)
  have hncr := mul_lt_pow (k := 140) hnc hr (by decide)
  have htrade := mul_lt_pow (k := 396) hncr hv (by decide)
  have hnnr := mul_lt_pow (k := 140) (mul_lt_pow (k := 28) hn hn (by decide)) hr (by decide)
  have hreserves := mul_lt_pow (k := 252) hnnr hr (by decide)
  have hfirst := add_lt_pow (k := 397) hreserves htrade (by decide) (by decide)
  have hall := mul_lt_pow (k := 509) hfirst hm (by decide)
  have hroom := mul_lt_pow (k := 508) (mul_lt_pow (k := 252) hncr hr' (by decide)) hv (by decide)
  refine ⟨?_, ha, hb, (Nat.sub_le _ _).trans_lt hroom⟩
  have hn_pos := h.base_pos
  have hc_pos := h.keep_pos
  have hr_pos := h.reserveIn_pos
  have hr'_pos := h.reserveOut_pos
  simp only [ofVictim, Wide.mul, Wide.add, Option.bind_eq_bind, Option.bind_eq_some_iff, Wide.fit_eq_some]
  refine ⟨_, ⟨lt_limit hnc (by decide), rfl⟩, _, ⟨lt_limit ha (by decide), rfl⟩, _, ⟨lt_limit hsum (by decide), rfl⟩,
    _, Wide.product_eq ?_ (lt_limit hlead (by decide)), _, Wide.product_eq ?_ (lt_limit hsquare (by decide)),
    _, ⟨lt_limit hweight (by decide), rfl⟩, _, ⟨lt_limit hb (by decide), rfl⟩,
    _, Wide.product_eq ?_ (lt_limit hreserves (by decide)), _, Wide.product_eq ?_ (lt_limit htrade (by decide)),
    _, ⟨lt_limit hfirst (by decide), rfl⟩, _, ⟨lt_limit hall (by decide), rfl⟩,
    _, Wide.product_eq ?_ (lt_limit hroom (by decide)), _, Wide.sub_eq_some.2 ⟨hheld.le, rfl⟩, ?_⟩
  · simp [hn_pos, hr_pos]
  · simp [hc_pos, hin]
  · simp [hn_pos, hr_pos]
  · simp [hr_pos, hin]
  · simp [hr_pos, hr'_pos, hin]
  · exact if_neg (Nat.sub_ne_zero_of_lt hheld)

/-- A root that has room and is an amount is found. -/
theorem Fits.root_eq_some (h : p.Fits) (hlt : p.floor < wordSize) (hne : p.floor ≠ 0) : p.root = some p.floor := by
  have ha : 0 < p.a := by
    refine Nat.pos_of_ne_zero fun hzero => hne ?_
    rw [floor, hzero, Nat.zero_mul, Nat.div_zero]
  have hnegC : 0 < p.negC := by
    have hone := (le_floor_iff ha).1 (Nat.one_le_iff_ne_zero.2 hne)
    omega
  have hsquare := mul_lt_pow (k := 794) h.b_lt h.b_lt (by decide)
  have hfour := mul_lt_pow (k := 143) (by decide : 4 < 2 ^ 3) h.a_lt (by decide)
  have hproduct := mul_lt_pow (k := 651) hfour h.negC_lt (by decide)
  have hsum := add_lt_pow (k := 795) hsquare hproduct (by decide) (by decide)
  have htwice := mul_lt_pow (k := 142) h.a_lt (by decide : 2 < 2 ^ 2) (by decide)
  simp only [root, Wide.mul, Wide.add, Option.bind_eq_bind, Option.bind_eq_some_iff, Wide.fit_eq_some]
  refine ⟨_, ⟨lt_limit hsquare (by decide), rfl⟩, _, Wide.product_eq ?_ (lt_limit hproduct (by decide)),
    _, ⟨lt_limit hsum (by decide), rfl⟩, _, Wide.sub_eq_some.2 ⟨p.b_le_isqrt, rfl⟩,
    _, ⟨lt_limit htwice (by decide), rfl⟩, Wide.amount?_eq_some.2 ⟨hlt, hne, rfl⟩⟩
  simp [ha, hnegC]

end Quadratic

/-- In a regular pool a victim that bears a front-run is front-run by the floor of its root. -/
theorem maxFrontRun_eq_floor (h : hop.Regular) (hin : 0 < victimIn) (hword : victimIn < wordSize) (hmin : 0 < minOut)
    (hbears : Bears hop victimIn minOut 1) :
    maxFrontRun hop victimIn minOut = some (Quadratic.exact hop victimIn minOut).floor := by
  have hkept : 0 < hop.fee.keep * victimIn := Nat.mul_pos h.keep_pos hin
  have hheld : Quadratic.held hop victimIn minOut < Quadratic.room hop victimIn := by
    have ha : 0 < (Quadratic.exact hop victimIn minOut).a := Nat.mul_pos (Nat.mul_pos h.base_pos h.keep_pos) hmin
    have hle := Quadratic.bears_iff.1 hbears
    omega
  have hm : minOut < 2 ^ 112 :=
    (hbears.minOut_le_reserveOut (Nat.mul_pos (Nat.mul_pos h.base_pos h.reserveIn_pos) hkept)).trans_lt h.reserveOut_lt
  obtain ⟨hp, hfits⟩ := Quadratic.ofVictim_fits h hin hword hheld hm
  set p := Quadratic.exact hop victimIn minOut
  have hne : p.floor ≠ 0 := Nat.one_le_iff_ne_zero.1 ((bears_iff_le_floor hmin hheld).1 hbears)
  have hlt : p.floor < wordSize := by
    have hlast := ((bears_iff_le_floor hmin hheld).2 le_rfl).le_weight hmin hkept
    calc p.floor ≤ hop.fee.keep * p.floor := Nat.le_mul_of_pos_left _ h.keep_pos
      _ ≤ hop.fee.base * hop.reserveIn * hop.reserveOut := hlast
      _ ≤ 10000 * reserveSize * reserveSize :=
        Nat.mul_le_mul (Nat.mul_le_mul h.base_le h.reserveIn_lt.le) h.reserveOut_lt.le
      _ < wordSize := by decide
  rw [maxFrontRun, if_neg (by omega), hp, Option.bind_some]
  exact hfits.root_eq_some hlt hne

/-- **In a regular pool a front-run is missing only where the victim bears none.** -/
theorem maxFrontRun_eq_none_iff (h : hop.Regular) (hword : victimIn < wordSize) :
    maxFrontRun hop victimIn minOut = none ↔ minOut = 0 ∨ victimIn = 0 ∨ ¬ Bears hop victimIn minOut 1 := by
  constructor
  · intro hnone
    by_contra hbears
    simp only [not_or, not_not] at hbears
    obtain ⟨hmin, hin, hbears⟩ := hbears
    have hsome := maxFrontRun_eq_floor h (Nat.pos_of_ne_zero hin) hword (Nat.pos_of_ne_zero hmin) hbears
    cases hnone.symm.trans hsome
  · intro h
    rw [Option.eq_none_iff_forall_ne_some]
    intro x hx
    obtain ⟨-, hne, hmin, hheld⟩ := maxFrontRun_eq_some hx
    rcases h with rfl | rfl | hbears
    · exact absurd hmin (Nat.lt_irrefl 0)
    · exact absurd hheld (Nat.not_lt_zero _)
    · exact hbears ((bears_iff_le hx).2 (Nat.one_le_iff_ne_zero.2 hne))

/-! ### The integer swaps -/

variable {moved after : Hop} {bought out : ℕ}

/-- **Rounding does not take the victim below its minimum.** -/
theorem Bears.minOut_le (h : Bears hop victimIn minOut x) (hpos : 0 < hop.fee.base * hop.reserveIn)
    (hfront : hop.swap x = .ok (bought, moved)) (hvictim : moved.swap victimIn = .ok (out, after)) : minOut ≤ out := by
  obtain ⟨hbought, -, hle, rfl⟩ := Hop.swap_eq_ok.1 hfront
  obtain ⟨hout, -⟩ := Hop.swap_eq_ok.1 hvictim
  obtain ⟨-, hfloor⟩ := ConstantProduct.amountOut_eq_ok hbought
  obtain ⟨hne, rfl⟩ := ConstantProduct.amountOut_eq_ok hout
  rw [Nat.le_div_iff_mul_le (Nat.pos_of_ne_zero hne)]
  set base := hop.fee.base
  set keep := hop.fee.keep
  set reserve := hop.reserveIn
  set rest := hop.reserveOut - bought
  have hweight : 0 < base * reserve + keep * x := Nat.add_pos_left hpos _
  -- what the front-run leaves is no less than without rounding
  have hrest : base * reserve * hop.reserveOut ≤ rest * (base * reserve + keep * x) := by
    have hpaid : bought * (reserve * base + x * keep) ≤ x * keep * hop.reserveOut := by
      rw [hfloor]
      exact Nat.div_mul_le_self _ _
    have hsum : rest + bought = hop.reserveOut := Nat.sub_add_cancel hle
    nlinarith
  refine Nat.le_of_mul_le_mul_right ?_ hweight
  calc minOut * ((reserve + x) * base + victimIn * keep) * (base * reserve + keep * x)
      = minOut * (base * reserve + keep * x) * (base * (reserve + x) + keep * victimIn) := by ring
    _ ≤ base * keep * reserve * hop.reserveOut * victimIn := h
    _ = victimIn * keep * (base * reserve * hop.reserveOut) := by ring
    _ ≤ victimIn * keep * (rest * (base * reserve + keep * x)) := Nat.mul_le_mul_left _ hrest
    _ = victimIn * keep * rest * (base * reserve + keep * x) := by ring

/-- The first attempt is the last where the victim gets its minimum. -/
theorem shave_first {rounds : ℕ} (hrounds : rounds ≠ 0) (hx : x ≠ 0) (hfront : hop.swap x = .ok (bought, moved))
    (hvictim : moved.swap victimIn = .ok (out, after)) (hmin : minOut ≤ out) :
    shave hop victimIn minOut rounds x = some ⟨x, bought, after⟩ := by
  obtain ⟨rounds, rfl⟩ := Nat.exists_eq_succ_of_ne_zero hrounds
  simp [shave, hx, hfront, hvictim, hmin, Except.toOption]

/-- **The front-run is the largest that the victim bears, and is never shaved.** Not rounded, a front-run leaves the
victim its minimum exactly if it is not larger; multiplied out, the size satisfies the bound and the next input breaks
it. And where the integer swaps of the front-run and of the victim succeed, the victim gets its minimum, so that the
first attempt of any number of them is taken, at the size itself. In a regular pool there is none only for want of a
victim, of a minimum, or of a front-run that leaves it. -/
theorem maxFrontRun_isLargest (hop : Hop) (victimIn minOut : ℕ) :
    (∀ x, maxFrontRun hop victimIn minOut = some x →
      (∀ y : ℕ, (minOut : ℚ) ≤ victimOutput hop victimIn y ↔ y ≤ x) ∧
      minOut * (hop.fee.base * hop.reserveIn + hop.fee.keep * x) *
          (hop.fee.base * (hop.reserveIn + x) + hop.fee.keep * victimIn) ≤
        hop.fee.base * hop.fee.keep * hop.reserveIn * hop.reserveOut * victimIn ∧
      hop.fee.base * hop.fee.keep * hop.reserveIn * hop.reserveOut * victimIn <
        minOut * (hop.fee.base * hop.reserveIn + hop.fee.keep * (x + 1)) *
          (hop.fee.base * (hop.reserveIn + (x + 1)) + hop.fee.keep * victimIn) ∧
      ∀ bought moved out after, hop.swap x = .ok (bought, moved) → moved.swap victimIn = .ok (out, after) →
        minOut ≤ out ∧ (∀ rounds ≠ 0, shave hop victimIn minOut rounds x = some ⟨x, bought, after⟩) ∧
        frontRun hop victimIn minOut = some ⟨x, bought, after⟩) ∧
    (hop.Regular → victimIn < wordSize →
      (maxFrontRun hop victimIn minOut = none ↔
        minOut = 0 ∨ victimIn = 0 ∨ victimOutput hop victimIn (1 : ℕ) < minOut)) := by
  refine ⟨fun x h => ?_, fun h hword => ?_⟩
  · obtain ⟨-, hx, -, hheld⟩ := maxFrontRun_eq_some h
    obtain ⟨hpos, -⟩ := Quadratic.pos_of_held_lt hheld
    have hbears := (bears_iff_le h).2 le_rfl
    refine ⟨fun y => (le_victimOutput_iff hpos).trans (bears_iff_le h), hbears,
      Nat.not_le.1 fun hnext => absurd ((bears_iff_le h).1 hnext) (by omega), ?_⟩
    intro bought moved out after hfront hvictim
    have hmin := hbears.minOut_le hpos hfront hvictim
    have hfirst {rounds : ℕ} (hrounds : rounds ≠ 0) := shave_first hrounds hx hfront hvictim hmin
    refine ⟨hmin, fun _ => hfirst, ?_⟩
    rw [frontRun, h]
    exact hfirst (by decide)
  · rw [← not_le, le_victimOutput_iff (Nat.mul_pos h.base_pos h.reserveIn_pos)]
    exact maxFrontRun_eq_none_iff h hword

/-- A victim of five units in a pool of a hundred, which bears one per cent, bears a front-run of half a unit; one that
bears nothing is not front-run. -/
theorem maxFrontRun_isLargest_onePercent :
    let hop : Hop := ⟨100 * 10 ^ 18, 200000 * 10 ^ 18, .standard⟩
    let victimIn : ℕ := 5 * 10 ^ 18
    let expected : ℕ := 9496594751631185407439
    let minOut : ℕ := 9401628804114873553364
    let x : ℕ := 516827682451850928
    maxFrontRun hop victimIn minOut = some x ∧ (∀ y : ℕ, (minOut : ℚ) ≤ victimOutput hop victimIn y ↔ y ≤ x) ∧
      (∃ bought moved out after, hop.swap x = .ok (bought, moved) ∧ moved.swap victimIn = .ok (out, after) ∧
        minOut ≤ out ∧ frontRun hop victimIn minOut = some ⟨x, bought, after⟩) ∧
      hop.Regular ∧ victimIn < wordSize ∧ maxFrontRun hop victimIn expected = none ∧
      victimOutput hop victimIn (1 : ℕ) < expected := by
  intro hop victimIn expected minOut x
  have hx : maxFrontRun hop victimIn minOut = some x := by decide +kernel
  let moved : Hop := ⟨100516827682451850928, 198974728590993632270370, .standard⟩
  have hfront : hop.swap x = .ok (1025271409006367729630, moved) := by decide +kernel
  have hvictim : moved.swap victimIn =
      .ok (9401628804114873553437, ⟨105516827682451850928, 189573099786878758716933, .standard⟩) := by decide +kernel
  obtain ⟨hlargest, -, -, hfirst⟩ := (maxFrontRun_isLargest hop victimIn minOut).1 x hx
  obtain ⟨hmin, -, hrun⟩ := hfirst _ _ _ _ hfront hvictim
  have hregular : hop.Regular := by decide
  have hword : victimIn < wordSize := by decide
  have hnone : maxFrontRun hop victimIn expected = none := by decide +kernel
  have hshort := ((maxFrontRun_isLargest hop victimIn expected).2 hregular hword).1 hnone
  exact ⟨hx, hlargest, ⟨_, _, _, _, hfront, hvictim, hmin, hrun⟩, hregular, hword, hnone,
    (hshort.resolve_left (by decide)).resolve_left (by decide)⟩

end Sandwich
end Searcher

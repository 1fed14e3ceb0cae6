/-
# The best input of a map

A map gains `p y / (q + k y) - y` on an input `y`. Between two inputs `y` and `z` the gain changes by a fraction with
the sign of `(z - y) (p q - (q + k z) (q + k y))` (`gain_sub`). So it rises up to the root of `(q + k y)² = p q`
(`gain_le_of_sq_le`) and falls behind it (`gain_le_of_le_sq`); and where `p ≤ q` there is none (`gain_nonpos`).

The *size* is the root rounded down (`size_spec`, `eq_size_of_spec`). So the best whole input is the size, or the one
after it, which is better than the size by less than `k / (q + k size)` (`profit_size_succ_lt`). The optimum that is
computed is the size, and it is missing only for want of a gain at the margin, of a size, or of room for the numbers
(`optimum_eq_some_iff`).
-/

import Searcher.Proofs.SquareRoot
import Searcher.Proofs.Solver.Mobius
import Mathlib.Tactic.FieldSimp

namespace Searcher
namespace Mobius

variable {map : Mobius} {hops : List Hop}

/-! ### The gain -/

/-- The gain that the map makes on an input, which need not be whole. -/
def gain (map : Mobius) (y : ℚ) : ℚ := map.p * y / (map.q + map.k * y) - y

/-- The gain that the map makes on a whole input. -/
def profit (map : Mobius) (y : ℕ) : ℚ := map.output y - y

theorem profit_eq_gain (map : Mobius) (y : ℕ) : map.profit y = map.gain y := rfl

/-- The change of the gain between two inputs. -/
theorem gain_sub (hq : 0 < map.q) {y z : ℚ} (hy : 0 ≤ y) (hz : 0 ≤ z) :
    map.gain z - map.gain y =
      (z - y) * (map.p * map.q - (map.q + map.k * z) * (map.q + map.k * y)) /
        ((map.q + map.k * z) * (map.q + map.k * y)) := by
  have hz' : (map.q : ℚ) + map.k * z ≠ 0 := by positivity
  have hy' : (map.q : ℚ) + map.k * y ≠ 0 := by positivity
  unfold gain
  field_simp
  ring

/-- **Up to the root the gain rises.** -/
theorem gain_le_of_sq_le (hq : 0 < map.q) {y z : ℚ} (hy : 0 ≤ y) (hyz : y ≤ z)
    (hroot : (map.q + map.k * z) ^ 2 ≤ map.p * map.q) : map.gain y ≤ map.gain z := by
  have hz := hy.trans hyz
  have hweights : (map.q + map.k * z) * (map.q + map.k * y) ≤ (map.p : ℚ) * map.q := by
    refine le_trans ?_ hroot
    rw [sq]
    gcongr
  rw [← sub_nonneg, gain_sub hq hy hz]
  exact div_nonneg (mul_nonneg (sub_nonneg.2 hyz) (sub_nonneg.2 hweights)) (by positivity)

/-- **Behind the root the gain falls.** -/
theorem gain_le_of_le_sq (hq : 0 < map.q) {y z : ℚ} (hy : 0 ≤ y) (hyz : y ≤ z)
    (hroot : (map.p : ℚ) * map.q ≤ (map.q + map.k * y) ^ 2) : map.gain z ≤ map.gain y := by
  have hz := hy.trans hyz
  have hweights : (map.p : ℚ) * map.q ≤ (map.q + map.k * z) * (map.q + map.k * y) := by
    refine hroot.trans ?_
    rw [sq]
    gcongr
  rw [← sub_nonpos, gain_sub hq hy hz]
  exact div_nonpos_of_nonpos_of_nonneg
    (mul_nonpos_of_nonneg_of_nonpos (sub_nonneg.2 hyz) (sub_nonpos.2 hweights)) (by positivity)

/-- Without a gain at the margin there is none. -/
theorem gain_nonpos (h : map.p ≤ map.q) {y : ℚ} (hy : 0 ≤ y) : map.gain y ≤ 0 := by
  have h' : (map.p : ℚ) ≤ map.q := by exact_mod_cast h
  rw [gain, sub_nonpos]
  refine div_le_of_le_mul₀ (by positivity) hy ?_
  calc (map.p : ℚ) * y ≤ map.q * y := by gcongr
    _ ≤ y * (map.q + map.k * y) := by
      have : 0 ≤ map.k * y * y := by positivity
      linarith

/-- What a row of hops gains is at most the profit of its map. -/
theorem gain_le_profit (h : compose hops = some map) (hq : 0 < map.q) {y out : ℕ} (hout : Hop.chain y hops = .ok out) :
    (out : ℚ) - y ≤ map.profit y := by
  have houtput := chain_le_output h hout
  have hpaid : (out : ℚ) ≤ map.output y := by
    rw [output, le_div_iff₀ (by positivity)]
    exact_mod_cast houtput
  rw [profit]
  linarith

/-! ### The size -/

/-- The best input, rounded down. -/
def size (map : Mobius) : ℕ := (Root.isqrt (map.p * map.q) - map.q) / map.k

/-- The root of the product is at least the smaller of its factors. -/
theorem q_le_isqrt (h : map.q ≤ map.p) : map.q ≤ Root.isqrt (map.p * map.q) := by
  rw [Root.le_isqrt, Nat.pow_two]
  exact Nat.mul_le_mul_right _ h

/-- **What the size is:** the last input up to the root of `(q + k y)² = p q`. -/
theorem size_spec (h : map.q ≤ map.p) (hk : 0 < map.k) :
    (map.q + map.k * map.size) ^ 2 ≤ map.p * map.q ∧ map.p * map.q < (map.q + map.k * (map.size + 1)) ^ 2 := by
  have hq := q_le_isqrt h
  have hlow := Nat.mul_div_le (Root.isqrt (map.p * map.q) - map.q) map.k
  have hhigh := Nat.lt_mul_div_succ (Root.isqrt (map.p * map.q) - map.q) hk
  change map.k * map.size ≤ _ at hlow
  change _ < map.k * (map.size + 1) at hhigh
  constructor
  · exact (Nat.pow_le_pow_left (by omega) 2).trans (Root.isqrt_sq_le _)
  · exact (Root.lt_isqrt_succ_sq _).trans_le (Nat.pow_le_pow_left (by omega) 2)

/-- Nothing else is the last input up to the root. -/
theorem eq_size_of_spec {x : ℕ} (h : map.q ≤ map.p) (hk : 0 < map.k)
    (hlow : (map.q + map.k * x) ^ 2 ≤ map.p * map.q) (hhigh : map.p * map.q < (map.q + map.k * (x + 1)) ^ 2) :
    x = map.size := by
  obtain ⟨hsize, hnext⟩ := size_spec h hk
  have hle := lt_of_pow_lt_pow_left₀ 2 (Nat.zero_le _) (hlow.trans_lt hnext)
  have hge := lt_of_pow_lt_pow_left₀ 2 (Nat.zero_le _) (hsize.trans_lt hhigh)
  have hle := Nat.lt_of_mul_lt_mul_left (Nat.lt_of_add_lt_add_left hle)
  have hge := Nat.lt_of_mul_lt_mul_left (Nat.lt_of_add_lt_add_left hge)
  omega

/-- The size is below what a row can pay. -/
theorem size_lt {bound : ℕ} (hpq : map.q < map.p) (hbound : map.p ≤ bound * map.k) : map.size < bound := by
  have hk : 0 < map.k := by
    refine Nat.pos_of_ne_zero fun hzero => ?_
    rw [hzero, Nat.mul_zero] at hbound
    omega
  have hsquare : (map.q + map.k * map.size) ^ 2 < map.p ^ 2 := by
    refine (size_spec hpq.le hk).1.trans_lt ?_
    rw [Nat.pow_two]
    exact Nat.mul_lt_mul_of_pos_left hpq (by omega)
  have hlt : map.q + map.k * map.size < map.p := lt_of_pow_lt_pow_left₀ 2 (Nat.zero_le _) hsquare
  refine Nat.lt_of_mul_lt_mul_left (a := map.k) ?_
  rw [Nat.mul_comm map.k bound]
  omega

/-- A map without a weight on the input's side has no size. -/
theorem q_pos_of_size_ne_zero (h : map.size ≠ 0) : 0 < map.q := by
  refine Nat.pos_of_ne_zero fun hzero => h ?_
  rw [size, hzero, Nat.mul_zero, Nat.sub_zero]
  exact Nat.zero_div _

/-- Up to the size the gain rises. -/
theorem gain_le_size (hq : 0 < map.q) (h : map.q ≤ map.p) (hk : 0 < map.k) {y : ℚ} (hy : 0 ≤ y) (hle : y ≤ map.size) :
    map.gain y ≤ map.gain map.size :=
  gain_le_of_sq_le hq hy hle (by exact_mod_cast (size_spec h hk).1)

/-- From the input after the size on the gain falls. -/
theorem gain_le_size_succ (hq : 0 < map.q) (h : map.q ≤ map.p) (hk : 0 < map.k) {y : ℚ} (hle : map.size + 1 ≤ y) :
    map.gain y ≤ map.gain (map.size + 1) :=
  gain_le_of_le_sq hq (by positivity) hle (by exact_mod_cast (size_spec h hk).2.le)

/-- Up to the size, a larger input is worth no less. -/
theorem profit_le_size (hq : 0 < map.q) (h : map.q ≤ map.p) (hk : 0 < map.k) {y : ℕ} (hy : y ≤ map.size) :
    map.profit y ≤ map.profit map.size := by
  rw [profit_eq_gain, profit_eq_gain]
  exact gain_le_size hq h hk (Nat.cast_nonneg y) (by exact_mod_cast hy)

/-- From the next number on, a larger input is worth no more. -/
theorem profit_le_size_succ (hq : 0 < map.q) (h : map.q ≤ map.p) (hk : 0 < map.k) {y : ℕ} (hy : map.size < y) :
    map.profit y ≤ map.profit (map.size + 1) := by
  rw [profit_eq_gain, profit_eq_gain, Nat.cast_succ]
  exact gain_le_size_succ hq h hk (by exact_mod_cast hy)

/-- The input after the size is better than the size by less than `k / (q + k size)`. -/
theorem profit_size_succ_lt (hq : 0 < map.q) (h : map.q ≤ map.p) (hk : 0 < map.k) :
    map.profit (map.size + 1) < map.profit map.size + map.k / (map.q + map.k * map.size) := by
  have hroot : (map.p : ℚ) * map.q < (map.q + map.k * (map.size + 1)) ^ 2 := by exact_mod_cast (size_spec h hk).2
  have hrise := gain_sub hq (Nat.cast_nonneg map.size) (by positivity : (0 : ℚ) ≤ map.size + 1)
  rw [profit_eq_gain, profit_eq_gain, Nat.cast_succ, ← sub_lt_iff_lt_add', hrise]
  set x := (map.size : ℚ)
  have hx : (0 : ℚ) < map.q + map.k * x := by positivity
  have hnext : (0 : ℚ) < map.q + map.k * (x + 1) := by positivity
  rw [div_lt_div_iff₀ (mul_pos hnext hx) hx]
  nlinarith

/-- Nothing is gained where the map has no excess over one. -/
theorem profit_nonpos (h : map.p ≤ map.q) (y : ℕ) : map.profit y ≤ 0 := gain_nonpos h (Nat.cast_nonneg y)

/-! ### The optimum -/

/-- **What the optimum is:** the size, where there is a gain at the margin, and nothing leaves its range. -/
theorem optimum_eq_some_iff {x : ℕ} :
    map.optimum = some x ↔
      (map.q < map.p ∧ 0 < map.k ∧ map.p * map.q < 2 ^ 1024) ∧ x = map.size ∧ x ≠ 0 ∧ x < wordSize := by
  unfold optimum
  split
  · rename_i hguard
    constructor
    · intro h
      cases h
    · rintro ⟨⟨hpq, hk, -⟩, -⟩
      omega
  · rename_i hguard
    simp only [Wide.mul, Option.bind_eq_bind, Option.bind_eq_some_iff, Wide.fit_eq_some]
    constructor
    · rintro ⟨_, ⟨hsquare, rfl⟩, difference, hdifference, h⟩
      obtain ⟨-, rfl⟩ := Wide.sub_eq_some.1 hdifference
      obtain ⟨hlt, hne, rfl⟩ := Wide.amount?_eq_some.1 h
      exact ⟨⟨by omega, by omega, hsquare⟩, rfl, hne, hlt⟩
    · rintro ⟨⟨hpq, -, hsquare⟩, rfl, hne, hlt⟩
      exact ⟨_, ⟨hsquare, rfl⟩, _, Wide.sub_eq_some.2 ⟨q_le_isqrt hpq.le, rfl⟩,
        Wide.amount?_eq_some.2 ⟨hlt, hne, rfl⟩⟩

/-- Where there is an optimum it is the size. -/
theorem optimum_eq_some {x : ℕ} (h : map.optimum = some x) : map.q < map.p ∧ 0 < map.k ∧ x = map.size ∧ x ≠ 0 := by
  obtain ⟨⟨hpq, hk, -⟩, hsize, hne, -⟩ := optimum_eq_some_iff.1 h
  exact ⟨hpq, hk, hsize, hne⟩

/-- Where nothing leaves its range and the size is not zero, the size is the optimum. -/
theorem optimum_eq_size (hpq : map.q < map.p) (hk : 0 < map.k) (hsquare : map.p * map.q < 2 ^ 1024)
    (hsize : map.size < wordSize) (hne : map.size ≠ 0) : map.optimum = some map.size :=
  optimum_eq_some_iff.2 ⟨⟨hpq, hk, hsquare⟩, rfl, hne, hsize⟩

/-- **Where nothing leaves its range the optimum is missing only for want of a gain at the margin,** or of a size. -/
theorem optimum_eq_none_iff (hk : 0 < map.k) (hsquare : map.p * map.q < 2 ^ 1024)
    (hsize : map.q < map.p → map.size < wordSize) : map.optimum = none ↔ map.p ≤ map.q ∨ map.size = 0 := by
  constructor
  · intro h
    by_contra hne
    obtain ⟨hpq, hne⟩ := not_or.1 hne
    have hpq := Nat.not_le.1 hpq
    cases h.symm.trans (optimum_eq_size hpq hk hsquare (hsize hpq) hne)
  · intro h
    rw [Option.eq_none_iff_forall_ne_some]
    intro x hx
    obtain ⟨hpq, -, rfl, hne⟩ := optimum_eq_some hx
    exact h.elim (Nat.not_le.2 hpq) hne

/-- The optimum is the last input up to the root, if that is not zero and nothing leaves its range. -/
theorem optimum_eq_some_iff_root {x : ℕ} :
    map.optimum = some x ↔
      (0 < x ∧ (map.q + map.k * x) ^ 2 ≤ map.p * map.q ∧ map.p * map.q < (map.q + map.k * (x + 1)) ^ 2) ∧
        x < wordSize ∧ map.p * map.q < 2 ^ 1024 := by
  rw [optimum_eq_some_iff]
  constructor
  · rintro ⟨⟨hpq, hk, hsquare⟩, rfl, hne, hlt⟩
    exact ⟨⟨Nat.pos_of_ne_zero hne, size_spec hpq.le hk⟩, hlt, hsquare⟩
  · rintro ⟨⟨hpos, hlow, hhigh⟩, hlt, hsquare⟩
    have hk : 0 < map.k := by
      refine Nat.pos_of_ne_zero fun hzero => ?_
      rw [hzero, Nat.zero_mul] at hlow hhigh
      exact absurd hhigh (Nat.not_lt.2 hlow)
    -- where `p ≤ q` the root is not above zero, and `x` is
    have hpq : map.q < map.p := by
      have hweight : map.q < map.q + map.k * x := Nat.lt_add_of_pos_right (Nat.mul_pos hk hpos)
      by_contra hle
      have hsmall : map.p * map.q ≤ map.q ^ 2 := by
        rw [Nat.pow_two]
        exact Nat.mul_le_mul_right _ (Nat.not_lt.1 hle)
      exact absurd (Nat.pow_lt_pow_left hweight (by decide)) (Nat.not_lt.2 (hlow.trans hsmall))
    exact ⟨⟨hpq, hk, hsquare⟩, eq_size_of_spec hpq.le hk hlow hhigh, hpos.ne', hlt⟩

/-- **The optimum is the best input rounded down.** It is the last input up to the root of `(q + k y)² = p q`, where
that is an amount and not zero and the product has room. So among the inputs up to it, whole or not, none gains more,
and among those from the next one on none gains more than the next one. Without a gain at the margin no input gains
anything. -/
theorem optimum_isFloor (map : Mobius) :
    (∀ x, map.optimum = some x ↔
      (0 < x ∧ (map.q + map.k * x) ^ 2 ≤ map.p * map.q ∧ map.p * map.q < (map.q + map.k * (x + 1)) ^ 2) ∧
        x < wordSize ∧ map.p * map.q < 2 ^ 1024) ∧
    (∀ x, map.optimum = some x →
      (∀ y : ℚ, 0 ≤ y → y ≤ x → map.gain y ≤ map.gain x) ∧
        ∀ y : ℚ, x + 1 ≤ y → map.gain y ≤ map.gain (x + 1)) ∧
    (map.p ≤ map.q → ∀ y : ℚ, 0 ≤ y → map.gain y ≤ 0) := by
  refine ⟨fun x => optimum_eq_some_iff_root, fun x hx => ?_, fun h y => gain_nonpos h⟩
  obtain ⟨hpq, hk, rfl, hne⟩ := optimum_eq_some hx
  have hq := q_pos_of_size_ne_zero hne
  exact ⟨fun y => gain_le_size hq hpq.le hk, fun y => gain_le_size_succ hq hpq.le hk⟩

/-- The map of two pairs whose prices differ by more than their fees has an optimum, about which it gains most; the map
of a pair and the same pair backwards gains nothing. -/
theorem optimum_isFloor_twoPairs :
    let map : Mobius := ⟨1988018 * 10 ^ 45, 19 * 10 ^ 50, 3882318 * 10 ^ 24⟩
    let flat : Mobius := ⟨994009 * 10 ^ 6, 10 ^ 12, 1991009 * 10 ^ 3⟩
    let x : ℕ := 11207426170372288674
    map.optimum = some x ∧ (∀ y : ℚ, 0 ≤ y → y ≤ x → map.gain y ≤ map.gain x) ∧
      (∀ y : ℚ, x + 1 ≤ y → map.gain y ≤ map.gain (x + 1)) ∧ flat.p ≤ flat.q ∧ ∀ y : ℚ, 0 ≤ y → flat.gain y ≤ 0 := by
  intro map flat x
  have hx : map.optimum = some x := by decide +kernel
  have hflat : flat.p ≤ flat.q := by decide
  obtain ⟨hrise, hfall⟩ := (optimum_isFloor map).2.1 x hx
  exact ⟨hx, hrise, hfall, hflat, (optimum_isFloor flat).2.2 hflat⟩

end Mobius
end Searcher

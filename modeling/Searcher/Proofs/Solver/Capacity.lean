/-
# Where the closed form has room

A pair keeps its reserves in 112 bits, and its fee is a part of at most ten thousand (`Hop.Regular`). A hop then
multiplies the coefficients of a map by less than `2 ^ 126`, and after `n` hops they are at most `n` times the `n`-th
power of that (`Mobius.Within`). For four hops a coefficient needs up to 504 bits and the product under the root up to
1003, so that nothing leaves the 1024 bits of the closed form.

The input it finds is below the last reserve, and so is every amount on its way through the hops (`Hop.chain_regular`):
their products need at most 238 of 256 bits.
-/

import Searcher.Proofs.Quote.Holdings
import Searcher.Proofs.Solver.Optimum

namespace Searcher

/-- The number of values of a pair's reserve. -/
def reserveSize : ℕ := 2 ^ 112

namespace Hop

/-- What a regular hop multiplies a number by, at most. -/
def growth : ℕ := 10000 * reserveSize

/-- A pair with something on both sides, and a fee that leaves a part of what comes in. -/
@[mk_iff] structure Regular (hop : Hop) : Prop where
  reserveIn_pos : 0 < hop.reserveIn
  reserveIn_lt : hop.reserveIn < reserveSize
  reserveOut_pos : 0 < hop.reserveOut
  reserveOut_lt : hop.reserveOut < reserveSize
  base_le : hop.fee.base ≤ 10000
  taken_lt : hop.fee.taken < hop.fee.base

instance (hop : Hop) : Decidable hop.Regular := decidable_of_iff _ (regular_iff hop).symm

namespace Regular

variable {hop : Hop}

/-- Of an input something is kept after the fee. -/
theorem keep_pos (h : hop.Regular) : 0 < hop.fee.keep := Nat.sub_pos_of_lt h.taken_lt

/-- What is kept is at most all of it, in ten thousandths. -/
theorem keep_le (h : hop.Regular) : hop.fee.keep ≤ 10000 := (Nat.sub_le _ _).trans h.base_le

/-- A fee has a positive base. -/
theorem base_pos (h : hop.Regular) : 0 < hop.fee.base := Nat.zero_lt_of_lt h.taken_lt

/-- **A regular hop quotes every amount that could be a reserve,** and pays an amount of this kind. -/
theorem amountOut_ok (h : hop.Regular) {amount : ℕ} (hamount : amount < reserveSize) :
    ∃ out < reserveSize, hop.amountOut amount = .ok out := by
  have hkept : amount * hop.fee.keep ≤ growth := by
    rw [Nat.mul_comm]
    exact Nat.mul_le_mul h.keep_le hamount.le
  have hnumerator : amount * hop.fee.keep * hop.reserveOut ≤ growth * reserveSize :=
    Nat.mul_le_mul hkept h.reserveOut_lt.le
  have hweight : hop.reserveIn * hop.fee.base ≤ growth := by
    rw [Nat.mul_comm]
    exact Nat.mul_le_mul h.base_le h.reserveIn_lt.le
  have hpos : 0 < hop.reserveIn * hop.fee.base := Nat.mul_pos h.reserveIn_pos h.base_pos
  have hsum : growth + growth < wordSize := by decide
  have hproduct : growth * reserveSize < wordSize := by decide
  have hreserves : ¬ (hop.reserveIn = 0 ∨ hop.reserveOut = 0) := by
    rintro (hzero | hzero)
    · exact h.reserveIn_pos.ne' hzero
    · exact h.reserveOut_pos.ne' hzero
  have hout : hop.amountOut amount = .ok
      (amount * hop.fee.keep * hop.reserveOut / (hop.reserveIn * hop.fee.base + amount * hop.fee.keep)) := by
    rw [Hop.amountOut, ConstantProduct.amountOut, if_neg hreserves]
    simp only [Checked.bind_eq_ok]
    refine ⟨_, Checked.fit_eq_ok.2 ⟨?_, rfl⟩, _, Checked.fit_eq_ok.2 ⟨?_, rfl⟩, _,
      Checked.fit_eq_ok.2 ⟨?_, rfl⟩, _, Checked.fit_eq_ok.2 ⟨?_, rfl⟩, Checked.div_eq_ok.2 ⟨?_, rfl⟩⟩
    all_goals omega
  exact ⟨_, (ConstantProduct.amountOut_lt hout).trans h.reserveOut_lt, hout⟩

end Regular

/-- Amounts that are below the size of reserves are quoted through any number of regular hops, because what a hop pays
is below its reserve. -/
theorem chain_regular {hops : List Hop} (h : ∀ hop ∈ hops, hop.Regular) {amount : ℕ} (hamount : amount < reserveSize) :
    ∃ out, chain amount hops = .ok out := by
  induction hops generalizing amount with
  | nil => exact ⟨amount, rfl⟩
  | cons hop hops ih =>
    obtain ⟨arrived, hlt, harrived⟩ := (h hop (by simp)).amountOut_ok hamount
    obtain ⟨out, hout⟩ := ih (fun hop' hmem => h hop' (by simp [hmem])) hlt
    exact ⟨out, Checked.bind_eq_ok.2 ⟨arrived, harrived, hout⟩⟩

end Hop

namespace Mobius

open Hop (growth)

variable {map : Mobius} {hop : Hop} {hops : List Hop} {n : ℕ}

/-- What is known of the coefficients after `n` regular hops. -/
structure Within (n : ℕ) (map : Mobius) : Prop where
  p_pos : 0 < map.p
  p_le : map.p ≤ growth ^ n
  q_le : map.q ≤ growth ^ n
  k_le : map.k ≤ n * growth ^ n
  k_pos : 0 < n → 0 < map.k

/-- The identity is within the size of no hops. -/
theorem Within.id : Within 0 id := ⟨Nat.one_pos, le_rfl, le_rfl, le_rfl, fun h => absurd h (by decide)⟩

/-- One regular hop more multiplies the coefficients by at most `growth`, and adds one summand to the last of them. -/
theorem Within.followedBy (hmap : Within n map) (h : hop.Regular) : Within (n + 1) (map.followedBy hop) := by
  have ha : hop.fee.keep * hop.reserveOut ≤ growth := Nat.mul_le_mul h.keep_le h.reserveOut_lt.le
  have hb : hop.fee.base * hop.reserveIn ≤ growth := Nat.mul_le_mul h.base_le h.reserveIn_lt.le
  have hc : hop.fee.keep ≤ growth := h.keep_le.trans (Nat.le_mul_of_pos_right _ (by decide))
  constructor
  · exact Nat.mul_pos (Nat.mul_pos h.keep_pos h.reserveOut_pos) hmap.p_pos
  · rw [Nat.pow_succ']
    exact Nat.mul_le_mul ha hmap.p_le
  · rw [Nat.pow_succ']
    exact Nat.mul_le_mul hb hmap.q_le
  · calc hop.fee.base * hop.reserveIn * map.k + hop.fee.keep * map.p
        ≤ growth * (n * growth ^ n) + growth * growth ^ n :=
          Nat.add_le_add (Nat.mul_le_mul hb hmap.k_le) (Nat.mul_le_mul hc hmap.p_le)
      _ = (n + 1) * growth ^ (n + 1) := by ring
  · exact fun _ => Nat.add_pos_right _ (Nat.mul_pos h.keep_pos hmap.p_pos)

/-- Up to four hops, the growth is at most that of four. -/
theorem growth_pow_le (hn : n ≤ 4) : growth ^ n ≤ growth ^ 4 := Nat.pow_le_pow_right (by decide) hn

/-- After four hops the coefficients are still far from the limit. -/
theorem Within.coefficients_lt (hmap : Within n map) (hn : n ≤ 4) :
    map.p < 2 ^ 1024 ∧ map.q < 2 ^ 1024 ∧ map.k < 2 ^ 1024 := by
  have hroom : 4 * growth ^ 4 < 2 ^ 1024 := by decide +kernel
  have hk : map.k ≤ 4 * growth ^ 4 := hmap.k_le.trans (Nat.mul_le_mul hn (growth_pow_le hn))
  have hpow : growth ^ 4 ≤ 4 * growth ^ 4 := Nat.le_mul_of_pos_left _ (by decide)
  have hpow' := (growth_pow_le hn).trans hpow
  exact ⟨(hmap.p_le.trans hpow').trans_lt hroom, (hmap.q_le.trans hpow').trans_lt hroom, hk.trans_lt hroom⟩

/-- Up to four hops, the product under the root has 1024 bits. -/
theorem Within.square_lt (hmap : Within n map) (hn : n ≤ 4) : map.p * map.q < 2 ^ 1024 := by
  have hroom : growth ^ 4 * growth ^ 4 < 2 ^ 1024 := by decide +kernel
  have hp := hmap.p_le.trans (growth_pow_le hn)
  have hq := hmap.q_le.trans (growth_pow_le hn)
  exact (Nat.mul_le_mul hp hq).trans_lt hroom

/-- **One more hop fits.** -/
theorem Within.next_eq_some (hmap : Within n map) (hn : n < 4) (h : hop.Regular) :
    map.next hop = some (map.followedBy hop) := by
  obtain ⟨hp, hq, hk⟩ := (hmap.followedBy h).coefficients_lt hn
  have ha : hop.fee.keep * hop.reserveOut < 2 ^ 1024 := (Nat.le_mul_of_pos_right _ hmap.p_pos).trans_lt hp
  have hb : hop.fee.base * hop.reserveIn < 2 ^ 1024 :=
    (Nat.mul_le_mul h.base_le h.reserveIn_lt.le).trans_lt (by decide +kernel : growth < 2 ^ 1024)
  simp only [Mobius.next, Wide.mul, Wide.add, Option.bind_eq_bind, Option.bind_eq_some_iff, Wide.fit_eq_some]
  exact ⟨_, ⟨ha, rfl⟩, _, ⟨hb, rfl⟩, _, ⟨(Nat.le_add_right _ _).trans_lt hk, rfl⟩, _,
    ⟨(Nat.le_add_left _ _).trans_lt hk, rfl⟩, _, ⟨hk, rfl⟩, _, ⟨hp, rfl⟩, _, ⟨hq, rfl⟩, rfl⟩

/-- **Up to four regular hops compose:** each step fits, by induction over the hops that are left. -/
theorem Within.foldlM_next_eq_some (hmap : Within n map) (hn : n + hops.length ≤ 4) (h : ∀ hop ∈ hops, hop.Regular) :
    ∃ map', hops.foldlM next map = some map' ∧ Within (n + hops.length) map' := by
  induction hops generalizing n map with
  | nil => exact ⟨map, rfl, hmap⟩
  | cons hop hops ih =>
    have hhop := h hop (by simp)
    rw [List.length_cons] at hn ⊢
    obtain ⟨map', hmap', hwithin⟩ :=
      ih (hmap.followedBy hhop) (by omega) (fun hop' hmem => h hop' (by simp [hmem]))
    refine ⟨map', ?_, by rwa [Nat.add_comm hops.length, ← Nat.add_assoc]⟩
    rw [List.foldlM_cons, hmap.next_eq_some (by omega) hhop]
    exact hmap'

/-- **The closed form has room for every row of up to four pairs.** The row has a map; that the optimum of the map is
missing never means that a number did not fit; and where there is one, the hops quote it. -/
theorem compose_regular (hne : hops ≠ []) (hlength : hops.length ≤ 4) (h : ∀ hop ∈ hops, hop.Regular) :
    ∃ map, compose hops = some map ∧ 0 < map.k ∧
      (map.optimum = none ↔ map.p ≤ map.q ∨ (Root.isqrt (map.p * map.q) - map.q) / map.k = 0) ∧
      ∀ x, map.optimum = some x → ∃ out, Hop.chain x hops = .ok out := by
  obtain ⟨map, hmap, hwithin⟩ := Within.id.foldlM_next_eq_some (by omega) h
  rw [Nat.zero_add] at hwithin
  have hk := hwithin.k_pos (List.length_pos_iff.2 hne)
  have hsquare := hwithin.square_lt hlength
  have hsize : map.q < map.p → map.size < reserveSize := fun hpq =>
    size_lt hpq (compose_p_le hne (fun hop hhop => (h hop hhop).reserveOut_lt.le) hmap)
  have hnone := optimum_eq_none_iff hk hsquare fun hpq => (hsize hpq).trans (by decide)
  refine ⟨map, hmap, hk, hnone, fun x hx => Hop.chain_regular h ?_⟩
  obtain ⟨hpq, -, rfl, -⟩ := optimum_eq_some hx
  exact hsize hpq

/-- Four pairs that are nearly full. -/
def fullHops : List Hop :=
  [⟨2 ^ 111, 2 ^ 112 - 1, ⟨10000, 25⟩⟩, ⟨2 ^ 111 + 5, 2 ^ 112 - 3, ⟨10000, 30⟩⟩,
    ⟨2 ^ 112 - 9, 2 ^ 112 - 7, ⟨10000, 25⟩⟩, ⟨2 ^ 112 - 1, 2 ^ 112 - 1, ⟨10000, 2⟩⟩]

/-- Four pairs that are nearly full have an optimum, and quote it. -/
theorem compose_fullHops : fullHops ≠ [] ∧ fullHops.length ≤ 4 ∧ (∀ hop ∈ fullHops, hop.Regular) ∧
    ∃ map x out, compose fullHops = some map ∧ map.optimum = some x ∧ Hop.chain x fullHops = .ok out := by
  have hne : fullHops ≠ [] := List.cons_ne_nil _ _
  have hlength : fullHops.length ≤ 4 := le_rfl
  have hregular : ∀ hop ∈ fullHops, hop.Regular := by decide +kernel
  obtain ⟨map, hmap, -, -, hok⟩ := compose_regular hne hlength hregular
  have hbest : (compose fullHops).bind optimum = some 370261790507137064206258429972677 := by decide +kernel
  rw [hmap] at hbest
  obtain ⟨out, hout⟩ := hok _ hbest
  exact ⟨hne, hlength, hregular, map, _, out, hmap, hbest, hout⟩

end Mobius
end Searcher

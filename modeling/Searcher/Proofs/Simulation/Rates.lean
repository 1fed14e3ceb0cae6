/-
# What a balance rate admits

The rate of a hop is the largest balance of its token among the other pools that trade the token against a reference
token (`deepestOther_isGreatest`), over the balance of the hop's own pool. A hop with two reference tokens, or with
none, has no rate.

A rate that bounds something is checked by two products, which are cut off at the largest amount. Where the product with
the later balance has room, the check is the test of the ratio `after / before`. Where it is cut off nothing is above
it, and the balances pass (`admits_ratioOrCutOff`). So the check errs on one side only, but by any ratio: it may pass
one in a hundred for one to one (`hugeSupply_admitted`).
-/

import Searcher.Simulation.BalanceRate
import Mathlib.Data.Nat.Notation
import Mathlib.Order.Bounds.Defs

namespace Searcher

/-- Numbers that are cut off compare as they are, unless the larger one is cut off. -/
theorem saturate_le_saturate {m n : ℕ} : saturate m ≤ saturate n ↔ m ≤ n ∨ wordSize - 1 ≤ n := by
  unfold saturate
  omega

namespace BalanceRate

variable {index : PoolIndex} {pool token : Address} {rate : BalanceRate} {path : Path} {i before after : ℕ}

/-- A pool other than `pool` that trades a token against a reference token. -/
def Rival (index : PoolIndex) (pool token : Address) (link : PoolLink) : Prop :=
  link.pool ≠ pool ∧ ∃ entry ∈ Token.references, link ∈ index.between token entry.1

/-- **The largest balance is that of a rival**, unless it is zero, and no rival has a larger one. -/
theorem deepestOther_isGreatest (h : deepestOther index pool token ≠ 0) :
    IsGreatest {held | ∃ link, Rival index pool token link ∧ index.balance link.pool token = held}
      (deepestOther index pool token) := by
  let links := (Token.references.flatMap fun entry => index.between token entry.1).filter fun link => link.pool ≠ pool
  have hlinks : ∀ link, link ∈ links ↔ Rival index pool token link := by
    intro link
    rw [List.mem_filter, List.mem_flatMap, decide_eq_true_eq, and_comm]
    rfl
  have hmax : (0 :: links.map fun link => index.balance link.pool token).max? =
      some (deepestOther index pool token) := List.max?_cons'
  obtain ⟨hmem, hmost⟩ := List.max?_eq_some_iff.1 hmax
  constructor
  · obtain ⟨link, hlink, hheld⟩ := List.mem_map.1 ((List.mem_cons.1 hmem).resolve_left h)
    exact ⟨link, (hlinks link).1 hlink, hheld⟩
  · rintro held ⟨link, hrival, rfl⟩
    exact hmost _ (List.mem_cons_of_mem _ (List.mem_map.2 ⟨link, (hlinks link).2 hrival, rfl⟩))

/-- A rate that bounds something has no zero in it. -/
theorem isUnchecked_eq_false : rate.isUnchecked = false ↔ rate.numerator ≠ 0 ∧ rate.denominator ≠ 0 := by
  simp [isUnchecked]

/-- The rate of a hop that is checked. -/
theorem rate_of_checked (hrate : (ofPath index path)[i]? = some rate) (hchecked : rate.isUnchecked = false) :
    ∃ leg token, path.legs[i]? = some leg ∧ measured? leg = some token ∧
      rate.denominator = index.balance leg.pool token ∧
      IsGreatest {held | ∃ link, Rival index leg.pool token link ∧ index.balance link.pool token = held}
        rate.numerator := by
  rw [ofPath, List.getElem?_map, Option.map_eq_some_iff] at hrate
  obtain ⟨leg, hleg, rfl⟩ := hrate
  unfold ofLeg at hchecked ⊢
  rcases hmeasured : measured? leg with _ | token
  · simp [hmeasured, unchecked, isUnchecked] at hchecked
  · simp only [hmeasured] at hchecked ⊢
    obtain ⟨hnumerator, -⟩ := isUnchecked_eq_false.1 hchecked
    exact ⟨leg, token, hleg, hmeasured, rfl, deepestOther_isGreatest hnumerator⟩

/-- **What is admitted:** something was there before, and what is there after reaches the rate, or their product the
cut-off. -/
theorem admits_iff (hchecked : rate.isUnchecked = false) (before after : ℕ) :
    rate.admits before after = true ↔ 0 < before ∧
      (rate.numerator * before ≤ after * rate.denominator ∨ wordSize - 1 ≤ after * rate.denominator) := by
  rw [admits, hchecked, if_neg Bool.false_ne_true, ← saturate_le_saturate]
  split
  · rename_i hzero
    simp [hzero]
  · rename_i hbefore
    simp [Nat.pos_of_ne_zero hbefore]

/-- **The check of a rate is the test of the ratio, or it is cut off.** A checked hop trades one token that is no
reference token, and its rate is the largest balance that a rival of the pool has of it, over the pool's own. The
balances of the pool pass exactly if it held something before, and either `after / before` is at least the rate or the
product of `after` with the denominator reaches the largest amount. -/
theorem admits_ratioOrCutOff (hrate : (ofPath index path)[i]? = some rate) (hchecked : rate.isUnchecked = false) :
    ∃ leg token, path.legs[i]? = some leg ∧ measured? leg = some token ∧
      rate.denominator = index.balance leg.pool token ∧
      IsGreatest {held | ∃ link, Rival index leg.pool token link ∧ index.balance link.pool token = held}
        rate.numerator ∧
      ∀ before after, rate.admits before after = true ↔ 0 < before ∧
        (rate.numerator * before ≤ after * rate.denominator ∨ wordSize - 1 ≤ after * rate.denominator) := by
  obtain ⟨leg, token, hleg, hmeasured, hown, hothers⟩ := rate_of_checked hrate hchecked
  exact ⟨leg, token, hleg, hmeasured, hown, hothers, admits_iff hchecked⟩

/-- Two pools that trade one token against different reference tokens, and what they hold of it. -/
def twoPools (own other : ℕ) : PoolIndex :=
  let token : Address := .ofNat 1
  let first := ({} : PoolIndex).addPool (.ofNat 30) .uniswapV2 [token, Token.usdt]
  let both := first.addPool (.ofNat 31) .uniswapV2 [token, Token.wbnb]
  (both.setBalance (.ofNat 30) token own).setBalance (.ofNat 31) token other

/-- A hop through the first of them. -/
def throughFirst : Path := ⟨0, [0], [.ofNat 30], [Token.usdt, .ofNat 1]⟩

/-- A pool that holds ten may go down to nine tenths, where the other one holds nine. -/
theorem admits_ratioOrCutOff_nineTenths :
    let rate : BalanceRate := ⟨9, 10⟩
    (ofPath (twoPools 10 9) throughFirst)[0]? = some rate ∧ rate.isUnchecked = false ∧
      rate.admits 100 90 = true ∧ rate.admits 100 89 = false ∧
      ∃ leg token, throughFirst.legs[0]? = some leg ∧ measured? leg = some token ∧
        rate.denominator = (twoPools 10 9).balance leg.pool token ∧
        IsGreatest {held | ∃ link, Rival (twoPools 10 9) leg.pool token link ∧
          (twoPools 10 9).balance link.pool token = held} rate.numerator ∧
        ∀ before after, rate.admits before after = true ↔ 0 < before ∧
          (rate.numerator * before ≤ after * rate.denominator ∨ wordSize - 1 ≤ after * rate.denominator) := by
  intro rate
  have hrate : (ofPath (twoPools 10 9) throughFirst)[0]? = some rate := by decide +kernel
  exact ⟨hrate, by decide, by decide, by decide, admits_ratioOrCutOff hrate (by decide)⟩

/-- **A token of huge supply passes whatever is taken.** Two pools hold `10 ^ 40` of it each, and a front-run that
leaves one in a hundred of them passes for one to one, since both products are cut off. -/
theorem hugeSupply_admitted :
    let rate : BalanceRate := ⟨10 ^ 40, 10 ^ 40⟩
    (ofPath (twoPools (10 ^ 40) (10 ^ 40)) throughFirst)[0]? = some rate ∧ rate.isUnchecked = false ∧
      10 ^ 40 < wordSize ∧ rate.admits (10 ^ 40) (10 ^ 38) = true ∧
      ¬ (0 < 10 ^ 40 ∧ rate.numerator * 10 ^ 40 ≤ 10 ^ 38 * rate.denominator) := by
  decide +kernel

end BalanceRate
end Searcher

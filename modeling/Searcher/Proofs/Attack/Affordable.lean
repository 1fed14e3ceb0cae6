/-
# What is sent is paid for by the revenue

The gate decides with quotients that are rounded down, with two products that are not checked, and with a gas price
that stops at 128 bits. None of this ever makes an attack cheaper than it is: rounding down, dropping the high bits of
what is available and stopping a price all lower what is offered. (The other products fit anyway: gas has 64 bits, a gas
price has 128.) So an admitted bundle keeps its distance to the revenue (`Gate.safetyCost_ceilingPrice_le`), and the
check that comes last, of the cost of a bundle, has nothing left to refuse (`Gate.arbitrage_relayed`).

What an arbitrage in a bundle attaches is the tip of the relay, and not the fee that the gate has set aside. The plan is
paid for because the one is no more than the other (`Plan.relayTip_le_arbitrageFee`).
-/

import Searcher.Attack.Plan

namespace Searcher

/-- What is kept of a number in 256 bits is no more than the number. -/
theorem wrap_le (n : Nat) : wrap n ≤ n := Nat.mod_le ..

namespace Gate

variable {revenue gas frontGas backGas price block fee : Nat} {victim : Transaction} {next : NextBlock}

/-- A price that stops at 128 bits is no higher than the price. -/
theorem capPrice_le (price : Nat) : capPrice price ≤ price := Nat.min_le_left ..

/-- The margin of one half, without the rounding. -/
theorem safetyCost_lt_iff {n : Nat} : safetyCost gas price < n ↔ 3 * gas * price < 2 * n := by
  rw [safetyCost, Nat.div_lt_iff_lt_mul (by decide), Nat.mul_comm n 2, Nat.mul_comm (gas * price), Nat.mul_assoc]

/-- The ceiling is the price at which thirty parts of the gas cost eighteen parts of what is available, rounded down.
The high bits that the product loses lower it further. -/
theorem mul_ceilingPrice_le (available gas : Nat) : 30 * gas * ceilingPrice available gas ≤ 18 * available := by
  calc 30 * gas * ceilingPrice available gas
      ≤ wrap (available * 18) := Nat.mul_div_le ..
    _ ≤ 18 * available := by rw [Nat.mul_comm 18]; exact wrap_le _

/-- Gas at the ceiling takes nine tenths of what is available, with the margin. -/
theorem mul_capPrice_le (available gas : Nat) : 3 * gas * capPrice (ceilingPrice available gas) ≤ 2 * available := by
  have hcap := Nat.mul_le_mul_left (30 * gas) (capPrice_le (ceilingPrice available gas))
  have hceiling := mul_ceilingPrice_le available gas
  have hsplit : 30 * gas * capPrice (ceilingPrice available gas) =
      10 * (3 * gas * capPrice (ceilingPrice available gas)) := by
    rw [← Nat.mul_assoc, ← Nat.mul_assoc]
  omega

/-- **The cost of a bundle stays within the revenue.** -/
theorem safetyCost_ceilingPrice_le (gas : Nat) (hfee : fee ≤ revenue) :
    safetyCost gas (capPrice (ceilingPrice (revenue - fee) gas)) + fee ≤ revenue := by
  have hcost := mul_capPrice_le (revenue - fee) gas
  have := (safetyCost_lt_iff (n := revenue - fee + 1)).2 (Nat.lt_of_le_of_lt hcost (by omega))
  omega

/-- **The last check refuses nothing:** where the relay reaches the next block, the gate decides as one without it. -/
theorem arbitrage_relayed (revenue gas : Nat) (victim : Transaction) (block : Nat) :
    arbitrage revenue gas victim (.relayed block) =
      let high := ceilingPrice (revenue - arbitrageFee) gas
      if gas = 0 then .reject .noGasEstimate
      else if revenue ≤ safetyCost gas victim.effectiveGasPrice then
        .reject (.gasPrice revenue victim.effectiveGasPrice)
      else if revenue ≤ arbitrageFee then .reject (.bundleFee revenue)
      else if high < floorPrice victim.gas gas then .reject (.emptyWindow (floorPrice victim.gas gas) high)
      else .bundle (capPrice high) block arbitrageFee := by
  by_cases hfee : revenue ≤ arbitrageFee
  · simp only [arbitrage, hfee, if_true]
  · have hcost := safetyCost_ceilingPrice_le gas (Nat.le_of_not_le hfee)
    simp only [arbitrage, if_neg (Nat.not_lt.2 hcost)]

/-- No arbitrage is refused for the cost of its bundle, whatever its victim and the next block are. -/
theorem arbitrage_ne_bundleCost : arbitrage revenue gas victim next ≠ .reject .bundleCost := by
  intro h
  cases next with
  | relayed block =>
    rw [arbitrage_relayed] at h
    dsimp only at h
    repeat' split at h
    all_goals cases h
  | _ =>
    simp only [arbitrage] at h
    repeat' split at h
    all_goals cases h

/-- Alone, an arbitrage is sent only if the victim's gas price pays. -/
theorem arbitrage_eq_single (h : arbitrage revenue gas victim next = .single price) :
    safetyCost gas price < revenue := by
  cases next with
  | unknown =>
    simp only [arbitrage] at h
    split at h
    · cases h
    · split at h
      · cases h
      · rename_i hcost
        obtain rfl := Decision.single.inj h
        exact Nat.lt_of_not_le hcost
  | club =>
    simp only [arbitrage] at h
    repeat' split at h
    all_goals cases h
  | relayed block =>
    rw [arbitrage_relayed] at h
    dsimp only at h
    repeat' split at h
    all_goals cases h

/-- In a bundle, an arbitrage is sent only if the revenue covers the fee, at the highest price that pays. -/
theorem arbitrage_eq_bundle (h : arbitrage revenue gas victim next = .bundle price block fee) :
    arbitrageFee < revenue ∧ price = capPrice (ceilingPrice (revenue - arbitrageFee) gas) := by
  cases next with
  | relayed number =>
    rw [arbitrage_relayed] at h
    dsimp only at h
    repeat' split at h
    any_goals cases h
    rename_i hfee _
    exact ⟨Nat.lt_of_not_le hfee, rfl⟩
  | _ =>
    simp only [arbitrage] at h
    repeat' split at h
    all_goals cases h

/-- A sandwich is sent only if its gas leaves something, of which the relay takes its share. -/
theorem sandwich_eq_bundle (h : sandwich revenue frontGas backGas victim next = .bundle price block fee) :
    gwei * frontGas + floorPrice victim.gas backGas * backGas < revenue ∧
      price = capPrice (floorPrice victim.gas backGas) ∧
      fee = sandwichFee (revenue - (gwei * frontGas + floorPrice victim.gas backGas * backGas)) := by
  cases next with
  | relayed number =>
    simp only [sandwich] at h
    repeat' split at h
    any_goals cases h
    rename_i hcost _
    exact ⟨Nat.lt_of_not_le hcost, rfl, rfl⟩
  | _ => cases h

/-- The relay's share of a profit is no more than the profit, wrapped product included. -/
theorem sandwichFee_le (profit : Nat) : sandwichFee profit ≤ profit := by
  have hwrap := wrap_le (profit * 98)
  unfold sandwichFee
  omega

/-- **Gas and fee of a sandwich stay within the revenue.** -/
theorem sandwich_spends_le (h : sandwich revenue frontGas backGas victim next = .bundle price block fee) :
    frontGas * gwei + backGas * price + fee ≤ revenue := by
  obtain ⟨hcost, rfl, rfl⟩ := sandwich_eq_bundle h
  have hprice := Nat.mul_le_mul_right backGas (capPrice_le (floorPrice victim.gas backGas))
  have hshare := sandwichFee_le (revenue - (gwei * frontGas + floorPrice victim.gas backGas * backGas))
  rw [Nat.mul_comm frontGas, Nat.mul_comm backGas]
  omega

end Gate

namespace Plan

/-- The tip that a plan attaches is covered by the fee that the gate has set aside. They are two constants; a higher tip
would have to be set aside as well. -/
theorem relayTip_le_arbitrageFee : relayTip ≤ Gate.arbitrageFee := Nat.le_refl _

/-- **Every planned attack is affordable,** whatever the revenue, the victim and the next block are. An arbitrage is
never refused for the cost of its bundle. It attaches no more than the revenue, and what is left pays for the gas it
used at the price it offers, with a margin of one half. The gas of both transactions of a sandwich and the fee that the
back run carries are together no more than the revenue. -/
theorem affordable (revenue : Nat) (victim : Transaction) (next : NextBlock) (contract : Address) :
    (∀ gas, Gate.arbitrage revenue gas victim next ≠ .reject .bundleCost) ∧
      (∀ (attack : Arbitrage) (tx : PlannedTx),
        arbitrage attack contract (Gate.arbitrage revenue attack.gas victim next) = some tx →
          tx.value ≤ revenue ∧ 3 * attack.gas * tx.gasPrice ≤ 2 * (revenue - tx.value)) ∧
      (∀ (attack : SandwichAttack) (front back : PlannedTx),
        sandwich attack contract
            (Gate.sandwich revenue attack.trial.frontGas attack.trial.backGas victim next) = some (front, back) →
          attack.trial.frontGas * front.gasPrice + attack.trial.backGas * back.gasPrice + back.value ≤ revenue) := by
  refine ⟨fun gas => Gate.arbitrage_ne_bundleCost, fun attack tx h => ?_, fun attack front back h => ?_⟩
  · rcases hd : Gate.arbitrage revenue attack.gas victim next with reason | price | ⟨price, block, fee⟩ <;>
      rw [hd] at h
    · cases h
    · obtain rfl := Option.some.inj h
      exact ⟨Nat.zero_le _, Nat.le_of_lt (Gate.safetyCost_lt_iff.1 (Gate.arbitrage_eq_single hd))⟩
    · obtain rfl := Option.some.inj h
      obtain ⟨hfee, rfl⟩ := Gate.arbitrage_eq_bundle hd
      have htip := relayTip_le_arbitrageFee
      refine ⟨Nat.le_trans htip (Nat.le_of_lt hfee), ?_⟩
      -- what the tip leaves is no less than what the gate has counted on
      exact Nat.le_trans (Gate.mul_capPrice_le ..) (Nat.mul_le_mul_left 2 (Nat.sub_le_sub_left htip revenue))
  · rcases hd : Gate.sandwich revenue attack.trial.frontGas attack.trial.backGas victim next with
      reason | price | ⟨price, block, fee⟩ <;> rw [hd] at h
    · cases h
    · cases h
    · obtain ⟨rfl, rfl⟩ := Prod.mk.inj (Option.some.inj h)
      exact Gate.sandwich_spends_le hd

/-- A victim behind which a bundle can go out. -/
def meekVictim : Transaction :=
  { hash := .ofNat 1, gas := 300000, gasPrice := some (3 * 10 ^ 9), caller := .ofNat 2 }

/-- One hundredth of the native token, in a block that the relay reaches: the arbitrage attaches the fee and offers 28.8
gwei; the sandwich offers one and four gwei, and its back run carries nearly all that this leaves. -/
theorem affordable_one_hundredth :
    let attack : Arbitrage := ⟨.arbitrageRelayed, [], {}, 10 ^ 16, 200000⟩
    let around : SandwichAttack := ⟨.frontRun, [], .backRunRelayed, [], {}, ⟨10, 20, 100000, 100000, 0⟩, 10 ^ 16⟩
    arbitrage attack (.ofNat 3) (Gate.arbitrage (10 ^ 16) 200000 meekVictim (.relayed 7)) =
        some ⟨.ofNat 3, [], 400000000000000, 400000, 28800000000⟩ ∧
      400000000000000 ≤ 10 ^ 16 ∧ 3 * 200000 * 28800000000 ≤ 2 * (10 ^ 16 - 400000000000000) ∧
      sandwich around (.ofNat 3) (Gate.sandwich (10 ^ 16) 100000 100000 meekVictim (.relayed 7)) =
        some (⟨.ofNat 3, [], 0, 110000, 1000000000⟩, ⟨.ofNat 3, [], 9310000000000000, 200000, 4000000000⟩) ∧
      100000 * 1000000000 + 100000 * 4000000000 + 9310000000000000 ≤ 10 ^ 16 := by
  intro attack around
  have hattack : arbitrage attack (.ofNat 3) (Gate.arbitrage (10 ^ 16) 200000 meekVictim (.relayed 7)) =
      some ⟨.ofNat 3, [], 400000000000000, 400000, 28800000000⟩ := by decide +kernel
  have haround : sandwich around (.ofNat 3) (Gate.sandwich (10 ^ 16) 100000 100000 meekVictim (.relayed 7)) =
      some (⟨.ofNat 3, [], 0, 110000, 1000000000⟩, ⟨.ofNat 3, [], 9310000000000000, 200000, 4000000000⟩) := by
    decide +kernel
  obtain ⟨-, harbitrage, hsandwich⟩ := affordable (10 ^ 16) meekVictim (.relayed 7) (.ofNat 3)
  obtain ⟨hvalue, hgas⟩ := harbitrage attack _ hattack
  exact ⟨hattack, hvalue, hgas, haround, hsandwich around _ _ haround⟩

end Plan
end Searcher

/-
# Decisions

An attack is sent only if its revenue pays for its gas, with a margin of one half. How it is sent depends on who builds
the next block:

| next block | arbitrage | sandwich |
| --- | --- | --- |
| unknown | alone, at the victim's gas price | not at all |
| open only to the club | not at all | not at all |
| reached by the relay | in a bundle, with a fee | in a bundle, with a fee |

A bundle must be worth including, so its gas price has a floor: the gas of the whole bundle at one gwei, spread over
the gas of the attack.
-/

import Searcher.Attack.Function
import Searcher.Checked
import Searcher.Transaction

namespace Searcher

/-- Who builds the next block, as far as it matters to an attack. -/
inductive NextBlock where
  | unknown
  /-- The builder takes bundles of its club only. -/
  | club
  /-- The relay reaches the builder of the block with this number. -/
  | relayed (number : Nat)
deriving DecidableEq, Repr

namespace NextBlock

/-- Reads the accessible block: its number, or zero for none, or a negative number for the club. -/
def ofInt : Int → NextBlock
  | .ofNat 0 => unknown
  | .ofNat n => relayed n
  | .negSucc _ => club

/-- The accessible block as a number. -/
def toInt : NextBlock → Int
  | unknown => 0
  | club => -1
  | relayed n => n

end NextBlock

/-- Why an attack is not sent. -/
inductive RejectReason where
  | noGasEstimate
  /-- The revenue is below the cost at the victim's gas price. -/
  | gasPrice (revenue price : Nat)
  /-- The revenue is below the cost. -/
  | gasCost (revenue cost : Nat)
  | club
  | unknownBlock
  /-- The revenue is below the fee of a bundle. -/
  | bundleFee (revenue : Nat)
  /-- No gas price pays and is worth including. -/
  | emptyWindow (low high : Nat)
  | bundleCost
  /-- What is left for the fee is too little. -/
  | smallFee (fee : Nat)
  /-- A reason that someone else gave. -/
  | stated (text : String)
deriving DecidableEq, Repr

/-- The reason for people. -/
def RejectReason.message : RejectReason → String
  | noGasEstimate => "no gas estimate"
  | gasPrice revenue price => "revenue " ++ toString revenue ++ " does not cover gas at " ++ toString price
  | gasCost revenue cost => "revenue " ++ toString revenue ++ " does not cover gas " ++ toString cost
  | club => "next validator only accepts club bundles"
  | unknownBlock => "next validator unknown"
  | bundleFee revenue => "revenue " ++ toString revenue ++ " below bundle fee"
  | emptyWindow low high => "gas price window empty: min " ++ toString low ++ " max " ++ toString high
  | bundleCost => "bundle cost exceeds revenue"
  | smallFee fee => "bundle fee " ++ toString fee ++ " too small"
  | stated text => text

/-- How an attack is sent. -/
inductive Decision where
  | reject (reason : RejectReason)
  /-- Alone, at a gas price. -/
  | single (gasPrice : Nat)
  /-- In a bundle for a block, at a gas price, with a fee for the relay. -/
  | bundle (gasPrice targetBlock fee : Nat)
deriving DecidableEq, Repr

namespace Decision

/-- Whether the attack is not sent at all. -/
def isReject : Decision → Bool
  | reject _ => true
  | _ => false

/-- The function of an arbitrage that is sent so. -/
def arbitrageFunction : Decision → Option AttackFunction
  | reject _ => none
  | single _ => some .arbitrage
  | bundle .. => some .arbitrageRelayed

end Decision

namespace Gate

/-- The fee of an arbitrage bundle, which the gate sets aside from the revenue. -/
def arbitrageFee : Nat := 4 * 10 ^ 14

/-- A billionth of the native coin, in which gas prices are told. -/
def gwei : Nat := 10 ^ 9

/-- Gas prices are numbers of 128 bits; a higher one stops there. -/
def capPrice (price : Nat) : Nat := min price (2 ^ 128 - 1)

/-- What gas costs, with a margin of one half. -/
def safetyCost (gas price : Nat) : Nat := gas * price * 3 / 2

/-- The price at which `gas` pays one gwei for its own and the victim's gas. -/
def floorPrice (victimGas gas : Nat) : Nat := (victimGas + gas) * gwei / gas

/-- Three fifths of the price at which `gas`, with its margin, uses up `available`. -/
def ceilingPrice (available gas : Nat) : Nat := wrap (available * 18) / (30 * gas)

/-- How an arbitrage behind a victim is sent. -/
def arbitrage (revenue gas : Nat) (victim : Transaction) (next : NextBlock) : Decision :=
  let price := victim.effectiveGasPrice
  if gas = 0 then .reject .noGasEstimate
  else if revenue ≤ safetyCost gas price then .reject (.gasPrice revenue price)
  else match next with
    | .unknown => .single price
    | .club => .reject .club
    | .relayed block =>
      if revenue ≤ arbitrageFee then .reject (.bundleFee revenue)
      else
        let low := floorPrice victim.gas gas
        let high := ceilingPrice (revenue - arbitrageFee) gas
        if high < low then .reject (.emptyWindow low high)
        else if revenue < safetyCost gas (capPrice high) + arbitrageFee then .reject .bundleCost
        else .bundle (capPrice high) block arbitrageFee

/-- Ninety-eight hundredths of the profit. -/
def sandwichFee (profit : Nat) : Nat := wrap (profit * 98) / 100

/-- How a sandwich around a victim is sent. -/
def sandwich (revenue frontGas backGas : Nat) (victim : Transaction) (next : NextBlock) : Decision :=
  match next with
  | .unknown => .reject .unknownBlock
  | .club => .reject .club
  | .relayed block =>
    if frontGas = 0 ∨ backGas = 0 then .reject .noGasEstimate
    else
      let price := floorPrice victim.gas backGas
      let cost := gwei * frontGas + price * backGas
      if revenue ≤ cost then .reject (.gasCost revenue cost)
      else
        let fee := sandwichFee (revenue - cost)
        if fee < gwei then .reject (.smallFee fee) else .bundle (capPrice price) block fee

end Gate
end Searcher

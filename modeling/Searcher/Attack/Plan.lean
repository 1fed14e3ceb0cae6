/-
# Planned transactions

From an attack and the decision about it to the transactions that the attacker signs.

| transaction | value | gas limit | gas price |
| --- | --- | --- | --- |
| arbitrage, alone | none | twice the gas used | as decided |
| arbitrage, in a bundle | the tip of the relay | twice the gas used | as decided |
| front run | none | eleven tenths of the gas used | one gwei |
| back run | the fee of the bundle | twice the gas used | as decided |
-/

import Searcher.Attack.Gate
import Searcher.Simulation.SizeSearch

namespace Searcher

/-- An arbitrage that can be sent. -/
structure Arbitrage where
  function : AttackFunction
  callData : Bytes
  path : Path
  revenue : Nat
  gas : Nat

/-- A sandwich that can be sent. -/
structure SandwichAttack where
  front : AttackFunction
  frontData : Bytes
  back : AttackFunction
  backData : Bytes
  path : Path
  trial : SandwichTrial
  revenue : Nat

/-- A transaction to sign. -/
structure PlannedTx where
  receiver : Address
  callData : Bytes
  value : Nat
  gasLimit : Nat
  gasPrice : Nat
deriving DecidableEq, Inhabited

/-- The arbitrage of an amount along a path. -/
def Arbitrage.make (path : Path) (amountIn revenue gas : Nat) (function : AttackFunction) : Arbitrage :=
  ⟨function, function.callData amountIn path, path, revenue, gas⟩

/-- The sandwich of a trial along a path. -/
def SandwichAttack.make (path : Path) (trial : SandwichTrial) (revenue : Nat) (front back : AttackFunction) :
    SandwichAttack :=
  ⟨front, front.callData trial.frontAmount path, back, back.callData trial.backAmount path, path, trial, revenue⟩

/-- The gas that both transactions used. -/
def SandwichAttack.gas (a : SandwichAttack) : Nat := a.trial.frontGas + a.trial.backGas

namespace Plan

/-- Gas limits are numbers of 64 bits; a higher one stops there. -/
def capGas (gas : Nat) : Nat := min gas (2 ^ 64 - 1)

/-- What an arbitrage in a bundle pays to the relay. -/
def relayTip : Nat := 4 * 10 ^ 14

/-- The transaction of an arbitrage, if it is sent. -/
def arbitrage (attack : Arbitrage) (contract : Address) (decision : Decision) : Option PlannedTx :=
  let plan (price value : Nat) : PlannedTx := ⟨contract, attack.callData, value, capGas (attack.gas * 2), price⟩
  match decision with
  | .reject _ => none
  | .single price => some (plan price 0)
  | .bundle price _ _ => some (plan price relayTip)

/-- The transactions in front of and behind the victim, if the sandwich is sent. -/
def sandwich (attack : SandwichAttack) (contract : Address) (decision : Decision) : Option (PlannedTx × PlannedTx) :=
  match decision with
  | .bundle price _ fee =>
    some (⟨contract, attack.frontData, 0, capGas (attack.trial.frontGas * 11) / 10, Gate.gwei⟩,
      ⟨contract, attack.backData, fee, capGas (attack.trial.backGas * 2), price⟩)
  | _ => none

end Plan
end Searcher

/-
# The attacker contract

Attacks run through a contract of the attacker. Each of its functions takes an amount and the three lists of a path;
some take a number before or more behind. A function that is relayed pays the relay from the value it is called with.
-/

import Searcher.Abi
import Searcher.Path

namespace Searcher

/-- A function of the attacker contract, with the arguments that are not the amount or the path. -/
inductive AttackFunction where
  /-- Trades along a cycle and pays the relay. -/
  | arbitrageRelayed
  /-- Trades along a cycle. -/
  | arbitrage
  /-- Buys in front of the victim. -/
  | frontRun
  /-- Buys in front of the victim if the pool holds what was planned. -/
  | frontRunChecked (amountOut poolBalance : Nat)
  /-- Sells behind the victim. -/
  | backRun
  /-- Sells behind the victim and pays the relay. -/
  | backRunRelayed
  /-- Sells behind the victim in one block only. -/
  | backRunChecked (block : Nat)
deriving DecidableEq, Repr

namespace AttackFunction

/-- The name of the function. -/
def name : AttackFunction → String
  | arbitrageRelayed => "multiHopArbitrageWithBloxroute"
  | arbitrage => "multiHopArbitrageWithoutRelay"
  | frontRun => "sandwichFrontRun"
  | frontRunChecked _ _ => "sandwichFrontRunDifficult"
  | backRun => "sandwichBackRun"
  | backRunRelayed => "sandwichBackRunWithBloxroute"
  | backRunChecked _ => "sandwichBackRunDifficult"

/-- Whether the function starts along a path at a given hop. -/
def takesStart : AttackFunction → Bool
  | arbitrageRelayed | arbitrage => true
  | _ => false

/-- The arguments behind those of the path. -/
def guards : AttackFunction → List Nat
  | frontRunChecked amountOut poolBalance => [amountOut, poolBalance]
  | backRunChecked block => [block]
  | _ => []

/-- The signature: name and types of the arguments. -/
def signature (f : AttackFunction) : String :=
  f.name ++ (if f.takesStart then "(uint8,uint256" else "(uint256") ++ ",uint8[],address[],address[]" ++
    String.join (f.guards.map fun _ => ",uint256") ++ ")"

/-- The arguments for an amount and a path. -/
def arguments (f : AttackFunction) (amountIn : Nat) (path : Path) : List Abi.Value :=
  (if f.takesStart then [.word 0] else []) ++
    [.word amountIn, .array path.exchanges, .array (path.pools.map Address.toNat),
      .array (path.tokens.map Address.toNat)] ++ f.guards.map .word

/-- The call data for an amount and a path. -/
def callData (f : AttackFunction) (amountIn : Nat) (path : Path) : Bytes :=
  Abi.callData f.signature (f.arguments amountIn path)

end AttackFunction
end Searcher

/-
# Base pools

A metapool trades shares of a base pool. What it needs of that pool is how many shares a deposit is worth, what a
withdrawal of shares in one coin pays, and swaps between two coins of the base.
-/

import Searcher.Curve.Info
import Searcher.Curve.Invariant

namespace Searcher
namespace Curve

/-- The state of a base pool. -/
structure BasePool where
  info : Info
  amp : Nat
  /-- In units of `e10`. -/
  fee : Nat
  balances : List Nat
  shareSupply : Nat
deriving DecidableEq, Inhabited

namespace BasePool

/-- The precision of a coin of the base pool, or the limit that its absence breaks. -/
def precision (p : BasePool) (i : Nat) : Quote Nat :=
  match p.info.precisions[i]? with
  | some m => .ok m
  | none => .error (.outOfBounds .basePoolPrecision)

/-- Balances multiplied by the precisions of their coins. -/
def scaled (p : BasePool) (balances : List Nat) : Quote (List Nat) :=
  balances.zipIdx.mapM fun (balance, i) => do Checked.mul (← p.precision i) balance

/-- The balances after a deposit or a withdrawal of `amounts`. -/
def changed (balances amounts : List Nat) (deposit : Bool) : Quote (List Nat) :=
  balances.zipIdx.mapM fun (balance, i) =>
    match amounts[i]? with
    | some amount => if deposit then Checked.add balance amount else Checked.sub balance amount
    | none => .ok balance

/-- The invariant of given balances. -/
def invariantOf (p : BasePool) (balances : List Nat) : Quote Nat := do
  StableSwap.invariant (← p.scaled balances) p.amp 1 false

/-- The shares that a deposit of `amounts` mints, or a withdrawal burns, fees aside. -/
def shares (p : BasePool) (amounts : List Nat) (deposit : Bool) : Quote Nat := do
  let d0 ← p.invariantOf p.balances
  let d1 ← p.invariantOf (← changed p.balances amounts deposit)
  let difference ← if deposit then Checked.sub d1 d0 else Checked.sub d0 d1
  Checked.div (← Checked.mul difference p.shareSupply) d0

/-- What a withdrawal in one coin pays, and the fee in it. -/
structure Withdrawal where
  paid : Nat
  fee : Nat
deriving DecidableEq, Repr

/-- The balances from which a withdrawal of coin `i` down to `newBalance` is paid: each is reduced by the fee on what
it differs from its share of the invariant `d1`. -/
def reduced (xs : List Nat) (i newBalance fee d0 d1 : Nat) : Quote (List Nat) :=
  xs.zipIdx.mapM fun (x, j) => do
    let expected ← if j = i then
        Checked.sub (← Checked.div (← Checked.mul x d1) d0) newBalance
      else
        Checked.sub x (← Checked.div (← Checked.mul x d1) d0)
    Checked.sub x (← StableSwap.feeOf fee expected)

/-- What burning `amount` shares pays in coin `i`. -/
def withdraw (p : BasePool) (amount i : Nat) : Quote Withdrawal := do
  let n := p.balances.length
  if n ≤ i ∨ n < 2 then throw (.outOfBounds .basePoolCoin)
  let fee ← Checked.div (← Checked.mul p.fee n) (← Checked.mul 4 (← Checked.sub n 1))
  let xs ← p.scaled p.balances
  let d0 ← StableSwap.invariant xs p.amp 1 false
  let d1 ← Checked.sub d0 (← Checked.div (← Checked.mul amount d0) p.shareSupply)
  let newBalance ← StableSwap.balanceOf p.amp i xs d1
  let precision ← p.precision i
  let whole ← Checked.div (← Checked.sub (xs.getD i 0) newBalance) precision
  let ys ← reduced xs i newBalance fee d0 d1
  let out ← Checked.sub (ys.getD i 0) (← StableSwap.balanceOf p.amp i ys d1)
  let paid ← Checked.div (← Checked.sub out 1) precision
  return ⟨paid, ← Checked.sub whole paid⟩

/-- What `amountIn` of coin `i` pays in coin `j`. -/
def swap (p : BasePool) (i j amountIn : Nat) : Quote Nat := do
  let n := p.balances.length
  if i = j ∨ n ≤ i ∨ n ≤ j then throw (.outOfBounds .baseCoin)
  let rates ← (List.range n).mapM fun k => do Checked.mul (← p.precision k) e18
  let xs ← (p.balances.zip rates).mapM fun (balance, rate) => do Checked.div (← Checked.mul balance rate) e18
  let x ← Checked.add (xs.getD i 0) (← Checked.div (← Checked.mul amountIn (rates.getD i 0)) e18)
  let y ← StableSwap.balance p.amp i j x xs 1 false
  let out ← Checked.sub (← Checked.sub (xs.getD j 0) y) p.info.roundingUnit
  let out ← Checked.div (← Checked.mul out e18) (rates.getD j 0)
  StableSwap.afterFee p.fee out

end BasePool
end Curve
end Searcher

/-
# Errors of numbers

A price formula fails because of the numbers in it: an overflow, a division by zero, a value outside its limits, an
iteration that does not end. Reading state fails in other ways: a pool or a tick word that was not loaded, a node that
does not answer. `Quote.numeric` takes an error of the second kind for an overflow, so that a computation is its own
`numeric` exactly when it only ever fails because of its numbers (`numeric_eq_self_iff`).

`numeric` goes through every way to put computations together, down to the checked operations, where it vanishes. So
for a formula made of them `simp` closes the equation.
-/

import Searcher.ConstantProduct
import Searcher.Concentrated.Quote
import Searcher.Curve.Newton

namespace Searcher

/-- The error as one of numbers. -/
@[simp] def QuoteError.numeric : QuoteError → QuoteError
  | unsupportedPair _ _ => overflow
  | fetch _ => overflow
  | unknownPool _ => overflow
  | missingTickWord _ _ => overflow
  | e => e

namespace Quote

variable {α β : Type}

/-- The outcome with its error as one of numbers. -/
def numeric (q : Quote α) : Quote α := q.mapError QuoteError.numeric

/-- **What `numeric` is for:** a computation is its own `numeric` exactly if every error of it is one of numbers. -/
theorem numeric_eq_self_iff {q : Quote α} : numeric q = q ↔ ∀ e, q = .error e → e.numeric = e := by
  cases q with
  | ok a => exact iff_of_true rfl fun e h => nomatch h
  | error e =>
    constructor
    · intro h e' he
      obtain rfl := Except.error.inj he
      exact Except.error.inj h
    · intro h
      exact congrArg Except.error (h e rfl)

/-- A computation succeeds if its value is all that is kept of it. -/
theorem eq_ok_of_toOption {q : Quote α} {a : α} (h : q.toOption = some a) : q = .ok a := by
  cases q with
  | ok b => exact congrArg _ (Option.some.inj h)
  | error e => cases h

/-- A value has no error to change. -/
@[simp] theorem numeric_ok (a : α) : numeric (.ok a) = .ok a := rfl

/-- The same of a value that is returned. -/
@[simp] theorem numeric_pure (a : α) : numeric (pure a) = pure a := rfl

/-- An error becomes one of numbers. -/
@[simp] theorem numeric_error (e : QuoteError) : numeric (.error e : Quote α) = .error e.numeric := rfl

/-- The same of an error that is thrown. -/
@[simp] theorem numeric_throw (e : QuoteError) : numeric (throw e : Quote α) = throw e.numeric := rfl

/-- Two computations in a row are numeric where both are. -/
@[simp] theorem numeric_bind (q : Quote α) (f : α → Quote β) :
    numeric (q >>= f) = numeric q >>= fun a => numeric (f a) := by
  cases q <;> rfl

/-- A value that is mapped adds no error. -/
@[simp] theorem numeric_map (f : α → β) (q : Quote α) : numeric (f <$> q) = f <$> numeric q := by
  cases q <;> rfl

/-- Both branches of a choice count, since the condition may go either way. -/
@[simp] theorem numeric_ite (c : Prop) [Decidable c] (q r : Quote α) :
    numeric (if c then q else r) = if c then numeric q else numeric r := apply_ite ..

/-- A list of computations, one for each member. -/
@[simp] theorem numeric_mapM (f : α → Quote β) (xs : List α) :
    numeric (xs.mapM f) = xs.mapM fun a => numeric (f a) := by
  induction xs with
  | nil => rfl
  | cons x xs ih => simp [List.mapM_cons, ih]

/-- A row of computations, each starting from the value of the one before. -/
@[simp] theorem numeric_foldlM (f : β → α → Quote β) (b : β) (xs : List α) :
    numeric (xs.foldlM f b) = xs.foldlM (fun b a => numeric (f b a)) b := by
  induction xs generalizing b with
  | nil => rfl
  | cons x xs ih => simp [List.foldlM_cons, ih]

/-- A row of checks. -/
@[simp] theorem numeric_forM (f : α → Quote PUnit) (xs : List α) :
    numeric (forM xs f) = forM xs fun a => numeric (f a) := by
  induction xs with
  | nil => rfl
  | cons x xs ih => simp [List.forM_cons, ih]

end Quote

open Quote

namespace Checked

variable (a b c : Nat)

/-- What fits or overflows reads nothing. All checked operations come down to it and to the ones of their own error.
-/
@[simp] theorem numeric_fit : numeric (fit a) = fit a := by simp [fit]

/-- A sum may overflow, which is an error of numbers. -/
@[simp] theorem numeric_add : numeric (add a b) = add a b := numeric_fit _

/-- A difference may be out of bounds, which is one too. -/
@[simp] theorem numeric_sub : numeric (sub a b) = sub a b := by simp [sub]

/-- A product may overflow. -/
@[simp] theorem numeric_mul : numeric (mul a b) = mul a b := numeric_fit _

/-- A quotient may have a zero divisor. -/
@[simp] theorem numeric_div : numeric (div a b) = div a b := by simp [div]

/-- A product that is divided at once may do either. -/
@[simp] theorem numeric_fullMulDiv : numeric (fullMulDiv a b c) = fullMulDiv a b c := by simp [fullMulDiv]

/-- So may one that is rounded up. -/
@[simp] theorem numeric_fullMulDivUp : numeric (fullMulDivUp a b c) = fullMulDivUp a b c := by simp [fullMulDivUp]

/-- A quotient rounded up may have a zero divisor. -/
@[simp] theorem numeric_divUp : numeric (divUp a b) = divUp a b := by simp [divUp]

end Checked

/-- The price formula of a pair is made of checked operations. -/
@[simp] theorem ConstantProduct.numeric_amountOut (amountIn reserveIn reserveOut : Nat) (fee : Fee) :
    numeric (amountOut amountIn reserveIn reserveOut fee) = amountOut amountIn reserveIn reserveOut fee := by
  simp [amountOut]

namespace Newton

/-- An iteration is numeric if every round is. Its own error, of rounds that run out, is one of numbers. -/
@[simp] theorem numeric_iterateFor (round : Nat → Quote Round) (rounds y : Nat) :
    numeric (iterateFor round rounds y) = iterateFor (fun y => numeric (round y)) rounds y := by
  induction rounds generalizing y with
  | zero => rfl
  | succ rounds ih =>
    simp only [iterateFor, numeric_bind]
    congr 1
    funext r
    cases r with
    | again y => exact ih y
    | done y => rfl

/-- The same with the number of rounds that all iterations share. -/
@[simp] theorem numeric_iterate (round : Nat → Quote Round) (y : Nat) :
    numeric (iterate round y) = iterate (fun y => numeric (round y)) y := numeric_iterateFor ..

/-- An iteration up to closeness is one whose rounds are numeric with the step. -/
@[simp] theorem numeric_settle (next : Nat → Quote Nat) (y : Nat) :
    numeric (settle next y) = settle (fun y => numeric (next y)) y := by
  simp only [settle, numeric_iterate]
  congr 1
  funext y
  simp [closeRound]

end Newton

namespace Concentrated

/-- The amount of the first token between two prices is a quotient of checked products. -/
@[simp] theorem numeric_amount0 (a b liquidity : Nat) (up : Bool) :
    numeric (amount0 a b liquidity up) = amount0 a b liquidity up := by
  simp [amount0]

/-- That of the second token is one as well. -/
@[simp] theorem numeric_amount1 (a b liquidity : Nat) (up : Bool) :
    numeric (amount1 a b liquidity up) = amount1 a b liquidity up := by
  simp [amount1]

/-- The price after an amount of either token is such a quotient. -/
@[simp] theorem numeric_sqrtPriceAfter (root liquidity amountIn : Nat) (zeroForOne : Bool) :
    numeric (sqrtPriceAfter root liquidity amountIn zeroForOne) =
      sqrtPriceAfter root liquidity amountIn zeroForOne := by
  simp [sqrtPriceAfter, sqrtPriceAfter0, sqrtPriceAfter1]

/-- What a step takes is one of the two amounts, rounded up. -/
@[simp] theorem numeric_taken (zeroForOne : Bool) (a b liquidity : Nat) :
    numeric (taken zeroForOne a b liquidity) = taken zeroForOne a b liquidity := by
  simp [taken]

/-- What it pays is the other one, rounded down. -/
@[simp] theorem numeric_paid (zeroForOne : Bool) (a b liquidity : Nat) :
    numeric (paid zeroForOne a b liquidity) = paid zeroForOne a b liquidity := by
  simp [paid]

/-- So one step within a range of ticks is numeric. -/
@[simp] theorem numeric_step (current target liquidity remaining feePips : Nat) :
    numeric (step current target liquidity remaining feePips) = step current target liquidity remaining feePips := by
  simp [step]

/-- Liquidity that would be negative or too large is an error of numbers. -/
@[simp] theorem numeric_addLiquidity (liquidity : Nat) (change : Int) :
    numeric (addLiquidity liquidity change) = addLiquidity liquidity change := by
  simp [addLiquidity]

end Concentrated

namespace Tick

/-- A tick out of range has no price. The error is one of numbers. -/
@[simp] theorem numeric_sqrtPrice (tick : Int) : numeric (sqrtPrice tick) = sqrtPrice tick := by
  simp [sqrtPrice]

/-- So has a price out of range no tick. -/
@[simp] theorem numeric_ofSqrtPrice (root : Nat) : numeric (ofSqrtPrice root) = ofSqrtPrice root := by
  simp [ofSqrtPrice]

end Tick
end Searcher

/-
# What a chain of checked operations finds

A formula made of checked operations finds one value, and it finds it where every sum and product in it fits and no
divisor is zero. `Quote.Finds fits v q` says this of a computation `q`, with the value `v` and the condition `fits` in
plain natural numbers. It also says why `q` fails elsewhere: an overflow or a division by zero, and never a difference
that would be negative. So a subtraction has a rule only where it is known to be possible (`Finds.sub`).

The rules follow the shape of the formula, and the condition of the whole is that of its parts. Once they have been
put together nothing of the formula is left to unfold.
-/

import Searcher.Checked
import Mathlib.Algebra.Ring.Nat

namespace Searcher
namespace Quote

/-- The computation finds `v` where `fits` holds. Elsewhere a number in it does not fit, or a divisor is zero. -/
structure Finds {α : Type} (fits : Prop) (v : α) (q : Quote α) : Prop where
  ok : fits → q = .ok v
  error : ¬ fits → q = .error .overflow ∨ q = .error .divisionByZero

namespace Finds

variable {α β : Type} {fits fits' : Prop} {v v' : α} {w : β} {q : Quote α} {f : α → Quote β} {a b t : ℕ}

/-- A value that is there needs nothing. -/
theorem pure (v : α) : Finds True v (pure v) := ⟨fun _ => rfl, fun h => absurd trivial h⟩

/-- A result is found where it fits, and overflows elsewhere. -/
theorem fit (n : ℕ) : Finds (n < wordSize) n (Checked.fit n) := ⟨fun h => if_pos h, fun h => .inl (if_neg h)⟩

/-- A quotient is found where the divisor is not zero, and is a division by zero elsewhere. -/
theorem div (a b : ℕ) : Finds (b ≠ 0) (a / b) (Checked.div a b) :=
  ⟨fun h => if_neg h, fun h => .inr (if_pos (not_not.1 h))⟩

/-- A difference known not to be negative needs nothing. There is no other rule for differences: where one could fail,
so could the claim that only overflows and zero divisors do. -/
theorem sub (h : b ≤ a) : Finds True (a - b) (Checked.sub a b) :=
  ⟨fun _ => if_pos h, fun h => absurd trivial h⟩

/-- Of two computations in a row the second may rely on what the first needs. -/
theorem bind (hq : Finds fits v q) (hf : fits → Finds fits' w (f v)) : Finds (fits ∧ fits') w (q >>= f) := by
  constructor
  · rintro ⟨h, h'⟩
    rw [hq.ok h]
    exact (hf h).ok h'
  · intro h
    by_cases hfits : fits
    · rw [hq.ok hfits]
      exact (hf hfits).error fun h' => h ⟨hfits, h'⟩
    · rcases hq.error hfits with he | he
      · rw [he]
        exact .inl rfl
      · rw [he]
        exact .inr rfl

/-- The condition may be put in other words. -/
theorem congr (hq : Finds fits v q) (h : fits ↔ fits') : Finds fits' v q :=
  ⟨fun h' => hq.ok (h.2 h'), fun h' => hq.error fun h'' => h' (h.1 h'')⟩

/-- Where a computation finds its value, and only there, it succeeds, and with nothing else. -/
theorem eq_ok_iff (hq : Finds fits v q) : q = .ok v' ↔ fits ∧ v' = v := by
  constructor
  · intro h
    by_cases hfits : fits
    · exact ⟨hfits, Except.ok.inj (h.symm.trans (hq.ok hfits))⟩
    · rcases hq.error hfits with he | he <;> rw [he] at h <;> cases h
  · rintro ⟨hfits, rfl⟩
    exact hq.ok hfits

/-- A sum of amounts, which fits where the whole does. -/
theorem foldlM_add (xs : List ℕ) (ht : t < wordSize) :
    Finds (t + xs.sum < wordSize) (t + xs.sum) (xs.foldlM Checked.add t) := by
  induction xs generalizing t with
  | nil => exact (Finds.pure t).congr ⟨fun _ => ht, fun _ => trivial⟩
  | cons x xs ih =>
    rw [List.foldlM_cons, List.sum_cons, ← Nat.add_assoc]
    refine (Finds.bind (.fit (t + x)) fun h => ih h).congr ?_
    omega

end Finds
end Quote
end Searcher

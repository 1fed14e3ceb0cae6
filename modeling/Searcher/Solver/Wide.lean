/-
# Wide products

Products of four reserves and fees leave 512 bits. The closed forms compute with 1024 bits and give up where those are
not enough.
-/

import Searcher.Checked

namespace Searcher
namespace Wide

/-- A result that has to fit into 1024 bits. -/
def fit (n : Nat) : Option Nat := if n < 2 ^ 1024 then some n else none

/-- A sum, if it fits. -/
def add (a b : Nat) : Option Nat := fit (a + b)

/-- A product, if it fits. -/
def mul (a b : Nat) : Option Nat := fit (a * b)

/-- A difference, if it is not negative. -/
def sub (a b : Nat) : Option Nat := if b ≤ a then some (a - b) else none

/-- The value as an amount, if it is one and not zero. -/
def amount? (n : Nat) : Option Nat := if n < wordSize ∧ n ≠ 0 then some n else none

/-- The product of a row of factors, from the left. -/
def product : List Nat → Option Nat
  | [] => some 1
  | a :: rest => rest.foldlM mul a

/-- A result is found where it fits into 1024 bits, and it is the result without a limit. -/
theorem fit_eq_some {n m : Nat} : fit n = some m ↔ n < 2 ^ 1024 ∧ m = n := by
  unfold fit
  constructor
  · intro h
    split at h
    · exact ⟨‹_›, (Option.some.inj h).symm⟩
    · cases h
  · rintro ⟨h, rfl⟩
    exact if_pos h

/-- A difference is found where it is not negative. -/
theorem sub_eq_some {a b m : Nat} : sub a b = some m ↔ b ≤ a ∧ m = a - b := by
  grind [sub]

/-- A value counts as an amount where it fits into a word and is not zero. -/
theorem amount?_eq_some {n m : Nat} : amount? n = some m ↔ n < wordSize ∧ n ≠ 0 ∧ m = n := by
  grind [amount?]

/-- A product that fits is the product. -/
theorem product_eq_some {a m : Nat} {rest : List Nat} (h : product (a :: rest) = some m) :
    m = rest.foldl (· * ·) a := by
  simp only [product] at h
  induction rest generalizing a with
  | nil => exact (Option.some.inj h).symm
  | cons b rest ih =>
    rw [List.foldlM_cons, Option.bind_eq_bind, Option.bind_eq_some_iff] at h
    obtain ⟨c, hc, h⟩ := h
    obtain ⟨-, rfl⟩ := fit_eq_some.1 hc
    exact ih h

/-- The first factor is not above the product, as long as no later factor is zero. So a partial product has room where
the whole has (`product_eq`). -/
theorem le_foldl_mul {a : Nat} {rest : List Nat} (hpos : ∀ b ∈ rest, 0 < b) : a ≤ rest.foldl (· * ·) a := by
  induction rest generalizing a with
  | nil => exact Nat.le_refl a
  | cons b rest ih =>
    exact Nat.le_trans (Nat.le_mul_of_pos_right a (hpos b (by simp))) (ih fun c hc => hpos c (by simp [hc]))

/-- A product of factors that are not zero has room for its parts, if it has room. -/
theorem product_eq {a : Nat} {rest : List Nat} (hpos : ∀ b ∈ rest, 0 < b) (h : rest.foldl (· * ·) a < 2 ^ 1024) :
    product (a :: rest) = some (rest.foldl (· * ·) a) := by
  simp only [product]
  induction rest generalizing a with
  | nil => rfl
  | cons b rest ih =>
    have hrest : ∀ c ∈ rest, 0 < c := fun c hc => hpos c (by simp [hc])
    have hfirst : mul a b = some (a * b) := fit_eq_some.2 ⟨Nat.lt_of_le_of_lt (le_foldl_mul hrest) h, rfl⟩
    rw [List.foldlM_cons, hfirst]
    exact ih hrest h

end Wide
end Searcher

/-
# The balance that Newton's steps find

With `f t = t ^ 2 + (b - d) t - c` the balance of a coin is the root of `f` that is not negative. A step goes from `y`
to `(y ^ 2 + c) / (2 y + b - d)`, rounded down, and the iteration stops when a step moves by at most one.

The rounded step has two bounds on its result `z`, wherever it began:

    f z ≤ (z - y) ^ 2      and      (z + 1 - y) ^ 2 < f (z + 1)

By the second one no step leads below the root rounded down. Where the iteration stops the first one says `f z ≤ 1`:
the result is the root rounded down, or one above it if `f` is exactly one there (`solveBalance_eq_ok`).

An iteration fails in its arithmetic only, and then at a value that it has come to (`Newton.Reaches`): a step succeeds
wherever its three numbers fit and its denominator is positive (`nextBalance_eq_error`).

It does stop. After one step the value is not below the root rounded down, and from there each step at least halves
the way to the first whole number above the root (`nextBalance_halves`). A value whose square does not fit ends the
iteration with an overflow, so the way is less than `2 ^ 128`, and 130 of the 255 rounds are enough
(`solveBalance_ends`).
-/

import Searcher.Curve.Invariant
import Mathlib.Algebra.Order.Ring.Int
import Mathlib.Tactic.Linarith
import Mathlib.Tactic.Ring

namespace Searcher

/-- An operation on numbers without a result. -/
def QuoteError.IsArithmetic (e : QuoteError) : Prop :=
  e = overflow ∨ e = divisionByZero ∨ e = outOfBounds .subtraction

/-- An arithmetic error is not that of rounds which run out. -/
theorem QuoteError.IsArithmetic.ne_noConvergence {e : QuoteError} (h : e.IsArithmetic) : e ≠ noConvergence := by
  rcases h with rfl | rfl | rfl <;> exact nofun

/-- A computation that fails in its arithmetic or not at all. -/
def Quote.IsArithmetic {α : Type} (q : Quote α) : Prop :=
  ∀ e, q = .error e → e.IsArithmetic

/-- Two numbers are at most `n` apart exactly if each is within `n` of the other from above. -/
theorem absDiff_le_iff {a b n : ℕ} : absDiff a b ≤ n ↔ a ≤ b + n ∧ b ≤ a + n := by
  unfold absDiff
  split <;> omega

namespace Quote.IsArithmetic

variable {α β : Type}

/-- What does not fit overflows. -/
theorem fit (n : ℕ) : IsArithmetic (Checked.fit n) := fun _ h => .inl (Checked.fit_eq_error.1 h).2

/-- A difference that would be negative is out of bounds. -/
theorem sub (a b : ℕ) : IsArithmetic (Checked.sub a b) := fun _ h => .inr (.inr (Checked.sub_eq_error.1 h).2)

/-- A quotient has a zero divisor at worst. -/
theorem div (a b : ℕ) : IsArithmetic (Checked.div a b) := fun _ h => .inr (.inl (Checked.div_eq_error.1 h).2)

/-- Two computations in a row have arithmetic errors only if both have, whatever the first finds. -/
theorem bind {q : Quote α} {f : α → Quote β} (hq : IsArithmetic q) (hf : ∀ a, IsArithmetic (f a)) :
    IsArithmetic (q >>= f) := by
  intro e h
  rcases Checked.bind_eq_error.1 h with h | ⟨a, -, h⟩
  · exact hq e h
  · exact hf a e h

end Quote.IsArithmetic

namespace Newton

variable {next : ℕ → Quote ℕ} {rounds y z : ℕ}

/-- A round ends the iteration if the value hardly moves, and goes on from the new value otherwise. -/
theorem iterateFor_closeRound (next : ℕ → Quote ℕ) (rounds y : ℕ) :
    iterateFor (closeRound next) (rounds + 1) y =
      next y >>= fun z => if absDiff z y ≤ 1 then .ok z else iterateFor (closeRound next) rounds z := by
  rw [iterateFor, closeRound, bind_assoc]
  congr 1
  funext z
  by_cases hclose : absDiff z y ≤ 1
  · rw [pure_bind, if_pos hclose, if_pos hclose]
    rfl
  · rw [pure_bind, if_neg hclose, if_neg hclose]

/-- The iteration comes from one value to another, step by step. -/
inductive Reaches (next : ℕ → Quote ℕ) : ℕ → ℕ → Prop
  | refl (y : ℕ) : Reaches next y y
  | step {x y z : ℕ} (hnext : next y = .ok z) (rest : Reaches next z x) : Reaches next y x

/-- What an iteration finds is the result of a step that hardly moved. -/
theorem iterateFor_eq_ok (h : iterateFor (closeRound next) rounds y = .ok z) :
    ∃ x, next x = .ok z ∧ absDiff z x ≤ 1 := by
  induction rounds generalizing y with
  | zero => cases h
  | succ rounds ih =>
    rw [iterateFor_closeRound] at h
    obtain ⟨z', hnext, h⟩ := Checked.bind_eq_ok.1 h
    split at h
    · rename_i hclose
      obtain rfl := Except.ok.inj h
      exact ⟨y, hnext, hclose⟩
    · exact ih h

/-- An iteration that fails has used up its rounds, or has come to a value from which the step fails. -/
theorem iterateFor_eq_error {e : QuoteError} (h : iterateFor (closeRound next) rounds y = .error e) :
    e = .noConvergence ∨ ∃ x, Reaches next y x ∧ next x = .error e := by
  induction rounds generalizing y with
  | zero => exact .inl (Except.error.inj h).symm
  | succ rounds ih =>
    rw [iterateFor_closeRound] at h
    rcases Checked.bind_eq_error.1 h with h | ⟨z, hz, h⟩
    · exact .inr ⟨y, .refl y, h⟩
    · split at h
      · cases h
      · rcases ih h with hrounds | ⟨x, hreaches, hx⟩
        · exact .inl hrounds
        · exact .inr ⟨x, .step hz hreaches, hx⟩

end Newton

namespace StableSwap

open Newton

variable {b c d y z t : ℕ}

/-- The quadratic whose root is the balance. -/
def excess (b c d : ℕ) (t : ℤ) : ℤ := t ^ 2 + (b - d) * t - c

/-- A step that succeeds, in whole numbers. -/
theorem nextBalance_eq_ok (h : nextBalance b c d y = .ok z) :
    y * y < wordSize ∧ 0 < (2 * y + b - d : ℤ) ∧
      z * (2 * y + b - d : ℤ) ≤ y ^ 2 + c ∧ (y ^ 2 + c : ℤ) < (z + 1) * (2 * y + b - d) := by
  unfold nextBalance at h
  obtain ⟨square, hsquare, h⟩ := Checked.bind_eq_ok.1 h
  obtain ⟨numerator, hnumerator, h⟩ := Checked.bind_eq_ok.1 h
  obtain ⟨double, hdouble, h⟩ := Checked.bind_eq_ok.1 h
  obtain ⟨total, htotal, h⟩ := Checked.bind_eq_ok.1 h
  obtain ⟨denominator, hdenominator, h⟩ := Checked.bind_eq_ok.1 h
  obtain ⟨hfits, rfl⟩ := Checked.fit_eq_ok.1 hsquare
  obtain ⟨-, rfl⟩ := Checked.fit_eq_ok.1 hnumerator
  obtain ⟨-, rfl⟩ := Checked.fit_eq_ok.1 hdouble
  obtain ⟨-, rfl⟩ := Checked.fit_eq_ok.1 htotal
  obtain ⟨hle, rfl⟩ := Checked.sub_eq_ok.1 hdenominator
  obtain ⟨hne, rfl⟩ := Checked.div_eq_ok.1 h
  have hpos : 0 < y * 2 + b - d := Nat.pos_of_ne_zero hne
  have hslope : ((y * 2 + b - d : ℕ) : ℤ) = 2 * y + b - d := by omega
  refine ⟨hfits, by omega, ?_, ?_⟩
  · rw [← hslope, pow_two]
    exact_mod_cast Nat.div_mul_le_self (y * y + c) (y * 2 + b - d)
  · have hhigh := Nat.lt_mul_div_succ (y * y + c) hpos
    rw [mul_comm (y * 2 + b - d)] at hhigh
    rw [← hslope, pow_two]
    exact_mod_cast hhigh

/-- A step fails only where one of its numbers does not fit, or where it would divide by nothing. -/
theorem nextBalance_eq_error {e : QuoteError} (h : nextBalance b c d y = .error e) :
    wordSize ≤ y * y + c ∨ wordSize ≤ 2 * y + b ∨ 2 * y + b ≤ d := by
  by_contra hnot
  obtain ⟨hnumerator, hsum, hdenominator⟩ : y * y + c < wordSize ∧ 2 * y + b < wordSize ∧ d < 2 * y + b := by omega
  have hok : nextBalance b c d y = .ok ((y * y + c) / (y * 2 + b - d)) := by
    unfold nextBalance
    rw [Checked.bind_eq_ok]
    refine ⟨_, Checked.fit_eq_ok.2 ⟨by omega, rfl⟩, Checked.bind_eq_ok.2 ⟨_, Checked.fit_eq_ok.2 ⟨hnumerator, rfl⟩, ?_⟩⟩
    refine Checked.bind_eq_ok.2 ⟨_, Checked.fit_eq_ok.2 ⟨by omega, rfl⟩, ?_⟩
    refine Checked.bind_eq_ok.2 ⟨_, Checked.fit_eq_ok.2 ⟨by omega, rfl⟩, ?_⟩
    refine Checked.bind_eq_ok.2 ⟨_, Checked.sub_eq_ok.2 ⟨by omega, rfl⟩, ?_⟩
    exact Checked.div_eq_ok.2 ⟨by omega, rfl⟩
  rw [hok] at h
  cases h

/-- So has a step: it is a quotient of a checked sum by a checked difference. -/
theorem nextBalance_isArithmetic (b c d y : ℕ) : (nextBalance b c d y).IsArithmetic := by
  unfold nextBalance
  refine .bind (.fit _) fun square => .bind (.fit _) fun numerator => ?_
  refine .bind (.fit _) fun double => .bind (.fit _) fun total => ?_
  exact .bind (.sub _ _) fun denominator => .div _ _

/-! ### The quadratic -/

/-- Where the quadratic is positive it rises, by two at least. -/
theorem excess_rises (h : 0 < excess b c d t) : 2 ≤ (2 * t + b - d : ℤ) := by
  have hprod : (c : ℤ) < t * (t + b - d) := by
    unfold excess at h
    linarith
  have ht : (0 : ℤ) < t := by
    rcases Nat.eq_zero_or_pos t with rfl | ht
    · simp at hprod
      omega
    · exact_mod_cast ht
  have hsum : 0 < (t + b - d : ℤ) := by
    by_contra hle
    have := mul_nonpos_of_nonneg_of_nonpos ht.le (not_lt.1 hle)
    omega
  omega

/-- Once positive, the excess grows with the balance. -/
theorem excess_le (h : 0 < excess b c d t) (hty : t ≤ y) : excess b c d t ≤ excess b c d y := by
  have hrises := excess_rises h
  have hty' : (t : ℤ) ≤ y := by exact_mod_cast hty
  unfold excess
  nlinarith

/-- One before a number where it is at most one, the quadratic is not positive. -/
theorem excess_nonpos (h : excess b c d (t + 1) ≤ 1) : excess b c d t ≤ 0 := by
  by_contra hpos
  have hrises := excess_rises (not_le.1 hpos)
  unfold excess at h hpos
  linarith

/-- The root of the quadratic, rounded down. -/
structure IsFloorRoot (b c d t : ℕ) : Prop where
  le : excess b c d t ≤ 0
  lt : 0 < excess b c d (t + 1)

/-- Where the excess of the next number is positive there is a root rounded down, at most that far up. -/
theorem exists_isFloorRoot_le (h : 0 < excess b c d (y + 1)) : ∃ t ≤ y, IsFloorRoot b c d t := by
  have hexists : ∃ t : ℕ, 0 < excess b c d (t + 1) := ⟨y, h⟩
  refine ⟨Nat.find hexists, Nat.find_min' hexists h, ?_, Nat.find_spec hexists⟩
  rcases hfind : Nat.find hexists with _ | t
  · simp [excess]
  · have hmin := Nat.find_min hexists (m := t) (by omega)
    push_cast
    omega

/-! ### One step -/

/-- What a step finds is not far above the root, for the way that it went. -/
theorem excess_nextBalance_le (h : nextBalance b c d y = .ok z) : excess b c d z ≤ (z - y) ^ 2 := by
  obtain ⟨-, -, hle, -⟩ := nextBalance_eq_ok h
  unfold excess
  linarith

/-- **No step leads below the root** rounded down. -/
theorem excess_nextBalance_succ_pos (h : nextBalance b c d y = .ok z) : 0 < excess b c d (z + 1) := by
  obtain ⟨-, -, -, hlt⟩ := nextBalance_eq_ok h
  have hsq : (0 : ℤ) ≤ (z + 1 - y) ^ 2 := sq_nonneg _
  unfold excess
  linarith

/-- A step from the root rounded down, or from the next number, hardly moves. -/
theorem nextBalance_le_succ (h : nextBalance b c d y = .ok z) (hy : 0 < excess b c d (y + 1)) : z ≤ y + 1 := by
  obtain ⟨-, hslope, hle, -⟩ := nextBalance_eq_ok h
  have hstep : z * (2 * y + b - d : ℤ) < (y + 2) * (2 * y + b - d) := by
    unfold excess at hy
    linarith
  have := lt_of_mul_lt_mul_right hstep hslope.le
  omega

/-- **From above the root a step halves the way** to any number above the root. -/
theorem nextBalance_halves {e : ℕ} (h : nextBalance b c d (t + e) = .ok z) (ht : 0 < excess b c d t) :
    z ≤ t + e / 2 := by
  obtain ⟨-, -, hle, -⟩ := nextBalance_eq_ok h
  have hrises := excess_rises ht
  push_cast at hle
  have hway : (z - t) * (2 * e + (2 * t + b - d) : ℤ) < e * e := by
    unfold excess at ht
    linarith
  by_contra hlt
  have hhalf : (e + 1 : ℤ) ≤ 2 * (z - t) := by omega
  have he : (0 : ℤ) ≤ e := Int.natCast_nonneg e
  nlinarith

/-! ### The iteration -/

/-- What stands still is the root rounded down, or one above it where the quadratic is one. -/
theorem excess_le_one (h : nextBalance b c d y = .ok z) (hclose : absDiff z y ≤ 1) : excess b c d z ≤ 1 := by
  have hmove : (z - y : ℤ) ^ 2 ≤ 1 := by
    obtain ⟨hhigh, hlow⟩ := absDiff_le_iff.1 hclose
    have hcases : (z : ℤ) - y = -1 ∨ (z : ℤ) - y = 0 ∨ (z : ℤ) - y = 1 := by omega
    rcases hcases with hz | hz | hz <;> rw [hz] <;> decide
  exact (excess_nextBalance_le h).trans hmove

/-- **A step lands** between the root rounded down and half the way to it, unless it hardly moves. -/
theorem nextBalance_lands (root : IsFloorRoot b c d t) (hty : t ≤ y) {k : ℕ} (hy : y < t + 1 + 2 ^ k)
    (h : nextBalance b c d y = .ok z) :
    t ≤ z ∧ (absDiff z y ≤ 1 ∨ ∃ i, k = i + 1 ∧ z < t + 1 + 2 ^ i) := by
  have hz : t ≤ z := by
    by_contra hlt
    have hpos := excess_le (t := z + 1) (y := t) (by exact_mod_cast excess_nextBalance_succ_pos h) (by omega)
    have := excess_nextBalance_succ_pos h
    have := root.le
    push_cast at hpos
    omega
  refine ⟨hz, ?_⟩
  rcases hty.eq_or_lt with rfl | hlt
  · -- from the root itself
    exact .inl (absDiff_le_iff.2 ⟨nextBalance_le_succ h root.lt, by omega⟩)
  · -- from above
    obtain ⟨e, rfl⟩ := Nat.exists_eq_add_of_le (Nat.succ_le_of_lt hlt)
    have hle := nextBalance_halves h (by exact_mod_cast root.lt)
    cases k with
    | zero => exact .inl (absDiff_le_iff.2 ⟨by omega, by omega⟩)
    | succ i =>
      right
      have : 2 ^ (i + 1) = 2 * 2 ^ i := Nat.pow_succ'
      exact ⟨i, rfl, by omega⟩

/-- From above the root the iteration takes a round for every binary digit of the way, and one more. -/
theorem iterateFor_ends (root : IsFloorRoot b c d t) (hty : t ≤ y) {k : ℕ} (hy : y < t + 1 + 2 ^ k) {rounds : ℕ}
    (hrounds : k < rounds) : iterateFor (closeRound (nextBalance b c d)) rounds y ≠ .error .noConvergence := by
  induction rounds generalizing y k with
  | zero => omega
  | succ rounds ih =>
    rw [iterateFor_closeRound]
    intro h
    rcases Checked.bind_eq_error.1 h with h | ⟨z, hz, h⟩
    · exact (nextBalance_isArithmetic b c d y _ h).ne_noConvergence rfl
    · obtain ⟨htz, hclose | ⟨i, rfl, hlt⟩⟩ := nextBalance_lands root hty hy hz
      · rw [if_pos hclose] at h
        cases h
      · split at h
        · cases h
        · exact ih htz hlt (by omega) h

/-- **The iteration ends** from wherever it begins. -/
theorem solveBalance_ends (b c d start : ℕ) : solveBalance b c d start ≠ .error .noConvergence := by
  intro h
  rw [solveBalance, settle, iterate, maxRounds, iterateFor_closeRound] at h
  rcases Checked.bind_eq_error.1 h with h | ⟨y, hy, h⟩
  · exact (nextBalance_isArithmetic b c d start _ h).ne_noConvergence rfl
  split at h
  · cases h
  -- the first step has come to the root or above
  obtain ⟨t, hty, root⟩ := exists_isFloorRoot_le (excess_nextBalance_succ_pos hy)
  by_cases hfits : y * y < wordSize
  · have hway : y < t + 1 + 2 ^ 128 := by
      have : y < 2 ^ 128 := by
        unfold wordSize at hfits
        by_contra hle
        have := Nat.mul_le_mul (not_lt.1 hle) (not_lt.1 hle)
        omega
      omega
    exact iterateFor_ends root hty hway (by decide) h
  · -- a square that does not fit
    rw [iterateFor_closeRound] at h
    rcases Checked.bind_eq_error.1 h with h | ⟨z, hz, -⟩
    · exact (nextBalance_isArithmetic b c d y _ h).ne_noConvergence rfl
    · exact hfits (nextBalance_eq_ok hz).1

/-- What the iteration finds: the root rounded down, or one above it where the quadratic is one. -/
theorem solveBalance_eq_ok {start : ℕ} (h : solveBalance b c d start = .ok y) :
    excess b c d y ≤ 1 ∧ 0 < excess b c d (y + 1) := by
  obtain ⟨x, hx, hclose⟩ := iterateFor_eq_ok h
  exact ⟨excess_le_one hx hclose, excess_nextBalance_succ_pos hx⟩

/-- **Newton's steps find the balance, or fail in their arithmetic.** From wherever they begin they end within their
rounds. What they find is the root of the quadratic rounded down, or the whole number above it: one further the
quadratic is positive, and one before it is not, unless the balance is zero. If they fail, then they have come to a
value from which the step fails with the same error, since one of its numbers does not fit or its denominator is not
positive. -/
theorem solveBalance_isRoot (b c d start : ℕ) :
    (∃ y, solveBalance b c d start = .ok y ∧ 0 < excess b c d (y + 1) ∧ (y = 0 ∨ excess b c d (y - 1) ≤ 0)) ∨
      ∃ e, solveBalance b c d start = .error e ∧ e.IsArithmetic ∧
        ∃ x, Reaches (nextBalance b c d) start x ∧ nextBalance b c d x = .error e ∧
          (wordSize ≤ x * x + c ∨ wordSize ≤ 2 * x + b ∨ 2 * x + b ≤ d) := by
  cases h : solveBalance b c d start with
  | ok y =>
    obtain ⟨hle, hlt⟩ := solveBalance_eq_ok h
    refine .inl ⟨y, rfl, hlt, ?_⟩
    cases y with
    | zero => exact .inl rfl
    | succ y =>
      rw [Nat.cast_succ] at hle ⊢
      rw [add_sub_cancel_right]
      exact .inr (excess_nonpos hle)
  | error e =>
    rcases iterateFor_eq_error h with rfl | ⟨x, hreaches, hx⟩
    · exact absurd h (solveBalance_ends b c d start)
    · exact .inr ⟨e, rfl, nextBalance_isArithmetic b c d x e hx, x, hreaches, hx, nextBalance_eq_error hx⟩

/-- The balance that meets `t ^ 2 + 5 t = 1000` lies between 29 and 30; four steps come down to it from 100. -/
example : solveBalance 10 1000 5 100 = .ok 29 := by rfl

/-- From below half of `d - b` the first step would divide by a negative number. -/
example : solveBalance 0 1000 5 2 = .error (.outOfBounds .subtraction) := by rfl

end StableSwap

end Searcher

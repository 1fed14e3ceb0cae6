/-
# A larger deposit leaves no more of the other coin

The balance of coin `j` is the root of a quadratic that is made of the other balances: their sum stands in its linear
coefficient, and the constant is a chain of products and quotients with one quotient for each coin (`gather`). A
larger balance of coin `i` raises the sum by as much, and no quotient behind it grows (`gather_more`). So from zero on
the quadratic of the larger deposit is above the other one, by one at least where a balance is found.

Newton's steps find the root rounded down or, where the quadratic is exactly one there, the whole number above it. Two
runs of them may stop on different sides of their roots, yet that costs no unit. Where the run of the smaller deposit
has stopped, its quadratic is positive one further on. The other one is then two at least, there and from there on, and
Newton's steps stop only where it is at most one (`solveBalance_antitone`).
-/

import Searcher.Proofs.Curve.Balance
import Searcher.Proofs.Quote.Numeric

namespace Searcher
namespace StableSwap

variable {b b' c c' d start start' y y' n : ℕ}

/-- The quadratic with the larger linear coefficient and no larger constant has the smaller balance. -/
theorem solveBalance_antitone (hb : b < b') (hc : c' ≤ c) (h : solveBalance b c d start = .ok y)
    (h' : solveBalance b' c' d start' = .ok y') : y' ≤ y := by
  obtain ⟨-, habove⟩ := solveBalance_eq_ok h
  obtain ⟨hone, -⟩ := solveBalance_eq_ok h'
  by_contra hlt
  have hraised : excess b c d (y + 1) + 1 ≤ excess b' c' d (y + 1) := by
    have hb' : (b + 1 : ℤ) ≤ b' := by exact_mod_cast hb
    have hc' : (c' : ℤ) ≤ c := by exact_mod_cast hc
    have hy : (0 : ℤ) ≤ y := Int.natCast_nonneg y
    unfold excess
    nlinarith
  have hmore : excess b' c' d (y + 1) ≤ excess b' c' d y' := by
    exact_mod_cast excess_le (t := y + 1) (by push_cast; omega) (not_le.1 hlt)
  omega

/-- The sum of the balances and the constant of the quadratic, with one more coin. -/
def gather (n d : ℕ) (s : ℕ × ℕ) (x : ℕ) : Quote (ℕ × ℕ) := do
  let total ← Checked.add s.1 x
  return (total, ← Checked.div (← Checked.mul s.2 d) (← Checked.mul x n))

/-- The quadratic that a completed pool has been solved for. -/
theorem completing_eq_ok {amp scale : ℕ} {others : List ℕ} (h : completing amp n others d scale = .ok y) :
    ∃ s, others.foldlM (gather n d) (0, d) = .ok s ∧
      solveBalance (s.1 + d * scale / (amp * n)) (s.2 * d * scale / (amp * n * n)) d d = .ok y := by
  unfold completing at h
  obtain ⟨ann, hann, h⟩ := Checked.bind_eq_ok.1 h
  obtain ⟨s, hs, h⟩ := Checked.bind_eq_ok.1 h
  obtain ⟨product, hproduct, h⟩ := Checked.bind_eq_ok.1 h
  obtain ⟨scaled, hscaled, h⟩ := Checked.bind_eq_ok.1 h
  obtain ⟨weight, hweight, h⟩ := Checked.bind_eq_ok.1 h
  obtain ⟨c, hc, h⟩ := Checked.bind_eq_ok.1 h
  obtain ⟨share, hshare, h⟩ := Checked.bind_eq_ok.1 h
  obtain ⟨quotient, hquotient, h⟩ := Checked.bind_eq_ok.1 h
  obtain ⟨b, hb, h⟩ := Checked.bind_eq_ok.1 h
  obtain ⟨-, rfl⟩ := Checked.fit_eq_ok.1 hann
  obtain ⟨-, rfl⟩ := Checked.fit_eq_ok.1 hproduct
  obtain ⟨-, rfl⟩ := Checked.fit_eq_ok.1 hscaled
  obtain ⟨-, rfl⟩ := Checked.fit_eq_ok.1 hweight
  obtain ⟨-, rfl⟩ := Checked.div_eq_ok.1 hc
  obtain ⟨-, rfl⟩ := Checked.fit_eq_ok.1 hshare
  obtain ⟨-, rfl⟩ := Checked.div_eq_ok.1 hquotient
  obtain ⟨-, rfl⟩ := Checked.fit_eq_ok.1 hb
  exact ⟨s, hs, h⟩

/-- One more balance is gathered if its divisor is not zero. The sum grows by it, and the product by a quotient. -/
theorem gather_eq_ok {s s' : ℕ × ℕ} {x : ℕ} (h : gather n d s x = .ok s') :
    0 < x * n ∧ s' = (s.1 + x, s.2 * d / (x * n)) := by
  unfold gather at h
  obtain ⟨total, htotal, h⟩ := Checked.bind_eq_ok.1 h
  obtain ⟨product, hproduct, h⟩ := Checked.bind_eq_ok.1 h
  obtain ⟨weight, hweight, h⟩ := Checked.bind_eq_ok.1 h
  obtain ⟨quotient, hquotient, h⟩ := Checked.bind_eq_ok.1 h
  obtain ⟨-, rfl⟩ := Checked.fit_eq_ok.1 htotal
  obtain ⟨-, rfl⟩ := Checked.fit_eq_ok.1 hproduct
  obtain ⟨-, rfl⟩ := Checked.fit_eq_ok.1 hweight
  obtain ⟨hne, rfl⟩ := Checked.div_eq_ok.1 hquotient
  exact ⟨Nat.pos_of_ne_zero hne, (Except.ok.inj h).symm⟩

/-- A larger sum with no larger constant, of balances gathered from two pools. -/
structure Richer (s s' : ℕ × ℕ) : Prop where
  total : s.1 < s'.1
  constant : s'.2 ≤ s.2

/-- A coin that both pools hold keeps the order of the two. -/
theorem Richer.coin {s s' r r' : ℕ × ℕ} {x : ℕ} (h : Richer s s') (hr : gather n d s x = .ok r)
    (hr' : gather n d s' x = .ok r') : Richer r r' := by
  obtain ⟨-, rfl⟩ := gather_eq_ok hr
  obtain ⟨-, rfl⟩ := gather_eq_ok hr'
  refine ⟨Nat.add_lt_add_right h.total x, ?_⟩
  exact Nat.div_le_div_right (Nat.mul_le_mul_right d h.constant)

/-- A coin of which the second pool holds more sets the order of the two. -/
theorem richer_of_lt {s r r' : ℕ × ℕ} {x x' : ℕ} (hx : x < x') (hr : gather n d s x = .ok r)
    (hr' : gather n d s x' = .ok r') : Richer r r' := by
  obtain ⟨hpos, rfl⟩ := gather_eq_ok hr
  obtain ⟨-, rfl⟩ := gather_eq_ok hr'
  refine ⟨Nat.add_lt_add_left hx s.1, ?_⟩
  exact Nat.div_le_div_left (Nat.mul_le_mul_right n hx.le) hpos

/-- What is richer stays so when more balances are gathered. -/
theorem Richer.foldlM {xs : List ℕ} {s s' r r' : ℕ × ℕ} (h : Richer s s')
    (hr : xs.foldlM (gather n d) s = .ok r) (hr' : xs.foldlM (gather n d) s' = .ok r') : Richer r r' := by
  induction xs generalizing s s' with
  | nil =>
    obtain rfl := Except.ok.inj hr
    obtain rfl := Except.ok.inj hr'
    exact h
  | cons x xs ih =>
    rw [List.foldlM_cons] at hr hr'
    obtain ⟨m, hm, hr⟩ := Checked.bind_eq_ok.1 hr
    obtain ⟨m', hm', hr'⟩ := Checked.bind_eq_ok.1 hr'
    exact ih (h.coin hm hm') hr hr'

/-- The pool with more of one coin is the richer one. -/
theorem gather_more {before after : List ℕ} {x x' : ℕ} {s r r' : ℕ × ℕ} (hx : x < x')
    (hr : (before ++ x :: after).foldlM (gather n d) s = .ok r)
    (hr' : (before ++ x' :: after).foldlM (gather n d) s = .ok r') : Richer r r' := by
  rw [List.foldlM_append] at hr hr'
  obtain ⟨m, hm, hr⟩ := Checked.bind_eq_ok.1 hr
  obtain ⟨m', hm', hr'⟩ := Checked.bind_eq_ok.1 hr'
  obtain rfl := Except.ok.inj (hm.symm.trans hm')
  rw [List.foldlM_cons] at hr hr'
  obtain ⟨k, hk, hr⟩ := Checked.bind_eq_ok.1 hr
  obtain ⟨k', hk', hr'⟩ := Checked.bind_eq_ok.1 hr'
  exact (richer_of_lt hx hk hk').foldlM hr hr'

/-- What completes the richer pool is no more. -/
theorem completing_antitone {amp scale : ℕ} {before after : List ℕ} {x x' : ℕ} (hx : x < x')
    (h : completing amp n (before ++ x :: after) d scale = .ok y)
    (h' : completing amp n (before ++ x' :: after) d scale = .ok y') : y' ≤ y := by
  obtain ⟨s, hs, h⟩ := completing_eq_ok h
  obtain ⟨s', hs', h'⟩ := completing_eq_ok h'
  obtain ⟨htotal, hconstant⟩ := gather_more hx hs hs'
  exact solveBalance_antitone (Nat.add_lt_add_right htotal _) (by gcongr) h h'

/-- The coin of a deposit stands among the others at one place, whatever the deposit. -/
theorem exists_eraseIdx_set (xs : List ℕ) {i j : ℕ} (hij : i ≠ j) (hi : i < xs.length) :
    ∃ before after, ∀ x, (xs.set i x).eraseIdx j = before ++ x :: after := by
  have hlength : (xs.take i).length = i := List.length_take_of_le hi.le
  rcases Nat.lt_or_gt_of_ne hij with hlt | hgt
  · refine ⟨xs.take i, (xs.drop (i + 1)).eraseIdx (j - i - 1), fun x => ?_⟩
    rw [List.set_eq_take_append_cons_drop, if_pos hi, List.eraseIdx_append_of_length_le (by omega), hlength]
    obtain ⟨k, hk⟩ : ∃ k, j - i = k + 1 := ⟨j - i - 1, by omega⟩
    rw [hk, List.eraseIdx_cons_succ, Nat.add_sub_cancel]
  · refine ⟨(xs.take i).eraseIdx j, xs.drop (i + 1), fun x => ?_⟩
    rw [List.set_eq_take_append_cons_drop, if_pos hi, List.eraseIdx_append_of_lt_length (by omega)]

/-- **A larger deposit leaves no more of the other coin,** at the same invariant and whatever the pool: not even by
the unit that Newton's steps may leave above the root. -/
theorem balanceAt_antitone {amp i j x x' scale : ℕ} {xs : List ℕ} (hx : x ≤ x')
    (h : balanceAt amp i j x xs d scale = .ok y) (h' : balanceAt amp i j x' xs d scale = .ok y') : y' ≤ y := by
  rcases hx.eq_or_lt with rfl | hx
  · exact (Except.ok.inj (h.symm.trans h')).ge
  unfold balanceAt at h h'
  split at h
  · cases h
  · rename_i hcoins
    rw [if_neg hcoins] at h'
    have hij : i ≠ j := fun heq => hcoins (.inl heq)
    have hi : i < xs.length := by omega
    obtain ⟨before, after, hothers⟩ := exists_eraseIdx_set xs hij hi
    rw [hothers] at h h'
    exact completing_antitone hx h h'

/-- A pool of three coins with a scaled amplification, after two deposits. -/
theorem balanceAt_antitone_threeCoins :
    let xs := [1000000 * e18, 1200000 * e18, 900000 * e18]
    let d := 3099988825478648946602064
    balanceAt 200000 0 2 (1100000 * e18) xs d 100 = .ok 800011988258818035114659 ∧
      balanceAt 200000 0 2 (1200000 * e18) xs d 100 = .ok 700037672374444796910803 ∧
      700037672374444796910803 ≤ 800011988258818035114659 := by
  intro xs d
  have h : balanceAt 200000 0 2 (1100000 * e18) xs d 100 = .ok 800011988258818035114659 :=
    Quote.eq_ok_of_toOption (by decide +kernel)
  have h' : balanceAt 200000 0 2 (1200000 * e18) xs d 100 = .ok 700037672374444796910803 :=
    Quote.eq_ok_of_toOption (by decide +kernel)
  exact ⟨h, h', balanceAt_antitone (by decide) h h'⟩

end StableSwap
end Searcher

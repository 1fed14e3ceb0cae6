/-
# The liquidity of every tick

Fixed tick data and the liquidity at one tick give the liquidity everywhere, since it changes at marked ticks alone.
`depthFrom` is that profile for a swap that begins at the tick: above it the marks are passed on the way up, below it on
the way down.

A mark changes the liquidity by what it states on the way up and by the negation on the way down, so that it does not
matter which way it is passed (`crossing_true`). The least number of 128 bits is an exception. It is its own negation
there, and takes away `2 ^ 127` both ways; but then a swap that has passed such a mark has less than that left and
cannot pass it again (`Profile.lands_back`). So two swaps over the same data, there and back, walk on one profile,
wherever their steps are cut.
-/

import Searcher.Proofs.Concentrated.Advance
import Searcher.Proofs.Concentrated.Search
import Searcher.Proofs.Concentrated.Value

namespace Searcher
namespace Concentrated

open Tick

variable {bits : ℤ → ℕ} {nets : ℤ → ℤ → ℤ} {spacing pivot last : ℤ} {depth : ℤ → ℤ} {t t' : ℤ}

/-! ### Directions -/

/-- The point `y` is not behind `x` in the direction of a swap. -/
def Onward {α : Type} [LE α] (zeroForOne : Bool) (x y : α) : Prop := if zeroForOne then y ≤ x else x ≤ y

/-- Everything is onward from itself. -/
theorem Onward.refl {α : Type} [Preorder α] (zeroForOne : Bool) (x : α) : Onward zeroForOne x x := by
  cases zeroForOne <;> exact le_rfl

/-- What is onward from something onward is onward from the start. -/
theorem Onward.trans {α : Type} [Preorder α] {zeroForOne : Bool} {x y z : α}
    (h : Onward zeroForOne x y) (h' : Onward zeroForOne y z) : Onward zeroForOne x z := by
  cases zeroForOne with
  | false => exact le_trans h h'
  | true => exact le_trans h' h

/-- What is ahead of a tick further on is ahead of the tick. -/
theorem Onward.ahead {zeroForOne : Bool} {a b : ℤ} (h : Onward zeroForOne a b) (ht : Bitmap.Ahead zeroForOne b t) :
    Bitmap.Ahead zeroForOne a t := by
  cases zeroForOne with
  | false => exact lt_of_le_of_lt h ht
  | true => exact le_trans ht h

/-! ### One mark in both directions -/

/-- **A mark is passed downwards as upwards,** with the opposite change, unless it states the least number of
128 bits. -/
theorem crossing_true (hlow : -2 ^ 127 < nets t spacing) (hhigh : nets t spacing < 2 ^ 127) (marked : Bool) :
    crossing nets spacing true t marked = -crossing nets spacing false t marked := by
  cases marked with
  | false => rfl
  | true =>
    simp only [crossing, if_true, Bool.false_eq_true, if_false]
    exact wrapInt_of_fits (by omega) (by omega)

/-- A mark that states the least number of 128 bits takes away `2 ^ 127` both ways. -/
theorem crossing_cases (hlow : -2 ^ 127 ≤ nets t spacing) (hhigh : nets t spacing < 2 ^ 127) (marked : Bool) :
    crossing nets spacing true t marked = -crossing nets spacing false t marked ∨
      crossing nets spacing true t marked = -2 ^ 127 ∧ crossing nets spacing false t marked = -2 ^ 127 := by
  rcases hlow.lt_or_eq with hlt | hleast
  · exact .inl (crossing_true hlt hhigh marked)
  · cases marked with
    | false => exact .inl rfl
    | true =>
      simp only [crossing, if_true, Bool.false_eq_true, if_false, ← hleast]
      exact .inr ⟨by decide, trivial⟩

/-! ### The profile -/

/-- The change of the liquidity at a tick on the way up, as a swap finds it that begins at the tick `pivot`. -/
def jump (bits : ℤ → ℕ) (nets : ℤ → ℤ → ℤ) (spacing pivot t : ℤ) : ℤ :=
  if t ≤ pivot then -crossing nets spacing true t (Bitmap.marked bits spacing t)
  else crossing nets spacing false t (Bitmap.marked bits spacing t)

/-- The depth does not jump at a tick that is not marked. -/
theorem jump_of_unmarked (h : Bitmap.marked bits spacing t = false) : jump bits nets spacing pivot t = 0 := by
  simp [jump, h, crossing]

/-- The depth of each tick is that of the one below and the change between them. -/
def Profile (bits : ℤ → ℕ) (nets : ℤ → ℤ → ℤ) (spacing pivot : ℤ) (depth : ℤ → ℤ) : Prop :=
  ∀ t, least ≤ t → depth (t + 1) = depth t + jump bits nets spacing pivot (t + 1)

/-- The profile with the given liquidity at the tick where a swap begins. -/
def depthFrom (bits : ℤ → ℕ) (nets : ℤ → ℤ → ℤ) (spacing pivot liquidity t : ℤ) : ℤ :=
  liquidity + total (fun s => jump bits nets spacing pivot (s + 1)) t -
    total (fun s => jump bits nets spacing pivot (s + 1)) pivot

/-- The depth that is counted from a tick follows the marks. -/
theorem profile_depthFrom (bits : ℤ → ℕ) (nets : ℤ → ℤ → ℤ) (spacing pivot liquidity : ℤ) :
    Profile bits nets spacing pivot (depthFrom bits nets spacing pivot liquidity) := by
  intro t ht
  rw [depthFrom, total_succ _ ht, depthFrom]
  ring

/-- At that tick it is the given liquidity. -/
theorem depthFrom_self (bits : ℤ → ℕ) (nets : ℤ → ℤ → ℤ) (spacing pivot liquidity : ℤ) :
    depthFrom bits nets spacing pivot liquidity pivot = liquidity := by
  rw [depthFrom]
  ring

/-- The depth does not change where no tick is marked. -/
theorem Profile.eq_of_unmarked (h : Profile bits nets spacing pivot depth) (ht : least ≤ t) (htt : t ≤ t')
    (hclear : ∀ s, t < s → s ≤ t' → Bitmap.marked bits spacing s = false) : depth t' = depth t := by
  induction t', htt using Int.leInduction with
  | base => rfl
  | succ t' htt ih =>
    rw [h t' (by omega), ih fun s hs hs' => hclear s hs (by omega),
      jump_of_unmarked (hclear (t' + 1) (by omega) le_rfl), add_zero]

/-! ### Where a swap lands -/

/-- The depth beyond a tick that is passed in a direction from depth `d`. -/
def beyond (bits : ℤ → ℕ) (nets : ℤ → ℤ → ℤ) (spacing : ℤ) (zeroForOne : Bool) (t d : ℤ) : ℤ :=
  d + crossing nets spacing zeroForOne t (Bitmap.marked bits spacing t)

/-- A swap that passes the tick `t` from the profile comes to the profile again, if it has any liquidity left. -/
def Lands (bits : ℤ → ℕ) (nets : ℤ → ℤ → ℤ) (spacing : ℤ) (depth : ℤ → ℤ) : (zeroForOne : Bool) → (t : ℤ) → Prop
  | false, t => 0 ≤ beyond bits nets spacing false t (depth (t - 1)) →
      depth t = beyond bits nets spacing false t (depth (t - 1))
  | true, t => 0 ≤ beyond bits nets spacing true t (depth t) → depth (t - 1) = beyond bits nets spacing true t (depth t)

/-- At each tick above the least the depth is that of the tick before with its jump. -/
theorem Profile.eq_add_jump (h : Profile bits nets spacing pivot depth) (ht : least < t) :
    depth t = depth (t - 1) + jump bits nets spacing pivot t := by
  have hsucc := h (t - 1) (by omega)
  rwa [sub_add_cancel] at hsucc

/-- **The way there.** A swap that goes away from where the profile begins stays on it. -/
theorem Profile.lands_there (h : Profile bits nets spacing pivot depth) {zeroForOne : Bool} (ht : least < t)
    (hahead : Bitmap.Ahead zeroForOne pivot t) : Lands bits nets spacing depth zeroForOne t := by
  have hsucc := h.eq_add_jump ht
  cases zeroForOne with
  | false =>
    intro _
    rw [jump, if_neg (not_le.2 hahead)] at hsucc
    exact hsucc
  | true =>
    intro _
    have hupto : t ≤ pivot := hahead
    rw [jump, if_pos hupto] at hsucc
    unfold beyond
    omega

/-- **The way back.** A swap that returns stays on the profile as well. Where a mark states the least number of 128 bits
the liquidity on the way there would have been `2 ^ 128` before it or after it. -/
theorem Profile.lands_back (h : Profile bits nets spacing pivot depth)
    (hnets : ∀ t, -2 ^ 127 ≤ nets t spacing ∧ nets t spacing < 2 ^ 127) {zeroForOne : Bool}
    (hbound : ∀ s ∈ Set.uIcc pivot last, depth s < 2 ^ 128) (hlast : Onward zeroForOne pivot last) (ht : least < t)
    (hahead : Bitmap.Ahead (!zeroForOne) last t) : Lands bits nets spacing depth (!zeroForOne) t := by
  have hsucc := h.eq_add_jump ht
  have hcrossing := crossing_cases (hnets t).1 (hnets t).2 (Bitmap.marked bits spacing t)
  cases zeroForOne with
  | false =>
    by_cases hbelow : t ≤ pivot
    · exact h.lands_there ht hbelow
    · intro hafter
      have hupto : t ≤ last := hahead
      rw [jump, if_neg hbelow] at hsucc
      have hlt := hbound (t - 1) (by rw [Set.uIcc_of_le hlast]; exact ⟨by omega, by omega⟩)
      unfold beyond at hafter ⊢
      omega
  | true =>
    by_cases habove : pivot < t
    · exact h.lands_there ht habove
    · intro hafter
      have hbefore : last < t := hahead
      rw [jump, if_pos (not_lt.1 habove)] at hsucc
      have hlt := hbound t (by rw [Set.uIcc_of_ge hlast]; exact ⟨hbefore.le, not_lt.1 habove⟩)
      unfold beyond at hafter ⊢
      omega

end Concentrated
end Searcher

/-
# What a search in the bitmap finds

A tick is *marked* when the spacing divides it and its bit is set. A search looks at one word only, yet what it says is
about ticks: between where it starts and what it finds there is no other marked tick, and the flag tells whether the
found tick itself is marked (`search_left`, `search_right`). This holds at an edge of a word as much as at a mark.

What a search computes is a product with the spacing, of which 32 bits are kept. From a tick of the range nothing is
lost, for any spacing below `2 ^ 23`: an edge is less than a word beyond the range, and a spacing of many ticks leaves
room for one word on each side (`left_fits`, `right_fits`).
-/

import Searcher.Concentrated.Bitmap
import Searcher.Concentrated.Tick
import Mathlib.Algebra.Order.Ring.Int
import Mathlib.Data.Finset.Image
import Mathlib.Data.Finset.Range
import Mathlib.Data.Nat.Bitwise

namespace Searcher
namespace Bitmap

/-- Whether a tick is marked in the words with the given bits. -/
def marked (bits : ℤ → ℕ) (spacing tick : ℤ) : Bool :=
  decide (spacing ∣ tick) &&
    (bits (position (compress tick spacing)).1).testBit (position (compress tick spacing)).2

variable {bits : ℤ → ℕ} {spacing tick c k : ℤ}

/-- The marked ticks above `a`, up to `b`. -/
def marksBetween (bits : ℤ → ℕ) (spacing a b : ℤ) : Finset ℤ :=
  ((Finset.range (b - a).toNat).image fun (k : ℕ) => a + 1 + k).filter fun tick => marked bits spacing tick

/-- A mark between two ticks is a tick after the first, up to the second, that is marked. -/
theorem mem_marksBetween {a b : ℤ} :
    tick ∈ marksBetween bits spacing a b ↔ a < tick ∧ tick ≤ b ∧ marked bits spacing tick := by
  simp only [marksBetween, Finset.mem_filter, Finset.mem_image, Finset.mem_range]
  constructor
  · rintro ⟨⟨k, hk, rfl⟩, hmarked⟩
    exact ⟨by omega, by omega, hmarked⟩
  · rintro ⟨hlow, hhigh, hmarked⟩
    exact ⟨⟨(tick - a - 1).toNat, by omega, by omega⟩, hmarked⟩

/-- The marked ticks that a swap passes from the tick `a` to the tick `b`: the one it comes to on the way up, the one it
leaves on the way down, and those between. -/
def crossings (bits : ℤ → ℕ) (spacing : ℤ) (zeroForOne : Bool) (a b : ℤ) : Finset ℤ :=
  if zeroForOne then marksBetween bits spacing b a else marksBetween bits spacing a b

/-- Whether a swap or a walk that stands at a tick has `t` before it. To the left it
counts the tick itself, to the right not. -/
def Ahead (left : Bool) (tick t : ℤ) : Prop := if left then t ≤ tick else tick < t

/-- A multiple of the spacing is marked if its bit is set in its word. -/
theorem marked_mul (hs : 0 < spacing) (k : ℤ) :
    marked bits spacing (k * spacing) = (bits (position k).1).testBit (position k).2 := by
  simp [marked, compress, Int.mul_ediv_cancel k (by omega : spacing ≠ 0)]

/-- Compressed ticks of one word share its number, and their bits lie as far apart as they do. -/
theorem position_eq {i : ℕ} (h : k = c + i - (c % 256)) (hi : i < 256) : position k = ((position c).1, i) := by
  have hword : k / 256 = c / 256 := by omega
  have hbit : k % 256 = i := by omega
  simp [position, hword, hbit]

/-- The trailing zeros of a number that is not zero end at its least bit. -/
theorem trailingZeros_spec {n : ℕ} (hn : n ≠ 0) :
    n.testBit (trailingZeros n) = true ∧ ∀ i < trailingZeros n, n.testBit i = false := by
  induction n using trailingZeros.induct with
  | case1 => exact absurd rfl hn
  | case2 n _ hodd => simp [trailingZeros, hodd, hn]
  | case3 n _ heven ih =>
    have hhalf : n / 2 ≠ 0 := by omega
    obtain ⟨hset, hclear⟩ := ih hhalf
    rw [trailingZeros, if_neg hn, if_neg heven]
    refine ⟨by rwa [Nat.testBit_add_one], fun i hi => ?_⟩
    cases i with
    | zero => simp; omega
    | succ i =>
      rw [Nat.testBit_add_one]
      exact hclear i (by omega)

/-- A search to the left stops at the last set bit up to the starting one, or at the first bit of the word. -/
theorem searchLeft_spec (b : ℕ) (c spacing : ℤ) :
    ∃ i : ℕ, i ≤ (position c).2 ∧
      searchLeft b c spacing = ⟨tickOf (c - ((position c).2 - i)) spacing, b.testBit i⟩ ∧
      (b.testBit i = true ∨ i = 0) ∧ ∀ j, i < j → j ≤ (position c).2 → b.testBit j = false := by
  set bit := (position c).2 with hbit
  have hbits : ∀ j, j ≤ bit → (bitsUpTo b bit).testBit j = b.testBit j := by
    intro j hj
    simp [bitsUpTo, Nat.testBit_mod_two_pow, Nat.lt_succ_of_le hj]
  by_cases h0 : bitsUpTo b bit = 0
  · have hclear : ∀ j, j ≤ bit → b.testBit j = false := by
      intro j hj
      rw [← hbits j hj, h0, Nat.zero_testBit]
    refine ⟨0, Nat.zero_le _, ?_, .inr rfl, fun j _ hj => hclear j hj⟩
    simp [searchLeft, ← hbit, h0, hclear 0 (Nat.zero_le _)]
  · have hlog : (bitsUpTo b bit).log2 ≤ bit := by
      have hlt : bitsUpTo b bit < 2 ^ (bit + 1) := Nat.mod_lt _ (Nat.two_pow_pos _)
      exact Nat.lt_succ_iff.1 ((Nat.log2_lt h0).2 hlt)
    have hset : b.testBit (bitsUpTo b bit).log2 = true := by
      rw [← hbits _ hlog]
      exact Nat.testBit_log2 h0
    refine ⟨(bitsUpTo b bit).log2, hlog, ?_, .inl hset, fun j hj hle => ?_⟩
    · simp [searchLeft, ← hbit, h0, hset]
    · rw [← hbits j hle]
      exact Nat.testBit_lt_two_pow ((Nat.log2_lt h0).1 hj)

/-- A search to the right stops at the first set bit from the starting one on, or at the last bit of the word. -/
theorem searchRight_spec (b : ℕ) (c spacing : ℤ) :
    ∃ i : ℕ, (position c).2 ≤ i ∧ i < 256 ∧
      searchRight b c spacing = ⟨tickOf (c + (i - (position c).2)) spacing, b.testBit i⟩ ∧
      (b.testBit i = true ∨ i = 255) ∧ ∀ j, (position c).2 ≤ j → j < i → b.testBit j = false := by
  set bit := (position c).2 with hbit
  have hlt : bit < 256 := by simp only [hbit, position]; omega
  have hbits : ∀ j, (bitsFrom b bit).testBit j = (decide (bit + j < 256) && b.testBit (bit + j)) := by
    intro j
    rw [bitsFrom, wordSize, Nat.testBit_div_two_pow, Nat.testBit_mod_two_pow, Nat.add_comm]
  by_cases h0 : bitsFrom b bit = 0
  · have hclear : ∀ j, bit ≤ j → j < 256 → b.testBit j = false := by
      intro j hj hj'
      obtain ⟨j, rfl⟩ := Nat.exists_eq_add_of_le hj
      have hj := hbits j
      rwa [h0, Nat.zero_testBit, decide_eq_true hj', Bool.true_and, eq_comm] at hj
    refine ⟨255, by omega, by omega, ?_, .inr rfl, fun j hj hj' => hclear j hj (by omega)⟩
    simp [searchRight, ← hbit, h0, hclear 255 (by omega) (by omega)]
  · obtain ⟨hset, hclear⟩ := trailingZeros_spec h0
    rw [hbits, Bool.and_eq_true, decide_eq_true_eq] at hset
    obtain ⟨htop, hset⟩ := hset
    refine ⟨bit + trailingZeros (bitsFrom b bit), by omega, htop, ?_, .inl hset, fun j hj hj' => ?_⟩
    · simp [searchRight, ← hbit, h0, hset]
    · obtain ⟨j, rfl⟩ := Nat.exists_eq_add_of_le hj
      have hj := hclear j (by omega)
      rwa [hbits, decide_eq_true (by omega), Bool.true_and] at hj

/-! ### What 32 bits hold -/

/-- A tick that fits is the product itself. -/
theorem tickOf_of_fits (h : -2 ^ 31 < k * spacing ∧ k * spacing < 2 ^ 31) : tickOf k spacing = k * spacing :=
  wrapInt_of_fits h.1.le h.2

/-- A compressed tick less than a word beyond one of the range is a tick of 32 bits. It is the edge of the first word on
its side, or the range has more than a word on that side, and the spacing is small. -/
theorem mul_lt_of_near {m k : ℤ} (hs : 0 < spacing) (hs' : spacing < 2 ^ 23) (hm : m * spacing ≤ Tick.largest)
    (hk : k ≤ m + 256) (hside : k ≤ 256 ∨ 255 ≤ m) : k * spacing < 2 ^ 31 := by
  unfold Tick.largest at hm
  rcases hside with hfirst | hm'
  · have hle : k * spacing ≤ 256 * spacing := Int.mul_le_mul_of_nonneg_right hfirst hs.le
    omega
  · have hle : k * spacing ≤ (m + 256) * spacing := Int.mul_le_mul_of_nonneg_right hk hs.le
    have hsmall : 255 * spacing ≤ m * spacing := Int.mul_le_mul_of_nonneg_right hm' hs.le
    rw [add_mul] at hle
    omega

/-- A search to the left begins at the last multiple of the spacing up to the tick. -/
theorem start_left_bounds (tick : ℤ) (hs : 0 < spacing) :
    start tick spacing true * spacing ≤ tick ∧ tick < (start tick spacing true + 1) * spacing :=
  ⟨Int.ediv_mul_le tick hs.ne', Int.lt_ediv_add_one_mul_self tick hs⟩

/-- A search to the right begins at the first multiple of the spacing after the tick. -/
theorem start_right_bounds (tick : ℤ) (hs : 0 < spacing) :
    (start tick spacing false - 1) * spacing ≤ tick ∧ tick < start tick spacing false * spacing := by
  rw [start, if_neg Bool.false_ne_true, add_sub_cancel_right]
  exact ⟨Int.ediv_mul_le tick hs.ne', Int.lt_ediv_add_one_mul_self tick hs⟩

/-- From the first bit of its word up to where a search to the left begins, each bit is a tick of 32 bits. -/
theorem left_fits (hs : 0 < spacing) (hs' : spacing < 2 ^ 23) (hlow : Tick.least ≤ tick) (hhigh : tick ≤ Tick.largest)
    (hword : start tick spacing true - start tick spacing true % 256 ≤ k) (hk : k ≤ start tick spacing true) :
    -2 ^ 31 < k * spacing ∧ k * spacing < 2 ^ 31 := by
  obtain ⟨hle, hlt⟩ := start_left_bounds tick hs
  have hnear : -(start tick spacing true + 1) * spacing ≤ Tick.largest := by
    unfold Tick.least at hlow
    unfold Tick.largest
    rw [neg_mul]
    omega
  have hfits := mul_lt_of_near (k := -k) hs hs' hnear (by omega) (by omega)
  rw [neg_mul] at hfits
  have hupper : k * spacing ≤ start tick spacing true * spacing := Int.mul_le_mul_of_nonneg_right hk hs.le
  unfold Tick.largest at hhigh
  omega

/-- From where a search to the right begins up to the last bit of its word, each bit is a tick of 32 bits. -/
theorem right_fits (hs : 0 < spacing) (hs' : spacing < 2 ^ 23) (hlow : Tick.least ≤ tick) (hhigh : tick ≤ Tick.largest)
    (hk : start tick spacing false ≤ k)
    (hword : k ≤ start tick spacing false - start tick spacing false % 256 + 255) :
    -2 ^ 31 < k * spacing ∧ k * spacing < 2 ^ 31 := by
  obtain ⟨hle, hlt⟩ := start_right_bounds tick hs
  have hfits := mul_lt_of_near hs hs' (hle.trans hhigh) (k := k) (by omega) (by omega)
  have hlower : start tick spacing false * spacing ≤ k * spacing := Int.mul_le_mul_of_nonneg_right hk hs.le
  unfold Tick.least at hlow
  omega

/-! ### Ticks -/

/-- No tick is marked between two compressed ticks of a word if no bit is set between theirs. -/
theorem marked_eq_false (hs : 0 < spacing) {lower upper tick : ℤ} (hlow : lower * spacing < tick)
    (hhigh : tick < upper * spacing)
    (hclear : ∀ k, lower < k → k < upper → (bits (position k).1).testBit (position k).2 = false) :
    marked bits spacing tick = false := by
  by_cases hdvd : spacing ∣ tick
  · obtain ⟨k, rfl⟩ := hdvd
    rw [mul_comm spacing k] at hlow hhigh ⊢
    rw [marked_mul hs]
    exact hclear k (lt_of_mul_lt_mul_right hlow (le_of_lt hs)) (lt_of_mul_lt_mul_right hhigh (le_of_lt hs))
  · simp [marked, hdvd]

/-- **A search to the left** finds a tick that is not above the current one, tells whether it is marked, and passes no
marked tick. -/
theorem search_left (bits : ℤ → ℕ) (hs : 0 < spacing) (hs' : spacing < 2 ^ 23) (hlow : Tick.least ≤ tick)
    (hhigh : tick ≤ Tick.largest) :
    let found := search (bits (position (start tick spacing true)).1) (start tick spacing true) spacing true
    found.tick ≤ tick ∧ found.marked = marked bits spacing found.tick ∧
      ∀ t, found.tick < t → t ≤ tick → marked bits spacing t = false := by
  obtain ⟨hc, hc'⟩ := start_left_bounds tick hs
  have hfits : ∀ k, _ → _ → _ := fun k => left_fits (k := k) hs hs' hlow hhigh
  set c := start tick spacing true
  have hbit : ((position c).2 : ℤ) = c % 256 := by simp only [position]; omega
  obtain ⟨i, hi, hfound, -, hclear⟩ := searchLeft_spec (bits (position c).1) c spacing
  rw [search, if_pos rfl, hfound, tickOf_of_fits (hfits _ (by omega) (by omega))]
  have hpos : position (c - ((position c).2 - i)) = ((position c).1, i) := position_eq (by omega) (by omega)
  refine ⟨?_, ?_, fun t ht ht' => marked_eq_false hs ht (ht'.trans_lt hc') fun k hk hk' => ?_⟩
  · exact le_trans (mul_le_mul_of_nonneg_right (by omega) (le_of_lt hs)) hc
  · rw [marked_mul hs, hpos]
  · obtain ⟨j, hj⟩ : ∃ j : ℕ, k = c + j - c % 256 := ⟨(k - c + c % 256).toNat, by omega⟩
    rw [position_eq hj (by omega)]
    exact hclear j (by omega) (by omega)

/-- **A search to the right** finds a tick above the current one, tells whether it is marked, and passes no marked
tick. -/
theorem search_right (bits : ℤ → ℕ) (hs : 0 < spacing) (hs' : spacing < 2 ^ 23) (hlow : Tick.least ≤ tick)
    (hhigh : tick ≤ Tick.largest) :
    let found := search (bits (position (start tick spacing false)).1) (start tick spacing false) spacing false
    tick < found.tick ∧ found.marked = marked bits spacing found.tick ∧
      ∀ t, tick < t → t < found.tick → marked bits spacing t = false := by
  obtain ⟨hc, hc'⟩ := start_right_bounds tick hs
  have hfits : ∀ k, _ → _ → _ := fun k => right_fits (k := k) hs hs' hlow hhigh
  set c := start tick spacing false
  have hbit : ((position c).2 : ℤ) = c % 256 := by simp only [position]; omega
  obtain ⟨i, hi, hi', hfound, -, hclear⟩ := searchRight_spec (bits (position c).1) c spacing
  rw [search, if_neg (by simp), hfound, tickOf_of_fits (hfits _ (by omega) (by omega))]
  have hpos : position (c + (i - (position c).2)) = ((position c).1, i) := position_eq (by omega) hi'
  refine ⟨?_, ?_, fun t ht ht' => marked_eq_false hs (hc.trans_lt ht) ht' fun k hk hk' => ?_⟩
  · exact hc'.trans_le (mul_le_mul_of_nonneg_right (by omega) (le_of_lt hs))
  · rw [marked_mul hs, hpos]
  · obtain ⟨j, hj⟩ : ∃ j : ℕ, k = c + j - c % 256 := ⟨(k - c + c % 256).toNat, by omega⟩
    rw [position_eq hj (by omega)]
    exact hclear j (by omega) (by omega)

end Bitmap
end Searcher

/-
# The ticks of a word and their bits

Bit `b` of word `w` stands for the tick `(w * 256 + b) * spacing`, and the ticks of a word are listed by this product
(`marks`). A swap goes the other way: it divides a tick by the spacing, rounded down, and takes the quotient apart into
a word and a bit (`compress`, `position`). Multiplication by a positive spacing keeps the order and is undone by the
division, below zero as well, and a number of sixteen bits and a sign does not wrap around (`position_mul_add`). So the
two ways are inverse to each other (`marks_invert`), whatever the spacing.

The list that is read for a word has its ticks as 32 bits hold them (`initializedTicks`). It is the list of the products
wherever these fit; a product that does not fit wraps around.
-/

import Searcher.Proofs.Concentrated.Visits

namespace Searcher
namespace Bitmap

variable {spacing word t : ℤ} {bitmap : ℕ}

/-- The division undoes the multiplication. -/
theorem compress_mul (hs : 0 < spacing) (c : ℤ) : compress (c * spacing) spacing = c := Int.mul_ediv_cancel c hs.ne'

/-- The tick of a bit has its place at this bit: the division gives its number back, and the word and the bit of that
number are the ones it was put together from. -/
theorem position_compress (hlow : -32768 ≤ word) (hhigh : word < 32768) (hs : 0 < spacing) {bit : ℕ}
    (hbit : bit < 256) : position (compress ((word * 256 + bit) * spacing) spacing) = (word, bit) := by
  rw [compress_mul hs, position_mul_add hlow hhigh hbit]

/-- The ticks of a word rise as its bits do, since the spacing is positive. -/
theorem marks_pairwise (word : ℤ) (bitmap : ℕ) (hs : 0 < spacing) :
    (marks word bitmap spacing).Pairwise (· < ·) := by
  have hbits : ((List.range 256).filter fun bit => bitmap.testBit bit).Pairwise (· < ·) :=
    List.pairwise_lt_range.filter _
  refine List.pairwise_map.2 (hbits.imp fun {i j} hij => ?_)
  exact mul_lt_mul_of_pos_right (by omega) hs

/-- A set bit of a bitmap is one of its 256. -/
theorem lt_of_testBit (hfit : bitmap < wordSize) {bit : ℕ} (hset : bitmap.testBit bit = true) : bit < 256 :=
  (Nat.pow_lt_pow_iff_right (by decide)).1 ((Nat.ge_two_pow_of_testBit hset).trans_lt hfit)

/-- Where each tick of a word fits into 32 bits, the ticks that are read for the word are its marks. -/
theorem initializedTicks_of_fits (hfits : ∀ t ∈ marks word bitmap spacing, -2 ^ 31 ≤ t ∧ t < 2 ^ 31) :
    initializedTicks word bitmap spacing = marks word bitmap spacing := by
  refine List.map_congr_left fun bit hbit => ?_
  obtain ⟨hlow, hhigh⟩ := hfits _ (List.mem_map_of_mem hbit)
  exact wrapInt_of_fits hlow hhigh

/-- **The ticks of a word and their bits are inverse to each other.** Where the ticks of a word fit into 32 bits, they
are the ones that are read for it. They rise, each of them has its place at a set bit of the word, and each set bit is
the place of exactly one of them. -/
theorem marks_invert (hlow : -32768 ≤ word) (hhigh : word < 32768) (hs : 0 < spacing) (hfit : bitmap < wordSize) :
    ((∀ t ∈ marks word bitmap spacing, -2 ^ 31 ≤ t ∧ t < 2 ^ 31) →
        initializedTicks word bitmap spacing = marks word bitmap spacing) ∧
      (marks word bitmap spacing).Pairwise (· < ·) ∧
      (∀ t ∈ marks word bitmap spacing, ∃ bit, position (compress t spacing) = (word, bit) ∧
        bitmap.testBit bit = true) ∧
      ∀ bit, bitmap.testBit bit = true →
        ∃! t, t ∈ marks word bitmap spacing ∧ position (compress t spacing) = (word, bit) := by
  refine ⟨initializedTicks_of_fits, marks_pairwise word bitmap hs, fun t ht => ?_, fun bit hset => ?_⟩
  · obtain ⟨bit, hbit, hset, rfl⟩ := mem_marks.1 ht
    exact ⟨bit, position_compress hlow hhigh hs hbit, hset⟩
  · have hbit := lt_of_testBit hfit hset
    refine ⟨(word * 256 + bit) * spacing, ⟨mem_marks.2 ⟨bit, hbit, hset, rfl⟩, ?_⟩, ?_⟩
    · exact position_compress hlow hhigh hs hbit
    · rintro t ⟨ht, hplace⟩
      obtain ⟨other, hother, -, rfl⟩ := mem_marks.1 ht
      rw [position_compress hlow hhigh hs hother] at hplace
      rw [(Prod.mk.inj hplace).2]

/-- The first word below zero, with its fourth and its last bit, at a spacing of sixty. -/
theorem marks_invert_belowZero :
    let bitmap := 2 ^ 255 + 2 ^ 3
    initializedTicks (-1) bitmap 60 = [-15180, -60] ∧ marks (-1) bitmap 60 = [-15180, -60] ∧
      position (compress (-60) 60) = (-1, 255) ∧
      (-32768 : ℤ) ≤ -1 ∧ (-1 : ℤ) < 32768 ∧ (0 : ℤ) < 60 ∧ bitmap < wordSize ∧
      ((∀ t ∈ marks (-1) bitmap 60, -2 ^ 31 ≤ t ∧ t < 2 ^ 31) →
        initializedTicks (-1) bitmap 60 = marks (-1) bitmap 60) ∧
      (marks (-1) bitmap 60).Pairwise (· < ·) ∧
      (∀ t ∈ marks (-1) bitmap 60, ∃ bit, position (compress t 60) = (-1, bit) ∧ bitmap.testBit bit = true) ∧
      ∀ bit, bitmap.testBit bit = true → ∃! t, t ∈ marks (-1) bitmap 60 ∧ position (compress t 60) = (-1, bit) := by
  intro bitmap
  have hfit : bitmap < wordSize := by decide
  exact ⟨by decide +kernel, by decide +kernel, by decide, by decide, by decide, by decide, hfit,
    marks_invert (by decide) (by decide) (by decide) hfit⟩

end Bitmap
end Searcher

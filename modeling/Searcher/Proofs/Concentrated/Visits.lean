/-
# The ticks that a walk through the bitmap visits

A walk searches for a mark, goes on from what it has found, and searches again, until it leaves the range of ticks
(`Bitmap.visits`). One search passes no marked tick and ends beyond where it began (`next_spec`), so a walk makes
progress at every search and comes to an end, and its visits are in order. The flagged ones are the set bits ahead of
it, each once (`exists_visit`), and one without a flag is the edge of a word with nothing left on that side
(`next_unmarked`).

No word number wraps around, since the compressed ticks of the range are few (`exists_position`). No tick that a search
computes leaves 32 bits either, for any spacing below `2 ^ 23` (`next_fits`).
-/

import Searcher.Proofs.Concentrated.Advance
import Searcher.Proofs.Concentrated.Search

namespace Searcher
namespace Bitmap

variable {bits : ℤ → ℕ} {spacing tick word t : ℤ} {left : Bool}

/-! ### Words and their marks -/

/-- A tick is a mark: one of the words, which are numbered with sixteen bits and a sign, has its bit set. -/
def IsMark (bits : ℤ → ℕ) (spacing t : ℤ) : Prop :=
  ∃ word : ℤ, -32768 ≤ word ∧ word < 32768 ∧ t ∈ marks word (bits word) spacing

/-- The marks of a word are the multiples of the spacing at the bits that are set. -/
theorem mem_marks {b : ℕ} :
    t ∈ marks word b spacing ↔ ∃ bit : ℕ, bit < 256 ∧ b.testBit bit = true ∧ t = (word * 256 + bit) * spacing := by
  simp only [marks, List.mem_map, mem_setBits]
  constructor
  · rintro ⟨bit, ⟨hbit, hset⟩, rfl⟩
    exact ⟨bit, hbit, hset, rfl⟩
  · rintro ⟨bit, hbit, hset, rfl⟩
    exact ⟨bit, ⟨hbit, hset⟩, rfl⟩

/-- Every bit of a word has the word and the bit as its position, if the word has 16 bits. -/
theorem position_mul_add (hlow : -32768 ≤ word) (hhigh : word < 32768) {bit : ℕ} (hbit : bit < 256) :
    position (word * 256 + bit) = (word, bit) := by
  have hword : (word * 256 + bit) / 256 = word := by omega
  have hrest : (word * 256 + bit) % 256 = bit := by omega
  rw [position, hword, hrest, Int.toNat_natCast, Int.bmod_eq_of_le (by omega) (by omega)]

/-- Compressed ticks of the range, and the one after them, lie in words that sixteen bits can number. -/
theorem exists_position {c : ℤ} (hlow : Tick.least ≤ c) (hhigh : c ≤ Tick.largest + 1) :
    ∃ (word : ℤ) (bit : ℕ), -32768 ≤ word ∧ word < 32768 ∧ bit < 256 ∧ c = word * 256 + bit := by
  unfold Tick.least at hlow
  unfold Tick.largest at hhigh
  exact ⟨c / 256, (c % 256).toNat, by omega, by omega, by omega, by omega⟩

/-- Dividing by the spacing does not lead below the range of ticks. -/
theorem least_le_compress (hs : 0 < spacing) (h : Tick.least ≤ tick) : Tick.least ≤ compress tick spacing := by
  refine (Int.le_ediv_iff_mul_le hs).2 (le_trans ?_ h)
  unfold Tick.least
  omega

/-- Nor does it lead above it. -/
theorem compress_le_largest (hs : 0 < spacing) (h : tick ≤ Tick.largest) : compress tick spacing ≤ Tick.largest := by
  refine Int.le_of_lt_add_one ((Int.ediv_lt_iff_lt_mul hs).2 (lt_of_le_of_lt h ?_))
  unfold Tick.largest
  omega

/-- Within the range of ticks no number of a word wraps around, and to be marked is to be a mark. -/
theorem marked_iff_isMark (hs : 0 < spacing) (hlow : Tick.least ≤ t) (hhigh : t ≤ Tick.largest) :
    marked bits spacing t = true ↔ IsMark bits spacing t := by
  constructor
  · intro h
    obtain ⟨hdvd, hset⟩ := Bool.and_eq_true_iff.1 h
    have hmul : t = compress t spacing * spacing := (Int.ediv_mul_cancel (of_decide_eq_true hdvd)).symm
    obtain ⟨word, bit, hword, hword', hbit, hc⟩ :=
      exists_position (least_le_compress hs hlow) ((compress_le_largest hs hhigh).trans (by omega))
    rw [hc, position_mul_add hword hword' hbit] at hset
    rw [hc] at hmul
    exact ⟨word, hword, hword', mem_marks.2 ⟨bit, hbit, hset, hmul⟩⟩
  · rintro ⟨word, hword, hword', hmem⟩
    obtain ⟨bit, hbit, hset, rfl⟩ := mem_marks.1 hmem
    rw [marked_mul hs, position_mul_add hword hword' hbit]
    exact hset

/-! ### One search -/

/-- What a search from a tick finds. -/
def next (bits : ℤ → ℕ) (spacing : ℤ) (left : Bool) (tick : ℤ) : Found :=
  search (bits (position (start tick spacing left)).1) (start tick spacing left) spacing left

/-- A search over fixed words finds just that. -/
theorem nextTick_fixed {σ : Type} (bits : ℤ → ℕ) (nets : ℤ → ℤ → ℤ) (spacing : ℤ) (left : Bool) (tick : ℤ) (s : σ) :
    (TickSource.fixed bits nets).nextTick tick spacing left s = (.ok (next bits spacing left tick), s) := rfl

/-- The tick from which a walk goes on after it has found one. -/
def resume (left : Bool) (tick : ℤ) : ℤ := if left then tick - 1 else tick

/-- What is ahead of a search that goes on is ahead of the search before. -/
theorem Ahead.resume {found : ℤ} (h : Ahead left tick found) (h' : Ahead left (resume left found) t) :
    Ahead left tick t := by
  cases left <;> simp only [Ahead, Bitmap.resume, Bool.false_eq_true, if_true, if_false] at * <;> omega

/-- **One search** finds a tick ahead and tells whether it is marked. Marked ticks ahead that it does not find are still
ahead when the walk goes on. -/
theorem next_spec (bits : ℤ → ℕ) (hs : 0 < spacing) (hs' : spacing < 2 ^ 23) (left : Bool) (hlow : Tick.least ≤ tick)
    (hhigh : tick ≤ Tick.largest) :
    let found := next bits spacing left tick
    Ahead left tick found.tick ∧ found.marked = marked bits spacing found.tick ∧
      ∀ t, Ahead left tick t → marked bits spacing t = true →
        t = found.tick ∨ Ahead left (resume left found.tick) t := by
  cases left with
  | false =>
    obtain ⟨hahead, hmarked, hclear⟩ := search_right bits hs hs' hlow hhigh
    refine ⟨hahead, hmarked, fun t ht hset => ?_⟩
    rcases lt_trichotomy t (next bits spacing false tick).tick with hlt | heq | hgt
    · rw [hclear t ht hlt] at hset
      cases hset
    · exact .inl heq
    · exact .inr hgt
  | true =>
    obtain ⟨hahead, hmarked, hclear⟩ := search_left bits hs hs' hlow hhigh
    refine ⟨hahead, hmarked, fun t ht hset => ?_⟩
    rcases lt_trichotomy t (next bits spacing true tick).tick with hlt | heq | hgt
    · exact .inr (Int.le_sub_one_of_lt hlt)
    · exact .inl heq
    · rw [hclear t hgt ht] at hset
      cases hset

/-- The outermost compressed tick of a word on the side to which a walk goes. -/
def edge (left : Bool) (word : ℤ) : ℤ := if left then word * 256 else word * 256 + 255

/-- Where a search from a tick of the range begins: at a bit of a word. -/
theorem exists_start (hs : 0 < spacing) (hlow : Tick.least ≤ tick) (hhigh : tick ≤ Tick.largest) (left : Bool) :
    ∃ (word : ℤ) (bit : ℕ), -32768 ≤ word ∧ word < 32768 ∧ bit < 256 ∧
      start tick spacing left = word * 256 + bit ∧ position (start tick spacing left) = (word, bit) := by
  have hc := least_le_compress hs hlow
  have hc' := compress_le_largest hs hhigh
  have hstart : Tick.least ≤ start tick spacing left ∧ start tick spacing left ≤ Tick.largest + 1 := by
    cases left <;> simp only [start, Bool.false_eq_true, if_true, if_false] <;> omega
  obtain ⟨word, bit, hword, hword', hbit, hstart⟩ := exists_position hstart.1 hstart.2
  exact ⟨word, bit, hword, hword', hbit, hstart, by rw [hstart, position_mul_add hword hword' hbit]⟩

/-- A search to the left from a tick of the range, by the bits of its word. -/
theorem next_left (bits : ℤ → ℕ) (hs : 0 < spacing) (hs' : spacing < 2 ^ 23) (hlow : Tick.least ≤ tick)
    (hhigh : tick ≤ Tick.largest) :
    ∃ (word : ℤ) (bit i : ℕ), position (start tick spacing true) = (word, bit) ∧
      start tick spacing true = word * 256 + bit ∧ bit < 256 ∧ i ≤ bit ∧
      next bits spacing true tick = ⟨(word * 256 + i) * spacing, (bits word).testBit i⟩ ∧
      ((bits word).testBit i = true ∨ i = 0) ∧ ∀ j, i < j → j ≤ bit → (bits word).testBit j = false := by
  obtain ⟨word, bit, -, -, hbit, hstart, hpos⟩ := exists_start hs hlow hhigh true
  obtain ⟨i, hi, hfound, hedge, hclear⟩ := searchLeft_spec (bits word) (start tick spacing true) spacing
  rw [hpos] at hi hfound hclear
  refine ⟨word, bit, i, hpos, hstart, hbit, hi, ?_, hedge, hclear⟩
  have hshift : start tick spacing true - (bit - i) = word * 256 + i := by omega
  have hfits := left_fits (k := word * 256 + i) hs hs' hlow hhigh (by omega) (by omega)
  rw [next, hpos, search, if_pos rfl, hfound, hshift, tickOf_of_fits hfits]

/-- A search to the right from a tick of the range, by the bits of its word. -/
theorem next_right (bits : ℤ → ℕ) (hs : 0 < spacing) (hs' : spacing < 2 ^ 23) (hlow : Tick.least ≤ tick)
    (hhigh : tick ≤ Tick.largest) :
    ∃ (word : ℤ) (bit i : ℕ), position (start tick spacing false) = (word, bit) ∧
      start tick spacing false = word * 256 + bit ∧ bit ≤ i ∧ i < 256 ∧
      next bits spacing false tick = ⟨(word * 256 + i) * spacing, (bits word).testBit i⟩ ∧
      ((bits word).testBit i = true ∨ i = 255) ∧ ∀ j, bit ≤ j → j < i → (bits word).testBit j = false := by
  obtain ⟨word, bit, -, -, hbit, hstart, hpos⟩ := exists_start hs hlow hhigh false
  obtain ⟨i, hi, hi', hfound, hedge, hclear⟩ := searchRight_spec (bits word) (start tick spacing false) spacing
  rw [hpos] at hi hfound hclear
  refine ⟨word, bit, i, hpos, hstart, hi, hi', ?_, hedge, hclear⟩
  have hshift : start tick spacing false + (i - bit) = word * 256 + i := by omega
  have hfits := right_fits (k := word * 256 + i) hs hs' hlow hhigh (by omega) (by omega)
  rw [next, hpos, search, if_neg Bool.false_ne_true, hfound, hshift, tickOf_of_fits hfits]

/-- A search that finds no mark has come to the edge of its word, and the word has no mark on that side. -/
theorem next_unmarked (hs : 0 < spacing) (hs' : spacing < 2 ^ 23) (hlow : Tick.least ≤ tick)
    (hhigh : tick ≤ Tick.largest) (h : (next bits spacing left tick).marked = false) :
    let word := (position (start tick spacing left)).1
    (next bits spacing left tick).tick = edge left word * spacing ∧
      ∀ t ∈ marks word (bits word) spacing, ¬ Ahead left tick t := by
  cases left with
  | true =>
    obtain ⟨word, bit, i, hpos, hstart, -, -, hnext, hedge, hclear⟩ := next_left bits hs hs' hlow hhigh
    rw [hnext] at h
    obtain rfl : i = 0 := hedge.resolve_left (Bool.eq_false_iff.1 h)
    rw [hpos, hnext]
    refine ⟨by simp [edge], fun t ht => ?_⟩
    obtain ⟨j, -, hset, rfl⟩ := mem_marks.1 ht
    have hbeyond : bit < j := by
      by_contra hle
      rcases Nat.eq_zero_or_pos j with rfl | hpos
      · exact Bool.false_ne_true (h.symm.trans hset)
      · exact Bool.false_ne_true ((hclear j hpos (not_lt.1 hle)).symm.trans hset)
    have hle : (start tick spacing true + 1) * spacing ≤ (word * 256 + j) * spacing :=
      Int.mul_le_mul_of_nonneg_right (by omega) hs.le
    exact not_le.2 ((start_left_bounds _ hs).2.trans_le hle)
  | false =>
    obtain ⟨word, bit, i, hpos, hstart, -, -, hnext, hedge, hclear⟩ := next_right bits hs hs' hlow hhigh
    rw [hnext] at h
    obtain rfl : i = 255 := hedge.resolve_left (Bool.eq_false_iff.1 h)
    rw [hpos, hnext]
    refine ⟨by simp [edge], fun t ht => ?_⟩
    obtain ⟨j, hj, hset, rfl⟩ := mem_marks.1 ht
    have hbefore : j < bit := by
      by_contra hle
      rcases Nat.lt_or_eq_of_le (Nat.le_of_lt_succ hj) with hlt | rfl
      · exact Bool.false_ne_true ((hclear j (not_lt.1 hle) hlt).symm.trans hset)
      · exact Bool.false_ne_true (h.symm.trans hset)
    have hle : (word * 256 + j) * spacing ≤ (start tick spacing false - 1) * spacing :=
      Int.mul_le_mul_of_nonneg_right (by omega) hs.le
    exact not_lt.2 (hle.trans (start_right_bounds _ hs).1)

/-- What a search computes keeps within 32 bits. -/
theorem next_fits (bits : ℤ → ℕ) (hs : 0 < spacing) (hs' : spacing < 2 ^ 23) (left : Bool) (hlow : Tick.least ≤ tick)
    (hhigh : tick ≤ Tick.largest) :
    -2 ^ 31 < (next bits spacing left tick).tick ∧ (next bits spacing left tick).tick < 2 ^ 31 := by
  cases left with
  | true =>
    obtain ⟨word, bit, i, -, hstart, hbit, hi, hnext, -⟩ := next_left bits hs hs' hlow hhigh
    rw [hnext]
    exact left_fits hs hs' hlow hhigh (by omega) (by omega)
  | false =>
    obtain ⟨word, bit, i, -, hstart, hi, hi', hnext, -⟩ := next_right bits hs hs' hlow hhigh
    rw [hnext]
    exact right_fits hs hs' hlow hhigh (by omega) (by omega)

/-! ### The walk -/

/-- One visit of a walk: the tick that it searches from, and what it finds. -/
structure Visit where
  origin : ℤ
  found : Found
deriving DecidableEq, Repr

/-- The ticks of the range that are left to a walk. -/
def room (left : Bool) (tick : ℤ) : ℕ :=
  if left then (tick - Tick.least + 1).toNat else (Tick.largest - tick + 1).toNat

/-- A search that goes on has less room left: it starts beyond what was found. -/
theorem Ahead.room_lt {found : ℤ} (h : Ahead left tick found) (hlow : Tick.least ≤ tick) (hhigh : tick ≤ Tick.largest) :
    room left (Bitmap.resume left found) < room left tick := by
  cases left <;> simp only [Ahead, room, Bitmap.resume, Bool.false_eq_true, if_true, if_false] at * <;> omega

/-- The visits of a walk from a tick, while it is in the range of ticks. -/
def visits (bits : ℤ → ℕ) (hs : 0 < spacing) (hs' : spacing < 2 ^ 23) (left : Bool) (tick : ℤ) : List Visit :=
  if Tick.least ≤ tick ∧ tick ≤ Tick.largest then
    ⟨tick, next bits spacing left tick⟩ :: visits bits hs hs' left (resume left (next bits spacing left tick).tick)
  else []
termination_by room left tick
decreasing_by
  rename_i hrange
  exact (next_spec bits hs hs' left hrange.1 hrange.2).1.room_lt hrange.1 hrange.2

variable {v : Visit}

/-- Every visit is a search from a tick of the range, and finds a tick ahead of where the walk set out. -/
theorem visit_spec (hs : 0 < spacing) (hs' : spacing < 2 ^ 23) (hv : v ∈ visits bits hs hs' left tick) :
    Tick.least ≤ v.origin ∧ v.origin ≤ Tick.largest ∧ v.found = next bits spacing left v.origin ∧
      Ahead left tick v.found.tick := by
  induction tick using visits.induct bits hs hs' left with
  | case1 tick hrange ih =>
    have hahead := (next_spec bits hs hs' left hrange.1 hrange.2).1
    rw [visits, if_pos hrange, List.mem_cons] at hv
    rcases hv with rfl | hv
    · exact ⟨hrange.1, hrange.2, rfl, hahead⟩
    · obtain ⟨hlow, hhigh, hfound, hlater⟩ := ih hv
      exact ⟨hlow, hhigh, hfound, hahead.resume hlater⟩
  | case2 tick hrange =>
    rw [visits, if_neg hrange] at hv
    cases hv

/-- A walk comes to its ticks in the order of its direction. -/
theorem visits_pairwise (bits : ℤ → ℕ) (hs : 0 < spacing) (hs' : spacing < 2 ^ 23) (left : Bool) (tick : ℤ) :
    (visits bits hs hs' left tick).Pairwise fun v w => Ahead left (resume left v.found.tick) w.found.tick := by
  induction tick using visits.induct bits hs hs' left with
  | case1 tick hrange ih =>
    rw [visits, if_pos hrange, List.pairwise_cons]
    exact ⟨fun w hw => (visit_spec hs hs' hw).2.2.2, ih⟩
  | case2 tick hrange =>
    rw [visits, if_neg hrange]
    exact .nil

/-- A walk finds every marked tick of the range that is ahead of it. The bound on the side that it comes from is kept as
it goes. -/
theorem exists_visit (hs : 0 < spacing) (hs' : spacing < 2 ^ 23) (hlow : Tick.least ≤ t) (hhigh : t ≤ Tick.largest)
    (hmarked : marked bits spacing t = true) (hbehind : if left then tick ≤ Tick.largest else Tick.least ≤ tick)
    (ht : Ahead left tick t) : ∃ v ∈ visits bits hs hs' left tick, v.found = ⟨t, true⟩ := by
  induction tick using visits.induct bits hs hs' left with
  | case1 tick hrange ih =>
    obtain ⟨hahead, hflag, hnone⟩ := next_spec bits hs hs' left hrange.1 hrange.2
    rw [visits, if_pos hrange]
    rcases hnone t ht hmarked with rfl | hlater
    · refine ⟨_, List.mem_cons_self, ?_⟩
      rw [← hmarked, ← hflag]
    · have hbehind : if left then resume left (next bits spacing left tick).tick ≤ Tick.largest
          else Tick.least ≤ resume left (next bits spacing left tick).tick := by
        cases left <;> simp only [Ahead, resume, Bool.false_eq_true, if_true, if_false] at * <;> omega
      obtain ⟨v, hv, hfound⟩ := ih hbehind hlater
      exact ⟨v, List.mem_cons_of_mem _ hv, hfound⟩
  | case2 tick hrange =>
    cases left <;> simp only [Ahead, Bool.false_eq_true, if_true, if_false] at * <;> omega

/-- **A walk through the bitmap** from a tick of the range. Every visit is a search that makes progress and stays within
32 bits, and the found ticks are in strict order, falling to the left and rising to the right. In the range, the flagged
ones are just the marks that the walk has ahead: up to its first tick to the left, after it to the right. A search that
finds no mark has come to the edge of its word, which has none on that side. -/
theorem visits_marks (bits : ℤ → ℕ) (nets : ℤ → ℤ → ℤ) (hs : 0 < spacing) (hs' : spacing < 2 ^ 23) (left : Bool)
    (hlow : Tick.least ≤ tick) (hhigh : tick ≤ Tick.largest) :
    let walk := visits bits hs hs' left tick
    (∀ v ∈ walk, (TickSource.fixed bits nets).nextTick v.origin spacing left () = (.ok v.found, ()) ∧
      (if left then v.found.tick ≤ v.origin else v.origin < v.found.tick) ∧
      -2 ^ 31 < v.found.tick ∧ v.found.tick < 2 ^ 31) ∧
    (walk.Pairwise fun v w => if left then w.found.tick < v.found.tick else v.found.tick < w.found.tick) ∧
    (∀ t, Tick.least ≤ t → t ≤ Tick.largest →
      ((∃ v ∈ walk, v.found = ⟨t, true⟩) ↔ (if left then t ≤ tick else tick < t) ∧ IsMark bits spacing t)) ∧
    ∀ v ∈ walk, v.found.marked = false →
      let word := (position (start v.origin spacing left)).1
      v.found.tick = edge left word * spacing ∧
        ∀ t ∈ marks word (bits word) spacing, if left then v.origin < t else t ≤ v.origin := by
  intro walk
  refine ⟨fun v hv => ?_, ?_, fun t ht ht' => ⟨?_, ?_⟩, fun v hv hflag => ?_⟩
  · obtain ⟨hlow, hhigh, hfound, -⟩ := visit_spec hs hs' hv
    rw [hfound]
    exact ⟨nextTick_fixed bits nets spacing left v.origin (), (next_spec bits hs hs' left hlow hhigh).1,
      next_fits bits hs hs' left hlow hhigh⟩
  · refine (visits_pairwise bits hs hs' left tick).imp fun {v w} hahead => ?_
    cases left with
    | true => exact Int.lt_of_le_sub_one hahead
    | false => exact hahead
  · rintro ⟨v, hv, hv'⟩
    obtain ⟨hlow, hhigh, hfound, hahead⟩ := visit_spec hs hs' hv
    have hmarked := (next_spec bits hs hs' left hlow hhigh).2.1
    rw [← hfound, hv'] at hmarked
    rw [hv'] at hahead
    exact ⟨hahead, (marked_iff_isMark hs ht ht').1 hmarked.symm⟩
  · rintro ⟨hahead, hmark⟩
    refine exists_visit hs hs' ht ht' ((marked_iff_isMark hs ht ht').2 hmark) ?_ hahead
    cases left with
    | true => exact hhigh
    | false => exact hlow
  · obtain ⟨hlow, hhigh, hfound, -⟩ := visit_spec hs hs' hv
    rw [hfound] at hflag ⊢
    obtain ⟨hedge, hnone⟩ := next_unmarked hs hs' hlow hhigh hflag
    refine ⟨hedge, fun t ht => ?_⟩
    cases left with
    | true => exact not_le.1 (hnone t ht)
    | false => exact not_lt.1 (hnone t ht)

/-- With marks at `-120`, `0` and `600`, a walk down from a tick between two multiples of the spacing comes to the mark
in the word below zero, and not to the one above. -/
theorem visits_marks_downwards :
    let bits : ℤ → ℕ := fun word => if word = 0 then 2 ^ 10 + 1 else if word = -1 then 2 ^ 254 else 0
    let hs : (0 : ℤ) < 60 := by decide
    let hs' : (60 : ℤ) < 2 ^ 23 := by decide
    (Tick.least ≤ 59 ∧ (59 : ℤ) ≤ Tick.largest ∧ (60 : ℤ) < 2 ^ 23) ∧
      (∃ v ∈ visits bits hs hs' true 59, v.found = ⟨-120, true⟩) ∧
      ¬ ∃ v ∈ visits bits hs hs' true 59, v.found = ⟨600, true⟩ := by
  intro bits hs hs'
  have hlow : Tick.least ≤ 59 := by decide
  have hhigh : (59 : ℤ) ≤ Tick.largest := by decide
  obtain ⟨-, -, hiff, -⟩ := visits_marks bits (fun _ _ => 0) hs hs' true hlow hhigh
  have hmark : IsMark bits 60 (-120) := ⟨-1, by decide, by decide, mem_marks.2 ⟨254, by decide, by decide, by decide⟩⟩
  refine ⟨⟨hlow, hhigh, hs'⟩, (hiff (-120) (by decide) (by decide)).2 ⟨by decide, hmark⟩, fun hfound => ?_⟩
  exact absurd ((hiff 600 (by decide) (by decide)).1 hfound).1 (by decide)

end Bitmap
end Searcher

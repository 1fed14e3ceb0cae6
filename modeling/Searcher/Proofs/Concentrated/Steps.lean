/-
# Where a step of a swap ends

A swap on its way *stands* where its root is between those of its tick and of the next one. From there a step aims at
the nearest tick that may be marked, and no tick before that one is (`aim_up`, `aim_down`). It either comes to the root
of that tick, passes the tick, and changes the liquidity as the mark says, or it stops before, at the same liquidity,
in the tick of the root that it has come to. Either way it stands again, and neither its root nor its tick has moved
against the direction (`advance_up_cases`, `advance_down_cases`).
-/

import Searcher.Proofs.Concentrated.Profile
import Searcher.Proofs.Tick.Inverse

namespace Searcher
namespace Concentrated

open Tick

variable {σ : Type} {bits : ℤ → ℕ} {nets : ℤ → ℤ → ℤ} {fee : ℕ} {spacing : ℤ} {p p' : Progress} {u u' : σ}
  {t t' next : ℤ} {x x' : ℕ}

/-- Upwards the limit is below the largest root. -/
theorem priceLimit_false_lt : priceLimit false < root largest := by
  rw [root_largest]
  decide

/-- Downwards it is above the least one. -/
theorem lt_priceLimit_true : root least < priceLimit true := by
  rw [root_least]
  decide

/-- At its own root a tick is begun. -/
theorem stands_root (ht : least ≤ t) (htl : t < largest) : Stands t (root t) :=
  ⟨ht, htl, le_rfl, (root_le_root_iff ht htl.le (by omega) (by omega)).2 (by omega)⟩

/-- At the root of the next tick a tick is at its end. -/
theorem stands_root_succ (ht : least ≤ t) (htl : t < largest) : Stands t (root (t + 1)) :=
  ⟨ht, htl, (root_le_root_iff ht htl.le (by omega) (by omega)).2 (by omega), le_rfl⟩

/-- A swap that may begin has not come to the end of its range. -/
theorem inside_of_atLimit {state : ConcentratedState} {zeroForOne : Bool} (h : state.atLimit zeroForOne = false) :
    Onward zeroForOne state.sqrtPrice (priceLimit zeroForOne) := by
  cases zeroForOne with
  | false =>
    have : state.sqrtPrice < priceLimit false := by simpa [ConcentratedState.atLimit] using h
    exact this.le
  | true =>
    have : priceLimit true < state.sqrtPrice := by simpa [ConcentratedState.atLimit] using h
    exact this.le

/-- The tick of a root that a step has stopped at before what it aimed at. -/
theorem stands_of_stopped (h : Stands t x) (hcase : x' = x ∧ t' = t ∨ x' ≠ x ∧ ofSqrtPrice x' = .ok t') :
    Stands t' x' ∧ (x ≤ x' → t ≤ t') ∧ (x' ≤ x → t' ≤ t) := by
  rcases hcase with ⟨rfl, rfl⟩ | ⟨hne, h'⟩
  · exact ⟨h, fun _ => le_rfl, fun _ => le_rfl⟩
  · obtain ⟨ht', htl', hroot', hnext'⟩ := ofSqrtPrice_eq_ok h'
    have hstands : Stands t' x' := ⟨ht', htl', hroot', hnext'.le⟩
    have ht := h.least_le
    refine ⟨hstands, fun hle => ?_, fun hle => ?_⟩
    · have := h.lt_of_lt_root (s := t' + 1) (by omega) (hle.trans_lt hnext')
      omega
    · have := hstands.lt_of_lt_root (s := t + 1) (by omega) ((lt_of_le_of_ne hle hne).trans_le h.le_root)
      omega

/-! ### What a step aims at -/

/-- A step upwards aims at a tick above. No tick below that is marked, and the search knows whether it is marked itself
unless it is the end of the range. -/
theorem aim_up (bits : ℤ → ℕ) (hs : 0 < spacing) (hs' : spacing < 2 ^ 23) (ht : least ≤ t)
    (htl : t < largest) :
    let found := Bitmap.search (bits (Bitmap.position (Bitmap.start t spacing false)).1)
      (Bitmap.start t spacing false) spacing false
    t < clampTick found.tick ∧ clampTick found.tick ≤ largest ∧
      (clampTick found.tick < largest → found.marked = Bitmap.marked bits spacing (clampTick found.tick)) ∧
      ∀ r, t < r → r < clampTick found.tick → Bitmap.marked bits spacing r = false := by
  intro found
  obtain ⟨habove, hmarked, hclear⟩ : t < found.tick ∧ found.marked = Bitmap.marked bits spacing found.tick ∧
      ∀ r, t < r → r < found.tick → Bitmap.marked bits spacing r = false := Bitmap.search_right bits hs hs' ht htl.le
  have hnext : t < clampTick found.tick ∧ clampTick found.tick ≤ largest ∧ clampTick found.tick ≤ found.tick ∧
      (clampTick found.tick < largest → clampTick found.tick = found.tick) := by
    unfold clampTick least largest at *
    omega
  obtain ⟨hlt, hnl, hle, hfound⟩ := hnext
  exact ⟨hlt, hnl, fun h => by rw [hfound h]; exact hmarked, fun r hr hr' => hclear r hr (by omega)⟩

/-- A step downwards aims at a tick that is not above. No tick after that one is marked, and the search knows whether it
is marked itself unless it is the end of the range. -/
theorem aim_down (bits : ℤ → ℕ) (hs : 0 < spacing) (hs' : spacing < 2 ^ 23) (ht : least ≤ t)
    (htl : t < largest) :
    let found := Bitmap.search (bits (Bitmap.position (Bitmap.start t spacing true)).1)
      (Bitmap.start t spacing true) spacing true
    clampTick found.tick ≤ t ∧ least ≤ clampTick found.tick ∧
      (least < clampTick found.tick → found.marked = Bitmap.marked bits spacing (clampTick found.tick)) ∧
      ∀ r, clampTick found.tick < r → r ≤ t → Bitmap.marked bits spacing r = false := by
  intro found
  obtain ⟨hbelow, hmarked, hclear⟩ : found.tick ≤ t ∧ found.marked = Bitmap.marked bits spacing found.tick ∧
      ∀ r, found.tick < r → r ≤ t → Bitmap.marked bits spacing r = false := Bitmap.search_left bits hs hs' ht htl.le
  have hnext : clampTick found.tick ≤ t ∧ least ≤ clampTick found.tick ∧ found.tick ≤ clampTick found.tick ∧
      (least < clampTick found.tick → clampTick found.tick = found.tick) := by
    unfold clampTick least largest at *
    omega
  obtain ⟨hle, hnl, hge, hfound⟩ := hnext
  exact ⟨hle, hnl, fun h => by rw [hfound h]; exact hmarked, fun r hr hr' => hclear r (by omega) hr'⟩

/-! ### What a step does -/

/-- The swap between two ticks that took `p` to `p'`. It took at least the exact amount for the way that the root went,
and paid at most that. -/
structure Spends (zeroForOne : Bool) (p p' : Progress) (s : Step) : Prop where
  takes : p.liquidity * (level zeroForOne p'.sqrtPrice - level zeroForOne p.sqrtPrice) ≤ s.amountIn
  pays : s.amountOut ≤ p.liquidity * (level (!zeroForOne) p.sqrtPrice - level (!zeroForOne) p'.sqrtPrice)
  remaining : p'.remaining + (s.amountIn + s.fee) = p.remaining
  amountOut : p'.amountOut = p.amountOut + s.amountOut

/-- A swap on its way that stands in its tick and within its range. -/
structure Standing (zeroForOne : Bool) (p : Progress) : Prop where
  stands : Stands p.tick p.sqrtPrice
  inside : Onward zeroForOne p.sqrtPrice (priceLimit zeroForOne)

/-- **A step from where a swap stands** leads to where it stands again, moves neither root nor tick against the
direction, keeps the liquidity within its bits, and spends accordingly. -/
structure Goes (zeroForOne : Bool) (p p' : Progress) : Prop extends Standing zeroForOne p' where
  fits : p.liquidity < 2 ^ 128 → p'.liquidity < 2 ^ 128
  sqrtPrice : Onward zeroForOne p.sqrtPrice p'.sqrtPrice
  tick : Onward zeroForOne p.tick p'.tick
  spends : ∃ s, Spends zeroForOne p p' s

/-- A step upwards: it comes to the tick `next` and passes it, or stops before. -/
theorem advance_up_cases (hs : 0 < spacing) (hs' : spacing < 2 ^ 23) (hp : Standing false p)
    (h : advance (.fixed bits nets) fee spacing false p u = (.ok p', u')) :
    Goes false p p' ∧
      ∃ next, p.tick < next ∧ (∀ r, p.tick < r → r < next → Bitmap.marked bits spacing r = false) ∧
        (next < largest ∧ p'.sqrtPrice = root next ∧ p'.tick = next ∧
            (p'.liquidity : ℤ) = beyond bits nets spacing false next p.liquidity ∧
            p'.crossed = p.crossed + (if Bitmap.marked bits spacing next then 1 else 0) ∨
          p'.tick < next ∧ p'.liquidity = p.liquidity ∧ p'.crossed = p.crossed) := by
  obtain ⟨found, root', s, hfound, hroot, hstep, hremaining, hamount, hprice, hfits, hcase⟩ := advance_cases h
  simp only [Bool.false_eq_true, if_false] at hstep hcase
  obtain ⟨hstands, hinside⟩ := hp
  have ht := hstands.least_le
  have haim := aim_up bits hs hs' ht hstands.lt_largest
  rw [← hfound] at haim
  set next := clampTick found.tick
  obtain ⟨hlt, hnl, hmarked, hclear⟩ := haim
  obtain rfl : root next = root' := Except.ok.inj ((sqrtPrice_eq (by omega) hnl).symm.trans hroot)
  have htarget : p.sqrtPrice ≤ min (root next) (priceLimit false) := le_min (hstands.le_root_of_lt hlt hnl) hinside
  obtain ⟨-, hge, hle, hin, hout⟩ := step_bounds_up hstep htarget
  rw [← hprice] at hge hle hin hout hcase
  obtain ⟨hle, hlimit⟩ := le_min_iff.1 hle
  have hspent : ∃ s, Spends false p p' s := ⟨s, hin, hout, hremaining, hamount⟩
  rcases hcase with ⟨hreached, htick, hliq, hcrossed⟩ | ⟨hshort, hliq, hcrossed, hcase⟩
  · -- the root is reached and the tick passed
    have hnl' : next < largest := by
      refine lt_of_le_of_ne hnl fun heq => ?_
      rw [hreached, heq] at hlimit
      exact absurd hlimit (not_le.2 priceLimit_false_lt)
    rw [hmarked hnl'] at hliq hcrossed
    have hstands' : Stands p'.tick p'.sqrtPrice := by
      rw [htick, hreached]
      exact stands_root (by omega) hnl'
    have hup : p.tick ≤ p'.tick := by omega
    refine ⟨⟨⟨hstands', hlimit⟩, hfits, hge, hup, hspent⟩, next, hlt, hclear, .inl ?_⟩
    exact ⟨hnl', hreached, htick, hliq, hcrossed⟩
  · -- the step stops before that root
    obtain ⟨hstands', hup, -⟩ := stands_of_stopped hstands hcase
    have hbefore : p'.tick < next := hstands'.lt_of_lt_root (by omega) (lt_of_le_of_ne hle hshort)
    exact ⟨⟨⟨hstands', hlimit⟩, hfits, hge, hup hge, hspent⟩, next, hlt, hclear, .inr ⟨hbefore, hliq, hcrossed⟩⟩

/-- A step downwards: it comes to the tick `next` and passes it, or stops at it or before. -/
theorem advance_down_cases (hs : 0 < spacing) (hs' : spacing < 2 ^ 23) (hp : Standing true p)
    (h : advance (.fixed bits nets) fee spacing true p u = (.ok p', u')) :
    Goes true p p' ∧
      ∃ next, next ≤ p.tick ∧ (∀ r, next < r → r ≤ p.tick → Bitmap.marked bits spacing r = false) ∧
        (least < next ∧ p'.sqrtPrice = root next ∧ p'.tick = next - 1 ∧
            (p'.liquidity : ℤ) = beyond bits nets spacing true next p.liquidity ∧
            p'.crossed = p.crossed + (if Bitmap.marked bits spacing next then 1 else 0) ∨
          next ≤ p'.tick ∧ p'.liquidity = p.liquidity ∧ p'.crossed = p.crossed) := by
  obtain ⟨found, root', s, hfound, hroot, hstep, hremaining, hamount, hprice, hfits, hcase⟩ := advance_cases h
  simp only [if_true] at hstep hcase
  obtain ⟨hstands, hinside⟩ := hp
  have ht := hstands.least_le
  have htl := hstands.lt_largest
  have haim := aim_down bits hs hs' ht htl
  rw [← hfound] at haim
  set next := clampTick found.tick
  obtain ⟨hnt, hnl, hmarked, hclear⟩ := haim
  obtain rfl : root next = root' := Except.ok.inj ((sqrtPrice_eq hnl (by omega)).symm.trans hroot)
  have htarget : max (root next) (priceLimit true) ≤ p.sqrtPrice := max_le (hstands.root_le_of_le hnl hnt) hinside
  obtain ⟨-, hge, hle, hin, hout⟩ := step_bounds_down hstep htarget
  rw [← hprice] at hge hle hin hout hcase
  obtain ⟨hge, hlimit⟩ := max_le_iff.1 hge
  have hspent : ∃ s, Spends true p p' s := ⟨s, hin, hout, hremaining, hamount⟩
  rcases hcase with ⟨hreached, htick, hliq, hcrossed⟩ | ⟨hshort, hliq, hcrossed, hcase⟩
  · -- the root is reached and the tick passed
    have hnl' : least < next := by
      refine lt_of_le_of_ne hnl fun heq => ?_
      rw [hreached, ← heq] at hlimit
      exact absurd hlimit (not_le.2 lt_priceLimit_true)
    rw [hmarked hnl'] at hliq hcrossed
    have hstands' := stands_root_succ (t := next - 1) (by omega) (by omega)
    rw [sub_add_cancel, ← hreached, ← htick] at hstands'
    have hdown : p'.tick ≤ p.tick := by omega
    refine ⟨⟨⟨hstands', hlimit⟩, hfits, hle, hdown, hspent⟩, next, hnt, hclear, .inl ?_⟩
    exact ⟨hnl', hreached, htick, hliq, hcrossed⟩
  · -- the step stops before that root
    obtain ⟨hstands', -, hdown⟩ := stands_of_stopped hstands hcase
    have hafter : next ≤ p'.tick := hstands'.le_of_root_lt (by omega) (lt_of_le_of_ne hge (Ne.symm hshort))
    exact ⟨⟨⟨hstands', hlimit⟩, hfits, hle, hdown hle, hspent⟩, next, hnt, hclear, .inr ⟨hafter, hliq, hcrossed⟩⟩

end Concentrated
end Searcher

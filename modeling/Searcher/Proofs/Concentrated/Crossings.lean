/-
# What a swap passes

On its way from one tick to another a swap passes the marked ticks between them, the one that it comes to included on
the way up and the one that it leaves on the way down (`Bitmap.crossings`). `Passes` says of two points on the way that
neither price nor tick has moved against the direction, that the liquidity differs by what the passed ticks state, and
that their number has been counted. A step passes one mark or none, so it is kept by a step; it composes, so it holds
of a whole swap, which ends where it stands and within its range.
-/

import Searcher.Proofs.Concentrated.Steps
import Searcher.Proofs.Loading.Fixed

namespace Searcher

namespace Bitmap

variable {α : Type} [AddCommMonoid α] {bits : ℤ → ℕ} {spacing : ℤ} {a b c : ℤ}

/-- The marks between two ticks are those up to any tick in between and those after it. -/
theorem sum_marksBetween_add (f : ℤ → α) (hab : a ≤ b) (hbc : b ≤ c) :
    ∑ t ∈ marksBetween bits spacing a c, f t =
      ∑ t ∈ marksBetween bits spacing a b, f t + ∑ t ∈ marksBetween bits spacing b c, f t := by
  have hunion : marksBetween bits spacing a c = marksBetween bits spacing a b ∪ marksBetween bits spacing b c := by
    ext t
    rw [Finset.mem_union, mem_marksBetween, mem_marksBetween, mem_marksBetween]
    constructor
    · rintro ⟨hlow, hhigh, hmarked⟩
      rcases le_or_gt t b with hle | hlt
      · exact .inl ⟨hlow, hle, hmarked⟩
      · exact .inr ⟨hlt, hhigh, hmarked⟩
    · rintro (⟨hlow, hle, hmarked⟩ | ⟨hlt, hhigh, hmarked⟩)
      · exact ⟨hlow, hle.trans hbc, hmarked⟩
      · exact ⟨hab.trans_lt hlt, hhigh, hmarked⟩
  have hdisjoint : Disjoint (marksBetween bits spacing a b) (marksBetween bits spacing b c) := by
    rw [Finset.disjoint_left]
    intro t ht ht'
    have := (mem_marksBetween.1 ht).2.1
    have := (mem_marksBetween.1 ht').1
    omega
  rw [hunion, Finset.sum_union hdisjoint]

/-- There are none where no tick is marked. -/
theorem marksBetween_eq_empty (hclear : ∀ t, a < t → t ≤ b → marked bits spacing t = false) :
    marksBetween bits spacing a b = ∅ := by
  refine Finset.eq_empty_of_forall_notMem fun t ht => ?_
  obtain ⟨hlow, hhigh, hmarked⟩ := mem_marksBetween.1 ht
  rw [hclear t hlow hhigh] at hmarked
  cases hmarked

/-- The marks where at most the tick `c` is one. -/
theorem marksBetween_eq (hac : a < c) (hcb : c ≤ b)
    (hclear : ∀ t, a < t → t ≤ b → t ≠ c → marked bits spacing t = false) :
    marksBetween bits spacing a b = if marked bits spacing c then {c} else ∅ := by
  split
  · rename_i hmarked
    ext t
    rw [mem_marksBetween, Finset.mem_singleton]
    constructor
    · rintro ⟨hlow, hhigh, ht⟩
      by_contra hne
      rw [hclear t hlow hhigh hne] at ht
      cases ht
    · rintro rfl
      exact ⟨hac, hcb, hmarked⟩
  · rename_i hunmarked
    refine marksBetween_eq_empty fun t hlow hhigh => ?_
    by_cases hne : t = c
    · rw [hne]
      exact Bool.eq_false_iff.2 hunmarked
    · exact hclear t hlow hhigh hne

end Bitmap

namespace Concentrated

open Tick Bitmap

variable {σ : Type} {bits : ℤ → ℕ} {nets : ℤ → ℤ → ℤ} {fee : ℕ} {spacing : ℤ} {zeroForOne : Bool}
  {p p' p'' : Progress} {u u' : σ}

/-- **A swap passes from `p` to `p'`,** and changes its liquidity by what the marks on the way state. -/
structure Passes (bits : ℤ → ℕ) (nets : ℤ → ℤ → ℤ) (spacing : ℤ) (zeroForOne : Bool) (p p' : Progress) : Prop where
  sqrtPrice : Onward zeroForOne p.sqrtPrice p'.sqrtPrice
  tick : Onward zeroForOne p.tick p'.tick
  liquidity : (p'.liquidity : ℤ) = p.liquidity +
    ∑ t ∈ crossings bits spacing zeroForOne p.tick p'.tick, crossing nets spacing zeroForOne t true
  crossed : p'.crossed = p.crossed + (crossings bits spacing zeroForOne p.tick p'.tick).card

/-- What is crossed on the way is crossed on its first part or on its second, in either direction. -/
theorem sum_crossings_add {α : Type} [AddCommMonoid α] (f : ℤ → α) {a b c : ℤ} (hab : Onward zeroForOne a b)
    (hbc : Onward zeroForOne b c) :
    ∑ t ∈ crossings bits spacing zeroForOne a c, f t =
      ∑ t ∈ crossings bits spacing zeroForOne a b, f t + ∑ t ∈ crossings bits spacing zeroForOne b c, f t := by
  cases zeroForOne with
  | false => exact sum_marksBetween_add f hab hbc
  | true => exact (sum_marksBetween_add f hbc hab).trans (add_comm _ _)

/-- Nothing is crossed on no way. -/
theorem crossings_self (a : ℤ) : crossings bits spacing zeroForOne a a = ∅ := by
  cases zeroForOne <;> exact marksBetween_eq_empty fun _ _ _ => by omega

/-- A swap passes to where it is. -/
theorem Passes.refl (p : Progress) : Passes bits nets spacing zeroForOne p p where
  sqrtPrice := .refl ..
  tick := .refl ..
  liquidity := by rw [crossings_self, Finset.sum_empty, add_zero]
  crossed := by rw [crossings_self, Finset.card_empty, add_zero]

/-- **Two parts of a swap pass one after the other:** their crossings add up, and so do the changes of the liquidity.
-/
theorem Passes.trans (h : Passes bits nets spacing zeroForOne p p') (h' : Passes bits nets spacing zeroForOne p' p'') :
    Passes bits nets spacing zeroForOne p p'' where
  sqrtPrice := h.sqrtPrice.trans h'.sqrtPrice
  tick := h.tick.trans h'.tick
  liquidity := by rw [h'.liquidity, h.liquidity, sum_crossings_add _ h.tick h'.tick, add_assoc]
  crossed := by
    rw [h'.crossed, h.crossed, Finset.card_eq_sum_ones, Finset.card_eq_sum_ones, Finset.card_eq_sum_ones,
      sum_crossings_add _ h.tick h'.tick, add_assoc]

/-- A step that passes at most the tick `next`. -/
theorem Goes.passes {next : ℤ} (h : Goes zeroForOne p p')
    (hmarks : crossings bits spacing zeroForOne p.tick p'.tick = if marked bits spacing next then {next} else ∅)
    (hliq : (p'.liquidity : ℤ) = p.liquidity + crossing nets spacing zeroForOne next (marked bits spacing next))
    (hcrossed : p'.crossed = p.crossed + (if marked bits spacing next then 1 else 0)) :
    Passes bits nets spacing zeroForOne p p' where
  sqrtPrice := h.sqrtPrice
  tick := h.tick
  liquidity := by
    rw [hliq, hmarks]
    cases marked bits spacing next <;> simp [crossing]
  crossed := by
    rw [hcrossed, hmarks]
    cases marked bits spacing next <;> simp

/-- A step that passes no marked tick. -/
theorem Goes.passes_none (h : Goes zeroForOne p p')
    (hmarks : crossings bits spacing zeroForOne p.tick p'.tick = ∅) (hliq : p'.liquidity = p.liquidity)
    (hcrossed : p'.crossed = p.crossed) : Passes bits nets spacing zeroForOne p p' where
  sqrtPrice := h.sqrtPrice
  tick := h.tick
  liquidity := by rw [hliq, hmarks, Finset.sum_empty, add_zero]
  crossed := by rw [hcrossed, hmarks, Finset.card_empty, add_zero]

/-- A step upwards. -/
theorem advance_passes_up (hs : 0 < spacing) (hs' : spacing < 2 ^ 23) (h : Standing false p)
    (hadvance : advance (.fixed bits nets) fee spacing false p u = (.ok p', u')) :
    Standing false p' ∧ Passes bits nets spacing false p p' := by
  obtain ⟨hgoes, next, hlt, hclear, hcase⟩ := advance_up_cases hs hs' h hadvance
  refine ⟨hgoes.toStanding, ?_⟩
  rcases hcase with ⟨-, -, hnext, hliq, hcrossed⟩ | ⟨hbefore, hliq, hcrossed⟩
  · refine hgoes.passes ?_ hliq hcrossed
    exact marksBetween_eq (by omega) hnext.ge fun t ht ht' hne => hclear t ht (by omega)
  · refine hgoes.passes_none ?_ hliq hcrossed
    exact marksBetween_eq_empty fun t ht ht' => hclear t ht (by omega)

/-- A step downwards. -/
theorem advance_passes_down (hs : 0 < spacing) (hs' : spacing < 2 ^ 23) (h : Standing true p)
    (hadvance : advance (.fixed bits nets) fee spacing true p u = (.ok p', u')) :
    Standing true p' ∧ Passes bits nets spacing true p p' := by
  obtain ⟨hgoes, next, hnt, hclear, hcase⟩ := advance_down_cases hs hs' h hadvance
  refine ⟨hgoes.toStanding, ?_⟩
  rcases hcase with ⟨-, -, hnext, hliq, hcrossed⟩ | ⟨hafter, hliq, hcrossed⟩
  · refine hgoes.passes ?_ hliq hcrossed
    exact marksBetween_eq (by omega) hnt fun t ht ht' hne => hclear t (by omega) ht'
  · refine hgoes.passes_none ?_ hliq hcrossed
    exact marksBetween_eq_empty fun t ht ht' => hclear t (by omega) ht'

/-- A walk ends where it stands, and has passed the marks on its way. -/
theorem walk_passes (hs : 0 < spacing) (hs' : spacing < 2 ^ 23) (h : Standing zeroForOne p) {budget left : ℕ}
    (hwalk : walk (.fixed bits nets) fee spacing zeroForOne budget left p u = (.ok p', u')) :
    Standing zeroForOne p' ∧ Passes bits nets spacing zeroForOne p p' := by
  refine walk_induct (P := fun m => Standing zeroForOne m ∧ Passes bits nets spacing zeroForOne p m) ?_ hwalk
    ⟨h, .refl p⟩
  intro m m' v v' _ ⟨hm, hpasses⟩ hadvance
  have hstep : Standing zeroForOne m' ∧ Passes bits nets spacing zeroForOne m m' := by
    cases zeroForOne with
    | false => exact advance_passes_up hs hs' hm hadvance
    | true => exact advance_passes_down hs hs' hm hadvance
  exact ⟨hstep.1, hpasses.trans hstep.2⟩

end Concentrated

namespace ConcentratedState

open Concentrated Bitmap

variable {τ : Type} {good : τ → Prop} {bits : ℤ → ℕ} {nets : ℤ → ℤ → ℤ} {source : TickSource τ} {s : τ}

/-- **Price, tick and liquidity stay together.** Let the price of a pool be between those of its tick and of the next
one, and let a swap succeed, over whatever ticks and within whatever budget. Then its price has moved in the direction
of the swap, and not past the limit; it is between those of the tick that the swap ends at and of the next one; the
liquidity has changed by what the marked ticks state that the swap has passed; and it has counted these ticks. On the
way down no mark may state the least number of 128 bits, which has no negation there. -/
theorem swapWithin_crosses {state : ConcentratedState} {lower upper : ℕ}
    (hlower : Tick.sqrtPrice state.tick = .ok lower) (hupper : Tick.sqrtPrice (state.tick + 1) = .ok upper)
    (hlow : lower ≤ state.sqrtPrice) (hhigh : state.sqrtPrice ≤ upper) (hspacing : state.spacing < 2 ^ 23)
    (hnets : ∀ t, -2 ^ 127 ≤ nets t state.spacing ∧ nets t state.spacing < 2 ^ 127)
    (reads : source.Reads good bits nets) (hs : good s) {amountIn budget : ℕ} {zeroForOne : Bool} {swap : Outcome}
    (h : (state.swapWithin source amountIn zeroForOne budget s).1 = .ok swap) :
    let passed := crossings bits state.spacing zeroForOne state.tick swap.tick
    (Onward zeroForOne state.sqrtPrice swap.sqrtPrice ∧ Onward zeroForOne swap.sqrtPrice (priceLimit zeroForOne) ∧
      Onward zeroForOne state.tick swap.tick) ∧
    (∃ lower' upper', Tick.sqrtPrice swap.tick = .ok lower' ∧ Tick.sqrtPrice (swap.tick + 1) = .ok upper' ∧
      lower' ≤ swap.sqrtPrice ∧ swap.sqrtPrice ≤ upper') ∧
    ((zeroForOne = true → ∀ t ∈ passed, nets t state.spacing ≠ -2 ^ 127) →
      (swap.liquidity : ℤ) = if zeroForOne then state.liquidity - ∑ t ∈ passed, nets t state.spacing
        else state.liquidity + ∑ t ∈ passed, nets t state.spacing) ∧
    swap.crossed = passed.card := by
  intro passed
  obtain ⟨hleast, -, rfl⟩ := Tick.sqrtPrice_eq_ok hlower
  obtain ⟨-, hlargest, rfl⟩ := Tick.sqrtPrice_eq_ok hupper
  have hstands : Stands state.tick state.sqrtPrice := ⟨hleast, by omega, hlow, hhigh⟩
  obtain ⟨hpositive, hlimit, p, v, hwalk, -, rfl⟩ := swapWithin_cases (Prod.ext (reads.swapWithin_ok hs h) rfl)
  have hbegin : Standing zeroForOne ⟨amountIn, 0, state.sqrtPrice, state.tick, state.liquidity, 0⟩ :=
    ⟨hstands, inside_of_atLimit hlimit⟩
  obtain ⟨⟨hend, hinside⟩, hpasses⟩ := walk_passes hpositive hspacing hbegin hwalk
  have hprices : ∃ lower' upper', Tick.sqrtPrice p.tick = .ok lower' ∧ Tick.sqrtPrice (p.tick + 1) = .ok upper' ∧
      lower' ≤ p.sqrtPrice ∧ p.sqrtPrice ≤ upper' := by
    have hl := hend.least_le
    have hu := hend.lt_largest
    exact ⟨_, _, Tick.sqrtPrice_eq hl hu.le, Tick.sqrtPrice_eq (by omega) (by omega), hend.root_le, hend.le_root⟩
  refine ⟨⟨hpasses.sqrtPrice, hinside, hpasses.tick⟩, hprices, fun hnegates => ?_,
    hpasses.crossed.trans (Nat.zero_add _)⟩
  refine hpasses.liquidity.trans ?_
  cases zeroForOne with
  | false => rfl
  | true =>
    rw [if_pos rfl, sub_eq_add_neg, ← Finset.sum_neg_distrib]
    refine congrArg _ (Finset.sum_congr rfl fun t ht => ?_)
    exact crossing_true (lt_of_le_of_ne (hnets t).1 (hnegates rfl t ht).symm) (hnets t).2 true

/-- A swap down through the mark that it begins at and one more. -/
theorem swapWithin_crosses_two :
    let state : ConcentratedState := ⟨2 ^ 96, 0, 10 ^ 18, 3000, 60⟩
    let bits : ℤ → ℕ := fun word => if word = 0 then 1 else if word = -1 then 2 ^ 255 else 0
    let nets : ℤ → ℤ → ℤ := fun tick _ =>
      if tick = 0 then 400000000000000000 else if tick = -60 then 100000000000000000 else 0
    let swap : Outcome := ⟨10 ^ 16, 9785646954329770, 77725028153701588944185153303, -384, 5 * 10 ^ 17, 2⟩
    (state.spacing < 2 ^ 23 ∧ ∀ t, -2 ^ 127 ≤ nets t state.spacing ∧ nets t state.spacing < 2 ^ 127) ∧
      (state.swapWithin (.fixed (σ := Unit) bits nets) (10 ^ 16) true maxSteps ()).1 = .ok swap ∧
      (swap.liquidity : ℤ) =
        state.liquidity - ∑ t ∈ crossings bits state.spacing true state.tick swap.tick, nets t state.spacing ∧
      swap.crossed = (crossings bits state.spacing true state.tick swap.tick).card := by
  intro state bits nets swap
  have hnets : ∀ t, -2 ^ 127 < nets t state.spacing ∧ nets t state.spacing < 2 ^ 127 := by
    intro t
    simp only [nets]
    split
    · decide
    · split <;> decide
  have hfits : ∀ t, -2 ^ 127 ≤ nets t state.spacing ∧ nets t state.spacing < 2 ^ 127 :=
    fun t => ⟨(hnets t).1.le, (hnets t).2⟩
  have hswap : (state.swapWithin (.fixed (σ := Unit) bits nets) (10 ^ 16) true maxSteps ()).1 = .ok swap :=
    Quote.eq_ok_of_toOption (by decide +kernel)
  have hlower : Tick.sqrtPrice state.tick = .ok (2 ^ 96) := Quote.eq_ok_of_toOption (by decide +kernel)
  have hupper : Tick.sqrtPrice (state.tick + 1) = .ok 79232123823359799118286999568 :=
    Quote.eq_ok_of_toOption (by decide +kernel)
  obtain ⟨-, -, hliquidity, hcrossed⟩ := swapWithin_crosses hlower hupper le_rfl (by decide) (by decide) hfits
    (TickSource.reads_fixed bits nets) trivial hswap
  have hliquidity := hliquidity fun _ t _ => (hnets t).1.ne'
  exact ⟨⟨by decide, hfits⟩, hswap, hliquidity.trans (if_pos rfl), hcrossed⟩

end ConcentratedState
end Searcher

/-
# A swap moves along the profile at the exact price or worse

A swap on its way is *sound* when its root stands in its tick and its liquidity is the depth there. A step of it
*moves*: measured in values, it takes at least what comes in for the way that the root went and pays at most what goes
out for it (`Moves`). Both are kept by a step in either direction (`advance_up`, `advance_down`): within a step the
depth is that of one tick, since a search passes no marked tick, and a step that ends at a marked tick lands on the
profile, as is assumed of the ticks ahead of the swap. Moves compose, so a whole swap is one move (`swap_moves`).
-/

import Searcher.Proofs.Concentrated.Steps

namespace Searcher
namespace Concentrated

open Tick

variable {σ : Type} {bits : ℤ → ℕ} {nets : ℤ → ℤ → ℤ} {fee : ℕ} {spacing pivot : ℤ} {zeroForOne : Bool} {depth : ℤ → ℤ}
  {p p' p'' : Progress} {u u' : σ}

/-- A swap on its way that fits the profile: its root stands in its tick and not beyond the end of its range, and its
liquidity is the depth there, a number of 128 bits. -/
structure Sound (depth : ℤ → ℤ) (zeroForOne : Bool) (p : Progress) : Prop extends Standing zeroForOne p where
  liquidity : depth p.tick = p.liquidity
  fits : p.liquidity < 2 ^ 128

/-- The liquidity at a tick is a number of 128 bits. -/
def Deep (depth : ℤ → ℤ) (t : ℤ) : Prop := 0 ≤ depth t ∧ depth t < 2 ^ 128

/-- **A swap goes from `p` to `p'` at the exact price or worse,** and the liquidity of the ticks between fits. -/
structure Moves (depth : ℤ → ℤ) (zeroForOne : Bool) (p p' : Progress) : Prop where
  tick : Onward zeroForOne p.tick p'.tick
  deep : ∀ s ∈ Set.uIcc p.tick p'.tick, Deep depth s
  takes : value depth (level zeroForOne) p'.tick p'.sqrtPrice - value depth (level zeroForOne) p.tick p.sqrtPrice ≤
    p.remaining - p'.remaining
  pays : (p'.amountOut : ℝ) - p.amountOut ≤
    value depth (level !zeroForOne) p.tick p.sqrtPrice - value depth (level !zeroForOne) p'.tick p'.sqrtPrice

/-- Where a swap stands the pool has the depth of the tick. -/
theorem Sound.deep (h : Sound depth zeroForOne p) : Deep depth p.tick := by
  have hfits := h.fits
  rw [Deep, h.liquidity]
  omega

/-- A swap moves to where it is by no way. -/
theorem Moves.refl (h : Sound depth zeroForOne p) : Moves depth zeroForOne p p where
  tick := .refl ..
  deep s hs := by
    rw [Set.uIcc_self, Set.mem_singleton_iff] at hs
    rw [hs]
    exact h.deep
  takes := by simp
  pays := by simp

/-- **Two moves in a row are one move:** what they take and pay adds up, and so do the changes of the value. -/
theorem Moves.trans (h : Moves depth zeroForOne p p') (h' : Moves depth zeroForOne p' p'') :
    Moves depth zeroForOne p p'' where
  tick := h.tick.trans h'.tick
  deep s hs := by
    rcases Set.uIcc_subset_uIcc_union_uIcc hs with hs | hs
    · exact h.deep s hs
    · exact h'.deep s hs
  takes := by linarith [h.takes, h'.takes]
  pays := by linarith [h.pays, h'.pays]

/-- A move whose value changes as within one tick, with amounts that are no better than that. On the way to its last
tick the depth is the liquidity that it began with. -/
theorem Moves.of_value (hbegin : Sound depth zeroForOne p) (hend : Sound depth zeroForOne p')
    (hgoes : Goes zeroForOne p p') (hway : ∀ t ∈ Set.uIcc p.tick p'.tick, t ≠ p'.tick → depth t = p.liquidity)
    (hvalue : ∀ φ, value depth φ p'.tick p'.sqrtPrice - value depth φ p.tick p.sqrtPrice =
      p.liquidity * (φ p'.sqrtPrice - φ p.sqrtPrice)) : Moves depth zeroForOne p p' := by
  obtain ⟨s, hspends⟩ := hgoes.spends
  constructor
  case tick => exact hgoes.tick
  case deep =>
    intro t ht
    by_cases hlast : t = p'.tick
    · rw [hlast]
      exact hend.deep
    · rw [Deep, hway t ht hlast, ← hbegin.liquidity]
      exact hbegin.deep
  case takes =>
    have : (p'.remaining : ℝ) + (s.amountIn + s.fee) = p.remaining := by exact_mod_cast hspends.remaining
    have : (0 : ℝ) ≤ s.fee := Nat.cast_nonneg _
    linarith [hvalue (level zeroForOne), hspends.takes]
  case pays =>
    have : (p'.amountOut : ℝ) = p.amountOut + s.amountOut := by exact_mod_cast hspends.amountOut
    linarith [hvalue (level !zeroForOne), hspends.pays]

/-! ### Values where a step ends -/

section
variable {t next : ℤ} {x : ℕ} {d : ℤ}

/-- Upwards, at the root that is aimed at. -/
theorem reach_up (ht : least ≤ t) (hlt : t < next) (hflat : ∀ s, t ≤ s → s ≤ next - 1 → depth s = d) (φ : ℕ → ℝ) :
    value depth φ next (root next) - value depth φ t x = d * (φ (root next) - φ x) := by
  have hvalue := value_sub_of_flat ht (by omega) hflat φ x (root next)
  have hsame := value_succ depth φ (show least ≤ next - 1 by omega)
  rw [sub_add_cancel] at hsame
  rwa [hsame] at hvalue

/-- Downwards, at the root that is aimed at. -/
theorem reach_down (hnl : least < next) (hnt : next ≤ t) (hflat : ∀ s, next ≤ s → s ≤ t → depth s = d) (φ : ℕ → ℝ) :
    value depth φ (next - 1) (root next) - value depth φ t x = d * (φ (root next) - φ x) := by
  have hvalue := value_sub_of_flat hnl.le hnt hflat φ (root next) x
  have hsame := value_succ depth φ (show least ≤ next - 1 by omega)
  rw [sub_add_cancel] at hsame
  rw [hsame]
  linarith

end

/-! ### Steps -/

/-- A step upwards. -/
theorem advance_up (hs : 0 < spacing) (hs' : spacing < 2 ^ 23) (profile : Profile bits nets spacing pivot depth)
    (sound : Sound depth false p)
    (hlands : ∀ t, least < t → Bitmap.Ahead false p.tick t → Lands bits nets spacing depth false t)
    (h : advance (.fixed bits nets) fee spacing false p u = (.ok p', u')) :
    Sound depth false p' ∧ Moves depth false p p' := by
  obtain ⟨hgoes, next, hlt, hclear, hcase⟩ := advance_up_cases hs hs' sound.toStanding h
  have ht := sound.stands.least_le
  have hflat : ∀ t, p.tick ≤ t → t ≤ next - 1 → depth t = p.liquidity := fun t hle hle' =>
    (profile.eq_of_unmarked ht hle fun r hr hr' => hclear r hr (by omega)).trans sound.liquidity
  have hinterval : Set.uIcc p.tick p'.tick = Set.Icc p.tick p'.tick := Set.uIcc_of_le hgoes.tick
  rcases hcase with ⟨-, hreached, htick, hliq, -⟩ | ⟨hbefore, hliq, -⟩
  · -- the tick that was aimed at is passed
    have hland := hlands next (by omega) hlt
    rw [Lands, hflat (next - 1) (by omega) le_rfl, ← hliq] at hland
    have hend : depth p'.tick = p'.liquidity := by rw [htick, hland (Int.natCast_nonneg _)]
    have sound' : Sound depth false p' := ⟨hgoes.toStanding, hend, hgoes.fits sound.fits⟩
    refine ⟨sound', .of_value sound sound' hgoes (fun t htt hne => ?_) (fun φ => ?_)⟩
    · rw [hinterval, htick] at htt
      exact hflat t htt.1 (by have := htt.2; omega)
    · rw [htick, hreached]
      exact_mod_cast reach_up ht hlt hflat φ
  · -- the step stops before
    have hflat' : ∀ t ∈ Set.uIcc p.tick p'.tick, depth t = p.liquidity := by
      rw [hinterval]
      exact fun t htt => hflat t htt.1 (by have := htt.2; omega)
    have hend : depth p'.tick = p'.liquidity := by rw [hflat' _ Set.right_mem_uIcc, hliq]
    have sound' : Sound depth false p' := ⟨hgoes.toStanding, hend, hgoes.fits sound.fits⟩
    refine ⟨sound', .of_value sound sound' hgoes (fun t htt _ => hflat' t htt) (fun φ => ?_)⟩
    exact_mod_cast value_sub_of_uIcc ht hgoes.stands.least_le hflat' φ p.sqrtPrice p'.sqrtPrice

/-- A step downwards. -/
theorem advance_down (hs : 0 < spacing) (hs' : spacing < 2 ^ 23) (profile : Profile bits nets spacing pivot depth)
    (sound : Sound depth true p)
    (hlands : ∀ t, least < t → Bitmap.Ahead true p.tick t → Lands bits nets spacing depth true t)
    (h : advance (.fixed bits nets) fee spacing true p u = (.ok p', u')) :
    Sound depth true p' ∧ Moves depth true p p' := by
  obtain ⟨hgoes, next, hnt, hclear, hcase⟩ := advance_down_cases hs hs' sound.toStanding h
  have ht := sound.stands.least_le
  have hflat : ∀ t, least ≤ t → next ≤ t → t ≤ p.tick → depth t = p.liquidity := fun t hl hle hle' =>
    (profile.eq_of_unmarked hl hle' fun r hr hr' => hclear r (by omega) hr').symm.trans sound.liquidity
  have hinterval : Set.uIcc p.tick p'.tick = Set.Icc p'.tick p.tick := Set.uIcc_of_ge hgoes.tick
  rcases hcase with ⟨hnl, hreached, htick, hliq, -⟩ | ⟨hafter, hliq, -⟩
  · -- the tick that was aimed at is passed
    have hland := hlands next hnl hnt
    rw [Lands, hflat next hnl.le le_rfl hnt, ← hliq] at hland
    have hend : depth p'.tick = p'.liquidity := by rw [htick, hland (Int.natCast_nonneg _)]
    have sound' : Sound depth true p' := ⟨hgoes.toStanding, hend, hgoes.fits sound.fits⟩
    refine ⟨sound', .of_value sound sound' hgoes (fun t htt hne => ?_) (fun φ => ?_)⟩
    · rw [hinterval, htick] at htt
      have hle : next ≤ t := by
        have := htt.1
        omega
      exact hflat t (by omega) hle htt.2
    · rw [htick, hreached]
      exact_mod_cast reach_down hnl hnt (fun t hle => hflat t (by omega) hle) φ
  · -- the step stops before
    have hleast := hgoes.stands.least_le
    have hflat' : ∀ t ∈ Set.uIcc p.tick p'.tick, depth t = p.liquidity := by
      rw [hinterval]
      exact fun t htt => hflat t (hleast.trans htt.1) (hafter.trans htt.1) htt.2
    have hend : depth p'.tick = p'.liquidity := by rw [hflat' _ Set.right_mem_uIcc, hliq]
    have sound' : Sound depth true p' := ⟨hgoes.toStanding, hend, hgoes.fits sound.fits⟩
    refine ⟨sound', .of_value sound sound' hgoes (fun t htt _ => hflat' t htt) (fun φ => ?_)⟩
    exact_mod_cast value_sub_of_uIcc ht hleast hflat' φ p.sqrtPrice p'.sqrtPrice

/-! ### Runs -/

/-- A step in either direction. -/
theorem advance_moves (hs : 0 < spacing) (hs' : spacing < 2 ^ 23) (profile : Profile bits nets spacing pivot depth)
    (sound : Sound depth zeroForOne p)
    (hlands : ∀ t, least < t → Bitmap.Ahead zeroForOne p.tick t → Lands bits nets spacing depth zeroForOne t)
    (h : advance (.fixed bits nets) fee spacing zeroForOne p u = (.ok p', u')) :
    Sound depth zeroForOne p' ∧ Moves depth zeroForOne p p' := by
  cases zeroForOne with
  | false => exact advance_up hs hs' profile sound hlands h
  | true => exact advance_down hs hs' profile sound hlands h

/-- A walk over ticks at which it lands on the profile. -/
theorem walk_moves (hs : 0 < spacing) (hs' : spacing < 2 ^ 23) (profile : Profile bits nets spacing pivot depth)
    (sound : Sound depth zeroForOne p)
    (hlands : ∀ t, least < t → Bitmap.Ahead zeroForOne p.tick t → Lands bits nets spacing depth zeroForOne t)
    {budget left : ℕ} (h : walk (.fixed bits nets) fee spacing zeroForOne budget left p u = (.ok p', u')) :
    Sound depth zeroForOne p' ∧ Moves depth zeroForOne p p' := by
  refine walk_induct (P := fun m => Sound depth zeroForOne m ∧ Moves depth zeroForOne p m) ?_ h ⟨sound, .refl sound⟩
  intro m m' v v' _ ⟨hm, hmoves⟩ hadvance
  have hlands' : ∀ t, least < t → Bitmap.Ahead zeroForOne m.tick t → Lands bits nets spacing depth zeroForOne t :=
    fun t ht hahead => hlands t ht (hmoves.tick.ahead hahead)
  obtain ⟨hm', hmoves'⟩ := advance_moves hs hs' profile hm hlands' hadvance
  exact ⟨hm', hmoves.trans hmoves'⟩

/-- A swap between two states of a pool on a profile, at the exact price or worse. -/
structure Trades (depth : ℤ → ℤ) (zeroForOne : Bool) (amountIn : ℕ) (state : ConcentratedState) (swap : Outcome) :
    Prop where
  tick : Onward zeroForOne state.tick swap.tick
  stands : Stands swap.tick swap.sqrtPrice
  liquidity : depth swap.tick = swap.liquidity
  fits : swap.liquidity < 2 ^ 128
  deep : ∀ t ∈ Set.uIcc state.tick swap.tick, Deep depth t
  takes : value depth (level zeroForOne) swap.tick swap.sqrtPrice -
    value depth (level zeroForOne) state.tick state.sqrtPrice ≤ amountIn
  pays : swap.amountOut ≤ value depth (level !zeroForOne) state.tick state.sqrtPrice -
    value depth (level !zeroForOne) swap.tick swap.sqrtPrice

/-- **A whole swap is a move.** -/
theorem swap_moves {state : ConcentratedState} {amountIn : ℕ} {swap : Outcome} (hs' : state.spacing < 2 ^ 23)
    (profile : Profile bits nets state.spacing pivot depth) (hstands : Stands state.tick state.sqrtPrice)
    (hliq : depth state.tick = state.liquidity) (hfits : state.liquidity < 2 ^ 128)
    (hlands : ∀ t, least < t → Bitmap.Ahead zeroForOne state.tick t →
      Lands bits nets state.spacing depth zeroForOne t)
    (h : state.swap (.fixed bits nets) amountIn zeroForOne u = (.ok swap, u')) :
    Trades depth zeroForOne amountIn state swap := by
  unfold ConcentratedState.swap at h
  obtain ⟨hs, hlimit, p, v, hwalk, hused, rfl⟩ := swapWithin_cases h
  have sound : Sound depth zeroForOne ⟨amountIn, 0, state.sqrtPrice, state.tick, state.liquidity, 0⟩ :=
    ⟨⟨hstands, inside_of_atLimit hlimit⟩, hliq, hfits⟩
  obtain ⟨hsound, hmoves⟩ := walk_moves hs hs' profile sound hlands hwalk
  have htakes := hmoves.takes
  rw [hused] at htakes
  exact {
    tick := hmoves.tick
    stands := hsound.stands
    liquidity := hsound.liquidity
    fits := hsound.fits
    deep := hmoves.deep
    takes := by simpa using htakes
    pays := by simpa using hmoves.pays }

end Concentrated
end Searcher

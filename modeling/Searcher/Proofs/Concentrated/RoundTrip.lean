/-
# No profit from a swap there and back

Two swaps over the same tick data walk on one profile, the one that the first begins at the root of. The first takes at
least what the value of its input token rises by, the second pays at most what that value falls by; and since the second
brings in no more of the other token than the first paid out, the root that it ends at is worth no less than the one at
the start (`value_trade`). So what comes back is at most what went in.

Nothing is assumed of the tick data but that they are numbers of their widths. The spacing of a pool that was loaded has
24 bits with a sign (`Concentrated.state?_fits`); with more than `2 ^ 23` the edge of a word may wrap around, and a swap
be led the wrong way.
-/

import Searcher.Proofs.Concentrated.Moves
import Searcher.Proofs.Quote.Numeric

namespace Searcher
namespace ConcentratedState

open Concentrated

variable {σ : Type}

@[simp] theorem after_tick (state : ConcentratedState) (swap : Outcome) : (state.after swap).tick = swap.tick := rfl

@[simp] theorem after_sqrtPrice (state : ConcentratedState) (swap : Outcome) :
    (state.after swap).sqrtPrice = swap.sqrtPrice := rfl

/-- **A swap there and back makes no profit.** Let the tick of a pool agree with its root, and let the tick data be any,
but the same for both swaps. If an input can be swapped in one direction, and what it pays can be swapped back in the
state after that, then no more comes back than the input. -/
theorem swap_back_le {state : ConcentratedState} {lower upper : ℕ} (hlower : Tick.sqrtPrice state.tick = .ok lower)
    (hupper : Tick.sqrtPrice (state.tick + 1) = .ok upper) (hlow : lower ≤ state.sqrtPrice)
    (hhigh : state.sqrtPrice ≤ upper) (hspacing : state.spacing < 2 ^ 23) (hliquidity : state.liquidity < 2 ^ 128)
    {bits : ℤ → ℕ} {nets : ℤ → ℤ → ℤ}
    (hnets : ∀ t, -2 ^ 127 ≤ nets t state.spacing ∧ nets t state.spacing < 2 ^ 127) {amountIn : ℕ} {zeroForOne : Bool}
    {there back : Outcome} {s t : σ}
    (hthere : (state.swap (.fixed bits nets) amountIn zeroForOne s).1 = .ok there)
    (hback : ((state.after there).swap (.fixed bits nets) there.amountOut (!zeroForOne) t).1 = .ok back) :
    back.amountOut ≤ amountIn := by
  obtain ⟨hleast, -, rfl⟩ := Tick.sqrtPrice_eq_ok hlower
  obtain ⟨-, hlargest, rfl⟩ := Tick.sqrtPrice_eq_ok hupper
  have hstands : Stands state.tick state.sqrtPrice := ⟨hleast, by omega, hlow, hhigh⟩
  set depth := depthFrom bits nets state.spacing state.tick state.liquidity
  have profile : Profile bits nets state.spacing state.tick depth := profile_depthFrom _ _ _ _ _
  have first : Trades depth zeroForOne amountIn state there :=
    swap_moves hspacing profile hstands (depthFrom_self ..) hliquidity (fun t ht => profile.lands_there ht)
      (Prod.ext hthere rfl)
  have hbound : ∀ t ∈ Set.uIcc state.tick there.tick, depth t < 2 ^ 128 := fun t ht => (first.deep t ht).2
  have second : Trades depth (!zeroForOne) there.amountOut (state.after there) back :=
    swap_moves hspacing profile first.stands first.liquidity first.fits
      (fun t ht => profile.lands_back hnets hbound first.tick ht) (Prod.ext hback rfl)
  have htakes := second.takes
  have hpays := second.pays
  rw [Bool.not_not] at hpays
  simp only [after_tick, after_sqrtPrice] at htakes hpays
  -- the root that the second swap ends at, against the one that the first began with
  have hd : ∀ t ∈ Set.uIcc state.tick back.tick, 0 ≤ depth t := by
    intro t ht
    rcases Set.uIcc_subset_uIcc_union_uIcc ht with ht | ht
    · exact (first.deep t ht).1
    · exact (second.deep t ht).1
  have hreturned := value_trade hstands second.stands hd zeroForOne (by linarith [first.pays])
  have hle : (back.amountOut : ℝ) ≤ amountIn := by linarith [first.takes]
  exact_mod_cast hle

/-- A swap up through a mark at tick `60`, where half of the liquidity leaves, and down through it again. -/
theorem swap_back_le_through_sixty :
    let state : ConcentratedState := ⟨2 ^ 96, 0, 10 ^ 18, 3000, 60⟩
    let nets : ℤ → ℤ → ℤ := fun tick _ => if tick = 60 then -500000000000000000 else 0
    let ticks := TickSource.fixed (σ := Unit) (fun word => if word = 0 then 2 else 0) nets
    let there : Outcome := ⟨10 ^ 16, 9824480656168965, 80569942622865460669995793863, 335, 5 * 10 ^ 17, 1⟩
    let back : Outcome := ⟨9824480656168965, 9940525689322102, 79230497709740721796231880250, 0, 10 ^ 18, 1⟩
    (state.spacing < 2 ^ 23 ∧ state.liquidity < 2 ^ 128 ∧
        ∀ t, -2 ^ 127 ≤ nets t state.spacing ∧ nets t state.spacing < 2 ^ 127) ∧
      (state.swap ticks (10 ^ 16) false ()).1 = .ok there ∧
      ((state.after there).swap ticks there.amountOut true ()).1 = .ok back ∧ back.amountOut ≤ 10 ^ 16 := by
  intro state nets ticks there back
  have hnets : ∀ t, -2 ^ 127 ≤ nets t state.spacing ∧ nets t state.spacing < 2 ^ 127 := by
    intro t
    simp only [nets]
    split <;> decide
  have hthere : (state.swap ticks (10 ^ 16) false ()).1 = .ok there := Quote.eq_ok_of_toOption (by decide +kernel)
  have hback : ((state.after there).swap ticks there.amountOut true ()).1 = .ok back :=
    Quote.eq_ok_of_toOption (by decide +kernel)
  have hlower : Tick.sqrtPrice state.tick = .ok (2 ^ 96) := Quote.eq_ok_of_toOption (by decide +kernel)
  have hupper : Tick.sqrtPrice (state.tick + 1) = .ok 79232123823359799118286999568 :=
    Quote.eq_ok_of_toOption (by decide +kernel)
  exact ⟨⟨by decide, by decide, hnets⟩, hthere, hback,
    swap_back_le hlower hupper le_rfl (by decide) (by decide) (by decide) hnets hthere hback⟩

end ConcentratedState
end Searcher

/-
# More in, no less out

Two swaps from the same point with different inputs go the same way, step for step, for as long as both inputs last. A
step that comes to its target is the same step in both (`step_mono`). One that stops before it uses up the smaller
input, and the larger one goes on from there or beyond: the root after an input moves on with it, also where the exact
formula leaves its range for one of the two and the coarser one stands in (`sqrtPriceAfter0_antitone`).

So along the way the swap with less is `Behind` the one with more, or done and has paid no more. Whichever ticks they
cross, and though they may end at different ones, the larger input pays no less (`swapWithin_mono`).
-/

import Searcher.Proofs.Concentrated.Steps

namespace Searcher
namespace Concentrated

open Checked

/-! ### The root after an input -/

variable {root liquidity a b x y : ℕ}

/-- The root after an input of the first token is at least what the exact formula says. -/
theorem sqrtPriceAfter0_covers (h : sqrtPriceAfter0 root liquidity a = .ok x) :
    liquidity * q96 * root ≤ x * (liquidity * q96 + a * root) := by
  set numerator := liquidity * q96 with hnum
  simp only [sqrtPriceAfter0, ← hnum] at h
  split at h
  · obtain rfl : root = x := Except.ok.inj h
    rw [Nat.mul_comm]
    exact Nat.mul_le_mul_left _ (Nat.le_add_right _ _)
  · split at h
    · obtain ⟨hpos, -, rfl⟩ := fullMulDivUp_eq_ok.1 h
      exact (ceilDiv_le_iff (Nat.pos_of_ne_zero hpos)).1 le_rfl
    · obtain ⟨quotient, hquotient, h⟩ := bind_eq_ok.1 h
      obtain ⟨total, htotal, h⟩ := bind_eq_ok.1 h
      obtain ⟨-, rfl⟩ := div_eq_ok.1 hquotient
      obtain ⟨-, rfl⟩ := fit_eq_ok.1 htotal
      obtain ⟨hpos, rfl⟩ := divUp_eq_ok.1 h
      have hceil := (ceilDiv_le_iff (Nat.pos_of_ne_zero hpos)).1 (le_refl (ceilDiv numerator (numerator / root + a)))
      set x := ceilDiv numerator (numerator / root + a)
      calc numerator * root ≤ x * (numerator / root + a) * root := Nat.mul_le_mul_right _ hceil
        _ = x * (root * (numerator / root) + a * root) := by ring
        _ ≤ x * (numerator + a * root) := by gcongr; exact Nat.mul_div_le _ _

/-- More of the first token leaves the root no higher. -/
theorem sqrtPriceAfter0_antitone (hroot : 0 < root) (ha : sqrtPriceAfter0 root liquidity a = .ok x)
    (hb : sqrtPriceAfter0 root liquidity b = .ok y) (hab : a ≤ b) : y ≤ x := by
  rcases hab.eq_or_lt with rfl | hab
  · exact (Except.ok.inj (ha.symm.trans hb)).ge
  have hcovers := sqrtPriceAfter0_covers ha
  set numerator := liquidity * q96 with hnum
  simp only [sqrtPriceAfter0, ← hnum] at hb
  rw [if_neg (by omega)] at hb
  split at hb
  · obtain ⟨hpos, -, rfl⟩ := fullMulDivUp_eq_ok.1 hb
    rw [ceilDiv_le_iff (Nat.pos_of_ne_zero hpos)]
    exact hcovers.trans (by gcongr)
  · -- the coarser formula loses less than one unit of input
    obtain ⟨quotient, hquotient, hb⟩ := bind_eq_ok.1 hb
    obtain ⟨total, htotal, hb⟩ := bind_eq_ok.1 hb
    obtain ⟨-, rfl⟩ := div_eq_ok.1 hquotient
    obtain ⟨-, rfl⟩ := fit_eq_ok.1 htotal
    obtain ⟨hpos, rfl⟩ := divUp_eq_ok.1 hb
    rw [ceilDiv_le_iff (Nat.pos_of_ne_zero hpos)]
    have hquotient := Nat.lt_mul_div_succ numerator hroot
    refine Nat.le_of_mul_le_mul_right ?_ hroot
    calc numerator * root ≤ x * (numerator + a * root) := hcovers
      _ ≤ x * (root * (numerator / root + 1) + a * root) := by gcongr
      _ = x * (numerator / root + (a + 1)) * root := by ring
      _ ≤ x * (numerator / root + b) * root := by gcongr; exact hab

/-- More input moves the root no less far. -/
theorem sqrtPriceAfter_onward {zeroForOne : Bool} (ha : sqrtPriceAfter root liquidity a zeroForOne = .ok x)
    (hb : sqrtPriceAfter root liquidity b zeroForOne = .ok y) (hab : a ≤ b) : Onward zeroForOne x y := by
  unfold sqrtPriceAfter at ha hb
  split at ha
  · cases ha
  · rename_i hne
    rw [if_neg hne] at hb
    cases zeroForOne with
    | true => exact sqrtPriceAfter0_antitone (Nat.pos_of_ne_zero (not_or.1 hne).1) ha hb hab
    | false =>
      obtain ⟨rise, hrise, ha⟩ := bind_eq_ok.1 ha
      obtain ⟨rise', hrise', hb⟩ := bind_eq_ok.1 hb
      obtain ⟨-, -, rfl⟩ := fullMulDiv_eq_ok.1 hrise
      obtain ⟨-, -, rfl⟩ := fullMulDiv_eq_ok.1 hrise'
      obtain ⟨-, rfl⟩ := fit_eq_ok.1 ha
      obtain ⟨-, rfl⟩ := fit_eq_ok.1 hb
      change root + a * q96 / liquidity ≤ root + b * q96 / liquidity
      gcongr

/-- A root that has moved further has paid no less. -/
theorem paid_mono {zeroForOne : Bool} {m n : ℕ} (hx : Onward zeroForOne root x) (hxy : Onward zeroForOne x y)
    (hm : paid zeroForOne root x liquidity = .ok m) (hn : paid zeroForOne root y liquidity = .ok n) : m ≤ n := by
  cases zeroForOne with
  | true =>
    rw [paid_true] at hm hn
    rw [amount1_down hm hx, amount1_down hn (le_trans hxy hx)]
    have := level_monotone hxy
    gcongr
  | false =>
    rw [paid_false] at hm hn
    obtain ⟨hpos, hm⟩ := amount0_down hm hx
    obtain ⟨-, hn⟩ := amount0_down hn (le_trans hx hxy)
    rw [hm, hn]
    have := level_antitone (hpos.trans_le hx) hxy
    gcongr

/-! ### One step -/

variable {current target remaining remaining' feePips toTarget : ℕ} {zeroForOne : Bool} {s s' : Step}

/-- A larger input leaves more to be used. -/
theorem usable_mono (h : remaining ≤ remaining') : usable remaining feePips ≤ usable remaining' feePips :=
  Nat.div_le_div_right (Nat.mul_le_mul_right _ h)

/-- An input that does not suffice moves the root towards the target and not up to it. -/
theorem stops_before (hz : decide (target ≤ current) = zeroForOne)
    (hto : taken zeroForOne current target liquidity = .ok toTarget) (hshort : a < toTarget)
    (h : sqrtPriceAfter current liquidity a zeroForOne = .ok x) :
    Onward zeroForOne current x ∧ Onward zeroForOne x target ∧ x ≠ target := by
  cases zeroForOne with
  | true =>
    obtain ⟨hlt, hle⟩ := stops_above hto (of_decide_eq_true hz) hshort h
    exact ⟨hle, hlt.le, hlt.ne'⟩
  | false =>
    obtain ⟨hle, hlt⟩ := stops_below hto (not_le.1 (of_decide_eq_false hz)).le hshort h
    exact ⟨hle, hlt.le, hlt.ne⟩

/-- **A step with more to spend** is the same step, or the one with less spends all and pays no more. -/
theorem step_mono (h : step current target liquidity remaining feePips = .ok s)
    (h' : step current target liquidity remaining' feePips = .ok s') (hle : remaining ≤ remaining') :
    s = s' ∨ s.amountIn + s.fee = remaining ∧ s.amountOut ≤ s'.amountOut := by
  obtain ⟨toTarget, hto, hnext, hin, hout, hfee⟩ := step_cases rfl h
  obtain ⟨toTarget', hto', hnext', hin', hout', hfee'⟩ := step_cases rfl h'
  obtain rfl : toTarget = toTarget' := Except.ok.inj (hto.symm.trans hto')
  have husable : usable remaining feePips ≤ usable remaining' feePips := usable_mono hle
  rcases hnext with ⟨hsuffices, hreached⟩ | ⟨hshort, hnext⟩
  · -- the target is reached with less, and so with more
    have hreached' : s'.sqrtPrice = target := by
      rcases hnext' with ⟨-, hreached'⟩ | ⟨hshort', -⟩
      · exact hreached'
      · omega
    left
    rw [hreached] at hin hout
    rw [hreached'] at hin' hout'
    have hamountIn : s.amountIn = s'.amountIn := Except.ok.inj (hin.symm.trans hin')
    have hamountOut : s.amountOut = s'.amountOut := Except.ok.inj (hout.symm.trans hout')
    have hfee := (hfee.resolve_right fun h => h.1 hreached).2
    have hfee' := (hfee'.resolve_right fun h => h.1 hreached').2
    rw [hamountIn] at hfee
    have hfees : s.fee = s'.fee := Except.ok.inj (hfee.symm.trans hfee')
    cases s
    cases s'
    simp_all
  · obtain ⟨honward, hbefore, hne⟩ := stops_before rfl hto hshort hnext
    refine .inr ⟨(hfee.resolve_left fun h => hne h.1).2, paid_mono honward ?_ hout hout'⟩
    rcases hnext' with ⟨-, hreached'⟩ | ⟨-, hnext'⟩
    · rwa [hreached']
    · exact sqrtPriceAfter_onward hnext hnext' husable

/-! ### Two swaps -/

variable {σ : Type} {bits : ℤ → ℕ} {nets : ℤ → ℤ → ℤ} {fee : ℕ} {spacing : ℤ} {p p' q q' : Progress} {u u' v v' : σ}

/-- **The swap `p` is behind `q`:** at the same point, with no more left and no more paid. -/
structure Behind (p q : Progress) : Prop where
  remaining : p.remaining ≤ q.remaining
  amountOut : p.amountOut ≤ q.amountOut
  sqrtPrice : p.sqrtPrice = q.sqrtPrice
  tick : p.tick = q.tick
  liquidity : p.liquidity = q.liquidity

/-- Who is behind is done once the other one is. -/
theorem Behind.finished (h : Behind p q) (hq : q.finished zeroForOne) : p.finished zeroForOne := by
  have := h.remaining
  simp only [Progress.finished, decide_eq_true_eq, h.sqrtPrice] at hq ⊢
  omega

/-- One step of both leaves the first one behind, or done. -/
theorem Behind.advance (h : Behind p q)
    (hp : advance (.fixed bits nets) fee spacing zeroForOne p u = (.ok p', u'))
    (hq : advance (.fixed bits nets) fee spacing zeroForOne q v = (.ok q', v')) :
    Behind p' q' ∨ p'.remaining = 0 ∧ p'.amountOut ≤ q'.amountOut := by
  obtain ⟨found, root, s, hfound, hroot, hstep, hremaining, hamount, hprice, -, hcase⟩ := advance_cases hp
  obtain ⟨found', root', s', hfound', hroot', hstep', hremaining', hamount', hprice', -, hcase'⟩ := advance_cases hq
  rw [← h.tick, ← hfound] at hfound'
  subst hfound'
  obtain rfl : root = root' := Except.ok.inj (hroot.symm.trans hroot')
  rw [← h.sqrtPrice, ← h.liquidity] at hstep'
  have hle := h.remaining
  have hpaid := h.amountOut
  rcases step_mono hstep hstep' hle with rfl | ⟨hspent, hless⟩
  · left
    have hsame : p'.tick = q'.tick ∧ p'.liquidity = q'.liquidity := by
      rw [← h.sqrtPrice, ← h.tick, ← h.liquidity] at hcase'
      rcases hcase with ⟨hreached, htick, hliq, -⟩ | ⟨hshort, hliq, -, hcase⟩
      · obtain ⟨-, htick', hliq', -⟩ := hcase'.resolve_right fun h => h.1 hreached
        exact ⟨htick.trans htick'.symm, by omega⟩
      · obtain ⟨-, hliq', -, hcase'⟩ := hcase'.resolve_left fun h => hshort h.1
        refine ⟨?_, hliq.trans hliq'.symm⟩
        rcases hcase with ⟨hstays, htick⟩ | ⟨hmoves, htick⟩
        · exact htick.trans (hcase'.resolve_right fun h => h.1 hstays).2.symm
        · exact Except.ok.inj (htick.symm.trans (hcase'.resolve_left fun h => hmoves h.1).2)
    exact ⟨by omega, by omega, hprice.trans hprice'.symm, hsame.1, hsame.2⟩
  · exact .inr ⟨by omega, by omega⟩

/-- A walk never takes back what it has paid. -/
theorem walk_amountOut_le {budget left : ℕ}
    (h : walk (.fixed bits nets) fee spacing zeroForOne budget left p u = (.ok p', u')) :
    p.amountOut ≤ p'.amountOut := by
  refine walk_induct (P := fun m => p.amountOut ≤ m.amountOut) ?_ h le_rfl
  intro m m' v v' _ hm hadvance
  obtain ⟨-, -, s, -, -, -, -, hamount, -⟩ := advance_cases hadvance
  omega

/-- Who is behind is not paid more in the end. -/
theorem Behind.walk {budget left : ℕ} (h : Behind p q)
    (hp : walk (.fixed bits nets) fee spacing zeroForOne budget left p u = (.ok p', u'))
    (hq : walk (.fixed bits nets) fee spacing zeroForOne budget left q v = (.ok q', v')) :
    p'.amountOut ≤ q'.amountOut := by
  induction left using Nat.strong_induction_on generalizing p q u v with
  | _ left ih =>
    rcases walk_cases hp with ⟨-, rfl⟩ | ⟨hrunning, left, m, w, rfl, hm, hp⟩
    · exact h.amountOut.trans (walk_amountOut_le hq)
    · rcases walk_cases hq with ⟨hdone, -⟩ | ⟨-, left', n, z, hleft, hn, hq⟩
      · exact absurd (h.finished hdone) hrunning
      · obtain rfl := Nat.succ.inj hleft
        rcases h.advance hm hn with hbehind | ⟨hspent, hless⟩
        · exact ih left (Nat.lt_succ_self left) hbehind hp hq
        · -- with nothing left the walk is over
          rcases walk_cases hp with ⟨-, rfl⟩ | ⟨hrunning', -⟩
          · exact hless.trans (walk_amountOut_le hq)
          · exact absurd (by simp [Progress.finished, hspent]) hrunning'

/-- **A larger input is paid no less.** -/
theorem swapWithin_mono {state : ConcentratedState} {a b budget : ℕ} {swap swap' : Outcome} (hab : a ≤ b)
    (h : state.swapWithin (.fixed bits nets) a zeroForOne budget u = (.ok swap, u'))
    (h' : state.swapWithin (.fixed bits nets) b zeroForOne budget v = (.ok swap', v')) :
    swap.amountOut ≤ swap'.amountOut := by
  obtain ⟨-, -, p, w, hwalk, -, rfl⟩ := swapWithin_cases h
  obtain ⟨-, -, q, z, hwalk', -, rfl⟩ := swapWithin_cases h'
  have hbegin : Behind ⟨a, 0, state.sqrtPrice, state.tick, state.liquidity, 0⟩
      ⟨b, 0, state.sqrtPrice, state.tick, state.liquidity, 0⟩ := ⟨hab, le_rfl, rfl, rfl, rfl⟩
  exact hbegin.walk hwalk hwalk'

end Concentrated
end Searcher

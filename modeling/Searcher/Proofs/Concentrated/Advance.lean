/-
# What a step of a swap does

A step looks for the next marked tick, swaps towards its root, and then says where it stands. Over fixed tick data
everything that it can do is said once, in `advance_cases`: it comes to the root that it aimed at and passes the tick,
with a change of the liquidity if the tick is marked, or it stops before and has the tick of its root.
-/

import Searcher.Concentrated.Quote
import Searcher.Proofs.Ticking

namespace Searcher

/-- Tick data that do not change: the bits of each word, and the change of liquidity at a tick for a spacing. -/
def TickSource.fixed {σ : Type} (bits : Int → Nat) (nets : Int → Int → Int) : TickSource σ where
  bitmap word := pure (bits word)
  net tick spacing := pure (nets tick spacing)

namespace Concentrated

variable {σ : Type} {bits : Int → Nat} {nets : Int → Int → Int} {fee : Nat} {spacing : Int} {zeroForOne : Bool}
  {p p' : Progress} {u u' : σ}

/-- Liquidity that has changed is the exact sum, and has no more bits than before or 128. -/
theorem addLiquidity_eq_ok {liquidity result : Nat} {change : Int} (h : addLiquidity liquidity change = .ok result) :
    (result : Int) = liquidity + change ∧ (liquidity < 2 ^ 128 → result < 2 ^ 128) := by
  simp only [addLiquidity] at h
  split at h
  · split at h
    · cases h
    · obtain rfl := Except.ok.inj h
      omega
  · split at h
    · obtain rfl := Except.ok.inj h
      omega
    · cases h

/-- The change of the liquidity at a tick, for a swap in one direction. On the way down it is the negation that 128 bits
hold. -/
def crossing (nets : Int → Int → Int) (spacing : Int) (zeroForOne : Bool) (tick : Int) (marked : Bool) : Int :=
  if marked then (if zeroForOne then wrapInt 128 (-nets tick spacing) else nets tick spacing) else 0

/-- Everything that can happen where a step ends: its root is the one that it aimed at, and it passes the tick, or it is
not, and the tick is the one of its root, which it looks up only if the root has moved. -/
theorem arrive_cases {tick : Int} {marked : Bool} {root : Nat} {s : Step}
    (h : arrive (.fixed bits nets) spacing zeroForOne p tick marked root s u = (.ok p', u')) :
    p'.remaining + (s.amountIn + s.fee) = p.remaining ∧ p'.amountOut = p.amountOut + s.amountOut ∧
      p'.sqrtPrice = s.sqrtPrice ∧ (p.liquidity < 2 ^ 128 → p'.liquidity < 2 ^ 128) ∧
      (s.sqrtPrice = root ∧ p'.tick = (if zeroForOne then tick - 1 else tick) ∧
          (p'.liquidity : Int) = p.liquidity + crossing nets spacing zeroForOne tick marked ∧
          p'.crossed = p.crossed + (if marked then 1 else 0) ∨
        s.sqrtPrice ≠ root ∧ p'.liquidity = p.liquidity ∧ p'.crossed = p.crossed ∧
          (s.sqrtPrice = p.sqrtPrice ∧ p'.tick = p.tick ∨
            s.sqrtPrice ≠ p.sqrtPrice ∧ Tick.ofSqrtPrice s.sqrtPrice = .ok p'.tick)) := by
  unfold arrive at h
  obtain ⟨spent, u₁, hspent, h⟩ := Ticking.bind_eq_ok.1 h
  obtain ⟨remaining, u₂, hremaining, h⟩ := Ticking.bind_eq_ok.1 h
  obtain ⟨amountOut, u₃, hout, h⟩ := Ticking.bind_eq_ok.1 h
  obtain ⟨-, rfl⟩ := Checked.fit_eq_ok.1 (Ticking.lift_eq_ok.1 hspent).1
  obtain ⟨hle, rfl⟩ := Checked.sub_eq_ok.1 (Ticking.lift_eq_ok.1 hremaining).1
  obtain ⟨-, rfl⟩ := Checked.fit_eq_ok.1 (Ticking.lift_eq_ok.1 hout).1
  simp only at h
  split at h
  · rename_i hroot
    split at h
    · rename_i hmarked
      obtain ⟨net, u₄, hnet, h⟩ := Ticking.bind_eq_ok.1 h
      obtain ⟨rfl, -⟩ := Ticking.pure_eq_ok.1 hnet
      obtain ⟨liquidity, u₅, hliq, h⟩ := Ticking.bind_eq_ok.1 h
      obtain ⟨rfl, -⟩ := Ticking.pure_eq_ok.1 h
      obtain ⟨hliq, hfits⟩ := addLiquidity_eq_ok (Ticking.lift_eq_ok.1 hliq).1
      refine ⟨by simp only; omega, rfl, rfl, hfits, .inl ⟨hroot, rfl, ?_, ?_⟩⟩
      · rw [crossing, if_pos hmarked]
        exact hliq
      · rw [if_pos hmarked]
    · rename_i hmarked
      obtain ⟨rfl, -⟩ := Ticking.pure_eq_ok.1 h
      refine ⟨by simp only; omega, rfl, rfl, id, .inl ⟨hroot, rfl, ?_, ?_⟩⟩
      · rw [crossing, if_neg hmarked, Int.add_zero]
      · rw [if_neg hmarked, Nat.add_zero]
  · rename_i hroot
    split at h
    · rename_i hmoved
      obtain ⟨t, u₄, ht, h⟩ := Ticking.bind_eq_ok.1 h
      obtain ⟨rfl, -⟩ := Ticking.pure_eq_ok.1 h
      exact ⟨by simp only; omega, rfl, rfl, id, .inr ⟨hroot, rfl, rfl, .inr ⟨hmoved, (Ticking.lift_eq_ok.1 ht).1⟩⟩⟩
    · rename_i hsame
      obtain ⟨rfl, -⟩ := Ticking.pure_eq_ok.1 h
      exact ⟨by simp only; omega, rfl, rfl, id, .inr ⟨hroot, rfl, rfl, .inl ⟨Decidable.not_not.1 hsame, rfl⟩⟩⟩

/-- **Everything a step can do** over fixed tick data. -/
theorem advance_cases (h : advance (.fixed bits nets) fee spacing zeroForOne p u = (.ok p', u')) :
    ∃ found root s,
      found = Bitmap.search (bits (Bitmap.position (Bitmap.start p.tick spacing zeroForOne)).1)
        (Bitmap.start p.tick spacing zeroForOne) spacing zeroForOne ∧
      Tick.sqrtPrice (clampTick found.tick) = .ok root ∧
      step p.sqrtPrice (if zeroForOne then max root (priceLimit true) else min root (priceLimit false)) p.liquidity
        p.remaining fee = .ok s ∧
      p'.remaining + (s.amountIn + s.fee) = p.remaining ∧ p'.amountOut = p.amountOut + s.amountOut ∧
      p'.sqrtPrice = s.sqrtPrice ∧ (p.liquidity < 2 ^ 128 → p'.liquidity < 2 ^ 128) ∧
      (s.sqrtPrice = root ∧ p'.tick = (if zeroForOne then clampTick found.tick - 1 else clampTick found.tick) ∧
          (p'.liquidity : Int) = p.liquidity + crossing nets spacing zeroForOne (clampTick found.tick) found.marked ∧
          p'.crossed = p.crossed + (if found.marked then 1 else 0) ∨
        s.sqrtPrice ≠ root ∧ p'.liquidity = p.liquidity ∧ p'.crossed = p.crossed ∧
          (s.sqrtPrice = p.sqrtPrice ∧ p'.tick = p.tick ∨
            s.sqrtPrice ≠ p.sqrtPrice ∧ Tick.ofSqrtPrice s.sqrtPrice = .ok p'.tick)) := by
  unfold advance at h
  obtain ⟨found, u₁, hfound, h⟩ := Ticking.bind_eq_ok.1 h
  obtain ⟨root, u₂, hroot, h⟩ := Ticking.bind_eq_ok.1 h
  obtain ⟨s, u₃, hs, h⟩ := Ticking.bind_eq_ok.1 h
  obtain ⟨rfl, -⟩ := Ticking.pure_eq_ok.1 hfound
  refine ⟨_, root, s, rfl, (Ticking.lift_eq_ok.1 hroot).1, ?_, arrive_cases h⟩
  have hs := (Ticking.lift_eq_ok.1 hs).1
  cases zeroForOne with
  | false => exact hs
  | true => exact hs

/-- A walk is over, or it goes on with a step. -/
theorem walk_cases {budget left : Nat}
    (h : walk (.fixed bits nets) fee spacing zeroForOne budget left p u = (.ok p', u')) :
    p.finished zeroForOne ∧ p' = p ∨ ¬ p.finished zeroForOne ∧ ∃ left' m v, left = left' + 1 ∧
      advance (.fixed bits nets) fee spacing zeroForOne p u = (.ok m, v) ∧
      walk (.fixed bits nets) fee spacing zeroForOne budget left' m v = (.ok p', u') := by
  cases left with
  | zero =>
    unfold walk at h
    split at h
    · rename_i hdone
      exact .inl ⟨hdone, (Ticking.pure_eq_ok.1 h).1.symm⟩
    · cases (Prod.mk.inj h).1
  | succ left =>
    unfold walk at h
    split at h
    · rename_i hdone
      exact .inl ⟨hdone, (Ticking.pure_eq_ok.1 h).1.symm⟩
    · rename_i hrunning
      obtain ⟨m, v, hm, h⟩ := Ticking.bind_eq_ok.1 h
      exact .inr ⟨hrunning, left, m, v, rfl, hm, h⟩

/-- What every step keeps holds at the end of a walk that began with it. -/
theorem walk_induct {P : Progress → Prop} {budget left : Nat}
    (hstep : ∀ p p' (u u' : σ), ¬ p.finished zeroForOne → P p →
      advance (.fixed bits nets) fee spacing zeroForOne p u = (.ok p', u') → P p')
    (h : walk (.fixed bits nets) fee spacing zeroForOne budget left p u = (.ok p', u')) (hp : P p) : P p' := by
  induction left using Nat.strongRecOn generalizing p u with
  | _ left ih =>
    rcases walk_cases h with ⟨-, rfl⟩ | ⟨hrunning, left, m, v, rfl, hm, h⟩
    · exact hp
    · exact ih left (Nat.lt_succ_self left) h (hstep p m u v hrunning hp hm)

/-- A swap that succeeds is a walk that uses up its input. -/
theorem swapWithin_cases {state : ConcentratedState} {amountIn budget : Nat} {swap : Outcome}
    (h : state.swapWithin (.fixed bits nets) amountIn zeroForOne budget u = (.ok swap, u')) :
    0 < state.spacing ∧ state.atLimit zeroForOne = false ∧ ∃ p v,
      walk (.fixed bits nets) state.fee state.spacing zeroForOne budget budget
        ⟨amountIn, 0, state.sqrtPrice, state.tick, state.liquidity, 0⟩ u = (.ok p, v) ∧
      p.remaining = 0 ∧ swap = ⟨amountIn, p.amountOut, p.sqrtPrice, p.tick, p.liquidity, p.crossed⟩ := by
  simp only [ConcentratedState.swapWithin] at h
  split at h
  · cases (Prod.mk.inj h).1
  · rename_i hspacing
    split at h
    · cases (Prod.mk.inj h).1
    · rename_i hlimit
      obtain ⟨p, v, hwalk, h⟩ := Ticking.bind_eq_ok.1 h
      split at h
      · cases (Prod.mk.inj h).1
      · rename_i hremaining
        obtain ⟨rfl, -⟩ := Ticking.pure_eq_ok.1 h
        exact ⟨by omega, by simpa using hlimit, p, v, hwalk, Decidable.not_not.1 hremaining, rfl⟩

end Concentrated
end Searcher

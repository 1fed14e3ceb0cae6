/-
# Three ways to scale by precisions

A stableswap pool may multiply its balances by the precisions of their coins, as a pool of the kind `rates` does. It may
also take rates with eighteen decimals, multiply by them and divide by `e18` again. Where each rate is a precision with
eighteen decimals (`UnitRates`) the two are the same number: `(m e18) b / e18 = m b` on the way up, and
`out e18 / (m e18) = out / m` on the way down, rounded down alike.

A base pool makes such rates from its precisions. A lending pool does so for the coins that are not lent out, and if
none is lent out, for all of them. So their swaps are those of a `rates` pool with the same terms, with products that
are larger on the way: what they find, that pool finds as well (`swap_of_terms`).
-/

import Searcher.Proofs.Curve.Payout
import Searcher.Proofs.Quote.Numeric

namespace Searcher

/-- The computation finds all that the other one finds. -/
def Quote.Extends {α : Type} (r q : Quote α) : Prop := ∀ a, q = .ok a → r = .ok a

namespace Quote.Extends

variable {α β : Type} {q r : Quote α}

/-- A computation finds all that it finds. -/
theorem refl (q : Quote α) : q.Extends q := fun _ h => h

/-- Two computations in a row find what two others do if each of them does. The second need only do so at what the
first has found. -/
theorem bind {f g : α → Quote β} (h : r.Extends q) (hf : ∀ a, q = .ok a → (g a).Extends (f a)) :
    (r >>= g).Extends (q >>= f) := by
  intro b hb
  obtain ⟨a, ha, hb⟩ := Checked.bind_eq_ok.1 hb
  exact Checked.bind_eq_ok.2 ⟨a, h a ha, hf a ha b hb⟩

/-- A computation whose first part only prepares the second. -/
theorem of_bind {f : α → Quote β} {r : Quote β} (hf : ∀ a, q = .ok a → r.Extends (f a)) : r.Extends (q >>= f) := by
  intro b hb
  obtain ⟨a, ha, hb⟩ := Checked.bind_eq_ok.1 hb
  exact hf a ha b hb

/-- A list of computations finds what another list does, member by member. -/
theorem mapM {γ : Type} {f : α → Quote β} {g : γ → Quote β} {xs : List α} {ys : List γ}
    (h : List.Forall₂ (fun x y => (g y).Extends (f x)) xs ys) : (ys.mapM g).Extends (xs.mapM f) := by
  induction h with
  | nil => exact refl _
  | cons hhead _ ih =>
    rw [List.mapM_cons, List.mapM_cons]
    exact bind hhead fun _ _ => bind ih fun _ _ => refl _

end Quote.Extends

open Quote

namespace Checked

variable {m a out : ℕ}

/-- The factors of a checked product may be exchanged. -/
theorem mul_swap (a b : ℕ) : mul a b = mul b a := congrArg fit (Nat.mul_comm a b)

/-- A product with a rate of `m` units is that with `m`. -/
theorem extends_mul_rate (m a : ℕ) : (mul m a).Extends (do div (← mul (m * e18) a) e18) := by
  intro v h
  simp only [mul, bind_fit_eq_ok, fit_eq_ok, div_eq_ok] at h ⊢
  obtain ⟨hfits, -, rfl⟩ := h
  have hproduct : m * e18 * a = m * a * e18 := Nat.mul_right_comm m e18 a
  rw [hproduct] at hfits ⊢
  exact ⟨Nat.lt_of_le_of_lt (Nat.le_mul_of_pos_right _ (by decide)) hfits, Nat.mul_div_cancel _ (by decide)⟩

/-- A quotient by a rate of `m` units is that by `m`. -/
theorem extends_div_rate (out m : ℕ) : (div out m).Extends (do div (← mul out e18) (m * e18)) := by
  intro v h
  simp only [mul, bind_fit_eq_ok, div_eq_ok] at h ⊢
  obtain ⟨-, hne, rfl⟩ := h
  have hm : m ≠ 0 := fun hzero => hne (by rw [hzero, Nat.zero_mul])
  exact ⟨hm, Nat.mul_div_mul_right out m (by decide)⟩

end Checked

namespace Curve

open Checked

namespace StableState

variable {s l : StableState} {rates : List ℕ} {i j amountIn : ℕ}

/-- A swap whose balances, input and output are all scaled by rates, the fee being taken at the end. -/
def swapByRates (s : StableState) (rates : List ℕ) (i j amountIn : ℕ) : Quote ℕ := do
  let xs ← s.byRate rates
  let x ← raisedByRate xs rates i amountIn
  let (out, _) ← s.scaledOut s.amp 1 i j x xs false
  let out ← div (← mul out e18) (rates.getD j 0)
  StableSwap.afterFee s.fee out

/-- Rates that are the precisions of the coins, with eighteen decimals. -/
structure UnitRates (s : StableState) (rates : List ℕ) : Prop where
  length : rates.length = s.balances.length
  rate : ∀ k < s.balances.length, ∃ m, s.precision k = .ok m ∧ rates.getD k 0 = m * e18

/-- Rates that are found one by one, each as a precision with eighteen decimals, are unit rates. -/
theorem unitRates_of_mapM {f : ℕ → Quote ℕ} (h : (List.range s.balances.length).mapM f = .ok rates)
    (hf : ∀ k < s.balances.length, ∀ rate, f k = .ok rate → ∃ m, s.precision k = .ok m ∧ rate = m * e18) :
    s.UnitRates rates := by
  have hall := forall₂_of_mapM h
  have hlength : rates.length = s.balances.length := by rw [← hall.length_eq, List.length_range]
  refine ⟨hlength, fun k hk => ?_⟩
  have hk' : k < rates.length := by omega
  have hrate := hall.get (by simpa using hk) hk'
  rw [List.get_eq_getElem, List.get_eq_getElem, List.getElem_range] at hrate
  rw [List.getD_eq_getElem rates 0 hk']
  exact hf k hk _ hrate

/-- Unit rates scale the balances as the precisions do. -/
theorem UnitRates.byPrecision (h : s.UnitRates rates) : s.byPrecision.Extends (s.byRate rates) := by
  refine Extends.mapM (List.forall₂_iff_get.2 ⟨?_, fun k hk hk' => ?_⟩)
  · rw [List.length_zip, h.length, Nat.min_self, List.length_zipIdx]
  · have hlength := h.length
    have hbalance : k < s.balances.length := by simpa using hk'
    obtain ⟨m, hm, hrate⟩ := h.rate k hbalance
    rw [List.getD_eq_getElem rates 0 (by omega)] at hrate
    rw [List.get_eq_getElem, List.get_eq_getElem, List.getElem_zip, List.getElem_zipIdx, hrate]
    dsimp only
    rw [Nat.zero_add, hm]
    exact extends_mul_rate m s.balances[k]

/-- An input is scaled by its rate as by its precision. -/
theorem UnitRates.raised (h : s.UnitRates rates) (hi : i < s.balances.length) (xs : List ℕ) :
    (s.raisedByPrecision xs i amountIn).Extends (raisedByRate xs rates i amountIn) := by
  obtain ⟨m, hm, hrate⟩ := h.rate i hi
  have hproduct : (mul amountIn m).Extends (do div (← mul amountIn (m * e18)) e18) := by
    rw [mul_swap amountIn, mul_swap amountIn]
    exact extends_mul_rate m amountIn
  rw [raisedByRate, hrate, ← bind_assoc, raisedByPrecision, hm]
  exact hproduct.bind fun _ _ => .refl _

/-- An output is scaled back by its rate as by its precision. -/
theorem UnitRates.paid (h : s.UnitRates rates) (hj : j < s.balances.length) (out : ℕ) :
    (do div out (← s.precision j)).Extends (do div (← mul out e18) (rates.getD j 0)) := by
  obtain ⟨m, hm, hrate⟩ := h.rate j hj
  rw [hm, hrate]
  exact extends_div_rate out m

/-- **A swap by unit rates is one by precisions.** -/
theorem UnitRates.swapRates (h : s.UnitRates rates) (hcoins : s.checkCoins i j = .ok ()) :
    (s.swapRates i j amountIn).Extends (s.swapByRates rates i j amountIn) := by
  obtain ⟨-, hi, hj⟩ := checkCoins_eq_ok hcoins
  rw [StableState.swapRates, hcoins, swapByRates]
  refine h.byPrecision.bind fun xs _ => (h.raised hi xs).bind fun x _ => (Extends.refl _).bind fun scaled _ => ?_
  obtain ⟨out, y⟩ := scaled
  dsimp only
  rw [← bind_assoc, ← bind_assoc]
  exact (h.paid hj out).bind fun _ _ => .refl _

/-! ### Coins that are not lent out -/

/-- The rates of a pool that lends none of its coins out are its precisions with eighteen decimals. -/
theorem unitRates_of_notLent {perShare : Bool}
    (hrates : ((List.range l.balances.length).mapM fun k => do
      let rate ← l.lentRate perShare k
      mul (← l.precision k) rate) = .ok rates)
    (hnone : ∀ k < l.balances.length, l.info.lending.getD k false = false) : l.UnitRates rates := by
  refine unitRates_of_mapM hrates fun k hk rate hrate => ?_
  have hlent : l.lentRate perShare k = .ok e18 := if_pos (by rw [hnone k hk]; decide)
  rw [hlent] at hrate
  obtain ⟨_, ⟨⟩, hrate⟩ := bind_eq_ok.1 hrate
  obtain ⟨m, hm, hrate⟩ := bind_eq_ok.1 hrate
  exact ⟨m, hm, (fit_eq_ok.1 hrate).2⟩

/-- **A lending pool that lends nothing out is a pool by precisions.** Of both ways to pay, for own coins and for
underlying ones, the pool by precisions finds what it does. -/
theorem swapRates_extends_swapLending (hnone : ∀ k < l.balances.length, l.info.lending.getD k false = false)
    (perShare own : Bool) : (l.swapRates i j amountIn).Extends (l.swapLending perShare own i j amountIn) := by
  refine Extends.of_bind fun _ hcoins => Extends.of_bind fun rates hrates => ?_
  have hunit := unitRates_of_notLent hrates hnone
  cases own with
  | true =>
    simp only [if_true]
    exact hunit.swapRates hcoins
  | false =>
    -- only the balances are scaled by the rates
    simp only [Bool.false_eq_true, if_false]
    rw [StableState.swapRates, hcoins]
    exact hunit.byPrecision.bind fun _ _ => .refl _

end StableState

/-! ### Base pools -/

namespace BasePool

variable {p : BasePool} {rates : List ℕ} {i j amountIn : ℕ}

/-- The base pool as a pool of its own. -/
def asState (p : BasePool) : StableState where
  info := p.info
  amp := p.amp
  fee := p.fee
  balances := p.balances

/-- A coin of the base pool has the same precision in the pool of its own. -/
theorem precision_asState {k m : ℕ} (h : p.precision k = .ok m) : p.asState.precision k = .ok m := by
  unfold BasePool.precision at h
  unfold StableState.precision StableState.entry
  split at h
  · next hk =>
    rw [asState, hk]
    exact h
  · cases h

/-- The rates that a base pool makes are unit rates. -/
theorem unitRates_asState
    (hrates : ((List.range p.balances.length).mapM fun k => do mul (← p.precision k) e18) = .ok rates) :
    p.asState.UnitRates rates := by
  refine StableState.unitRates_of_mapM hrates fun k _ rate hrate => ?_
  obtain ⟨m, hm, hrate⟩ := bind_eq_ok.1 hrate
  exact ⟨m, precision_asState hm, (fit_eq_ok.1 hrate).2⟩

/-- The factors of a product stand the other way round. -/
theorem byRate_asState (p : BasePool) (rates : List ℕ) :
    p.asState.byRate rates =
      ((p.balances.zip rates).mapM fun (balance, rate) => do div (← mul balance rate) e18) := by
  refine congrArg (fun f => List.mapM f (p.balances.zip rates)) (funext fun (balance, rate) => ?_)
  dsimp only
  rw [mul_swap rate balance]

/-- **A base pool swaps like a pool by precisions.** Its rates are unit rates, and its fee comes last. -/
theorem swapRates_extends_swap (p : BasePool) (i j amountIn : ℕ) :
    (p.asState.swapRates i j amountIn).Extends (p.swap i j amountIn) := by
  intro out h
  simp only [BasePool.swap] at h
  obtain ⟨hne, h⟩ := unless_eq_ok.1 h
  obtain ⟨rates, hrates, h⟩ := bind_eq_ok.1 h
  have hcoins : p.asState.checkCoins i j = .ok () := if_neg hne
  refine (unitRates_asState hrates).swapRates hcoins out ?_
  simp only [StableState.swapByRates, byRate_asState, StableState.raisedByRate, StableState.scaledOut, bind_assoc,
    pure_bind]
  exact h

end BasePool

/-! ### Pools with the same terms -/

/-- What a swap reads of a pool that scales its balances by precisions. -/
structure Terms where
  precisions : List ℕ
  roundsDown : Bool
  amp : ℕ
  fee : ℕ
  balances : List ℕ
deriving DecidableEq

/-- The terms of a base pool. -/
def BasePool.terms (p : BasePool) : Terms := ⟨p.info.precisions, p.info.roundsDown, p.amp, p.fee, p.balances⟩

/-- The terms of a pool of its own. -/
def StableState.terms (s : StableState) : Terms := ⟨s.info.precisions, s.info.roundsDown, s.amp, s.fee, s.balances⟩

namespace StableState

variable {s l : StableState} {i j amountIn out : ℕ}

/-- A swap by precisions depends on the terms of the pool alone. -/
theorem swapRates_congr (h : l.terms = s.terms) : l.swapRates i j amountIn = s.swapRates i j amountIn := by
  obtain ⟨hprecisions, hrounds, hamp, hfee, hbalances⟩ := Terms.mk.inj h
  have hprecision : l.precision = s.precision := funext fun k => by rw [precision, hprecisions, precision]
  have hunit : l.info.roundingUnit = s.info.roundingUnit := by rw [Info.roundingUnit, hrounds, Info.roundingUnit]
  simp only [swapRates, checkCoins, byPrecision, raisedByPrecision, scaledOut, hprecision, hunit, hamp, hfee,
    hbalances]

/-- A pool of the kind `rates` swaps by precisions. -/
theorem swap_rates {tokens : List Address} (hs : s.info.kind = .stable .rates) :
    s.swap tokens i j amountIn = s.swapRates i j amountIn := by
  simp only [swap, scaling, hs]
  rfl

/-- Which tokens are listed only decides between two ways to scale the input and the output. -/
theorem swap_lending (hl : l.info.kind = .stable .lending ∨ l.info.kind = .stable .lendingPricePerShare)
    (listed : List Address) (i j amountIn : ℕ) :
    ∃ perShare own, l.swap listed i j amountIn = l.swapLending perShare own i j amountIn := by
  rcases hl with hl | hl
  · refine ⟨false, l.ownCoin listed i, ?_⟩
    simp only [swap, scaling, hl]
    rfl
  · refine ⟨true, l.ownCoin listed i && l.ownCoin listed j, ?_⟩
    simp only [swap, scaling, hl]
    rfl

/-- **The ways to scale by precisions agree.** What a base pool finds, a pool of the kind `rates` with the same terms
finds too; and so it finds what a lending pool with the same terms finds, if that lends none of its coins out. -/
theorem swap_of_terms (hs : s.info.kind = .stable .rates) (tokens : List Address) (i j amountIn out : ℕ) :
    (∀ p : BasePool, p.terms = s.terms → p.swap i j amountIn = .ok out → s.swap tokens i j amountIn = .ok out) ∧
    (∀ (l : StableState) (listed : List Address),
      l.info.kind = .stable .lending ∨ l.info.kind = .stable .lendingPricePerShare →
      (∀ k < l.balances.length, l.info.lending.getD k false = false) → l.terms = s.terms →
      l.swap listed i j amountIn = .ok out → s.swap tokens i j amountIn = .ok out) := by
  rw [swap_rates hs]
  constructor
  · intro p hterms h
    rw [← swapRates_congr (show p.asState.terms = s.terms from hterms)]
    exact p.swapRates_extends_swap i j amountIn out h
  · intro l listed hkind hnone hterms h
    obtain ⟨perShare, own, hlending⟩ := swap_lending hkind listed i j amountIn
    rw [hlending] at h
    rw [← swapRates_congr hterms]
    exact swapRates_extends_swapLending hnone perShare own out h

/-- Four dollar coins, the middle two with six decimals. -/
theorem swap_of_terms_fourCoins :
    let info : Info := { address := default, kind := .stable .rates, precisions := [1, 10 ^ 12, 10 ^ 12, 1] }
    let s : StableState :=
      { info, amp := 2000, fee := 1000000, balances := [10 ^ 26, 10 ^ 14, 10 ^ 14, 10 ^ 26] }
    let p : BasePool := ⟨s.info, s.amp, s.fee, s.balances, 10 ^ 26⟩
    let l : StableState := { s with info := { info with kind := .stable .lending } }
    (p.swap 1 2 (10 ^ 9) = .ok 999899996 ∧ s.swap [] 1 2 (10 ^ 9) = .ok 999899996) ∧
      l.swap [] 2 1 (10 ^ 9) = .ok 999899996 ∧ s.swap [] 2 1 (10 ^ 9) = .ok 999899996 := by
  intro info s p l
  have hbase : p.swap 1 2 (10 ^ 9) = .ok 999899996 := Quote.eq_ok_of_toOption (by decide +kernel)
  have hlent : l.swap [] 2 1 (10 ^ 9) = .ok 999899996 := Quote.eq_ok_of_toOption (by decide +kernel)
  refine ⟨⟨hbase, (swap_of_terms rfl [] 1 2 _ _).1 p rfl hbase⟩, hlent, ?_⟩
  exact (swap_of_terms rfl [] 2 1 _ _).2 l [] (.inl rfl) (by decide) rfl hlent

end StableState
end Curve
end Searcher

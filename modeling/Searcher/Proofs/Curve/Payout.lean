/-
# What Curve pools pay out

Every route of a Curve quote has one shape. The balances are scaled up, each by the rate or the precision of its coin;
a solver finds the new scaled balance of the output coin; what that is below the old one is scaled back down, and a fee
is taken off before or after. All divisions round down, and no step wraps.

So nothing about the solver is needed to bound the output. Whatever balance it finds, the difference is at most the old
scaled balance, a fee only lowers it, and a factor up and down again, with floors in between, does not lead above where
it started (`Checked.paid_le_of_scale`, `Checked.paid_le_of_rate`). A metapool pays coins of its base pool by a
withdrawal or a swap there, and the same holds of the balances of the base pool.
-/

import Searcher.Curve.Stable
import Searcher.Curve.StableNg
import Searcher.Curve.TriCryptoNg
import Mathlib.Data.List.Forall2
import Mathlib.Data.List.GetD

namespace Searcher

open Checked

/-- Whoever holds `balances` of its coins can pay `out` of coin `j`. -/
def Covers (balances : List Nat) (j out : Nat) : Prop := ∃ held, balances[j]? = some held ∧ out ≤ held

namespace Covers

variable {balances : List Nat} {j out paid : Nat}

/-- To pay a coin of the holder it is enough not to pay more than any balance that is held of it. -/
theorem of_le (hj : j < balances.length) (h : ∀ held, balances[j]? = some held → out ≤ held) :
    Covers balances j out := by
  have hheld := List.getElem?_eq_getElem hj
  exact ⟨balances[j], hheld, h _ hheld⟩

/-- Whoever can pay an amount can pay less. -/
theorem mono (h : Covers balances j out) (hle : paid ≤ out) : Covers balances j paid := by
  obtain ⟨held, hheld, hout⟩ := h
  exact ⟨held, hheld, Nat.le_trans hle hout⟩

/-- Of two holders in a row, the first pays the first coins. -/
theorem of_first {more : List Nat} {n : Nat} (h : Covers balances j out) (hj : j < n) :
    Covers (balances.take n ++ more) j out := by
  obtain ⟨held, hheld, hout⟩ := h
  have htake : (balances.take n)[j]? = some held := by rw [List.getElem?_take_of_lt hj, hheld]
  have hlt : j < (balances.take n).length := (List.getElem?_eq_some_iff.1 htake).1
  exact ⟨held, by rw [List.getElem?_append_left hlt, htake], hout⟩

/-- The second pays the coins that follow. -/
theorem of_second {more : List Nat} {n : Nat} (h : Covers more (j - n) out) (hn : balances.length = n) (hj : n ≤ j) :
    Covers (balances ++ more) j out := by
  obtain ⟨held, hheld, hout⟩ := h
  exact ⟨held, by rw [List.getElem?_append_right (by omega), hn, hheld], hout⟩

end Covers

namespace Checked

variable {a b m n out product paid held rate bound j : Nat}

/-- A computation that starts with a check succeeds where the check and the rest do. -/
theorem unless_eq_ok {α β : Type} {p : Prop} [Decidable p] {e : QuoteError} {k : α → Quote β} {q : Quote β}
    {result : β} : (if p then throw e >>= k else q) = .ok result ↔ ¬ p ∧ q = .ok result := by
  by_cases hp : p
  · rw [if_pos hp]
    constructor
    · intro h
      cases h
    · intro h
      exact absurd hp h.1
  · rw [if_neg hp]
    constructor
    · intro h
      exact ⟨hp, h⟩
    · intro h
      exact h.2

/-- A difference is no more than what it is taken from. -/
theorem sub_le (h : sub a b = .ok m) : m ≤ a := by
  obtain ⟨-, rfl⟩ := sub_eq_ok.1 h
  exact Nat.sub_le a b

/-- Two subtractions in a row, as of the new balance and of the unit that a contract keeps. -/
theorem sub_sub_le {unit : Nat} (h : sub a b = .ok m) (h' : sub m unit = .ok out) : out ≤ a :=
  Nat.le_trans (sub_le h') (sub_le h)

/-- What is at most `held` scaled up is at most `held` when it is scaled down again. -/
theorem paid_le_of_scale (h : div out m = .ok paid) (hout : out ≤ m * held) : paid ≤ held := by
  obtain ⟨-, rfl⟩ := div_eq_ok.1 h
  exact Nat.div_le_of_le_mul hout

/-- The same for a rate with eighteen decimals, rounded down on the way up as well. -/
theorem paid_le_of_rate (hproduct : mul out e18 = .ok product) (h : div product rate = .ok paid)
    (hout : out ≤ rate * held / e18) : paid ≤ held := by
  obtain ⟨-, rfl⟩ := fit_eq_ok.1 hproduct
  refine paid_le_of_scale h ?_
  calc out * e18 ≤ rate * held / e18 * e18 := Nat.mul_le_mul_right e18 hout
    _ ≤ rate * held := Nat.div_mul_le_self (rate * held) e18

/-- A product cut to eighteen decimals. -/
theorem eq_of_mul_div (h : (mul a b >>= fun product => div product e18) = .ok m) : m = a * b / e18 := by
  obtain ⟨product, hproduct, h⟩ := bind_eq_ok.1 h
  obtain ⟨-, rfl⟩ := fit_eq_ok.1 hproduct
  exact (div_eq_ok.1 h).2

/-- A product with a precision that is looked up. -/
theorem eq_of_precision {precision : Quote Nat} (hm : precision = .ok m)
    (h : (precision >>= fun m => mul m held) = .ok out) : out = m * held := by
  obtain ⟨m', hm', h⟩ := bind_eq_ok.1 h
  obtain rfl : m = m' := Except.ok.inj (hm.symm.trans hm')
  exact (fit_eq_ok.1 h).2

/-- A loop that succeeds has succeeded at each entry. -/
theorem forall₂_of_mapM {α : Type} {f : α → Quote Nat} {xs : List α} {ys : List Nat} (h : xs.mapM f = .ok ys) :
    List.Forall₂ (fun x y => f x = .ok y) xs ys := by
  induction xs generalizing ys with
  | nil =>
    obtain rfl : ys = [] := (Except.ok.inj h).symm
    exact .nil
  | cons x xs ih =>
    rw [List.mapM_cons] at h
    obtain ⟨y, hy, h⟩ := bind_eq_ok.1 h
    obtain ⟨rest, hrest, h⟩ := bind_eq_ok.1 h
    obtain rfl : y :: rest = ys := Except.ok.inj h
    exact .cons hy (ih hrest)

/-- An entry of a list of results is bounded by a bound on the result at its index; past the end it counts as zero. -/
theorem getD_le_of_mapM {α : Type} {f : α → Quote Nat} {xs : List α} {ys : List Nat} (h : xs.mapM f = .ok ys)
    (hf : ∀ a y, xs[j]? = some a → f a = .ok y → y ≤ bound) : ys.getD j 0 ≤ bound := by
  have hall := forall₂_of_mapM h
  by_cases hj : j < ys.length
  · have hj' : j < xs.length := by rw [hall.length_eq]; exact hj
    rw [List.getD_eq_getElem ys 0 hj]
    exact hf xs[j] ys[j] (List.getElem?_eq_getElem hj') (hall.get hj' hj)
  · rw [List.getD_eq_default ys 0 (Nat.le_of_not_lt hj)]
    exact Nat.zero_le bound

/-- A balance scaled by the rate that stands beside it. -/
theorem getD_le_of_zip {balances rates xs : List Nat} {f : Nat × Nat → Quote Nat}
    (h : (balances.zip rates).mapM f = .ok xs) (hheld : balances[j]? = some held)
    (hf : ∀ rate x, f (held, rate) = .ok x → x = rate * held / e18) :
    xs.getD j 0 ≤ rates.getD j 0 * held / e18 := by
  refine getD_le_of_mapM h fun entry x hentry hx => ?_
  obtain ⟨balance, rate⟩ := entry
  obtain ⟨hbalance, hrate⟩ := List.getElem?_zip_eq_some.1 hentry
  obtain rfl : held = balance := Option.some.inj (hheld.symm.trans hbalance)
  have hget : rates.getD j 0 = rate := by rw [List.getD_eq_getElem?_getD, hrate]; rfl
  rw [hget]
  exact Nat.le_of_eq (hf rate x hx)

/-- A balance scaled by a factor that depends on its index. -/
theorem getD_le_of_zipIdx {balances xs : List Nat} {f : Nat × Nat → Quote Nat}
    (h : balances.zipIdx.mapM f = .ok xs) (hheld : balances[j]? = some held)
    (hf : ∀ x, f (held, j) = .ok x → x ≤ bound) : xs.getD j 0 ≤ bound := by
  refine getD_le_of_mapM h fun entry x hentry hx => ?_
  rw [List.getElem?_zipIdx, hheld] at hentry
  obtain rfl : (held, j) = entry := by simpa using hentry
  exact hf x hx

end Checked

/-- A fee leaves no more than there was. -/
theorem StableSwap.afterFee_le {fee amount out : Nat} (h : afterFee fee amount = .ok out) : out ≤ amount := by
  obtain ⟨part, -, h⟩ := bind_eq_ok.1 h
  exact sub_le h

namespace Curve

open StableSwap

namespace BasePool

variable {p : BasePool} {balances xs ys : List Nat} {i j m amount out held : Nat}

/-- A scaled balance of the base pool is at most the balance times the precision of its coin. -/
theorem scaled_getD_le (h : p.scaled balances = .ok xs) (hm : p.precision j = .ok m)
    (hheld : balances[j]? = some held) : xs.getD j 0 ≤ m * held :=
  getD_le_of_zipIdx h hheld fun _ hx => Nat.le_of_eq (eq_of_precision hm hx)

/-- The balances from which a withdrawal is paid are those of the pool or lower. -/
theorem reduced_getD_le {new fee d0 d1 : Nat} (h : reduced xs i new fee d0 d1 = .ok ys) :
    ys.getD j 0 ≤ xs.getD j 0 := by
  refine getD_le_of_mapM h fun entry y hentry hy => ?_
  rw [List.getElem?_zipIdx] at hentry
  obtain ⟨x, hget, rfl⟩ := Option.map_eq_some_iff.1 hentry
  rw [List.getD_eq_getElem?_getD, hget]
  change y ≤ x
  -- of either coin a fee is taken from the balance
  obtain ⟨part, hpart⟩ : ∃ part, sub x part = .ok y := by
    dsimp only at hy
    split at hy
    all_goals
      simp only [bind_eq_ok] at hy
      obtain ⟨-, -, -, -, -, -, part, -, hy⟩ := hy
      exact ⟨part, hy⟩
  exact sub_le hpart

/-- A withdrawal in one coin pays at most what the base pool holds of it. -/
theorem withdraw_covered {w : Withdrawal} (h : p.withdraw amount j = .ok w) : Covers p.balances j w.paid := by
  simp only [withdraw, unless_eq_ok, bind_eq_ok] at h
  obtain ⟨hcoin, -, -, -, -, -, -, fee, -, xs, hxs, d0, -, -, -, -, -, d1, -, new, -, m, hm, -, -, whole, -, ys, hys,
    newer, -, out, hout, rounded, hrounded, paid, hpaid, rest, -, h⟩ := h
  obtain rfl : Withdrawal.mk paid rest = w := Except.ok.inj h
  refine Covers.of_le (by omega) fun held hheld => paid_le_of_scale hpaid ?_
  calc rounded ≤ ys.getD j 0 := sub_sub_le hout hrounded
    _ ≤ xs.getD j 0 := reduced_getD_le hys
    _ ≤ m * held := scaled_getD_le hxs hm hheld

/-- A swap in the base pool pays at most what the base pool holds of the coin. -/
theorem swap_covered (h : p.swap i j amount = .ok out) : Covers p.balances j out := by
  simp only [swap, unless_eq_ok, bind_eq_ok] at h
  obtain ⟨hcoin, rates, -, xs, hxs, -, -, -, -, x, -, y, -, taken, htaken, rounded, hrounded, product, hproduct, gross,
    hgross, h⟩ := h
  refine (Covers.of_le (by omega) fun held hheld => ?_).mono (afterFee_le h)
  refine paid_le_of_rate hproduct hgross (Nat.le_trans (sub_sub_le htaken hrounded) ?_)
  refine getD_le_of_zip hxs hheld fun rate x hx => ?_
  rw [Nat.mul_comm rate held]
  exact eq_of_mul_div hx

end BasePool

namespace StableState

variable {s : StableState} {xs rates : List Nat} {i j x amp scale gross y net product paid amountIn out : Nat}
  {plusOne : Bool}

/-- A swap is between two different coins of the pool. -/
theorem checkCoins_eq_ok {u : Unit} (h : s.checkCoins i j = .ok u) :
    i ≠ j ∧ i < s.balances.length ∧ j < s.balances.length := by
  unfold checkCoins at h
  split at h
  · cases h
  · omega

/-- What a swap takes out of the scaled balances is within the scaled balance of the coin. -/
theorem scaledOut_le (h : s.scaledOut amp scale i j x xs plusOne = .ok (gross, y)) : gross ≤ xs.getD j 0 := by
  simp only [scaledOut, bind_eq_ok] at h
  obtain ⟨new, -, taken, htaken, rounded, hrounded, h⟩ := h
  obtain ⟨rfl, -⟩ := Prod.mk.inj (Except.ok.inj h)
  exact sub_sub_le htaken hrounded

/-- An output at most the balance scaled by its precision, scaled back by the precision. -/
theorem covers_of_precision {m : Nat} (hxs : s.byPrecision = .ok xs) (hj : j < s.balances.length)
    (hm : s.precision j = .ok m) (hpaid : div net m = .ok paid) (hnet : net ≤ xs.getD j 0) :
    Covers s.balances j paid := by
  refine .of_le hj fun held hheld => paid_le_of_scale hpaid (Nat.le_trans hnet ?_)
  exact getD_le_of_zipIdx hxs hheld fun x hx => Nat.le_of_eq (eq_of_precision hm hx)

/-- A balance that is scaled by a rate is at most the product, rounded down. -/
theorem byRate_getD_le {held : Nat} (hxs : s.byRate rates = .ok xs) (hheld : s.balances[j]? = some held) :
    xs.getD j 0 ≤ rates.getD j 0 * held / e18 :=
  getD_le_of_zip hxs hheld fun _ _ hx => eq_of_mul_div hx

/-- An output at most the balance scaled by its rate, scaled back by the rate. -/
theorem covers_of_rate (hxs : s.byRate rates = .ok xs) (hj : j < s.balances.length)
    (hproduct : mul net e18 = .ok product) (hpaid : div product (rates.getD j 0) = .ok paid)
    (hnet : net ≤ xs.getD j 0) : Covers s.balances j paid :=
  .of_le hj fun _ hheld => paid_le_of_rate hproduct hpaid (Nat.le_trans hnet (byRate_getD_le hxs hheld))

/-- Balances that are not scaled at all: the output is a difference of balances, less the fee. -/
theorem swapBalances_covered (h : s.swapBalances i j amountIn = .ok out) : Covers s.balances j out := by
  simp only [swapBalances, bind_eq_ok, Prod.exists] at h
  obtain ⟨_, hcoins, x, -, gross, y, hgross, h⟩ := h
  refine (Covers.of_le (checkCoins_eq_ok hcoins).2.2 fun held hheld => ?_).mono (afterFee_le h)
  have hgross' := scaledOut_le hgross
  rwa [List.getD_eq_getElem?_getD, hheld] at hgross'

/-- Balances that are scaled by a precision for each coin: the output is scaled back before the fee is taken. -/
theorem swapRates_covered (h : s.swapRates i j amountIn = .ok out) : Covers s.balances j out := by
  simp only [swapRates, bind_eq_ok, Prod.exists] at h
  obtain ⟨_, hcoins, xs, hxs, x, -, gross, y, hgross, m, hm, paid, hpaid, h⟩ := h
  have hpaid := covers_of_precision hxs (checkCoins_eq_ok hcoins).2.2 hm hpaid (scaledOut_le hgross)
  exact hpaid.mono (afterFee_le h)

/-- The same with a scaled amplification, and with a fee that rises off the peg, which lowers the output like any
other. -/
theorem swapAave_covered (h : s.swapAave i j amountIn = .ok out) : Covers s.balances j out := by
  simp only [swapAave, bind_eq_ok, Prod.exists] at h
  obtain ⟨_, hcoins, scale, -, xs, hxs, x, -, amp, -, gross, y, hgross, m, hm, paid, hpaid, h⟩ := h
  have hpaid := covers_of_precision hxs (checkCoins_eq_ok hcoins).2.2 hm hpaid (scaledOut_le hgross)
  obtain ⟨-, -, -, -, -, -, -, -, fee, -, h⟩ := h
  exact hpaid.mono (afterFee_le h)

/-- Own coins that are scaled by accrued rates. Here the fee is taken before the output is scaled back. Nothing is
said of the underlying coins, which the pool does not hold. -/
theorem swapStoredRates_covered (h : s.swapStoredRates true i j amountIn = .ok out) : Covers s.balances j out := by
  simp only [swapStoredRates, bind_eq_ok, Prod.exists, if_true] at h
  obtain ⟨_, hcoins, scale, -, rates, -, xs, hxs, amp, -, x, -, gross, y, hgross, net, hnet, product, hproduct,
    h⟩ := h
  exact covers_of_rate hxs (checkCoins_eq_ok hcoins).2.2 hproduct h
    (Nat.le_trans (afterFee_le hnet) (scaledOut_le hgross))

/-- Own coins of a lending pool, whichever of the two ways tells their rate. -/
theorem swapLending_covered {perShare : Bool} (h : s.swapLending perShare true i j amountIn = .ok out) :
    Covers s.balances j out := by
  simp only [swapLending, bind_eq_ok, Prod.exists, if_true] at h
  obtain ⟨_, hcoins, rates, -, xs, hxs, x, -, gross, y, hgross, product, hproduct, paid, hpaid, h⟩ := h
  exact (covers_of_rate hxs (checkCoins_eq_ok hcoins).2.2 hproduct hpaid (scaledOut_le hgross)).mono (afterFee_le h)

/-- Balances that are scaled by a fixed rate for each coin. -/
theorem swapRateMultipliers_covered (h : s.swapRateMultipliers i j amountIn = .ok out) : Covers s.balances j out := by
  simp only [swapRateMultipliers, bind_eq_ok, Prod.exists] at h
  obtain ⟨_, hcoins, rates, -, xs, hxs, x, -, gross, y, hgross, net, hnet, product, hproduct, h⟩ := h
  exact covers_of_rate hxs (checkCoins_eq_ok hcoins).2.2 hproduct h
    (Nat.le_trans (afterFee_le hnet) (scaledOut_le hgross))

/-- The own coins of a metapool, the share of its base pool among them. -/
theorem swapMeta_covered (h : s.swapMeta i j amountIn = .ok out) : Covers s.balances j out := by
  simp only [swapMeta, bind_eq_ok, Prod.exists] at h
  obtain ⟨_, hcoins, scale, -, price, -, rates, -, xs, hxs, x, -, amp, -, gross, y, hgross, net, hnet, product,
    hproduct, h⟩ := h
  exact covers_of_rate hxs (checkCoins_eq_ok hcoins).2.2 hproduct h
    (Nat.le_trans (afterFee_le hnet) (scaledOut_le hgross))

/-- The rates of a metapool's own coins but the last are their precisions with eighteen decimals. -/
theorem metaRates_getD_le {price m : Nat} (h : s.metaRates price = .ok rates) (hj : j < s.balances.length - 1)
    (hm : s.precision j = .ok m) : rates.getD j 0 ≤ m * e18 := by
  simp only [metaRates, bind_eq_ok] at h
  obtain ⟨own, hown, h⟩ := h
  obtain rfl : own.set (own.length - 1) price = rates := Except.ok.inj h
  have hlength : own.length = s.balances.length := by
    rw [← (forall₂_of_mapM hown).length_eq, List.length_range]
  rw [List.getD_eq_getElem?_getD, List.getElem?_set_ne (by omega), ← List.getD_eq_getElem?_getD]
  refine getD_le_of_mapM hown fun k rate hk hrate => ?_
  obtain rfl : j = k := by
    rw [List.getElem?_range (by omega)] at hk
    exact Option.some.inj hk
  exact Nat.le_of_eq (eq_of_precision hm hrate)

/-- A swap through the base pool pays a coin of the metapool from the metapool, and one of the base pool from that. -/
theorem swapUnderlying_covered {v : MetaView} (hview : s.metaView = some v)
    (h : s.swapUnderlying i j amountIn = .ok out) :
    Covers (s.balances.take (s.balances.length - 1) ++ v.base.balances) j out := by
  simp only [swapUnderlying, unless_eq_ok, bind_eq_ok] at h
  obtain ⟨v', hv', hsome, hcoins, price, -, rates, hrates, xs, hxs, h⟩ := h
  have hv : s.view = .ok v := by rw [view, hview]
  obtain rfl : v = v' := Except.ok.inj (hv.symm.trans hv')
  have hlast : (s.balances.take (s.balances.length - 1)).length = s.balances.length - 1 := by
    rw [List.length_take]
    omega
  split at h
  · -- Both coins are the base pool's.
    rename_i hboth
    exact (BasePool.swap_covered h).of_second hlast hboth.2
  -- Whichever coin comes in, the solver's output is taken from the balance of the other side.
  obtain ⟨x, amp, scale, gross, y, net, hgross, hnet, h⟩ : ∃ x amp scale gross y net,
      s.scaledOut amp scale (min i (s.balances.length - 1)) (min j (s.balances.length - 1)) x xs false
        = .ok (gross, y) ∧ afterFee s.fee gross = .ok net ∧
      (if j < s.balances.length - 1 then do div net (← s.precision (min j (s.balances.length - 1)))
        else do return (← v.base.withdraw (← div (← mul net e18) price) (j - (s.balances.length - 1))).paid)
        = .ok out := by
    split at h
    · simp only [bind_eq_ok, Prod.exists] at h
      obtain ⟨x, -, scale, -, amp, -, gross, y, hgross, net, hnet, h⟩ := h
      exact ⟨x, amp, scale, gross, y, net, hgross, hnet, h⟩
    · simp only [bind_eq_ok, Prod.exists] at h
      obtain ⟨-, -, x, -, scale, -, amp, -, gross, y, hgross, net, hnet, h⟩ := h
      exact ⟨x, amp, scale, gross, y, net, hgross, hnet, h⟩
  split at h
  · rename_i hj
    rw [Nat.min_eq_left (Nat.le_of_lt hj)] at h hgross
    obtain ⟨m, hm, h⟩ := bind_eq_ok.1 h
    refine Covers.of_first (.of_le (by omega) fun held hheld => paid_le_of_scale h ?_) hj
    calc net ≤ gross := afterFee_le hnet
      _ ≤ xs.getD j 0 := scaledOut_le hgross
      _ ≤ rates.getD j 0 * held / e18 := byRate_getD_le hxs hheld
      _ ≤ m * e18 * held / e18 := Nat.div_le_div_right (Nat.mul_le_mul_right held (metaRates_getD_le hrates hj hm))
      _ = m * held := by rw [Nat.mul_right_comm, Nat.mul_div_cancel _ (by decide)]
  · rename_i hj
    simp only [bind_eq_ok] at h
    obtain ⟨-, -, shares, -, w, hw, h⟩ := h
    obtain rfl : w.paid = out := Except.ok.inj h
    exact (BasePool.withdraw_covered hw).of_second hlast (Nat.le_of_not_lt hj)

end StableState

namespace StableNgState

variable {s : StableNgState} {xs : List Nat} {i j x rate net product paid amountIn out held : Nat}

/-- What a swap pays after its fee is within the scaled balance, in the next generation too. -/
theorem netOut_le (h : s.netOut xs i j x = .ok out) : out ≤ xs.getD j 0 := by
  simp only [netOut, scaledOut, bind_eq_ok, Prod.exists] at h
  obtain ⟨y, gross, ⟨amp, -, d, -, new, -, taken, htaken, rounded, hrounded, hpair⟩, h⟩ := h
  obtain ⟨-, rfl⟩ := Prod.mk.inj (Except.ok.inj hpair)
  obtain ⟨-, -, -, -, -, -, -, -, fee, -, h⟩ := h
  exact Nat.le_trans (afterFee_le h) (sub_sub_le htaken hrounded)

/-- A rate that is found is the entry of the row of rates. -/
theorem rate_getD (h : s.rate j = .ok rate) : s.rates.getD j 0 = rate := by
  unfold StableNgState.rate at h
  split at h
  · rename_i r hr
    rw [List.getD_eq_getElem?_getD, hr]
    exact Except.ok.inj h
  · cases h

/-- A balance that is scaled by its rate is at most the product, rounded down. -/
theorem scaled_getD_le (hxs : s.scaled = .ok xs) (hrate : s.rate j = .ok rate) (hheld : s.balances[j]? = some held) :
    xs.getD j 0 ≤ rate * held / e18 := by
  unfold scaled at hxs
  split at hxs
  · cases hxs
  rw [← rate_getD hrate]
  exact getD_le_of_zip hxs hheld fun _ _ hx => eq_of_mul_div hx

/-- An output that is scaled back down by the rate is paid from the balance. This is how both routes of a pool of the
next generation end. -/
theorem covers_of_rate (hxs : s.scaled = .ok xs) (hj : j < s.balances.length) (hrate : s.rate j = .ok rate)
    (hnet : s.netOut xs i j x = .ok net) (hproduct : mul net e18 = .ok product) (hpaid : div product rate = .ok paid) :
    Covers s.balances j paid :=
  .of_le hj fun _ hheld =>
    paid_le_of_rate hproduct hpaid (Nat.le_trans (netOut_le hnet) (scaled_getD_le hxs hrate hheld))

/-- A pool of the next generation pays its own coins. -/
theorem swapOwn_covered (h : s.swapOwn i j amountIn = .ok out) : Covers s.balances j out := by
  simp only [swapOwn, unless_eq_ok, bind_eq_ok] at h
  obtain ⟨hcoins, -, -, rate, hrate, xs, hxs, -, -, -, -, x, -, net, hnet, product, hproduct, h⟩ := h
  exact covers_of_rate hxs (by omega) hrate hnet hproduct h

/-- A swap through the base pool pays the first coin from the metapool, and the others from the base pool. -/
theorem swapUnderlying_covered {base : BasePool} (hbase : s.base = some base)
    (h : s.swapUnderlying i j amountIn = .ok out) : Covers (s.balances.take 1 ++ base.balances) j out := by
  simp only [swapUnderlying, hbase, unless_eq_ok, bind_eq_ok] at h
  obtain ⟨hcount, hcoins, ownRate, hown, shareRate, -, xs, hxs, h⟩ := h
  have hone : (s.balances.take 1).length = 1 := by
    rw [List.length_take]
    omega
  split at h
  · simp only [bind_eq_ok] at h
    obtain ⟨-, -, -, -, x, -, net, -, -, -, shares, -, w, hw, h⟩ := h
    obtain rfl : w.paid = out := Except.ok.inj h
    exact (BasePool.withdraw_covered hw).of_second hone (by omega)
  split at h
  · rename_i hj
    subst hj
    simp only [bind_eq_ok] at h
    obtain ⟨-, -, -, -, value, -, x, -, net, hnet, product, hproduct, h⟩ := h
    exact (covers_of_rate hxs (by omega) hown hnet hproduct h).of_first Nat.zero_lt_one
  · exact (BasePool.swap_covered h).of_second hone (by omega)

end StableNgState

/-- **A pool of two volatile coins pays its swaps.** Whatever balance the solver finds, the difference is scaled back
down by the precision, and by the price scale for the second coin. -/
theorem CryptoState.swap_covered {s : CryptoState} {i j amountIn out : Nat} (h : s.swap i j amountIn = .ok out) :
    Covers s.balances.toList j out := by
  simp only [swap, unless_eq_ok, bind_eq_ok] at h
  obtain ⟨hcoins, price, -, d, -, raised, -, x0, hx0, weighed, hweighed, x1, hx1, y, -, taken, htaken, rounded,
    hrounded, h⟩ := h
  obtain ⟨rfl, rfl⟩ | ⟨rfl, rfl⟩ : (i = 1 ∧ j = 0) ∨ (i = 0 ∧ j = 1) := by omega
  · simp only [if_pos, bind_eq_ok] at h
    obtain ⟨gross, hgross, fee, -, -, -, part, -, h⟩ := h
    obtain ⟨-, rfl⟩ := fit_eq_ok.1 hx0
    refine ⟨s.balances[0], by simp, Nat.le_trans (sub_le h) (paid_le_of_scale hgross ?_)⟩
    rw [Nat.mul_comm]
    exact sub_sub_le htaken hrounded
  · simp only [Nat.one_ne_zero, if_false, bind_eq_ok] at h
    obtain ⟨product, hproduct, gross, hgross, fee, -, -, -, part, -, h⟩ := h
    obtain ⟨-, rfl⟩ := fit_eq_ok.1 hweighed
    obtain ⟨-, rfl⟩ := div_eq_ok.1 hx1
    refine ⟨s.balances[1], by simp, Nat.le_trans (sub_le h) (paid_le_of_rate hproduct hgross ?_)⟩
    rw [Nat.mul_comm price]
    exact sub_sub_le htaken hrounded

end Curve

namespace TriCrypto

variable {balances precisions xs : Vector Nat 3} {prices : Vector Nat 2}
  {i j amountIn feeGamma midFee outFee y out : Nat}

/-- An input of one coin leaves the balances of the others. -/
theorem coin_raised {more : Vector Nat 3} (h : raised balances i amountIn = .ok more) (hij : i ≠ j) :
    coin more j = coin balances j := by
  obtain ⟨b, -, h⟩ := bind_eq_ok.1 h
  obtain rfl : balances.setIfInBounds i b = more := Except.ok.inj h
  rw [coin, coin, Vector.toList_setIfInBounds, List.getD_eq_getElem?_getD, List.getElem?_set_ne hij,
    ← List.getD_eq_getElem?_getD]

/-- The first coin is scaled by its precision. -/
theorem coin_scaled_zero (h : scaled balances prices precisions = .ok xs) :
    coin xs 0 = coin precisions 0 * coin balances 0 := by
  simp only [scaled, bind_eq_ok] at h
  obtain ⟨x, hx, -, -, -, -, y, -, -, -, -, -, z, -, h⟩ := h
  obtain rfl : Cryptoswap.three x y z = xs := Except.ok.inj h
  rw [Nat.mul_comm]
  exact (fit_eq_ok.1 hx).2

/-- The others are scaled by their prices as well. -/
theorem coin_scaled_pos (h : scaled balances prices precisions = .ok xs) (hj : 0 < j) (hj' : j < 3) :
    coin xs j = price prices j * (coin precisions j * coin balances j) / e18 := by
  simp only [scaled, bind_eq_ok] at h
  obtain ⟨x, -, a, ha, b, hb, y, hy, c, hc, d, hd, z, hz, h⟩ := h
  obtain rfl : Cryptoswap.three x y z = xs := Except.ok.inj h
  obtain ⟨-, rfl⟩ := fit_eq_ok.1 ha
  obtain ⟨-, rfl⟩ := fit_eq_ok.1 hb
  obtain ⟨-, rfl⟩ := fit_eq_ok.1 hc
  obtain ⟨-, rfl⟩ := fit_eq_ok.1 hd
  have hcomm : ∀ b p m : Nat, b * p * m = p * (m * b) := by grind
  obtain rfl | rfl : j = 1 ∨ j = 2 := by omega
  · rw [← hcomm]
    exact (div_eq_ok.1 hy).2
  · rw [← hcomm]
    exact (div_eq_ok.1 hz).2

/-- What a pool of three coins pays is at most the balance from which its scaled balance came. -/
theorem payOut_le (hxs : scaled balances prices precisions = .ok xs) (hj : j < 3)
    (h : payOut xs prices precisions feeGamma midFee outFee j y = .ok out) : out ≤ coin balances j := by
  simp only [payOut, pure_bind, bind_eq_ok] at h
  obtain ⟨taken, htaken, rounded, hrounded, h⟩ := h
  have hrounded := sub_sub_le htaken hrounded
  split at h
  · rename_i hpos
    simp only [bind_eq_ok] at h
    obtain ⟨product, hproduct, scaledBack, hscaledBack, gross, hgross, -, -, fee, -, -, -, part, -, h⟩ := h
    rw [coin_scaled_pos hxs hpos hj] at hrounded
    exact Nat.le_trans (sub_le h) (paid_le_of_scale hgross (paid_le_of_rate hproduct hscaledBack hrounded))
  · obtain rfl : j = 0 := by omega
    simp only [bind_eq_ok] at h
    obtain ⟨gross, hgross, -, -, fee, -, -, -, part, -, h⟩ := h
    rw [coin_scaled_zero hxs] at hrounded
    exact Nat.le_trans (sub_le h) (paid_le_of_scale hgross hrounded)

/-- A swap that pays what is left of the raised balances is covered by the balances before it. -/
theorem payOut_covered {more : Vector Nat 3} (hmore : raised balances i amountIn = .ok more)
    (hxs : scaled more prices precisions = .ok xs) (hij : i ≠ j) (hj : j < 3)
    (h : payOut xs prices precisions feeGamma midFee outFee j y = .ok out) : Covers balances.toList j out := by
  have hlength : balances.toList.length = 3 := Vector.length_toList
  refine ⟨balances.toList[j], List.getElem?_eq_getElem (by omega), ?_⟩
  calc out ≤ coin more j := payOut_le hxs hj h
    _ = coin balances j := coin_raised hmore hij
    _ = balances.toList[j] := List.getD_eq_getElem _ 0 (by omega)

end TriCrypto

namespace Curve

open TriCrypto

/-- A pool of three volatile coins pays its swaps. -/
theorem TriCryptoState.swap_covered {s : TriCryptoState} {i j amountIn out : Nat} (h : s.swap i j amountIn = .ok out) :
    Covers s.balances.toList j out := by
  simp only [swap, unless_eq_ok, bind_eq_ok] at h
  obtain ⟨hcoins, d, -, more, hmore, xs, hxs, y, -, h⟩ := h
  exact payOut_covered hmore hxs (by omega) (by omega) h

/-- A pool of three pays its swaps with the cubic of the next generation too: both end in the same step. -/
theorem TriCryptoNgState.swap_covered {s : TriCryptoNgState} {i j amountIn out : Nat}
    (h : s.swap i j amountIn = .ok out) : Covers s.balances.toList j out := by
  simp only [swap, unless_eq_ok, bind_eq_ok] at h
  obtain ⟨hcoins, d, -, more, hmore, xs, hxs, solved, -, h⟩ := h
  exact payOut_covered hmore hxs (by omega) (by omega) h

end Curve
end Searcher

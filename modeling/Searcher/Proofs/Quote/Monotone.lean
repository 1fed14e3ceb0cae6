/-
# Quotes do not fall with the input

A pair pays `s R / (W + s)` for an input whose kept part is `s`, and that rises with `s`
(`ConstantProduct.amountOut_mono`); a concentrated pool pays no less for more across any number of ticks
(`Concentrated.swapWithin_mono`). So a hop through either hands on no less, and by induction over the hops neither does
a path of them, as long as both quotes see the same tick data.
-/

import Searcher.Proofs.Concentrated.Monotone
import Searcher.Proofs.Loading.Fixed
import Searcher.Proofs.Quote.Holdings

namespace Searcher

variable {a b out out' : ℕ}

/-- A pair pays no less for more. -/
theorem ConstantProduct.amountOut_mono {reserveIn reserveOut : ℕ} {fee : Fee} (hab : a ≤ b)
    (h : amountOut a reserveIn reserveOut fee = .ok out) (h' : amountOut b reserveIn reserveOut fee = .ok out') :
    out ≤ out' := by
  obtain ⟨hne, hout⟩ := amountOut_eq_ok h
  obtain ⟨hne', rfl⟩ := amountOut_eq_ok h'
  obtain ⟨d, rfl⟩ := Nat.exists_eq_add_of_le hab
  set weight := reserveIn * fee.base
  set keep := fee.keep
  have hrounded : out * (weight + a * keep) ≤ a * keep * reserveOut := hout ▸ Nat.div_mul_le_self _ _
  have hreserve : out ≤ reserveOut := by
    rw [hout]
    refine Nat.div_le_of_le_mul ?_
    gcongr
    exact Nat.le_add_left _ _
  rw [Nat.le_div_iff_mul_le (Nat.pos_of_ne_zero hne')]
  calc out * (weight + (a + d) * keep) = out * (weight + a * keep) + out * (d * keep) := by ring
    _ ≤ a * keep * reserveOut + reserveOut * (d * keep) := by gcongr
    _ = (a + d) * keep * reserveOut := by ring

variable {σ : Type} {u u' v v' : σ}

namespace Pool

variable {pool : Pool}

/-- A pool of one of the two families pays no less for more, over fixed ticks. -/
theorem quoteAt_mono (hfamily : pool.state.family = .constantProduct ∨ pool.state.family = .concentrated)
    {bits : ℤ → ℕ} {nets : ℤ → ℤ → ℤ} {i j : ℕ} (hab : a ≤ b)
    (h : pool.quoteAt (.fixed bits nets) a i j u = (.ok out, u'))
    (h' : pool.quoteAt (.fixed bits nets) b i j v = (.ok out', v')) : out ≤ out' := by
  unfold quoteAt at h h'
  cases hstate : pool.state with
  | constantProduct reserve0 reserve1 fee =>
    simp only [hstate] at h h'
    split at h
    · rename_i hi
      rw [if_pos hi] at h'
      exact ConstantProduct.amountOut_mono hab (Ticking.lift_eq_ok.1 h).1 (Ticking.lift_eq_ok.1 h').1
    · rename_i hi
      rw [if_neg hi] at h'
      exact ConstantProduct.amountOut_mono hab (Ticking.lift_eq_ok.1 h).1 (Ticking.lift_eq_ok.1 h').1
  | concentrated s =>
    simp only [hstate] at h h'
    obtain ⟨swap, w, hswap, h⟩ := Ticking.bind_eq_ok.1 h
    obtain ⟨swap', w', hswap', h'⟩ := Ticking.bind_eq_ok.1 h'
    obtain ⟨rfl, -⟩ := Ticking.pure_eq_ok.1 h
    obtain ⟨rfl, -⟩ := Ticking.pure_eq_ok.1 h'
    exact Concentrated.swapWithin_mono hab hswap hswap'
  | _ => simp [hstate, PoolState.family] at hfamily

/-- One pool pays no less for more, if it is a pair or of concentrated liquidity. The ticks are fixed, so that the
states of the source before the two quotes do not matter. -/
theorem quote_mono (hfamily : pool.state.family = .constantProduct ∨ pool.state.family = .concentrated)
    {bits : Address → ℤ → ℕ} {nets : Address → ℤ → ℤ → ℤ} {tokenIn tokenOut : Address} (hab : a ≤ b)
    (h : pool.quote (fun address => .fixed (bits address) (nets address)) a tokenIn tokenOut u = (.ok out, u'))
    (h' : pool.quote (fun address => .fixed (bits address) (nets address)) b tokenIn tokenOut v = (.ok out', v')) :
    out ≤ out' := by
  obtain ⟨i, j, hi, hj, -, h⟩ := quote_eq_ok h
  obtain ⟨i', j', hi', hj', -, h'⟩ := quote_eq_ok h'
  obtain rfl : i = i' := Option.some.inj (hi.symm.trans hi')
  obtain rfl : j = j' := Option.some.inj (hj.symm.trans hj')
  exact quoteAt_mono hfamily hab h h'

end Pool

namespace Market

variable {market : Market} {bits : Address → ℤ → ℕ} {nets : Address → ℤ → ℤ → ℤ}

/-- A route of such pools pays no less for more: the amounts on the way keep their order from leg to leg. -/
theorem foldlM_quoteLeg_mono {legs : List Leg}
    (hfamily : ∀ leg ∈ legs, ∀ pool, market leg.pool = some pool →
      pool.state.family = .constantProduct ∨ pool.state.family = .concentrated) (hab : a ≤ b)
    (h : legs.foldlM (market.quoteLeg fun address => .fixed (bits address) (nets address)) a u = (.ok out, u'))
    (h' : legs.foldlM (market.quoteLeg fun address => .fixed (bits address) (nets address)) b v = (.ok out', v')) :
    out ≤ out' := by
  induction legs generalizing a b u v with
  | nil =>
    obtain ⟨rfl, -⟩ := Ticking.pure_eq_ok.1 h
    obtain ⟨rfl, -⟩ := Ticking.pure_eq_ok.1 h'
    exact hab
  | cons leg legs ih =>
    rw [List.foldlM_cons] at h h'
    obtain ⟨mid, w, hmid, h⟩ := Ticking.bind_eq_ok.1 h
    obtain ⟨mid', w', hmid', h'⟩ := Ticking.bind_eq_ok.1 h'
    refine ih (fun leg' hleg => hfamily leg' (by simp [hleg])) ?_ h h'
    unfold quoteLeg at hmid hmid'
    rcases hpool : market leg.pool with _ | pool
    · simp only [hpool] at hmid
      cases (Prod.mk.inj hmid).1
    · simp only [hpool] at hmid hmid'
      exact Pool.quote_mono (hfamily leg (by simp) pool hpool) hab hmid hmid'

variable {τ : Type} {good : τ → Prop} {ticks : Address → TickSource τ} {s t : τ}

/-- **A larger input pays no less.** Let the ticks of all pools be fixed, and let two quotes see them, from whatever
states their sources are in. On a path through pairs and concentrated pools the quote of the larger input is no smaller,
if both succeed; and what a concentrated pool pays does not fall with the input, however many ticks the swaps cross. -/
theorem quotePath_mono (reads : ∀ address, (ticks address).Reads good (bits address) (nets address)) (hs : good s)
    (ht : good t) (hab : a ≤ b) :
    (∀ (market : Market) (path : Path),
      (∀ leg ∈ path.legs, ∀ pool, market leg.pool = some pool →
        pool.state.family = .constantProduct ∨ pool.state.family = .concentrated) →
      ∀ out out', (market.quotePath ticks path a s).1 = .ok out → (market.quotePath ticks path b t).1 = .ok out' →
        out ≤ out') ∧
    ∀ (address : Address) (state : ConcentratedState) (zeroForOne : Bool) (swap swap' : Concentrated.Outcome),
      (state.swap (ticks address) a zeroForOne s).1 = .ok swap →
      (state.swap (ticks address) b zeroForOne t).1 = .ok swap' → swap.amountOut ≤ swap'.amountOut := by
  constructor
  · intro market path hfamily out out' h h'
    exact foldlM_quoteLeg_mono hfamily hab (Prod.ext (quotePath_ok reads hs h) rfl)
      (Prod.ext (quotePath_ok reads ht h') rfl)
  · intro address state zeroForOne swap swap' h h'
    exact Concentrated.swapWithin_mono hab (Prod.ext ((reads address).swapWithin_ok hs h) rfl)
      (Prod.ext ((reads address).swapWithin_ok ht h') rfl)

/-- A path through a pair and a concentrated pool with a mark, read from a cache. The smaller input stays before the
mark, the larger one crosses it. -/
theorem quotePath_mono_across_mark :
    let pair : Pool := ⟨.ofNat 4, .pancakeswapV2, [.ofNat 5, .ofNat 2], .constantProduct (10 ^ 21) (10 ^ 21) .standard⟩
    let pool : Pool := ⟨.ofNat 1, .uniswapV3, [.ofNat 2, .ofNat 3], .concentrated ⟨2 ^ 96, 0, 10 ^ 18, 3000, 60⟩⟩
    let market := ofList [pair, pool]
    let path := Path.ofHops 0 [(.pancakeswapV2, .ofNat 4), (.uniswapV3, .ofNat 1)] [.ofNat 5, .ofNat 2, .ofNat 3]
    let chain : ChainWords := fun _ word => if word = -1 then ⟨2 ^ 255, [(-60, 5 * 10 ^ 17)], 0⟩ else ⟨0, [], 0⟩
    let cache := ((TickCache.empty 4).insert ⟨.ofNat 1, 0⟩ { chain (.ofNat 1) 0 with block := 7 }).insert
      ⟨.ofNat 1, -1⟩ { chain (.ofNat 1) (-1) with block := 7 }
    ∃ out out', (market.quotePath (TickCache.source · 7) path (10 ^ 15) cache).1 = .ok out ∧
      (market.quotePath (TickCache.source · 7) path (10 ^ 16) cache).1 = .ok out' ∧ out ≤ out' := by
  intro pair pool market path chain cache
  have hless : (market.quotePath (TickCache.source · 7) path (10 ^ 15) cache).1 = .ok 993020938208357 :=
    Quote.eq_ok_of_toOption (by decide +kernel)
  have hmore : (market.quotePath (TickCache.source · 7) path (10 ^ 16) cache).1 = .ok 9795461038491586 :=
    Quote.eq_ok_of_toOption (by decide +kernel)
  have hagrees : cache.Agrees chain 7 :=
    ((TickCache.agrees_empty 4).insert ⟨.ofNat 1, 0⟩ 7).insert ⟨.ofNat 1, -1⟩ 7
  have hfamily : ∀ leg ∈ path.legs, ∀ p, market leg.pool = some p →
      p.state.family = .constantProduct ∨ p.state.family = .concentrated := by
    intro leg _ p hp
    have hmem := List.mem_of_find?_eq_some hp
    simp only [List.reverse_cons, List.reverse_nil, List.nil_append, List.singleton_append, List.mem_cons,
      List.not_mem_nil, or_false] at hmem
    rcases hmem with rfl | rfl
    · exact .inr rfl
    · exact .inl rfl
  have hmono := (quotePath_mono (fun address => TickCache.reads_source address chain 7) hagrees hagrees
    (by decide : 10 ^ 15 ≤ 10 ^ 16)).1 market path hfamily
  exact ⟨_, _, hless, hmore, hmono _ _ hless hmore⟩

end Market
end Searcher

/-
# Pools of equal depth

The links of an index are read off the changes that made it (`edges_after`): the pools that were added to it, with the
links of each. Between two tokens it lists the pools that name the first one before the second, and then those that name
them the other way round, each time the pool that was added last in front (`directed_after`).

Ranking sorts this list by falling balance. The sort is stable, so among pools of equal balance the list keeps its order
(`filter_ranked`): of two pools that name the tokens in one order, the later one comes first (`ranked_newestFirst`).
-/

import Searcher.Proofs.Paths.Depth

namespace Searcher
namespace PoolIndex

/-- The pools that a row of changes adds: the first one at each address, in the order of their addition. -/
def additions : List Change → List IndexedPool
  | [] => []
  | .addPool pool exchange tokens :: rest => ⟨pool, exchange, tokens⟩ :: (additions rest).filter (·.address ≠ pool)
  | .setBalance _ _ _ :: rest => additions rest

/-- How often a list of tokens has `b` behind `a`. -/
def pairings (a b : Address) : List Address → ℕ
  | [] => 0
  | token :: rest => (if token = a ∧ a ≠ b then rest.count b else 0) + pairings a b rest

/-- The pools that name `a` before `b`, the one that was added last in front, each as often as it names them so. -/
def newestFirst (changes : List Change) (a b : Address) : List PoolLink :=
  (additions changes).reverse.flatMap fun p => List.replicate (pairings a b p.tokens) ⟨p.address, p.exchange⟩

/-! ### The links of a row of changes -/

/-- The links of a pool that was added. -/
def edgesOfAddition (p : IndexedPool) : List TokenEdge := edgesOf ⟨p.address, p.exchange⟩ p.tokens

/-- Changes put the links of the pools that they add in front, as far as the index does not have these pools. -/
theorem edges_foldl (index : PoolIndex) (changes : List Change) : (changes.foldl apply index).edges =
    (((additions changes).filter fun p => (index.pool? p.address).isNone).flatMap edgesOfAddition).reverse ++
      index.edges := by
  induction changes generalizing index with
  | nil => rfl
  | cons c rest ih =>
    rw [List.foldl_cons, ih]
    cases c with
    | setBalance pool token amount => rfl
    | addPool pool exchange tokens =>
      change _ ++ (index.addPool pool exchange tokens).edges = _
      rw [additions, List.filter_cons, List.filter_filter]
      rcases hpool : index.pool? pool with _ | known
      · have hnone : ∀ p : IndexedPool, ((index.apply (.addPool pool exchange tokens)).pool? p.address).isNone =
            ((index.pool? p.address).isNone && decide (p.address ≠ pool)) := by
          intro p
          rw [pool?_apply, Change.adds?]
          by_cases h : p.address = pool
          · simp [h]
          · simp [h, Ne.symm h]
        rw [if_pos Option.isNone_none, List.flatMap_cons, List.reverse_append, List.append_assoc,
          edges_addPool exchange tokens hpool]
        simp only [hnone]
        rfl
      · -- the index stays as it is, and none of the other additions is at the address of this pool
        have hsame : index.apply (.addPool pool exchange tokens) = index := if_pos (by simp [hpool])
        have hnone : ∀ p : IndexedPool, ((index.pool? p.address).isNone && decide (p.address ≠ pool)) =
            (index.pool? p.address).isNone := by
          intro p
          by_cases h : p.address = pool
          · simp [h, hpool]
          · simp [h]
        rw [if_neg (by simp), hsame]
        simp only [hnone]
        rw [show index.addPool pool exchange tokens = index from hsame]

/-- After a history the edges are those of the pools that were added, the newest first. -/
theorem edges_after (changes : List Change) :
    (after changes).edges = ((additions changes).flatMap edgesOfAddition).reverse := by
  have hall : ((additions changes).filter fun p => ((({} : PoolIndex).pool? p.address).isNone)) = additions changes :=
    List.filter_eq_self.2 fun _ _ => rfl
  rw [after, edges_foldl, hall]
  exact List.append_nil _

/-- The links of a pool that go from one token to another are as many as the pairings of the tokens. -/
theorem directed_edgesOf (link : PoolLink) (a b : Address) (tokens : List Address) :
    ((edgesOf link tokens).filter fun e => e.first = a ∧ e.second = b).map (·.link) =
      List.replicate (pairings a b tokens) link := by
  induction tokens with
  | nil => rfl
  | cons token rest ih =>
    rw [edgesOf, List.filter_append, List.map_append, ih, pairings, List.replicate_add]
    congr 1
    -- the links that start at the first token: one for each token behind it that differs from it
    have hconst : ((fun e : TokenEdge => e.link) ∘ fun other => ⟨token, other, link⟩) = fun _ : Address => link := rfl
    rw [List.filter_map, List.map_map, hconst, List.map_const', List.filter_filter, ← List.countP_eq_length_filter]
    congr 1
    split
    · rename_i h
      obtain ⟨rfl, hne⟩ := h
      rw [List.count, List.countP_congr]
      intro other _
      simp only [Function.comp_apply, true_and, Bool.and_eq_true, decide_eq_true_eq, beq_iff_eq]
      exact ⟨fun h => h.1, fun h => ⟨h, h ▸ hne.symm⟩⟩
    · rename_i h
      rw [List.countP_eq_zero]
      intro other _ hother
      simp only [Function.comp_apply, Bool.and_eq_true, decide_eq_true_eq] at hother
      obtain ⟨⟨rfl, rfl⟩, hne⟩ := hother
      exact h ⟨rfl, hne.symm⟩

/-- So the links from one token to another are in that order as well. -/
theorem directed_after (changes : List Change) (a b : Address) :
    (after changes).directed a b = newestFirst changes a b := by
  rw [directed, edges_after, List.filter_reverse, List.map_reverse, List.filter_flatMap, List.map_flatMap,
    newestFirst, List.flatMap_reverse]
  congr 1
  refine List.flatMap_congr fun p _ => ?_
  rw [Function.comp_apply, List.reverse_replicate]
  exact directed_edgesOf _ a b p.tokens

/-! ### Ranking -/

/-- A stable sort keeps the order of elements that it may leave in any order. -/
theorem filter_mergeSort {α : Type} {le : α → α → Bool} (trans : ∀ x y z, le x y = true → le y z = true → le x z = true)
    (total : ∀ x y, (le x y || le y x) = true) {p : α → Bool} (hties : ∀ x y, p x = true → p y = true → le x y = true)
    (xs : List α) : (xs.mergeSort le).filter p = xs.filter p := by
  have hsorted : (xs.filter p).Pairwise fun x y => le x y = true :=
    List.pairwise_of_forall_mem_list fun x hx y hy => hties x y (List.mem_filter.1 hx).2 (List.mem_filter.1 hy).2
  have hkept : (xs.filter p).Sublist (xs.mergeSort le) :=
    List.sublist_mergeSort trans total hsorted List.filter_sublist
  have hkept := hkept.filter p
  rw [List.filter_filter] at hkept
  simp only [Bool.and_self] at hkept
  exact (hkept.eq_of_length ((List.mergeSort_perm xs le).filter p).length_eq.symm).symm

/-- Pools of equal balance are ranked in the order in which the index lists them. -/
theorem filter_ranked (index : PoolIndex) (a b measure : Address) (exclude : List Address) (depth : ℕ) :
    ((index.ranked a b measure exclude).filter fun link => index.balance link.pool measure = depth) =
      (index.between a b).filter fun link => link.pool ∉ exclude ∧ index.balance link.pool measure = depth := by
  rw [ranked, filter_mergeSort (index.rank_trans measure) (index.rank_total measure), List.filter_filter]
  · refine List.filter_congr fun link _ => ?_
    simp [Bool.and_comm]
  · intro x y hx hy
    rw [decide_eq_true_eq] at hx hy ⊢
    exact (hy.trans hx.symm).le

/-- **Of equal balances, the newest come first.** The ranked pools hold less and less of the measured token, by the
balances recorded last. Those of one balance stand in this order: first the pools that name `a` before `b`, then those
that name `b` before `a`, and of each kind the pool that was added last in front. -/
theorem ranked_newestFirst (changes : List Change) (a b measure : Address) (exclude : List Address) :
    let held (link : PoolLink) : ℕ := lastBalance changes link.pool measure
    let ranked := (after changes).ranked a b measure exclude
    (ranked.Pairwise fun x y => held y ≤ held x) ∧
      ∀ depth, (ranked.filter fun link => held link = depth) =
        (newestFirst changes a b ++ newestFirst changes b a).filter fun link =>
          link.pool ∉ exclude ∧ held link = depth := by
  intro held ranked
  have hheld : ∀ link : PoolLink, (after changes).balance link.pool measure = held link :=
    fun link => balance_after changes link.pool measure
  constructor
  · simpa only [hheld] using (after changes).pairwise_ranked a b measure exclude
  · intro depth
    have hkept := (after changes).filter_ranked a b measure exclude depth
    simpa only [hheld, between, directed_after] using hkept

/-- Two pools of the same tokens and balances: the one that was added second is ranked first. -/
theorem ranked_laterFirst :
    let token := Address.ofNat
    let changes : List Change := [.addPool (token 30) .uniswapV2 [token 1, token 2],
      .addPool (token 31) .uniswapV2 [token 1, token 2], .setBalance (token 30) (token 1) 5,
      .setBalance (token 31) (token 1) 5]
    (additions changes).map (·.address) = [token 30, token 31] ∧
      lastBalance changes (token 30) (token 1) = lastBalance changes (token 31) (token 1) ∧
      ((after changes).ranked (token 1) (token 2) (token 1) []).map (·.pool) = [token 31, token 30] := by
  intro token changes
  refine ⟨?_, ?_, ?_⟩
  · rfl
  · rfl
  · rw [ranked_eq_insertionSort]
    decide +kernel

end PoolIndex
end Searcher

/-
# What the pool index knows

An index is *reached* if it comes from the empty one by adding pools and recording balances. Every edge of such an index
joins two different tokens of the pool that it names, on the exchange that the index has for this pool
(`PoolIndex.Reached.sound`). So a link that is chosen between two tokens is a pool that lists both, is none of those
excluded, and holds some of the first token (`PoolIndex.funded_spec`).

The index of given pools and balances is reached (`PoolIndex.reached_ofPools`), and its edges are those of the pools,
one after another, the last pool first (`PoolIndex.edges_ofPools`).
-/

import Mathlib.Data.List.Sort
import Searcher.PoolIndex

namespace Searcher
namespace PoolIndex

variable {index : PoolIndex} {link : PoolLink} {edge : TokenEdge} {a b measure : Address} {exclude : List Address}

/-- The indexes that pools and balances can be put into one by one. -/
inductive Reached : PoolIndex → Prop
  | empty : Reached {}
  | addPool {index : PoolIndex} (h : Reached index) (pool : Address) (exchange : Exchange) (tokens : List Address) :
      Reached (index.addPool pool exchange tokens)
  | setBalance {index : PoolIndex} (h : Reached index) (pool token : Address) (amount : Nat) :
      Reached (index.setBalance pool token amount)

/-- The index has the pool of a link, on the exchange of the link, with two tokens. -/
def Lists (index : PoolIndex) (link : PoolLink) (a b : Address) : Prop :=
  ∃ tokens, index.pool? link.pool = some ⟨link.pool, link.exchange, tokens⟩ ∧ a ∈ tokens ∧ b ∈ tokens

/-- Every edge joins two different tokens of a pool of the index. -/
def Sound (index : PoolIndex) : Prop :=
  ∀ edge ∈ index.edges, index.Lists edge.link edge.first edge.second ∧ edge.first ≠ edge.second

/-- Which of two tokens is named first does not matter to what a pool lists. -/
theorem Lists.symm (h : index.Lists link a b) : index.Lists link b a :=
  h.imp fun _ hp => hp.imp_right And.symm

/-- The edges of a pool are between two different tokens of it, and carry its link. -/
theorem mem_edgesOf {tokens : List Address} (h : edge ∈ edgesOf link tokens) :
    edge.link = link ∧ edge.first ∈ tokens ∧ edge.second ∈ tokens ∧ edge.first ≠ edge.second := by
  induction tokens with
  | nil => cases h
  | cons token rest ih =>
    rcases List.mem_append.1 h with h | h
    · obtain ⟨other, hother, rfl⟩ := List.mem_map.1 h
      obtain ⟨hmem, hne⟩ := List.mem_filter.1 hother
      have hne : other ≠ token := by simpa using hne
      exact ⟨rfl, List.mem_cons_self, List.mem_cons_of_mem _ hmem, hne.symm⟩
    · obtain ⟨hlink, hfirst, hsecond, hne⟩ := ih h
      exact ⟨hlink, List.mem_cons_of_mem _ hfirst, List.mem_cons_of_mem _ hsecond, hne⟩

/-- A pool that is added is found, and changes no other. -/
theorem pool?_addPool {pool : Address} (exchange : Exchange) (tokens : List Address) (hnew : index.pool? pool = none)
    (address : Address) : (index.addPool pool exchange tokens).pool? address =
      if address = pool then some ⟨pool, exchange, tokens⟩ else index.pool? address := by
  rw [addPool, if_neg (by simp [hnew]), pool?, List.find?_cons]
  by_cases h : pool = address
  · simp [h]
  · simp [h, Ne.symm h, pool?]

/-- A new pool puts its edges before the others, the last pair of its tokens first. -/
theorem edges_addPool {pool : Address} (exchange : Exchange) (tokens : List Address) (hnew : index.pool? pool = none) :
    (index.addPool pool exchange tokens).edges = (edgesOf ⟨pool, exchange⟩ tokens).reverse ++ index.edges := by
  rw [addPool, if_neg (by simp [hnew])]

/-- **A sound index stays so when a pool is added.** The edges of a pool that is known are not added again, and those
of a new one are between its own tokens. -/
theorem Sound.addPool (h : index.Sound) (pool : Address) (exchange : Exchange) (tokens : List Address) :
    (index.addPool pool exchange tokens).Sound := by
  rcases hnew : index.pool? pool with _ | known
  · intro edge hedge
    rw [edges_addPool exchange tokens hnew, List.mem_append, List.mem_reverse] at hedge
    rcases hedge with hedge | hedge
    · obtain ⟨hlink, hfirst, hsecond, hne⟩ := mem_edgesOf hedge
      refine ⟨⟨tokens, ?_, hfirst, hsecond⟩, hne⟩
      rw [pool?_addPool exchange tokens hnew, hlink, if_pos rfl]
    · obtain ⟨⟨tokens', hpool, hmem⟩, hne⟩ := h edge hedge
      refine ⟨⟨tokens', ?_, hmem⟩, hne⟩
      rw [pool?_addPool exchange tokens hnew, if_neg (fun he => by simp [he, hnew] at hpool), hpool]
  · rw [PoolIndex.addPool, if_pos (by simp [hnew])]
    exact h

/-- **A reached index is sound.** -/
theorem Reached.sound (h : index.Reached) : index.Sound := by
  induction h with
  | empty => exact fun edge hedge => by cases hedge
  | addPool _ pool exchange tokens ih => exact ih.addPool pool exchange tokens
  | setBalance _ pool token amount ih => exact ih

/-- The links between two tokens are those of the edges between them, in either direction. -/
theorem mem_between : link ∈ index.between a b ↔ ∃ edge ∈ index.edges, edge.link = link ∧
    (edge.first = a ∧ edge.second = b ∨ edge.first = b ∧ edge.second = a) := by
  simp only [between, directed, List.mem_append, List.mem_map, List.mem_filter, decide_eq_true_eq]
  grind

/-- So they are the same in both directions. -/
theorem mem_between_comm : link ∈ index.between a b ↔ link ∈ index.between b a := by
  simp only [between, List.mem_append, or_comm]

/-- In a sound index a link between two tokens is a pool that lists both. -/
theorem Sound.lists (h : index.Sound) (hlink : link ∈ index.between a b) : index.Lists link a b := by
  obtain ⟨edge, hedge, rfl, ⟨rfl, rfl⟩ | ⟨rfl, rfl⟩⟩ := mem_between.1 hlink
  · exact (h edge hedge).1
  · exact (h edge hedge).1.symm

/-- No pool links a token to itself. -/
theorem Sound.ne_of_mem_between (h : index.Sound) (hlink : link ∈ index.between a b) : a ≠ b := by
  obtain ⟨edge, hedge, -, ⟨rfl, rfl⟩ | ⟨rfl, rfl⟩⟩ := mem_between.1 hlink
  · exact (h edge hedge).2
  · exact (h edge hedge).2.symm

/-- The pools to choose from trade the two tokens, are not excluded, and hold some of the first token. -/
theorem funded_spec (hlink : link ∈ index.funded a b exclude) :
    link ∈ index.between a b ∧ link.pool ∉ exclude ∧ index.balance link.pool a ≠ 0 := by
  obtain ⟨hranked, hfunded⟩ := List.mem_filter.1 hlink
  obtain ⟨hbetween, hexclude⟩ := List.mem_filter.1 ((List.mem_mergeSort).1 hranked)
  exact ⟨hbetween, by simpa using hexclude, by simpa using hfunded⟩

/-- **The deepest pool and the first of the two deepest are the same.** One is found in the ranked pools, the other
stands in front once the empty ones are left out. -/
theorem deepestTwo_fst (index : PoolIndex) (a b : Address) (exclude : List Address) :
    (index.deepestTwo a b exclude).1 = index.deepest a b exclude := List.head?_filter

/-- The deepest pool is one of those to choose from. -/
theorem mem_funded_of_deepest (h : index.deepest a b exclude = some link) : link ∈ index.funded a b exclude :=
  List.mem_of_head? ((index.deepestTwo_fst a b exclude).trans h)

/-- So is the second deepest. -/
theorem mem_funded_of_secondDeepest (h : index.secondDeepest a b exclude = some link) :
    link ∈ index.funded a b exclude := List.mem_of_mem_tail (List.mem_of_head? h)

/-! ### Ranking -/

/-- The comparison by which pools are ranked is transitive and total. -/
theorem rank_trans (index : PoolIndex) (measure : Address) (x y z : PoolLink)
    (hxy : decide (index.balance y.pool measure ≤ index.balance x.pool measure) = true)
    (hyz : decide (index.balance z.pool measure ≤ index.balance y.pool measure) = true) :
    decide (index.balance z.pool measure ≤ index.balance x.pool measure) = true := by
  rw [decide_eq_true_eq] at hxy hyz ⊢
  exact hyz.trans hxy

/-- Of two links one ranks before the other. -/
theorem rank_total (index : PoolIndex) (measure : Address) (x y : PoolLink) :
    (decide (index.balance y.pool measure ≤ index.balance x.pool measure) ||
      decide (index.balance x.pool measure ≤ index.balance y.pool measure)) = true := by
  simpa using Nat.le_total _ _

/-- What is put into a list in order stands behind those that go before it. -/
theorem orderedInsert_append {α : Type} {r : α → α → Prop} [DecidableRel r] {x : α} {front rest : List α}
    (hfront : ∀ y ∈ front, ¬ r x y) (hrest : ∀ y ∈ rest, r x y) :
    (front ++ rest).orderedInsert r x = front ++ x :: rest := by
  induction front with
  | nil =>
    cases rest with
    | nil => rfl
    | cons y rest => exact if_pos (hrest y List.mem_cons_self)
  | cons y front ih =>
    rw [List.forall_mem_cons] at hfront
    rw [List.cons_append, List.orderedInsert_of_not_le r _ hfront.1, ih hfront.2, List.cons_append]

/-- A stable sort puts one element after another in front of those that it may precede. -/
theorem mergeSort_eq_insertionSort {α : Type} {le : α → α → Bool}
    (trans : ∀ x y z, le x y = true → le y z = true → le x z = true) (total : ∀ x y, (le x y || le y x) = true)
    (xs : List α) : xs.mergeSort le = xs.insertionSort (le · ·) := by
  induction xs with
  | nil => exact List.mergeSort_nil
  | cons x xs ih =>
    obtain ⟨front, rest, hall, hothers, hfront⟩ := List.mergeSort_cons trans total x xs
    have hsorted : (front ++ x :: rest).Pairwise (le · ·) := hall ▸ List.pairwise_mergeSort trans total (x :: xs)
    obtain ⟨-, hrest, -⟩ := List.pairwise_append.1 hsorted
    rw [List.insertionSort_cons, ← ih, hothers, hall, orderedInsert_append]
    · intro y hy
      simpa using hfront y hy
    · exact (List.pairwise_cons.1 hrest).1

/-- **The pools are ranked one after another**, the one that is listed last first: each is put in front of those that
hold no more. -/
theorem ranked_eq_insertionSort (index : PoolIndex) (a b measure : Address) (exclude : List Address) :
    index.ranked a b measure exclude =
      ((index.between a b).filter fun link => ¬ exclude.contains link.pool).insertionSort fun x y =>
        decide (index.balance y.pool measure ≤ index.balance x.pool measure) :=
  mergeSort_eq_insertionSort (index.rank_trans measure) (index.rank_total measure) _

/-! ### The index of given pools -/

/-- The edges of a pool. -/
def edgesOfPool (pool : Pool) : List TokenEdge := edgesOf ⟨pool.address, pool.exchange⟩ pool.tokens

/-- Several new pools put their edges before the others, the last pool first. -/
theorem edges_foldl_addPool (index : PoolIndex) {pools : List Pool} (hnew : ∀ p ∈ pools, index.pool? p.address = none)
    (distinct : (pools.map (·.address)).Nodup) :
    (pools.foldl (fun (index : PoolIndex) p => index.addPool p.address p.exchange p.tokens) index).edges =
      (pools.flatMap edgesOfPool).reverse ++ index.edges := by
  induction pools generalizing index with
  | nil => rfl
  | cons pool pools ih =>
    rw [List.map_cons, List.nodup_cons] at distinct
    have hpool : index.pool? pool.address = none := hnew pool List.mem_cons_self
    have hothers : ∀ p ∈ pools, (index.addPool pool.address pool.exchange pool.tokens).pool? p.address = none := by
      intro p hp
      have hne : p.address ≠ pool.address := fun he => distinct.1 (he ▸ List.mem_map_of_mem hp)
      rw [pool?_addPool _ _ hpool, if_neg hne, hnew p (List.mem_cons_of_mem _ hp)]
    rw [List.foldl_cons, ih _ hothers distinct.2, edges_addPool _ _ hpool, List.flatMap_cons, List.reverse_append,
      List.append_assoc]
    rfl

/-- The edges of an index of all pools, the newest first. -/
theorem edges_ofPools {pools : List Pool} (distinct : (pools.map (·.address)).Nodup)
    (balances : List ObservedBalance) : (ofPools pools balances).edges = (pools.flatMap edgesOfPool).reverse :=
  (edges_foldl_addPool {} (fun _ _ => rfl) distinct).trans (List.append_nil _)

/-- Adding a pool observes no balance. -/
theorem balances_addPool (index : PoolIndex) (pool : Address) (exchange : Exchange) (tokens : List Address) :
    (index.addPool pool exchange tokens).balances = index.balances := by
  unfold addPool
  split <;> rfl

/-- Adding pools records no balance. -/
theorem balances_foldl_addPool (index : PoolIndex) (pools : List Pool) :
    (pools.foldl (fun (index : PoolIndex) p => index.addPool p.address p.exchange p.tokens) index).balances =
      index.balances := by
  induction pools generalizing index with
  | nil => rfl
  | cons pool pools ih => exact (ih _).trans (balances_addPool ..)

/-- Balances are observed newest first, and change nothing else. -/
theorem foldl_setBalance (index : PoolIndex) (balances : List ObservedBalance) :
    balances.foldl (fun (index : PoolIndex) b => index.setBalance b.pool b.token b.amount) index =
      { index with balances := balances.reverse ++ index.balances } := by
  induction balances generalizing index with
  | nil => rfl
  | cons b balances ih =>
    rw [List.foldl_cons, ih, List.reverse_cons, List.append_assoc]
    rfl

/-- **The index of some pools and balances is made step by step**: the pools are added, then the balances recorded. -/
theorem ofPools_eq_foldl (pools : List Pool) (balances : List ObservedBalance) :
    ofPools pools balances = balances.foldl (fun (index : PoolIndex) b => index.setBalance b.pool b.token b.amount)
      (pools.foldl (fun (index : PoolIndex) p => index.addPool p.address p.exchange p.tokens) {}) := by
  rw [foldl_setBalance, balances_foldl_addPool, List.append_nil]
  rfl

/-- **The index of some pools and balances is reached**, so that whatever holds of reached indexes holds of the one that
a search for paths is given. -/
theorem reached_ofPools (pools : List Pool) (balances : List ObservedBalance) : (ofPools pools balances).Reached := by
  rw [ofPools_eq_foldl]
  refine List.foldlRecOn _ _ ?_ fun _ hindex b _ => hindex.setBalance b.pool b.token b.amount
  exact List.foldlRecOn _ _ .empty fun _ hindex p _ => hindex.addPool p.address p.exchange p.tokens

end PoolIndex
end Searcher

/-
# What an index remembers of its changes

An index is made by a row of changes, each of which adds a pool or records a balance (`PoolIndex.after`). What it then
knows is read off the row itself:

| asked of the index | in the row |
| --- | --- |
| the pool at an address | the first change that adds one there, `firstAdded` |
| a pool's balance of a token | the last change that records it, `lastBalance` |
| the pools between two tokens | those first added with both, `Trades` |

The first two are shown change by change (`pool?_apply`, `balance_apply`). For the third, no edge is wrong
(`Reached.sound`), and none is missing: a pool of the index is linked between any two of its tokens that differ
(`Reached.mem_between_iff`). Where every pool is added with different tokens the index is simple, so that it names a
pool only once.
-/

import Mathlib.Data.List.Induction
import Searcher.Proofs.Paths.Repeated

namespace Searcher
namespace PoolIndex

/-- A change of an index. -/
inductive Change where
  | addPool (pool : Address) (exchange : Exchange) (tokens : List Address)
  | setBalance (pool token : Address) (amount : ℕ)
deriving DecidableEq

namespace Change

/-- The tokens of a pool that is added are all different. -/
def Distinct : Change → Prop
  | addPool _ _ tokens => tokens.Nodup
  | setBalance _ _ _ => True

instance : DecidablePred Distinct
  | addPool _ _ tokens => inferInstanceAs (Decidable tokens.Nodup)
  | setBalance _ _ _ => inferInstanceAs (Decidable True)

/-- What the change adds at an address. -/
def adds? (address : Address) : Change → Option IndexedPool
  | addPool pool exchange tokens => if pool = address then some ⟨pool, exchange, tokens⟩ else none
  | setBalance _ _ _ => none

/-- The balance that the change records of a pool in a token. -/
def sets? (pool token : Address) : Change → Option ℕ
  | addPool _ _ _ => none
  | setBalance p t amount => if p = pool ∧ t = token then some amount else none

end Change

/-- The index after a change. -/
def apply (index : PoolIndex) : Change → PoolIndex
  | .addPool pool exchange tokens => index.addPool pool exchange tokens
  | .setBalance pool token amount => index.setBalance pool token amount

/-- The index after a row of changes. -/
def after (changes : List Change) : PoolIndex := changes.foldl apply {}

/-- The pool that was first added at an address. -/
def firstAdded (changes : List Change) (address : Address) : Option IndexedPool :=
  changes.findSome? (Change.adds? address)

/-- The balance that was last recorded of a pool in a token, zero if none was. -/
def lastBalance (changes : List Change) (pool token : Address) : ℕ :=
  (changes.reverse.findSome? (Change.sets? pool token)).getD 0

/-- The pool was first added with two different tokens, on the exchange of the link. -/
def Trades (changes : List Change) (link : PoolLink) (a b : Address) : Prop :=
  a ≠ b ∧ ∃ tokens, firstAdded changes link.pool = some ⟨link.pool, link.exchange, tokens⟩ ∧ a ∈ tokens ∧ b ∈ tokens

variable {index : PoolIndex} {changes : List Change} {link : PoolLink} {a b : Address}

/-- The last change is made to what the others before it have led to. -/
theorem after_concat (changes : List Change) (c : Change) : after (changes ++ [c]) = (after changes).apply c := by
  rw [after, List.foldl_append]
  rfl

/-- A change adds a pool where there was none. -/
theorem pool?_apply (index : PoolIndex) (c : Change) (address : Address) :
    (index.apply c).pool? address = (index.pool? address).or (c.adds? address) := by
  cases c with
  | setBalance pool token amount => exact (Option.or_none).symm
  | addPool pool exchange tokens =>
    show (index.addPool pool exchange tokens).pool? address = _
    rcases hpool : index.pool? pool with _ | known
    · rw [pool?_addPool exchange tokens hpool, Change.adds?]
      by_cases h : address = pool
      · rw [if_pos h, if_pos h.symm, h, hpool, Option.none_or]
      · rw [if_neg h, if_neg (Ne.symm h), Option.or_none]
    · -- the pool is there already
      rw [addPool, if_pos (by simp [hpool]), Change.adds?]
      by_cases h : pool = address
      · rw [← h, hpool, Option.some_or]
      · rw [if_neg h, Option.or_none]

/-- A change replaces the balance that it records. -/
theorem balance_apply (index : PoolIndex) (c : Change) (pool token : Address) :
    (index.apply c).balance pool token = (c.sets? pool token).getD (index.balance pool token) := by
  cases c with
  | addPool p exchange tokens =>
    show (index.addPool p exchange tokens).balance pool token = _
    rw [balance, balances_addPool]
    rfl
  | setBalance p t amount =>
    rw [Change.sets?]
    by_cases h : p = pool ∧ t = token
    · rw [if_pos h]
      simp [apply, setBalance, balance, h]
    · rw [if_neg h]
      simp [apply, setBalance, balance, h]

/-- **The index has the pool that was first added.** -/
theorem pool?_after (changes : List Change) (address : Address) :
    (after changes).pool? address = firstAdded changes address := by
  induction changes using List.reverseRecOn with
  | nil => rfl
  | append_singleton changes c ih =>
    rw [after_concat, pool?_apply, ih, firstAdded, firstAdded, List.findSome?_append]
    simp

/-- **The index has the balance that was last recorded.** -/
theorem balance_after (changes : List Change) (pool token : Address) :
    (after changes).balance pool token = lastBalance changes pool token := by
  induction changes using List.reverseRecOn with
  | nil => rfl
  | append_singleton changes c ih =>
    rw [after_concat, balance_apply, ih, lastBalance, lastBalance, List.reverse_concat, List.findSome?_cons]
    cases c.sets? pool token <;> rfl

/-- Every history leads to an index that has been reached. -/
theorem reached_after (changes : List Change) : (after changes).Reached := by
  induction changes using List.reverseRecOn with
  | nil => exact .empty
  | append_singleton changes c ih =>
    rw [after_concat]
    cases c with
    | addPool pool exchange tokens => exact ih.addPool pool exchange tokens
    | setBalance pool token amount => exact ih.setBalance pool token amount

/-- A history of pools whose tokens differ leads to a simple index. -/
theorem simple_after (distinct : ∀ c ∈ changes, c.Distinct) : (after changes).Simple := by
  induction changes using List.reverseRecOn with
  | nil => exact .empty
  | append_singleton changes c ih =>
    have hsimple := ih fun c hc => distinct c (List.mem_append_left _ hc)
    have hdistinct := distinct c (by simp)
    rw [after_concat]
    cases c with
    | addPool pool exchange tokens => exact hsimple.addPool pool exchange hdistinct
    | setBalance pool token amount => exact hsimple.setBalance pool token amount

/-! ### No link is missing -/

/-- Every two tokens of a pool that differ are the ends of one of its edges. -/
theorem exists_mem_edgesOf (link : PoolLink) {tokens : List Address} (hne : a ≠ b) (ha : a ∈ tokens) (hb : b ∈ tokens) :
    ∃ edge ∈ edgesOf link tokens, edge.link = link ∧
      (edge.first = a ∧ edge.second = b ∨ edge.first = b ∧ edge.second = a) := by
  induction tokens with
  | nil => cases ha
  | cons token rest ih =>
    have hlinked : ∀ other ∈ rest, other ≠ token → ⟨token, other, link⟩ ∈ edgesOf link (token :: rest) := by
      intro other hother hdiffers
      refine List.mem_append_left _ (List.mem_map.2 ⟨other, List.mem_filter.2 ⟨hother, ?_⟩, rfl⟩)
      simpa using hdiffers
    rcases List.mem_cons.1 ha with rfl | hrest
    · have hb := (List.mem_cons.1 hb).resolve_left hne.symm
      exact ⟨_, hlinked b hb hne.symm, rfl, .inl ⟨rfl, rfl⟩⟩
    · rcases List.mem_cons.1 hb with rfl | hrest'
      · exact ⟨_, hlinked a hrest hne, rfl, .inr ⟨rfl, rfl⟩⟩
      · obtain ⟨edge, hedge, hends⟩ := ih hrest hrest'
        exact ⟨edge, List.mem_append_right _ hedge, hends⟩

/-- An index is complete if a pool that lists two different tokens is found between them. -/
def Complete (index : PoolIndex) : Prop := ∀ link a b, a ≠ b → index.Lists link a b → link ∈ index.between a b

/-- A complete index stays so when a pool is added: all pairs of its tokens have an edge. -/
theorem Complete.addPool (h : index.Complete) (pool : Address) (exchange : Exchange) (tokens : List Address) :
    (index.addPool pool exchange tokens).Complete := by
  rcases hnew : index.pool? pool with _ | known
  · rintro link a b hne ⟨listed, hpool, ha, hb⟩
    rw [pool?_addPool exchange tokens hnew] at hpool
    rw [mem_between, edges_addPool exchange tokens hnew]
    split at hpool
    · -- the pool is the one that is added
      obtain ⟨rfl, rfl, rfl⟩ := IndexedPool.mk.inj (Option.some.inj hpool)
      obtain ⟨edge, hedge, hends⟩ := exists_mem_edgesOf link hne ha hb
      exact ⟨edge, List.mem_append_left _ (List.mem_reverse.2 hedge), hends⟩
    · obtain ⟨edge, hedge, hends⟩ := mem_between.1 (h link a b hne ⟨listed, hpool, ha, hb⟩)
      exact ⟨edge, List.mem_append_right _ hedge, hends⟩
  · rw [PoolIndex.addPool, if_pos (by simp [hnew])]
    exact h

/-- **A reached index is complete.** -/
theorem Reached.complete (h : index.Reached) : index.Complete := by
  induction h with
  | empty =>
    rintro link a b - ⟨tokens, hpool, -⟩
    cases hpool
  | addPool _ pool exchange tokens ih => exact ih.addPool pool exchange tokens
  | setBalance _ pool token amount ih => exact ih

/-- **The links between two tokens are the pools that list both**, in an index that has been reached. -/
theorem Reached.mem_between_iff (h : index.Reached) : link ∈ index.between a b ↔ a ≠ b ∧ index.Lists link a b := by
  constructor
  · intro hlink
    exact ⟨h.sound.ne_of_mem_between hlink, h.sound.lists hlink⟩
  · rintro ⟨hne, hlists⟩
    exact h.complete link a b hne hlists

/-- **The pools between two tokens are those first added with both.** -/
theorem mem_between_after : link ∈ (after changes).between a b ↔ Trades changes link a b := by
  rw [(reached_after changes).mem_between_iff, Lists, pool?_after, Trades]

end PoolIndex
end Searcher

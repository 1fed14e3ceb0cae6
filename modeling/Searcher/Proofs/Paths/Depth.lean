/-
# The deepest pools of an index

The pools to choose from are ranked by what they hold, so that in a row of them each holds at least as much as any
behind it (`pairwise_ranked`). Those that hold nothing are left out. Then the first one holds most of them all
(`Deepest.of_head?`), and the second one most of the others, since no pool is named twice.

What a pool holds and which pools there are to choose from is read off the changes that made the index
(`Searcher.Proofs.Paths.History`), so the answers are those of the changes (`after_answers`).
-/

import Searcher.Proofs.Paths.History

namespace Searcher
namespace PoolIndex

variable {index : PoolIndex} {links : List PoolLink} {link : PoolLink} {a b : Address} {exclude : List Address}
  {changes : List Change} {offered wider : PoolLink → Prop} {held : Address → ℕ}

/-- The choice among pools that are offered by what they hold: none if none of them holds anything, and otherwise one
that does, and that holds the most. -/
def Deepest (offered : PoolLink → Prop) (held : Address → ℕ) : Option PoolLink → Prop
  | none => ∀ link, offered link → held link.pool = 0
  | some link => offered link ∧ held link.pool ≠ 0 ∧ ∀ other, offered other → held other.pool ≤ held link.pool

/-- The first of some pools that hold something, in falling order, is the deepest of them. -/
theorem Deepest.of_head? (hfalling : links.Pairwise fun x y => held y.pool ≤ held x.pool)
    (hfunded : ∀ link ∈ links, held link.pool ≠ 0) : Deepest (· ∈ links) held links.head? := by
  cases links with
  | nil =>
    intro link hlink
    cases hlink
  | cons first rest =>
    obtain ⟨hfirst, -⟩ := List.pairwise_cons.1 hfalling
    refine ⟨List.mem_cons_self, hfunded first List.mem_cons_self, ?_⟩
    intro other hother
    rcases List.mem_cons.1 hother with rfl | hother
    · exact Nat.le_refl _
    · exact hfirst other hother

/-- To offer more pools that hold nothing does not change the choice. -/
theorem Deepest.widen {choice : Option PoolLink} (h : Deepest offered held choice)
    (hmore : ∀ link, offered link → wider link)
    (hempty : ∀ link, wider link → offered link ∨ held link.pool = 0) : Deepest wider held choice := by
  cases choice with
  | none =>
    intro link hlink
    rcases hempty link hlink with hoffered | hzero
    · exact h link hoffered
    · exact hzero
  | some chosen =>
    obtain ⟨hchosen, hfunded, hmost⟩ := h
    refine ⟨hmore chosen hchosen, hfunded, ?_⟩
    intro other hother
    rcases hempty other hother with hoffered | hzero
    · exact hmost other hoffered
    · omega

/-- **The ranked pools hold less and less.** -/
theorem pairwise_ranked (index : PoolIndex) (a b measure : Address) (exclude : List Address) :
    (index.ranked a b measure exclude).Pairwise fun x y =>
      index.balance y.pool measure ≤ index.balance x.pool measure := by
  have hsorted : (index.ranked a b measure exclude).Pairwise fun x y =>
      decide (index.balance y.pool measure ≤ index.balance x.pool measure) = true :=
    List.pairwise_mergeSort (index.rank_trans measure) (index.rank_total measure) _
  exact hsorted.imp of_decide_eq_true

/-- What is funded between two tokens is a link between them, not left out, with a balance of the first. -/
theorem mem_funded_iff : link ∈ index.funded a b exclude ↔
    (link ∈ index.between a b ∧ link.pool ∉ exclude) ∧ index.balance link.pool a ≠ 0 := by
  simp only [funded, ranked, List.mem_filter, List.mem_mergeSort, decide_not, Bool.not_eq_true',
    decide_eq_false_iff_not, List.contains_iff_mem, ne_eq]

/-- The pool is between two tokens and not excluded. -/
def Offers (index : PoolIndex) (a b : Address) (exclude : List Address) (link : PoolLink) : Prop :=
  link ∈ index.between a b ∧ link.pool ∉ exclude

/-- **The deepest pool** is the choice among all that are offered. -/
theorem deepest_isDeepest (index : PoolIndex) (a b : Address) (exclude : List Address) :
    Deepest (index.Offers a b exclude) (index.balance · a) (index.deepest a b exclude) := by
  have hfalling := (index.pairwise_ranked a b a exclude).filter fun link => index.balance link.pool a ≠ 0
  have hfunded : ∀ link ∈ index.funded a b exclude, index.balance link.pool a ≠ 0 :=
    fun link hlink => (mem_funded_iff.1 hlink).2
  have hchoice : Deepest (· ∈ index.funded a b exclude) (index.balance · a) (index.funded a b exclude).head? :=
    Deepest.of_head? hfalling hfunded
  rw [← index.deepestTwo_fst a b exclude]
  refine hchoice.widen (fun link hlink => (mem_funded_iff.1 hlink).1) ?_
  intro link hoffered
  by_cases hzero : index.balance link.pool a = 0
  · exact .inr hzero
  · exact .inl (mem_funded_iff.2 ⟨hoffered, hzero⟩)

/-- Behind the first of some different pools stand the others. -/
theorem mem_tail_iff (hnodup : links.Nodup) : link ∈ links.tail ↔ link ∈ links ∧ links.head? ≠ some link := by
  cases links with
  | nil => simp
  | cons first rest =>
    obtain ⟨hfirst, -⟩ := List.nodup_cons.1 hnodup
    constructor
    · intro hlink
      refine ⟨List.mem_cons_of_mem _ hlink, ?_⟩
      intro hsame
      obtain rfl := Option.some.inj hsame
      exact hfirst hlink
    · rintro ⟨hlink, hother⟩
      rcases List.mem_cons.1 hlink with rfl | hlink
      · exact absurd rfl hother
      · exact hlink

/-- **The second deepest pool** is the choice among those that are left. -/
theorem Simple.secondDeepest_isDeepest (h : index.Simple) (a b : Address) (exclude : List Address) :
    Deepest (fun link => index.Offers a b exclude link ∧ index.deepest a b exclude ≠ some link) (index.balance · a)
      (index.secondDeepest a b exclude) := by
  rw [← index.deepestTwo_fst a b exclude]
  have hnodup : (index.funded a b exclude).Nodup := (h.nodup_funded a b exclude).of_map _
  have hfalling := (index.pairwise_ranked a b a exclude).filter fun link => index.balance link.pool a ≠ 0
  change (index.funded a b exclude).Pairwise _ at hfalling
  have hfunded : ∀ link ∈ (index.funded a b exclude).tail, index.balance link.pool a ≠ 0 :=
    fun link hlink => (mem_funded_iff.1 (List.mem_of_mem_tail hlink)).2
  have hchoice : Deepest (· ∈ (index.funded a b exclude).tail) (index.balance · a)
      (index.funded a b exclude).tail.head? := Deepest.of_head? hfalling.tail hfunded
  refine hchoice.widen ?_ ?_
  · intro link hlink
    obtain ⟨hlink, hother⟩ := (mem_tail_iff hnodup).1 hlink
    exact ⟨(mem_funded_iff.1 hlink).1, hother⟩
  · rintro link ⟨hoffered, hother⟩
    by_cases hzero : index.balance link.pool a = 0
    · exact .inr hzero
    · exact .inl ((mem_tail_iff hnodup).2 ⟨mem_funded_iff.2 ⟨hoffered, hzero⟩, hother⟩)

/-- **The index answers for its changes.** Let every pool be added with tokens that are all different. Then the pools
between two tokens are those first added with both, each of them once and on the exchange of that addition, in whatever
order the tokens are asked for. Among those that are not excluded, the deepest one holds the most of the first token, by
the balances recorded last. Of the two deepest the first one is the same pool, and the second one holds the most among
the others. There is none where no pool is left that holds any. -/
theorem after_answers (distinct : ∀ c ∈ changes, c.Distinct) (a b : Address) (exclude : List Address) :
    let index := after changes
    let offered (link : PoolLink) : Prop := Trades changes link a b ∧ link.pool ∉ exclude
    (∀ link, link ∈ index.between a b ↔ Trades changes link a b) ∧
      ((index.between a b).map (·.pool)).Nodup ∧
      (index.between a b).Perm (index.between b a) ∧
      Deepest offered (lastBalance changes · a) (index.deepest a b exclude) ∧
      (index.deepestTwo a b exclude).1 = index.deepest a b exclude ∧
      Deepest (fun link => offered link ∧ index.deepest a b exclude ≠ some link) (lastBalance changes · a)
        (index.deepestTwo a b exclude).2 := by
  intro index offered
  have hsimple : index.Simple := simple_after distinct
  have hoffered : index.Offers a b exclude = offered := by
    funext link
    simp only [Offers, index, mem_between_after, offered]
  have hheld : (index.balance · a) = (lastBalance changes · a) := by
    funext pool
    exact balance_after changes pool a
  have hdeepest := index.deepest_isDeepest a b exclude
  have hsecond := hsimple.secondDeepest_isDeepest a b exclude
  rw [hoffered, hheld] at hdeepest hsecond
  exact ⟨fun link => mem_between_after, hsimple.nodup_between a b, List.perm_append_comm, hdeepest,
    index.deepestTwo_fst a b exclude, hsecond⟩

/-- Three pools trade the tokens, one of them among other tokens. The second addition of the first one is without
effect, and the second balance of the second one replaces the first. -/
theorem after_answers_replaced :
    let token := Address.ofNat
    let changes : List Change := [.addPool (token 10) .uniswapV2 [token 1, token 2],
      .addPool (token 11) .curveStableSwap [token 2, token 3, token 1],
      .addPool (token 10) .apeswap [token 1, token 3], .setBalance (token 11) (token 1) 50,
      .addPool (token 12) .biswap [token 1, token 2], .setBalance (token 10) (token 1) 5,
      .setBalance (token 12) (token 1) 20, .setBalance (token 11) (token 1) 10]
    let offered (link : PoolLink) : Prop := Trades changes link (token 1) (token 2) ∧ link.pool ∉ [token 9]
    (∀ c ∈ changes, c.Distinct) ∧
      Deepest offered (lastBalance changes · (token 1)) (some ⟨token 12, .biswap⟩) ∧
      (after changes).deepestTwo (token 1) (token 2) [token 9] =
        (some ⟨token 12, .biswap⟩, some ⟨token 11, .curveStableSwap⟩) ∧
      Deepest (fun link => offered link ∧ some ⟨token 12, .biswap⟩ ≠ some link) (lastBalance changes · (token 1))
        (some ⟨token 11, .curveStableSwap⟩) := by
  intro token changes offered
  have distinct : ∀ c ∈ changes, c.Distinct := by decide
  have hdeepest : (after changes).deepest (token 1) (token 2) [token 9] = some ⟨token 12, .biswap⟩ := by
    rw [deepest, ranked_eq_insertionSort]
    decide +kernel
  have htwo : (after changes).deepestTwo (token 1) (token 2) [token 9] =
      (some ⟨token 12, .biswap⟩, some ⟨token 11, .curveStableSwap⟩) := by
    rw [deepestTwo, funded, ranked_eq_insertionSort]
    decide +kernel
  obtain ⟨-, -, -, hfirst, -, hsecond⟩ := after_answers distinct (token 1) (token 2) [token 9]
  rw [hdeepest] at hfirst hsecond
  rw [htwo] at hsecond
  exact ⟨distinct, hfirst, htwo, hsecond⟩

end PoolIndex
end Searcher

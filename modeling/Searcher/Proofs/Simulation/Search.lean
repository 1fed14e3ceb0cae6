/-
# What a search finds

A search keeps the first of its best trials. However its strides go, what it ends with is the trial it began with or
one that was made, and no trial that was made is better (`SizeSearch.Best`). This is shown along the steps of the
search, one recorded trial at a time. When each trial starts from one world, what is found is a property of that world
alone: the guard holds it all the way, and each trial is what the world makes of its amount (`Keeps.explore`).

The loop in which a simulation searches is a run of proposals and answers in turn (`explore_alternates`), so that what
holds of every such run holds of the search of every simulation.
-/

import Searcher.Proofs.Simulation.Pinned
import Searcher.Proofs.Simulation.Proposals

namespace Searcher
namespace SizeSearch

variable {τ β : Type} {s s' : SizeSearch τ} {trials : List Trial} {x : Nat} {expired : Bool}

/-- The trials that were recorded of those that were made. -/
def recordedOf (yielded : β → Option (Nat × Nat)) (tried : List (Nat × β)) : List Trial :=
  tried.filterMap fun p => (yielded p.2).map fun earned => ⟨p.1, earned.1, earned.2⟩

/-- A trial that is recorded was tried. -/
theorem mem_of_recorded {t : Trial} {tried : List (Nat × Nat × Nat)} (h : t ∈ recordedOf some tried) :
    (t.amount, t.output, t.gasUsed) ∈ tried := by
  obtain ⟨⟨amount, output, gasUsed⟩, hmem, hrecorded⟩ := List.mem_filterMap.1 h
  obtain rfl := Option.some.inj hrecorded
  exact hmem

/-- A search ends with a best trial: the one it had, or one of those recorded since, and none of these is better. -/
structure Best (s : SizeSearch τ) (trials : List Trial) (s' : SizeSearch τ) : Prop where
  improves : s.best.output ≤ s'.best.output
  isMax : ∀ t ∈ trials, t.output ≤ s'.best.output
  isOne : s'.best = s.best ∨ s'.best ∈ trials

/-- A search whose best has not changed has its best among no trials. -/
theorem Best.of_eq (h : s'.best = s.best) : Best s [] s' :=
  ⟨Nat.le_of_eq (congrArg Trial.output h.symm), (fun _ ht => nomatch ht), .inl h⟩

/-- Only the best before matters to which trial becomes the best. -/
theorem Best.congr {s₁ : SizeSearch τ} (h : Best s₁ trials s') (hs : s₁.best = s.best) : Best s trials s' := by
  obtain ⟨himproves, hmax, hone⟩ := h
  rw [hs] at himproves hone
  exact ⟨himproves, hmax, hone⟩

/-- One more trial at the front, recorded in the state from which the search goes on. -/
theorem Best.cons {output gas : Nat} (h : Best (s.record output gas) trials s') :
    Best s (⟨s.amount, output, gas⟩ :: trials) s' := by
  obtain ⟨himproves, hmax, hone⟩ := h
  unfold record at himproves hone
  dsimp only at himproves hone
  split at himproves
  · rename_i hbetter
    rw [if_pos hbetter] at hone
    change output ≤ s'.best.output at himproves
    refine ⟨by omega, ?_, .inr ?_⟩
    · intro t ht
      rcases List.mem_cons.1 ht with rfl | ht
      · exact himproves
      · exact hmax t ht
    · rcases hone with hone | hone
      · exact List.mem_cons.2 (.inl hone)
      · exact List.mem_cons.2 (.inr hone)
  · rename_i hworse
    rw [if_neg hworse] at hone
    refine ⟨himproves, ?_, ?_⟩
    · intro t ht
      rcases List.mem_cons.1 ht with rfl | ht
      · exact Nat.le_trans (Nat.le_of_not_lt hworse) himproves
      · exact hmax t ht
    · rcases hone with hone | hone
      · exact .inl hone
      · exact .inr (List.mem_cons.2 (.inr hone))

/-- **A simulation alternates with its trials.** Where all trials are recorded, those that were made and the search in
the end are those of a run on some answers. -/
theorem explore_alternates [Stride τ] {ρ : Type} {trial : Nat → Nat → Simulating ρ β} {earned : β → Nat × Nat}
    {fuel k : Nat} {s ended : SizeSearch τ} {w w' : ρ} {tried : List (Nat × β)}
    (h : s.explore expired trial (fun b => some (earned b)) fuel k w = (.ok (tried, ended), w')) :
    ∃ answers, s.alternate answers = (recordedOf (fun b => some (earned b)) tried, ended) := by
  induction fuel generalizing k s w w' tried with
  | zero =>
    obtain ⟨hrun, -⟩ := Prod.mk.inj h
    obtain ⟨rfl, rfl⟩ := Prod.mk.inj (Except.ok.inj hrun)
    exact ⟨[], rfl⟩
  | succ fuel ih =>
    rw [explore] at h
    rcases hnext : s.next expired with ⟨_ | x, proposed⟩ <;> rw [hnext] at h
    · -- one more answer shows that the search is over
      obtain ⟨hrun, -⟩ := Prod.mk.inj h
      obtain ⟨rfl, rfl⟩ := Prod.mk.inj (Except.ok.inj hrun)
      refine ⟨[⟨expired, 0, 0⟩], ?_⟩
      rw [alternate, hnext]
      rfl
    · obtain ⟨result, w₁, -, h⟩ := Simulating.bind_eq_ok.1 h
      obtain ⟨⟨rest, last⟩, w₂, hrest, hrun⟩ := Simulating.bind_eq_ok.1 h
      obtain ⟨hrun, -⟩ := Prod.mk.inj hrun
      obtain ⟨rfl, rfl⟩ := Prod.mk.inj (Except.ok.inj hrun)
      obtain ⟨answers, hanswers⟩ := ih hrest
      refine ⟨⟨expired, (earned result).1, (earned result).2⟩ :: answers, ?_⟩
      rw [alternate, hnext]
      dsimp only at hanswers ⊢
      rw [hanswers]
      rfl

end SizeSearch

open SizeSearch

/-- **A search from one world makes the trials of that world.** -/
theorem Keeps.explore {σ W τ β : Type} [Stride τ] {v : EngineView σ W} {w : W} {outcome : Nat → β → Prop}
    {expired : Bool} {trial : Nat → Nat → Guarding (σ × List SnapshotEvent) β} {yielded : β → Option (Nat × Nat)}
    (htrial : ∀ k x, Keeps v w (trial k x) (outcome x)) (fuel k : Nat) (s : SizeSearch τ) :
    Keeps v w (s.explore expired trial yielded fuel k) fun run =>
      (∀ p ∈ run.1, outcome p.1 p.2) ∧ Best s (recordedOf yielded run.1) run.2 := by
  induction fuel generalizing k s with
  | zero => exact .pure ⟨(fun p hp => nomatch hp), .of_eq rfl⟩
  | succ fuel ih =>
    obtain ⟨hbest, hamount⟩ := s.next_best expired
    unfold SizeSearch.explore
    rcases hnext : s.next expired with ⟨x | x, s₁⟩ <;> rw [hnext] at hbest hamount
    · exact .pure ⟨(fun p hp => nomatch hp), .of_eq hbest⟩
    obtain rfl : s₁.amount = x := hamount x rfl
    refine .bind (htrial k _) fun result hresult => ?_
    refine .bind (ih (k + 1) _) fun run hrun => ?_
    obtain ⟨htried, htriedBest⟩ := hrun
    refine .pure ⟨?_, ?_⟩
    · intro p hp
      rcases List.mem_cons.1 hp with rfl | hp
      · exact hresult
      · exact htried p hp
    · refine Best.congr ?_ hbest
      unfold recordedOf
      cases hyielded : yielded result with
      | none =>
        rw [hyielded] at htriedBest
        rw [List.filterMap_cons_none (by rw [hyielded, Option.map_none])]
        exact htriedBest
      | some earned =>
        rw [hyielded] at htriedBest
        rw [List.filterMap_cons_some (by rw [hyielded, Option.map_some])]
        exact htriedBest.cons

end Searcher

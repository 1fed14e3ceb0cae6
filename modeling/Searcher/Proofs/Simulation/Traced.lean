/-
# Runs of simulations

A run of a simulation makes trials and reports the best of them. To speak of its trials, the simulations are run here
with their trials as a second result (`arbitrageTraced`, `sandwichTraced`); they do the same (`arbitrageBy_eq`,
`sandwichBy_eq`). A session pins an engine and runs simulations on it, one after another, each whether or not the one
before it failed.

On an engine with a record of its snapshots all of this runs as it does without one (`session_forgets` and others).
-/

import Searcher.Proofs.Simulation.Search

namespace Searcher

variable {σ τ : Type}

namespace Simulation

/-! ### Runs with their trials -/

/-- An arbitrage with the trials that were made. -/
def arbitrageTraced [Stride τ] (stride : τ) (e : Engine σ) (s : SimulationSettings)
    (victim : Transaction) (path : Path) : Guarding σ (List Trial × Option Trial) := do
  match path.tokens.head?, path.tokens.getLast? with
  | some first, some last =>
    match ← fresh e s (probe e s victim path first) with
    | .error _ => return ([], none)
    | .ok base =>
      let search := SizeSearch.arbitrageBy stride (if path.amountIn = 0 then base else path.amountIn)
      let trial (_ amount : Nat) : Guarding σ (Nat × Nat) := do
        return (← fresh e s (arbitrageTrial e s victim path last base amount)).toOption.getD (0, 0)
      let (tried, search) ← search.explore s.isExpired trial some search.bound 0
      return (SizeSearch.recordedOf some tried, search.finish)
  | _, _ => return ([], none)

/-- To note the trials of an arbitrage changes nothing else. -/
theorem arbitrageBy_eq [Stride τ] (stride : τ) (e : Engine σ) (s : SimulationSettings)
    (victim : Transaction) (path : Path) :
    arbitrageBy stride e s victim path = Prod.snd <$> arbitrageTraced stride e s victim path := by
  unfold arbitrageBy arbitrageTraced searchArbitrage
  cases path.tokens.head? with
  | none => rfl
  | some first =>
    cases path.tokens.getLast? with
    | none => rfl
    | some last =>
      simp only [map_bind]
      refine bind_congr fun r => ?_
      cases r with
      | error cause => rfl
      | ok base => simp only [map_bind, bind_assoc, map_pure, pure_bind]

/-- A sandwich with the trials that were made. -/
def sandwichTraced [Stride τ] (stride : τ) (e : Engine σ) (s : SimulationSettings)
    (victim : Transaction) (path : Path) (amountIn : Nat) (rates : List BalanceRate) :
    Guarding σ (List SandwichTrial × Option SandwichTrial) := do
  match path.tokens.head?, path.tokens.getLast?, path.pools.getLast? with
  | some first, some last, some target =>
    if ¬ victim.swapEvents.any (·.pool = target) then return ([], none)
    Guarding.reset e
    let base ← Guarding.ofEngine (e.balanceOf s.attacker first)
    let start := if amountIn = 0 then base else amountIn
    let trials ← searchSandwich e s victim path rates first last base (.sandwichBy stride start base)
    let best := bestSandwich trials
    return (trials, if best.revenue = 0 then none else some best)
  | _, _, _ => return ([], none)

/-- Nor does it for a sandwich. -/
theorem sandwichBy_eq [Stride τ] (stride : τ) (e : Engine σ) (s : SimulationSettings)
    (victim : Transaction) (path : Path) (amountIn : Nat) (rates : List BalanceRate) :
    sandwichBy stride e s victim path amountIn rates =
      Prod.snd <$> sandwichTraced stride e s victim path amountIn rates := by
  unfold sandwichBy sandwichTraced
  cases path.tokens.head? with
  | none => rfl
  | some first =>
    cases path.tokens.getLast? with
    | none => rfl
    | some last =>
      cases path.pools.getLast? with
      | none => rfl
      | some target =>
        dsimp only
        split
        · rfl
        · simp only [map_bind, map_pure]

/-! ### Sessions -/

/-- A simulation that is asked for. -/
inductive Job where
  | arbitrage (settings : SimulationSettings) (victim : Transaction) (path : Path)
  | sandwich (settings : SimulationSettings) (victim : Transaction) (path : Path) (amountIn : Nat)
    (rates : List BalanceRate)

/-- Runs a simulation, whether or not it fails. -/
def Job.run (e : Engine σ) : Job → Guarding σ Unit
  | arbitrage settings victim path => do
    let _ ← Guarding.attempt (Simulation.arbitrage e settings victim path)
  | sandwich settings victim path amountIn rates => do
    let _ ← Guarding.attempt (Simulation.sandwich e settings victim path amountIn rates)

/-- Pins an engine and runs simulations on it. -/
def session (e : Engine σ) (jobs : List Job) : Guarding σ Unit := do
  Guarding.pin e
  jobs.forM (·.run e)

end Simulation

/-! ### The record plays no role -/

/-- A guard without the record of its engine. -/
def GuardedFork.forget (g : GuardedFork (σ × List SnapshotEvent)) : GuardedFork σ := ⟨g.engine.1, g.pinned⟩

namespace Guarding

variable {α : Type}

/-- What an engine does on a guarded fork forgets the record if it does so on the engine. -/
theorem ofEngine_forgets {x : Simulating (σ × List SnapshotEvent) α} {y : Simulating σ α} (h : Forgets Prod.fst x y) :
    Forgets GuardedFork.forget (ofEngine x) (ofEngine y) := by
  intro g
  change ((y g.engine.1).1, GuardedFork.mk (y g.engine.1).2 g.pinned) = _
  rw [h g.engine]
  rfl

/-- Catching a failure adds nothing to be forgotten. -/
theorem attempt_forgets {x : Guarding (σ × List SnapshotEvent) α} {y : Guarding σ α}
    (h : Forgets GuardedFork.forget x y) : Forgets GuardedFork.forget (attempt x) (attempt y) := by
  intro g
  rw [attempt, attempt, h g]
  rfl

variable (e : Engine σ)

/-- Pinning a snapshot is recorded, and the record plays no role in it. -/
theorem pin_forgets : Forgets GuardedFork.forget (pin e.recorded) (pin e) := by
  refine .bind (ofEngine_forgets ?_) fun id _ => rfl
  rintro ⟨s, events⟩
  rw [Engine.recorded_snapshot_apply]
  rcases e.snapshot s with ⟨cause | id, s'⟩ <;> rfl

/-- Nor does it in going back. -/
theorem restore_forgets (id : Nat) : Forgets GuardedFork.forget (restore e.recorded id) (restore e id) := by
  have hrestore : Forgets Prod.fst (e.recorded.restore id) (e.restore id) := by
    rintro ⟨s, events⟩
    rw [Engine.recorded_restore_apply]
    rcases e.restore id s with ⟨cause | id, s'⟩ <;> rfl
  exact .bind (fun _ => rfl) fun _ => ofEngine_forgets hrestore

/-- Nor in starting afresh. -/
theorem reset_forgets : Forgets GuardedFork.forget (reset e.recorded) (reset e) := by
  rintro ⟨s, _ | id⟩
  · rfl
  · exact Forgets.bind (restore_forgets e id) (fun _ => pin_forgets e) ⟨s, some id⟩

/-- Nor in letting go of what was pinned. -/
theorem release_forgets : Forgets GuardedFork.forget (release e.recorded) (release e) := by
  rintro ⟨s, _ | id⟩
  · rfl
  · exact restore_forgets e id ⟨s, some id⟩

end Guarding

namespace Simulation

open Guarding

variable {α : Type} {e : Engine σ}

section

variable (huntimed : e.Untimed)
include huntimed

/-- A simulation that starts afresh forgets what its program does. -/
theorem fresh_forgets (s : SimulationSettings) {x : Simulating (σ × List SnapshotEvent) α} {y : Simulating σ α}
    (h : Forgets Prod.fst x y) : Forgets GuardedFork.forget (fresh e.recorded s x) (fresh e s y) := by
  unfold fresh
  rw [huntimed, huntimed.recorded]
  exact .bind (reset_forgets e) fun _ => attempt_forgets (ofEngine_forgets h)

/-- **The traces of an arbitrage are those of its simulation.** Read off a recorded engine, they tell of the trials of
the plain one: the reset, the search and what it yields are the same. -/
theorem arbitrageTraced_forgets [Stride τ] (stride : τ) (s : SimulationSettings)
    (victim : Transaction) (path : Path) :
    Forgets GuardedFork.forget (arbitrageTraced stride e.recorded s victim path)
      (arbitrageTraced stride e s victim path) := by
  unfold arbitrageTraced
  cases path.tokens.head? with
  | none => exact .pure _
  | some first =>
    cases path.tokens.getLast? with
    | none => exact .pure _
    | some last =>
      refine .bind (fresh_forgets huntimed s (e.forgets_record.probe s victim path first)) fun r => ?_
      cases r with
      | error cause => exact .pure _
      | ok base =>
        refine .bind (.explore (fun _ amount => ?_) _ _ _) fun _ => .pure _
        exact .bind (fresh_forgets huntimed s (e.forgets_record.arbitrageTrial s victim path last base amount))
          fun _ => .pure _

/-- The same of a sandwich, with its rates and its two limits. -/
theorem sandwichTraced_forgets [Stride τ] (stride : τ) (s : SimulationSettings)
    (victim : Transaction) (path : Path) (amountIn : Nat) (rates : List BalanceRate) :
    Forgets GuardedFork.forget (sandwichTraced stride e.recorded s victim path amountIn rates)
      (sandwichTraced stride e s victim path amountIn rates) := by
  unfold sandwichTraced
  cases path.tokens.head? with
  | none => exact .pure _
  | some first =>
    cases path.tokens.getLast? with
    | none => exact .pure _
    | some last =>
      cases path.pools.getLast? with
      | none => exact .pure _
      | some target =>
        dsimp only
        split
        · exact .pure _
        · refine .bind (reset_forgets e) fun _ => ?_
          refine .bind (ofEngine_forgets (e.forgets_record.balanceOf _ _)) fun base => ?_
          refine .bind (.bind (.explore (fun _ amount => ?_) _ _ _) fun _ => .pure _) fun _ => .pure _
          exact .bind (fresh_forgets huntimed s
            (e.forgets_record.sandwichTrial s victim path rates first last base amount)) fun _ => .pure _

/-- So it holds of any session of jobs on one fork. -/
theorem session_forgets (jobs : List Job) : Forgets GuardedFork.forget (session e.recorded jobs) (session e jobs) := by
  refine .bind (pin_forgets e) fun _ => .forM (fun job => ?_) jobs
  cases job with
  | arbitrage settings victim path =>
    refine .bind (attempt_forgets ?_) fun _ => .pure _
    rw [arbitrage, arbitrage, arbitrageBy_eq, arbitrageBy_eq]
    exact (arbitrageTraced_forgets huntimed _ settings victim path).map _
  | sandwich settings victim path amountIn rates =>
    refine .bind (attempt_forgets ?_) fun _ => .pure _
    rw [sandwich, sandwich, sandwichBy_eq, sandwichBy_eq]
    exact (sandwichTraced_forgets huntimed _ settings victim path amountIn rates).map _

end

end Simulation
end Searcher

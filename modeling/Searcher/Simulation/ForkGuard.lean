/-
# Guarded forks

Every trial starts from the same state, so one snapshot is kept pinned. Going back uses the snapshot up, and a new one
is pinned at once. A guard whose return failed has nothing pinned any more.
-/

import Searcher.Simulation.Engine

namespace Searcher

/-- The state of an engine with the snapshot that is pinned. -/
structure GuardedFork (σ : Type) where
  engine : σ
  pinned : Option Nat

/-- A step on a guarded fork. -/
abbrev Guarding (σ : Type) := ExceptT SimulationError (StateM (GuardedFork σ))

namespace Guarding

variable {σ : Type} {α : Type}

/-- A step of the engine, which leaves the guard alone. -/
def ofEngine (x : Simulating σ α) : Guarding σ α := fun g =>
  let (r, s) := x g.engine
  (r, { g with engine := s })

/-- Pins the state. -/
def pin (e : Engine σ) : Guarding σ Unit := do
  let id ← ofEngine e.snapshot
  modify fun g => { g with pinned := some id }

/-- Goes back to the pinned state, if there is one, and unpins it. -/
def restore (e : Engine σ) (id : Nat) : Guarding σ Unit := do
  modify fun g => { g with pinned := none }
  ofEngine (e.restore id)

/-- Goes back to the pinned state and pins it again. -/
def reset (e : Engine σ) : Guarding σ Unit := do
  match (← get).pinned with
  | none => throw .notForked
  | some id =>
    restore e id
    pin e

/-- Goes back to the pinned state for the last time. -/
def release (e : Engine σ) : Guarding σ Unit := do
  match (← get).pinned with
  | none => return
  | some id => restore e id

/-- Runs a step and keeps its failure as a value. -/
def attempt (x : Guarding σ α) : Guarding σ (Except SimulationError α) := fun g =>
  let (r, g) := x g
  (.ok r, g)

end Guarding
end Searcher

/-
# Faithful engines

Of the state of an engine two things count: the state of the chain that it holds, its world, and the worlds that its
snapshots pin. An engine is faithful when its calls are those of a deterministic machine on the world, static calls
leave the world alone, and going back to a live snapshot brings back what it pinned (`Engine.Faithful`). Nothing is said
of what else an engine keeps, nor that a snapshot can always be taken.

A program over the calls of a faithful engine does what it does on the machine (`Tracks`), and takes or restores no
snapshot. To tell what becomes of the snapshots, an engine is put on record: `Engine.recorded` is the engine with a list
of the snapshots that it took and restored. The record plays no role in what the engine does (`Engine.forgets_record`).
-/

import Searcher.Part
import Searcher.Proofs.Simulation.Programs

namespace Searcher

/-- What counts of the states `σ` of an engine that holds a chain with states `W`. -/
structure EngineView (σ W : Type) where
  /-- The state of the chain. -/
  world : σ → W
  /-- What a snapshot pins, if it is live. -/
  pinned : σ → Nat → Option W
  /-- What a call returns, and what it makes of the state of the chain. -/
  run : W → EngineCall → Except SimulationError CallOutcome × W

/-- The engine is a deterministic machine with faithful snapshots. -/
structure Engine.Faithful {σ W : Type} (e : Engine σ) (v : EngineView σ W) : Prop where
  call_result (c : EngineCall) (s : σ) : (e.call c s).1 = (v.run (v.world s) c).1
  call_world (c : EngineCall) (s : σ) : v.world (e.call c s).2 = (v.run (v.world s) c).2
  call_pinned (c : EngineCall) (s : σ) : v.pinned (e.call c s).2 = v.pinned s
  static_world (c : EngineCall) (w : W) (h : c.isStatic = true) : (v.run w c).2 = w
  snapshot_world (s : σ) : v.world (e.snapshot s).2 = v.world s
  snapshot_pinned {s : σ} {id : Nat} (h : (e.snapshot s).1 = .ok id) : v.pinned (e.snapshot s).2 id = some (v.world s)
  restore_result {s : σ} {id : Nat} {w : W} (h : v.pinned s id = some w) : (e.restore id s).1 = .ok ()
  restore_world {s : σ} {id : Nat} {w : W} (h : v.pinned s id = some w) : v.world (e.restore id s).2 = w

/-- No piece of work is cut off. -/
def Engine.Untimed {σ : Type} (e : Engine σ) : Prop :=
  ∀ {α : Type} (budget : Nat) (x : Simulating σ α), e.within budget x = x

/-- What becomes of a snapshot. -/
inductive SnapshotEvent where
  | taken (id : Nat)
  | restored (id : Nat)
deriving DecidableEq, Repr

/-- The engine with a record of its snapshots. -/
def Engine.recorded {σ : Type} (e : Engine σ) : Engine (σ × List SnapshotEvent) where
  fork url block timestamp := Part.first.runExcept (e.fork url block timestamp)
  snapshot := do
    let id ← Part.first.runExcept e.snapshot
    modify fun (s, events) => (s, events ++ [.taken id])
    return id
  restore id := do
    Part.first.runExcept (e.restore id)
    modify fun (s, events) => (s, events ++ [.restored id])
  call c := Part.first.runExcept (e.call c)
  setCode account code := Part.first.runExcept (e.setCode account code)
  blockNumber := Part.first.runExcept e.blockNumber
  within budget x := fun (s, events) =>
    let work : Simulating _ _ := fun s =>
      let (r, s, events) := x (s, events)
      (.ok (r, events), s)
    match e.within budget work s with
    | (.ok (r, events), s) => (r, s, events)
    | (.error cause, s) => (.error cause, s, events)

/-- The calls of a view as an engine without snapshots. -/
def EngineView.machine {σ W : Type} (v : EngineView σ W) : Engine W where
  fork _ _ _ := throw .notForked
  snapshot := throw .notForked
  restore _ := throw .notForked
  call c := fun w => v.run w c
  setCode _ _ := throw .notForked
  blockNumber := throw .notForked
  within _ x := x

namespace Engine

variable {σ : Type}

/-- What is done on the first part of a pair leaves the second alone. -/
theorem first_apply {α τ : Type} (x : Simulating σ α) (s : σ) (t : τ) :
    Part.first.runExcept x (s, t) = ((x s).1, (x s).2, t) := rfl

/-- Taking a snapshot is recorded if it succeeds. An engine that cannot take one has nothing to record. -/
theorem recorded_snapshot_apply (e : Engine σ) (s : σ) (events : List SnapshotEvent) :
    e.recorded.snapshot (s, events) = match e.snapshot s with
      | (.ok id, s') => (.ok id, s', events ++ [.taken id])
      | (.error cause, s') => (.error cause, s', events) := by
  simp only [recorded, Simulating.bind_apply, first_apply]
  rcases e.snapshot s with ⟨cause | id, s'⟩ <;> rfl

/-- Going back is recorded if it succeeds. -/
theorem recorded_restore_apply (e : Engine σ) (id : Nat) (s : σ) (events : List SnapshotEvent) :
    e.recorded.restore id (s, events) = match e.restore id s with
      | (.ok (), s') => (.ok (), s', events ++ [.restored id])
      | (.error cause, s') => (.error cause, s', events) := by
  simp only [recorded, Simulating.bind_apply, first_apply]
  rcases e.restore id s with ⟨cause | id, s'⟩ <;> rfl

end Engine

/-- Calls leave the record alone, and go on without it. -/
theorem Engine.forgets_record {σ : Type} (e : Engine σ) : CallRelation (Forgets Prod.fst) e.recorded e :=
  ⟨.pure, .throw, .bind, fun _ _ => rfl⟩

/-- An engine that cuts nothing off does not do so on record either. -/
theorem Engine.Untimed.recorded {σ : Type} {e : Engine σ} (h : e.Untimed) : e.recorded.Untimed := by
  intro α budget x
  funext p
  obtain ⟨s, events⟩ := p
  simp only [Engine.recorded]
  rw [h]
  rcases x (s, events) with ⟨r, s', events'⟩
  rfl

/-- A program on a recorded engine does what another one does on the machine, and leaves the snapshots alone. -/
def Tracks {σ W α : Type} (v : EngineView σ W) (x : Simulating (σ × List SnapshotEvent) α) (y : Simulating W α) :
    Prop :=
  ∀ s events, ∃ s', x (s, events) = ((y (v.world s)).1, s', events) ∧ v.world s' = (y (v.world s)).2 ∧
    v.pinned s' = v.pinned s

namespace Tracks

variable {σ W α β : Type} {v : EngineView σ W} {e : Engine σ}

/-- A value that is returned is so on both sides. -/
theorem pure (a : α) : Tracks v (pure a) (pure a) := fun s _ => ⟨s, rfl, rfl, rfl⟩

/-- So is an error. -/
theorem throw (cause : SimulationError) :
    Tracks v (MonadExcept.throw cause : Simulating _ α) (MonadExcept.throw cause) := fun s _ => ⟨s, rfl, rfl, rfl⟩

/-- Two steps in a row do on the machine what they do on the engine, from the world that the first left. -/
theorem bind {x : Simulating _ α} {y : Simulating W α} {f : α → Simulating _ β} {g : α → Simulating W β}
    (hx : Tracks v x y) (hf : ∀ a, Tracks v (f a) (g a)) : Tracks v (x >>= f) (y >>= g) := by
  intro s events
  obtain ⟨m, hxm, hworld, hpinned⟩ := hx s events
  rcases hy : y (v.world s) with ⟨cause | a, w⟩ <;> rw [hy] at hxm hworld
  · refine ⟨m, ?_, ?_, hpinned⟩
    · rw [Simulating.bind_apply, Simulating.bind_apply, hxm, hy]
    · rw [Simulating.bind_apply, hy]
      exact hworld
  · obtain ⟨s', hfs, hworld', hpinned'⟩ := hf a m events
    subst hworld
    refine ⟨s', ?_, ?_, hpinned'.trans hpinned⟩
    · rw [Simulating.bind_apply, Simulating.bind_apply, hxm, hy]
      exact hfs
    · rw [Simulating.bind_apply, hy]
      exact hworld'

/-- A call of a faithful engine is one of the machine. -/
theorem call (h : e.Faithful v) (c : EngineCall) : Tracks v (e.recorded.call c) (v.machine.call c) := by
  intro s events
  refine ⟨(e.call c s).2, ?_, h.call_world c s, h.call_pinned c s⟩
  rw [EngineView.machine, ← h.call_result c s]
  rfl

/-- **Programs on a faithful engine do what they do on the machine**, since tracking goes along with their steps. -/
theorem callRelation (h : e.Faithful v) : CallRelation (Tracks v) e.recorded v.machine := ⟨pure, throw, bind, call h⟩

/-- The engine without a record returns what the machine does. -/
theorem result_eq {x : Simulating _ α} {x' : Simulating σ α} {y : Simulating W α} (hy : Tracks v x y)
    (hx : Forgets Prod.fst x x') (s : σ) : (x' s).1 = (y (v.world s)).1 := by
  obtain ⟨s', hxs, -, -⟩ := hy s []
  have hforget := hx (s, [])
  rw [hxs] at hforget
  exact congrArg Prod.fst hforget

end Tracks

/-- A program on a machine that leaves its world alone. -/
def Reads {W α : Type} (y : Simulating W α) : Prop := ∀ w, (y w).2 = w

namespace Reads

variable {σ W α β : Type} {v : EngineView σ W} {e : Engine σ} {w w' : W} {a : α}

/-- The world after reading is the world before. -/
theorem world_eq {y : Simulating W α} (h : Reads y) (hy : y w = (.ok a, w')) : w' = w := by
  have hw := h w
  rw [hy] at hw
  exact hw

/-- Two steps in a row that read, read. -/
theorem bind {y : Simulating W α} {g : α → Simulating W β} (hy : Reads y) (hg : ∀ a, Reads (g a)) :
    Reads (y >>= g) := by
  intro w
  have hw := hy w
  rw [Simulating.bind_apply]
  rcases hyw : y w with ⟨cause | a, w'⟩ <;> rw [hyw] at hw
  · exact hw
  · obtain rfl : w' = w := hw
    exact hg a w'

/-- So does a list of them that collects values. -/
theorem mapM {g : α → Simulating W β} (h : ∀ a, Reads (g a)) (xs : List α) : Reads (xs.mapM g) := by
  induction xs with
  | nil => exact fun w => rfl
  | cons x xs ih =>
    rw [List.mapM_cons]
    exact .bind (h x) fun y => .bind ih fun ys w => rfl

/-- So does a list of checks. -/
theorem forM {g : α → Simulating W PUnit} (h : ∀ a, Reads (g a)) (xs : List α) : Reads (xs.forM g) := by
  induction xs with
  | nil => exact fun w => rfl
  | cons x xs ih => exact .bind (h x) fun _ => ih

/-- Reading a balance is a static call. -/
theorem balanceOf (h : e.Faithful v) (holder token : Address) : Reads (v.machine.balanceOf holder token) := by
  refine .bind (fun w => h.static_world _ w rfl) fun outcome w => ?_
  cases Abi.word? outcome.output with
  | none => rfl
  | some n => rfl

/-- So the balances of the pools on a path are read without a change. -/
theorem poolBalances (h : e.Faithful v) (outputs : List (Address × Address)) :
    Reads (Simulation.poolBalances v.machine outputs) := .mapM (fun _ => .balanceOf h _ _) outputs

/-- So are those that rates are checked against. -/
theorem checkRates (h : e.Faithful v) (outputs : List (Address × Address)) (before : List Nat)
    (rates : List BalanceRate) : Reads (Simulation.checkRates v.machine outputs before rates) := by
  refine .forM (fun ⟨⟨⟨pool, token⟩, held⟩, i⟩ => .bind (.balanceOf h pool token) fun after w => ?_) _
  cases (rates.getD i .unchecked).admits held after with
  | true => rfl
  | false => rfl

end Reads
end Searcher

/-
# What a guard pins

A simulation goes back to one world before each of its trials. Whatever a trial has done, and wherever it has failed,
the guard still holds that world: its snapshot is live and pins it, or, when no new snapshot could be taken, nothing is
pinned and the engine stands in that world itself (`Held`). The record tells that each snapshot was restored before the
next one was taken, so when the guard is released every snapshot has been restored once (`Held.release`).

`Keeps` says that a step leads from guards that hold a world to guards that hold it, and what is known of its value.
-/

import Searcher.Proofs.Simulation.Faithful

namespace Searcher

/-- Snapshots that were each restored before the next one was taken. -/
def SnapshotEvent.closed (ids : List Nat) : List SnapshotEvent := ids.flatMap fun id => [.taken id, .restored id]

variable {σ W α β : Type} {v : EngineView σ W} {e : Engine σ} {w : W}
  {g : GuardedFork (σ × List SnapshotEvent)}

namespace SnapshotEvent

/-- A snapshot that is taken and restored after others that were is one more of them. -/
theorem closed_append (ids : List Nat) (id : Nat) :
    closed ids ++ [.taken id] ++ [.restored id] = closed (ids ++ [id]) := by
  simp [closed]

end SnapshotEvent

open SnapshotEvent

/-- The guard holds a world. -/
inductive Held (v : EngineView σ W) (w : W) : GuardedFork (σ × List SnapshotEvent) → Prop
  /-- A snapshot pins it, and is the only one that was not restored. -/
  | pinned {s : σ} {ids : List Nat} {id : Nat} (h : v.pinned s id = some w) :
    Held v w ⟨(s, closed ids ++ [.taken id]), some id⟩
  /-- The engine stands in it, and all snapshots were restored. -/
  | free {s : σ} {ids : List Nat} (h : v.world s = w) : Held v w ⟨(s, closed ids), none⟩

/-- The engine stands in the world that the guard has pinned. -/
inductive Ready (v : EngineView σ W) (w : W) : GuardedFork (σ × List SnapshotEvent) → Prop
  | intro {s : σ} {ids : List Nat} {id : Nat} (hworld : v.world s = w) (h : v.pinned s id = some w) :
    Ready v w ⟨(s, closed ids ++ [.taken id]), some id⟩

/-- A guard that is ready holds its fork. -/
theorem Ready.held (h : Ready v w g) : Held v w g := by
  obtain ⟨-, hpinned⟩ := h
  exact .pinned hpinned

namespace Guarding

/-- What an engine does leaves alone which snapshot is pinned. -/
theorem ofEngine_apply {τ : Type} (x : Simulating τ α) (s : τ) (pinned : Option Nat) :
    ofEngine x ⟨s, pinned⟩ = ((x s).1, ⟨(x s).2, pinned⟩) := rfl

/-- Pinning puts the engine into the guard's hand, or leaves it in its world. -/
theorem pin_held (h : e.Faithful v) {s : σ} (ids : List Nat) (hworld : v.world s = w) :
    Held v w (pin e.recorded ⟨(s, closed ids), none⟩).2 ∧
      ((pin e.recorded ⟨(s, closed ids), none⟩).1 = .ok () →
        Ready v w (pin e.recorded ⟨(s, closed ids), none⟩).2) := by
  have hsame := h.snapshot_world s
  have hpinned (id : Nat) (hok : (e.snapshot s).1 = .ok id) : v.pinned (e.snapshot s).2 id = some (v.world s) :=
    h.snapshot_pinned hok
  simp only [pin, Simulating.bind_apply, ofEngine_apply, Engine.recorded_snapshot_apply]
  rcases hsnapshot : e.snapshot s with ⟨cause | id, s'⟩ <;> rw [hsnapshot] at hsame hpinned
  · exact ⟨.free (hsame.trans hworld), fun hok => nomatch hok⟩
  · have hready : Ready v w ⟨(s', closed ids ++ [.taken id]), some id⟩ :=
      .intro (hsame.trans hworld) ((hpinned id rfl).trans (congrArg some hworld))
    exact ⟨hready.held, fun _ => hready⟩

/-- Going back to the pinned world succeeds, and unpins it. -/
theorem restore_pinned (h : e.Faithful v) {s : σ} (ids : List Nat) {id : Nat} (hpinned : v.pinned s id = some w) :
    ∃ s', restore e.recorded id ⟨(s, closed ids ++ [.taken id]), some id⟩ =
      (.ok (), ⟨(s', closed (ids ++ [id])), none⟩) ∧ v.world s' = w := by
  have hresult := h.restore_result hpinned
  have hworld := h.restore_world hpinned
  rcases hrestore : e.restore id s with ⟨cause | ⟨⟩, s'⟩ <;> rw [hrestore] at hresult hworld
  · cases hresult
  · refine ⟨s', ?_, hworld⟩
    rw [← closed_append]
    change (match e.recorded.restore id (s, closed ids ++ [.taken id]) with
      | (r, s') => (r, GuardedFork.mk s' none)) = _
    rw [Engine.recorded_restore_apply, hrestore]

/-- A reset brings the engine back to the pinned world; one that fails loses the snapshot and not the world. -/
theorem reset_held (h : e.Faithful v) (hg : Held v w g) :
    Held v w (reset e.recorded g).2 ∧ ((reset e.recorded g).1 = .ok () → Ready v w (reset e.recorded g).2) := by
  cases hg with
  | free hworld => exact ⟨.free hworld, fun hok => nomatch hok⟩
  | @pinned s ids id hpinned =>
    obtain ⟨s', hrestore, hworld⟩ := restore_pinned h ids hpinned
    have hreset : reset e.recorded ⟨(s, closed ids ++ [.taken id]), some id⟩ =
        pin e.recorded ⟨(s', closed (ids ++ [id])), none⟩ := by
      change (restore e.recorded id >>= fun _ => pin e.recorded) _ = _
      rw [Simulating.bind_apply, hrestore]
    rw [hreset]
    exact pin_held h (ids ++ [id]) hworld

/-- **A released engine stands in the world that was pinned**, and all its snapshots were restored once. -/
theorem release_held (h : e.Faithful v) (hg : Held v w g) :
    ∃ s ids, release e.recorded g = (.ok (), ⟨(s, closed ids), none⟩) ∧ v.world s = w := by
  cases hg with
  | @free s ids hworld => exact ⟨s, ids, rfl, hworld⟩
  | @pinned s ids id hpinned =>
    obtain ⟨s', hrestore, hworld⟩ := restore_pinned h ids hpinned
    exact ⟨s', ids ++ [id], hrestore, hworld⟩

end Guarding

open Guarding

/-- A step that leads from guards that hold a world to guards that hold it, with what is known of its value. -/
def Keeps (v : EngineView σ W) (w : W) (x : Guarding (σ × List SnapshotEvent) α) (post : α → Prop) : Prop :=
  ∀ g, Held v w g → Held v w (x g).2 ∧ ∀ a, (x g).1 = .ok a → post a

namespace Keeps

variable {x : Guarding (σ × List SnapshotEvent) α} {f : α → Guarding (σ × List SnapshotEvent) β} {post : α → Prop}
  {post' : β → Prop}

/-- A value keeps the fork as it is. -/
theorem pure {a : α} (h : post a) : Keeps v w (pure a) post := by
  intro g hg
  refine ⟨hg, fun a' ha => ?_⟩
  obtain rfl : a = a' := Except.ok.inj ha
  exact h

/-- **Two steps in a row keep the fork** if the second does after what the first promises. -/
theorem bind (hx : Keeps v w x post) (hf : ∀ a, post a → Keeps v w (f a) post') : Keeps v w (x >>= f) post' := by
  intro g hg
  obtain ⟨hheld, hpost⟩ := hx g hg
  rw [Simulating.bind_apply]
  rcases hxg : x g with ⟨cause | a, g'⟩ <;> rw [hxg] at hheld hpost
  · exact ⟨hheld, fun a ha => nomatch ha⟩
  · exact hf a (hpost a rfl) g' hheld

/-- A mapped value keeps what the step keeps. -/
theorem map (hx : Keeps v w x post) (f : α → β) : Keeps v w (f <$> x) fun _ => True := by
  rw [map_eq_pure_bind]
  exact .bind hx fun a _ => .pure trivial

/-- A row of steps keeps the fork, by induction. -/
theorem forM {f : α → Guarding (σ × List SnapshotEvent) PUnit} (h : ∀ a, Keeps v w (f a) fun _ => True)
    (xs : List α) : Keeps v w (xs.forM f) fun _ => True := by
  induction xs with
  | nil => exact .pure trivial
  | cons x xs ih => exact .bind (h x) fun _ _ => ih

/-- A failure that is kept as a value keeps the world as well. -/
theorem attempt (hx : Keeps v w x post) : Keeps v w (attempt x) fun _ => True :=
  fun g hg => ⟨(hx g hg).1, fun _ _ => trivial⟩

/-- A step that is right where the engine stands in the pinned world is right after a reset. -/
theorem reset_bind (h : e.Faithful v)
    (hx : ∀ g, Ready v w g → Held v w (x g).2 ∧ ∀ a, (x g).1 = .ok a → post a) :
    Keeps v w (reset e.recorded >>= fun _ => x) post := by
  intro g hg
  obtain ⟨hheld, hready⟩ := reset_held h hg
  rw [Simulating.bind_apply]
  rcases hreset : reset e.recorded g with ⟨cause | ⟨⟩, g'⟩ <;> rw [hreset] at hheld hready
  · exact ⟨hheld, fun a ha => nomatch ha⟩
  · exact hx g' (hready rfl)

end Keeps

/-- In the pinned world a program does what it does on the machine, and the guard still holds that world. -/
theorem Ready.ofEngine {y : Simulating (σ × List SnapshotEvent) α} {z : Simulating W α} (hy : Tracks v y z)
    (hg : Ready v w g) : (ofEngine y g).1 = (z w).1 ∧ Held v w (ofEngine y g).2 := by
  obtain @⟨s, ids, id, hworld, hpinned⟩ := hg
  obtain ⟨s', hys, -, hsame⟩ := hy s (closed ids ++ [.taken id])
  rw [ofEngine_apply, hys, hworld]
  refine ⟨rfl, .pinned ?_⟩
  rw [hsame]
  exact hpinned

namespace Keeps

variable {y : Simulating (σ × List SnapshotEvent) α} {z : Simulating W α}

/-- A program that is run after a reset does what it does on the machine in the pinned world. -/
theorem reset_ofEngine (h : e.Faithful v) (hy : Tracks v y z) :
    Keeps v w (reset e.recorded >>= fun _ => ofEngine y) fun a => (z w).1 = .ok a := by
  refine .reset_bind h fun g hg => ?_
  obtain ⟨hresult, hheld⟩ := hg.ofEngine hy
  refine ⟨hheld, fun a ha => ?_⟩
  rw [← hresult]
  exact ha

/-- A trial from the pinned world yields what it yields on the machine. -/
theorem fresh (h : e.Faithful v) (huntimed : e.Untimed) (settings : SimulationSettings) (hy : Tracks v y z) :
    Keeps v w (Simulation.fresh e.recorded settings y) fun r => r = (z w).1 := by
  unfold Simulation.fresh
  rw [huntimed.recorded]
  refine .reset_bind h fun g hg => ?_
  obtain ⟨hresult, hheld⟩ := hg.ofEngine hy
  refine ⟨hheld, fun r hr => ?_⟩
  obtain rfl : (ofEngine y g).1 = r := Except.ok.inj hr
  exact hresult

/-- So does a trial for whose failure something is put. -/
theorem fresh_getD (h : e.Faithful v) (huntimed : e.Untimed) (settings : SimulationSettings) (hy : Tracks v y z)
    (d : α) : Keeps v w (do return (← Simulation.fresh e.recorded settings y).toOption.getD d) fun a =>
      a = (z w).1.toOption.getD d := by
  refine .bind (.fresh h huntimed settings hy) ?_
  rintro r rfl
  exact .pure rfl

end Keeps

end Searcher

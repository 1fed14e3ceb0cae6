/-
# Parts of a state

The services that the program talks to each have a state. A step on one of them is a step on the state of all that
leaves the others alone.
-/

namespace Searcher

/-- A part `τ` of a state `σ`. -/
structure Part (σ τ : Type) where
  get : σ → τ
  put : τ → σ → σ

namespace Part

variable {σ τ ε α : Type}

/-- Runs a step on the part. -/
def run (p : Part σ τ) (x : StateM τ α) : StateM σ α := fun s =>
  let (a, t) := x (p.get s)
  (a, p.put t s)

/-- Runs a step on the part that may fail. -/
def runExcept (p : Part σ τ) (x : ExceptT ε (StateM τ) α) : ExceptT ε (StateM σ) α := p.run x.run

/-- The first of two states. -/
def first : Part (σ × τ) σ := ⟨Prod.fst, fun s p => (s, p.2)⟩

/-- The second of two states. -/
def second : Part (σ × τ) τ := ⟨Prod.snd, fun t p => (p.1, t)⟩

end Part
end Searcher

/-
# Computations that read ticks

A computation that reads ticks maps a state of the source to an outcome and a new state. Two of them in a row run the
second from the state that the first left, unless the first failed; one that reads nothing leaves the state alone.
-/

import Searcher.Concentrated.TickSource

namespace Searcher
namespace Ticking

variable {σ α β : Type} {s s' : σ}

/-- Two computations in a row: the second runs from the state that the first left, and not at all if the first failed.
-/
theorem bind_apply (x : Ticking σ α) (f : α → Ticking σ β) (s : σ) :
    (x >>= f) s = match x s with
      | (.ok a, s') => f a s'
      | (.error e, s') => (.error e, s') := by
  change ExceptT.bindCont f (x s).1 (x s).2 = _
  rcases x s with ⟨a | e, s'⟩ <;> rfl

/-- A step of the source alone does not fail. -/
theorem state_apply (m : StateM σ α) (s : σ) : (ExceptT.lift m : Ticking σ α) s = (.ok (m s).1, (m s).2) := rfl

/-- Two computations in a row succeed exactly if the first does and the second does from where the first left the
state. -/
theorem bind_eq_ok {x : Ticking σ α} {f : α → Ticking σ β} {b : β} :
    (x >>= f) s = (.ok b, s') ↔ ∃ a m, x s = (.ok a, m) ∧ f a m = (.ok b, s') := by
  rw [bind_apply]
  constructor
  · intro h
    rcases hx : x s with ⟨e | a, m⟩ <;> rw [hx] at h
    · cases (Prod.mk.inj h).1
    · exact ⟨a, m, rfl, h⟩
  · rintro ⟨a, m, hx, hf⟩
    rw [hx]
    exact hf

/-- A formula that reads nothing succeeds with its value, and leaves the state as it was. -/
theorem lift_eq_ok {q : Quote α} {a : α} : (liftM q : Ticking σ α) s = (.ok a, s') ↔ q = .ok a ∧ s = s' := by
  constructor
  · exact fun h => Prod.mk.inj h
  · rintro ⟨rfl, rfl⟩
    rfl

/-- A value alone is that value, from the state as it was. -/
theorem pure_eq_ok {a b : α} : (pure a : Ticking σ α) s = (.ok b, s') ↔ a = b ∧ s = s' := by
  constructor
  · intro h
    obtain ⟨h, hs⟩ := Prod.mk.inj h
    exact ⟨Except.ok.inj h, hs⟩
  · rintro ⟨rfl, rfl⟩
    rfl

/-- Formulas that read nothing may be put together before or after they are taken for computations that read. -/
theorem ofQuote_bind (q : Quote α) (f : α → Quote β) :
    (Ticking.ofQuote (q >>= f) : Ticking σ β) = Ticking.ofQuote q >>= fun a => Ticking.ofQuote (f a) := by
  cases q with
  | ok a => rfl
  | error e => rfl

end Ticking
end Searcher

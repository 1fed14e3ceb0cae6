/-
# Programs over the calls of an engine

What a simulation does on an engine before it goes back to its snapshot is a program over the calls of the engine: it
makes calls, reads what they return, fails. So a relation between programs on two engines that holds of their calls and
goes along with the steps of a program holds of every part of a simulation (`CallRelation`), and need not be shown for
each part again.

One such relation is that a part of the state plays no role (`Forgets`).
-/

import Searcher.Simulation.Sandwich

namespace Searcher

variable {σ τ α β : Type}

namespace Simulating

variable {s s' : σ}

/-- Two steps in a row: the second runs from the state that the first left, and not at all if the first failed. -/
theorem bind_apply (x : Simulating σ α) (f : α → Simulating σ β) (s : σ) :
    (x >>= f) s = match x s with
      | (.ok a, s') => f a s'
      | (.error e, s') => (.error e, s') := by
  change ExceptT.bindCont f (x s).1 (x s).2 = _
  rcases x s with ⟨e | a, s'⟩ <;> rfl

/-- Two steps in a row succeed exactly if the first does and the second does from where the first left the engine. -/
theorem bind_eq_ok {x : Simulating σ α} {f : α → Simulating σ β} {b : β} :
    (x >>= f) s = (.ok b, s') ↔ ∃ a m, x s = (.ok a, m) ∧ f a m = (.ok b, s') := by
  rw [bind_apply]
  constructor
  · intro h
    rcases hx : x s with ⟨e | a, m⟩ <;> rw [hx] at h
    · cases (Prod.mk.inj h).1
    · exact ⟨a, m, rfl, h⟩
  · rintro ⟨a, m, hx, hf⟩
    rw [hx]
    exact hf

/-- A step whose value is mapped succeeds where the step does, with the mapped value. -/
theorem map_eq_ok {x : Simulating σ α} {f : α → β} {b : β} (h : (f <$> x) s = (.ok b, s')) :
    ∃ a, x s = (.ok a, s') ∧ f a = b := by
  rw [map_eq_pure_bind] at h
  obtain ⟨a, m, hx, hpure⟩ := bind_eq_ok.1 h
  obtain ⟨hfa, rfl⟩ := Prod.mk.inj hpure
  exact ⟨a, hx, Except.ok.inj hfa⟩

/-- What returns a value also leaves a state. -/
theorem exists_of_ok {x : Simulating σ α} {a : α} (h : (x s).1 = .ok a) : ∃ s', x s = (.ok a, s') :=
  ⟨(x s).2, Prod.ext h rfl⟩

end Simulating

/-! ### Relations along programs -/

/-- A relation between programs on two engines that holds of their calls, and of programs when it holds of their
steps. -/
structure CallRelation (R : {α : Type} → Simulating τ α → Simulating σ α → Prop) (e : Engine τ) (e' : Engine σ) :
    Prop where
  pure {α : Type} (a : α) : R (pure a) (pure a)
  throw {α : Type} (cause : SimulationError) :
    R (MonadExcept.throw cause : Simulating τ α) (MonadExcept.throw cause)
  bind {α β : Type} {x : Simulating τ α} {y : Simulating σ α} {f : α → Simulating τ β} {g : α → Simulating σ β} :
    R x y → (∀ a, R (f a) (g a)) → R (x >>= f) (y >>= g)
  call (c : EngineCall) : R (e.call c) (e'.call c)

namespace CallRelation

variable {R : {α : Type} → Simulating τ α → Simulating σ α → Prop} {e : Engine τ} {e' : Engine σ}

section

variable (h : CallRelation R e e')
include h

/-- The relation goes along with a list of programs that collect their values. -/
theorem mapM {f : α → Simulating τ β} {g : α → Simulating σ β} (hfg : ∀ a, R (f a) (g a)) (xs : List α) :
    R (xs.mapM f) (xs.mapM g) := by
  induction xs with
  | nil => exact h.pure []
  | cons x xs ih =>
    rw [List.mapM_cons, List.mapM_cons]
    exact h.bind (hfg x) fun y => h.bind ih fun ys => h.pure (y :: ys)

/-- It goes along with a list of programs that are run for their effect. -/
theorem forM {f : α → Simulating τ PUnit} {g : α → Simulating σ PUnit} (hfg : ∀ a, R (f a) (g a)) (xs : List α) :
    R (xs.forM f) (xs.forM g) := by
  induction xs with
  | nil => exact h.pure PUnit.unit
  | cons x xs ih => exact h.bind (hfg x) fun _ => ih

/-- Reading a balance is one call and a check of what it returns. -/
theorem balanceOf (holder token : Address) : R (e.balanceOf holder token) (e'.balanceOf holder token) := by
  refine h.bind (h.call _) fun outcome => ?_
  cases Abi.word? outcome.output with
  | none => exact h.throw _
  | some n => exact h.pure n

/-- So is replaying a transaction. -/
theorem replay (tx : Transaction) : R (e.replay tx) (e'.replay tx) := by
  unfold Engine.replay
  cases tx.receiver with
  | none => exact h.throw _
  | some receiver => exact h.call _

end

open Simulation

section

variable (h : CallRelation R e e') (s : SimulationSettings) (victim : Transaction) (path : Path)
include h

/-- An attack is a call of the program's contract. -/
theorem attack (f : AttackFunction) (amount : Nat) : R (attack e s f amount path) (attack e' s f amount path) :=
  h.call _

/-- A probe replays the victim, reads a balance and makes one attack. -/
theorem probe (first : Address) : R (probe e s victim path first) (probe e' s victim path first) :=
  h.bind (h.replay victim) fun _ => h.bind (h.balanceOf _ _) fun base =>
    h.bind (h.attack s path _ _) fun _ => h.pure base

/-- A trial of an arbitrage replays the victim, attacks with its amount and reads the balance. -/
theorem arbitrageTrial (last : Address) (base amount : Nat) :
    R (arbitrageTrial e s victim path last base amount) (arbitrageTrial e' s victim path last base amount) :=
  h.bind (h.replay victim) fun _ => h.bind (h.attack s path _ _) fun _ =>
    h.bind (h.balanceOf _ _) fun _ => h.pure _

/-- Rates are checked balance by balance. -/
theorem checkRates (outputs : List (Address × Address)) (before : List Nat) (rates : List BalanceRate) :
    R (checkRates e outputs before rates) (checkRates e' outputs before rates) := by
  refine h.forM (fun ⟨⟨⟨pool, token⟩, held⟩, i⟩ => h.bind (h.balanceOf pool token) fun after => ?_) _
  cases (rates.getD i .unchecked).admits held after with
  | true => exact h.pure PUnit.unit
  | false => exact h.throw _

/-- **A trial of a sandwich** attacks, replays the victim, attacks again and checks the rates. -/
theorem sandwichTrial (rates : List BalanceRate) (first last : Address) (base amount : Nat) :
    R (sandwichTrial e s victim path rates first last base amount)
      (sandwichTrial e' s victim path rates first last base amount) := by
  refine h.bind (h.balanceOf _ _) fun heldBefore => ?_
  refine h.bind (h.mapM (fun _ => h.balanceOf _ _) _) fun poolsBefore => ?_
  refine h.bind (h.attack s path _ _) fun front => ?_
  refine h.bind (h.checkRates _ _ _) fun _ => h.bind (h.replay victim) fun _ => ?_
  refine h.bind (h.balanceOf _ _) fun held => ?_
  refine h.bind (h.attack s path _ _) fun back => ?_
  exact h.bind (h.balanceOf _ _) fun _ => h.pure _

end

end CallRelation

/-! ### Parts of the state that play no role -/

/-- A program does the same without the part of the state that `p` forgets. -/
def Forgets (p : τ → σ) (x : Simulating τ α) (y : Simulating σ α) : Prop := ∀ s, y (p s) = ((x s).1, p (x s).2)

namespace Forgets

variable {p : τ → σ}

/-- A value that is returned forgets everything. -/
theorem pure (a : α) : Forgets p (pure a) (pure a) := fun _ => rfl

/-- So does an error. -/
theorem throw (cause : SimulationError) :
    Forgets p (MonadExcept.throw cause : Simulating τ α) (MonadExcept.throw cause) := fun _ => rfl

/-- Two steps in a row forget what both of them do, since the second starts from what the first left of the state. -/
theorem bind {x : Simulating τ α} {y : Simulating σ α} {f : α → Simulating τ β} {g : α → Simulating σ β}
    (hx : Forgets p x y) (hf : ∀ a, Forgets p (f a) (g a)) : Forgets p (x >>= f) (y >>= g) := by
  intro s
  rw [Simulating.bind_apply, Simulating.bind_apply, hx s]
  rcases x s with ⟨cause | a, m⟩
  · rfl
  · exact hf a m

/-- Mapping a value forgets what the step does. -/
theorem map {x : Simulating τ α} {y : Simulating σ α} (h : Forgets p x y) (f : α → β) :
    Forgets p (f <$> x) (f <$> y) := by
  rw [map_eq_pure_bind, map_eq_pure_bind]
  exact .bind h fun a => .pure (f a)

/-- A list of programs forgets what each of them does. -/
theorem forM {f : α → Simulating τ PUnit} {g : α → Simulating σ PUnit} (h : ∀ a, Forgets p (f a) (g a))
    (xs : List α) : Forgets p (xs.forM f) (xs.forM g) := by
  induction xs with
  | nil => exact .pure PUnit.unit
  | cons x xs ih => exact .bind (h x) fun _ => ih

/-- A search forgets what its trials forget. -/
theorem explore {ρ : Type} [Stride ρ] {expired : Bool} {trial : Nat → Nat → Simulating τ β}
    {trial' : Nat → Nat → Simulating σ β} {yielded : β → Option (Nat × Nat)}
    (h : ∀ k x, Forgets p (trial k x) (trial' k x)) (fuel k : Nat) (s : SizeSearch ρ) :
    Forgets p (s.explore expired trial yielded fuel k) (s.explore expired trial' yielded fuel k) := by
  induction fuel generalizing k s with
  | zero => exact .pure _
  | succ fuel ih =>
    unfold SizeSearch.explore
    rcases s.next expired with ⟨_ | x, s'⟩
    · exact .pure _
    · exact .bind (h k x) fun _ => .bind (ih (k + 1) _) fun _ => .pure _

end Forgets

end Searcher

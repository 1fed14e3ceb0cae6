/-
# What a search proposes

A search and the world take turns: the search proposes an amount, the world answers with an output and the gas used, and
the search records them (`SizeSearch.alternate`). Here the strides are arbitrary, and so are the answers.

What the search can know of the trials behind it is said once (`After`), as is what it takes for one more proposal
(`Allows`). One proposal and its record keep the first (`After.record`) and have the second (`After.allows`), so by
induction every trial of a run was allowed after those before it (`After.alternate`). From this follow how many trials
there are, when they end, what is found (`alternate_bounded`) and which of them respect the cap (`alternate_capped`):
all but the first, which is made at the amount the search starts from.

The simulations run the search with a bound on its steps. The bound is never met (`explore_bound`), whatever their
trials do.
-/

import Mathlib.Data.List.Basic
import Searcher.Simulation.SizeSearch

namespace Searcher

/-- The trial is the earliest among those with the largest output. -/
def Trial.EarliestBest (trials : List Trial) (best : Trial) : Prop :=
  ∃ earlier later, trials = earlier ++ best :: later ∧ (∀ t ∈ earlier, t.output < best.output) ∧
    ∀ t ∈ later, t.output ≤ best.output

namespace SizeSearch

variable {σ : Type}

/-- What the world answers to a search. -/
structure Answer where
  /-- Whether the time is up when the search is about to propose. -/
  isExpired : Bool := false
  output : ℕ
  gasUsed : ℕ
deriving DecidableEq, Repr

/-- A search that has proposed nothing yet. -/
def fresh (limits : SearchLimits) (maxAmount amount : ℕ) (stride : σ) : SizeSearch σ :=
  { limits, maxAmount, amount, stride }

/-- Proposals and answers in turn, until the search ends or there are no more answers. -/
def alternate [Stride σ] (s : SizeSearch σ) : List Answer → List Trial × SizeSearch σ
  | [] => ([], s)
  | answer :: answers =>
    match s.next answer.isExpired with
    | (none, ended) => ([], ended)
    | (some x, proposed) =>
      let run := (proposed.record answer.output answer.gasUsed).alternate answers
      (⟨x, answer.output, answer.gasUsed⟩ :: run.1, run.2)

/-! ### One proposal -/

/-- What it takes to propose an amount, and what this does to the search. -/
structure Proposes (s : SizeSearch σ) (x : ℕ) (s' : SizeSearch σ) : Prop where
  limits : s'.limits = s.limits
  maxAmount : s'.maxAmount = s.maxAmount
  best : s'.best = s.best
  started : s'.started = true
  count : s'.count = s.count + 1
  amount : s'.amount = x
  first : s.started = false → x = s.amount
  capped : s.started = true → x ≤ s.maxAmount
  goesOn : s.started = true → s.exhausted = false ∧ s.dropped = false

/-- A search that proposes an amount has started and counts one more trial. Only the first amount may be above the
cap. -/
theorem Proposes.of_next [Stride σ] {s s' : SizeSearch σ} {expired : Bool} {x : ℕ}
    (h : s.next expired = (some x, s')) : s.Proposes x s' := by
  unfold next at h
  split at h
  · rename_i hfresh
    obtain ⟨hx, rfl⟩ := Prod.mk.inj h
    obtain rfl := Option.some.inj hx
    have hstarted : ¬ s.started = true := by simpa using hfresh
    exact ⟨rfl, rfl, rfl, rfl, rfl, rfl, fun _ => rfl, fun hs => absurd hs hstarted, fun hs => absurd hs hstarted⟩
  · rename_i hstarted
    have hstarted : s.started = true := by simpa using hstarted
    split at h
    · cases (Prod.mk.inj h).1
    · rename_i hopen
      have hexhausted : s.exhausted = false := by
        rw [Bool.not_eq_true, Bool.or_eq_false_iff] at hopen
        exact hopen.1
      dsimp only at h
      split at h
      · cases (Prod.mk.inj h).1
      · rename_i hmoves
        obtain ⟨hx, rfl⟩ := Prod.mk.inj h
        obtain rfl := Option.some.inj hx
        have hdropped : s.dropped = false := by
          rw [not_or, Bool.not_eq_true] at hmoves
          exact hmoves.2
        exact ⟨rfl, rfl, rfl, hstarted, rfl, rfl, fun hs => absurd hs (by simp [hstarted]),
          fun _ => Nat.min_le_right _ _, fun _ => ⟨hexhausted, hdropped⟩⟩

/-- A proposal leaves the best trial, and is the amount under which the next one is recorded. -/
theorem next_best [Stride σ] (s : SizeSearch σ) (expired : Bool) :
    (s.next expired).2.best = s.best ∧ ∀ x, (s.next expired).1 = some x → (s.next expired).2.amount = x := by
  unfold next
  split
  · exact ⟨rfl, fun x hx => Option.some.inj hx⟩
  split
  · exact ⟨rfl, fun x hx => nomatch hx⟩
  dsimp only
  split
  · exact ⟨rfl, fun x hx => nomatch hx⟩
  · exact ⟨rfl, fun x hx => Option.some.inj hx⟩

/-! ### The best trial so far -/

/-- The best trial kept for some trials: one without output while none had any, then the earliest of the best. -/
def Remembers (trials : List Trial) (best : Trial) : Prop :=
  (best.output = 0 ∧ ∀ t ∈ trials, t.output = 0) ∨ 0 < best.output ∧ best.EarliestBest trials

variable {trials done : List Trial} {best : Trial}

/-- Every trial pays at most what the best one does. -/
theorem Remembers.output_le (h : Remembers trials best) {t : Trial} (ht : t ∈ trials) : t.output ≤ best.output := by
  rcases h with ⟨-, hzero⟩ | ⟨-, earlier, later, rfl, hearlier, hlater⟩
  · have := hzero t ht
    omega
  · rcases List.mem_append.1 ht with ht | ht
    · exact Nat.le_of_lt (hearlier t ht)
    · rcases List.mem_cons.1 ht with rfl | ht
      · exact Nat.le_refl _
      · exact hlater t ht

/-- The best trial pays nothing exactly if none pays anything. -/
theorem Remembers.output_eq_zero_iff (h : Remembers trials best) : best.output = 0 ↔ ∀ t ∈ trials, t.output = 0 := by
  constructor
  · intro hzero t ht
    have := h.output_le ht
    omega
  · intro hzero
    rcases h with ⟨hbest, -⟩ | ⟨-, earlier, later, rfl, -⟩
    · exact hbest
    · exact hzero best (by simp)

/-- One more trial is kept if it is better than the best before it. -/
theorem Remembers.concat (h : Remembers trials best) (t : Trial) :
    Remembers (trials ++ [t]) (if best.output < t.output then t else best) := by
  split
  · rename_i hbetter
    refine .inr ⟨by omega, trials, [], rfl, ?_, ?_⟩
    · intro other hother
      have := h.output_le hother
      omega
    · intro other hother
      cases hother
  · rename_i hworse
    have hle : t.output ≤ best.output := Nat.not_lt.1 hworse
    rcases h with ⟨hbest, hzero⟩ | ⟨hpos, earlier, later, rfl, hearlier, hlater⟩
    · refine .inl ⟨hbest, ?_⟩
      intro other hother
      rcases List.mem_append.1 hother with hother | hother
      · exact hzero other hother
      · obtain rfl := List.mem_singleton.1 hother
        omega
    · refine .inr ⟨hpos, earlier, later ++ [t], by simp, hearlier, ?_⟩
      intro other hother
      rcases List.mem_append.1 hother with hother | hother
      · exact hlater other hother
      · obtain rfl := List.mem_singleton.1 hother
        exact hle

/-! ### Runs -/

variable {start s s' : SizeSearch σ} {x : ℕ}

/-- What a search that began as `start` knows after some trials. -/
structure After (start : SizeSearch σ) (done : List Trial) (s : SizeSearch σ) : Prop where
  limits : s.limits = start.limits
  maxAmount : s.maxAmount = start.maxAmount
  started : s.started = true ↔ done ≠ []
  amount : done = [] → s.amount = start.amount
  count : s.count = done.length
  best : Remembers done s.best
  lastOutput : ∀ t, done.getLast? = some t → s.lastOutput = t.output

/-- What holds of a proposal after some trials. -/
structure Allows (start : SizeSearch σ) (done : List Trial) (x : ℕ) : Prop where
  first : done = [] → x = start.amount
  capped : done ≠ [] → x ≤ start.maxAmount
  count_lt : done ≠ [] → done.length < start.limits.maxTrials
  hopes : done ≠ [] → (∀ t ∈ done, t.output = 0) → done.length < start.limits.giveUpAfter
  notDropped : start.limits.stopOnDrop → (∃ t ∈ done, 0 < t.output) →
    ∀ t, done.getLast? = some t → t.output ≠ 0

/-- A fresh search comes after no trials. -/
theorem After.fresh (limits : SearchLimits) (maxAmount amount : ℕ) (stride : σ) :
    After (fresh limits maxAmount amount stride) [] (fresh limits maxAmount amount stride) where
  limits := rfl
  maxAmount := rfl
  started := ⟨nofun, fun hne => absurd rfl hne⟩
  amount := fun _ => rfl
  count := rfl
  best := .inl ⟨rfl, nofun⟩
  lastOutput := nofun

/-- **A proposal was allowed.** -/
theorem After.allows (h : After start done s) (hp : s.Proposes x s') : Allows start done x := by
  have hgoesOn : done ≠ [] → s.exhausted = false ∧ s.dropped = false := fun hne => hp.goesOn (h.started.2 hne)
  refine ⟨?_, ?_, ?_, ?_, ?_⟩
  · intro hnone
    have hfresh : s.started = false := by
      rw [← Bool.not_eq_true, h.started]
      exact not_not_intro hnone
    rw [hp.first hfresh, h.amount hnone]
  · intro hne
    rw [← h.maxAmount]
    exact hp.capped (h.started.2 hne)
  · intro hne
    obtain ⟨hopen, -⟩ := hgoesOn hne
    simp only [exhausted, decide_eq_false_iff_not, not_or, h.limits, h.count] at hopen
    omega
  · intro hne hzero
    obtain ⟨hopen, -⟩ := hgoesOn hne
    have hbest : s.best.output = 0 := h.best.output_eq_zero_iff.2 hzero
    simp only [exhausted, decide_eq_false_iff_not, not_or, h.limits, h.count, hbest, true_and] at hopen
    omega
  · rintro hstop ⟨t, ht, hpos⟩ last hlast hzero
    obtain ⟨-, hdropped⟩ := hgoesOn (List.ne_nil_of_mem ht)
    have hbest : s.best.output ≠ 0 := by
      have := h.best.output_le ht
      omega
    have hnothing : s.lastOutput = 0 := (h.lastOutput last hlast).trans hzero
    simp [dropped, h.limits, hstop, hbest, hnothing] at hdropped

/-- **A proposal and its record lead on.** -/
theorem After.record (h : After start done s) (hp : s.Proposes x s') (output gasUsed : ℕ) :
    After start (done ++ [⟨x, output, gasUsed⟩]) (s'.record output gasUsed) where
  limits := hp.limits.trans h.limits
  maxAmount := hp.maxAmount.trans h.maxAmount
  started := ⟨fun _ => by simp, fun _ => hp.started⟩
  amount := fun hnone => by simp at hnone
  count := by
    show s'.count = _
    rw [hp.count, h.count, List.length_append, List.length_singleton]
  best := by
    show Remembers _ (if s'.best.output < output then ⟨s'.amount, output, gasUsed⟩ else s'.best)
    rw [hp.best, hp.amount]
    exact h.best.concat ⟨x, output, gasUsed⟩
  lastOutput := by
    intro t ht
    rw [List.getLast?_concat] at ht
    obtain rfl := Option.some.inj ht
    rfl

/-- **Every trial of a run was allowed after those before it**, and the best of them all is kept. -/
theorem After.alternate [Stride σ] (h : After start done s) (answers : List Answer) :
    (∀ earlier t later, (s.alternate answers).1 = earlier ++ t :: later → Allows start (done ++ earlier) t.amount) ∧
      Remembers (done ++ (s.alternate answers).1) (s.alternate answers).2.best := by
  induction answers generalizing done s with
  | nil =>
    unfold SizeSearch.alternate
    refine ⟨?_, by simpa using h.best⟩
    intro earlier t later hrun
    simp at hrun
  | cons answer answers ih =>
    unfold SizeSearch.alternate
    rcases hnext : s.next answer.isExpired with ⟨_ | x, proposed⟩
    · refine ⟨?_, ?_⟩
      · intro earlier t later hrun
        simp at hrun
      · have hends := (s.next_best answer.isExpired).1
        rw [hnext] at hends
        rw [List.append_nil, hends]
        exact h.best
    · have hp := Proposes.of_next hnext
      obtain ⟨hallowed, hbest⟩ := ih (h.record hp answer.output answer.gasUsed)
      dsimp only
      rw [List.append_assoc, List.singleton_append] at hbest
      refine ⟨?_, hbest⟩
      intro earlier t later hrun
      cases earlier with
      | nil =>
        obtain ⟨rfl, -⟩ := List.cons.inj hrun
        rw [List.append_nil]
        exact h.allows hp
      | cons head earlier =>
        obtain ⟨rfl, hrest⟩ := List.cons.inj hrun
        have := hallowed earlier t later hrest
        rwa [List.append_assoc, List.singleton_append] at this

/-- If no trial came after as many as the limit, there are no more of them. -/
theorem length_le_of_forall_lt {limit : ℕ} (hlimit : 1 ≤ limit)
    (h : ∀ earlier t, trials = earlier ++ [t] → earlier ≠ [] → earlier.length < limit) : trials.length ≤ limit := by
  rcases List.eq_nil_or_concat' trials with rfl | ⟨earlier, t, rfl⟩
  · exact Nat.zero_le _
  · rw [List.length_append, List.length_singleton]
    by_cases hfirst : earlier = []
    · rw [hfirst]
      exact hlimit
    · exact h earlier t rfl hfirst

/-- A search ends with nothing exactly if no trial paid anything. -/
theorem Remembers.finish_eq_none_iff (h : Remembers trials s.best) : s.finish = none ↔ ∀ t ∈ trials, t.output = 0 := by
  rw [← h.output_eq_zero_iff, finish]
  split
  · simp [*]
  · simp [*]

/-- What a search ends with is the earliest of its best trials. -/
theorem Remembers.earliestBest (h : Remembers trials s.best) (hfound : s.finish = some best) :
    best.EarliestBest trials := by
  unfold finish at hfound
  split at hfound
  · cases hfound
  · rename_i houtput
    obtain rfl := Option.some.inj hfound
    rcases h with ⟨hnothing, -⟩ | ⟨-, hbest⟩
    · exact absurd hnothing houtput
    · exact hbest

/-- **A search is bounded and remembers the right trial.** Whatever its strides are and whatever is answered, it makes
no more trials than its limits allow; while none has an output, not more than it takes to give up; and where it is to
stop on a drop, none after a trial without output that came after one with some. In the end it has found nothing
exactly if no trial had an output; otherwise it has found the earliest of the best ones, with its amount and its gas. -/
theorem alternate_bounded [Stride σ] {limits : SearchLimits} (hmax : 1 ≤ limits.maxTrials)
    (hzero : 1 ≤ limits.giveUpAfter) (maxAmount amount : ℕ) (stride : σ) (answers : List Answer) :
    let run := (fresh limits maxAmount amount stride).alternate answers
    run.1.length ≤ limits.maxTrials ∧
      ((∀ t ∈ run.1, t.output = 0) → run.1.length ≤ min limits.maxTrials limits.giveUpAfter) ∧
      (limits.stopOnDrop → ∀ earlier drop later, run.1 = earlier ++ drop :: later →
        (∃ t ∈ earlier, 0 < t.output) → drop.output = 0 → later = []) ∧
      (run.2.finish = none ↔ ∀ t ∈ run.1, t.output = 0) ∧
      ∀ best, run.2.finish = some best → best.EarliestBest run.1 := by
  intro run
  obtain ⟨hallowed, hbest⟩ := (After.fresh limits maxAmount amount stride).alternate answers
  rw [List.nil_append] at hbest
  have hcount : run.1.length ≤ limits.maxTrials :=
    length_le_of_forall_lt hmax fun earlier t hrun => (hallowed earlier t [] hrun).count_lt
  refine ⟨hcount, ?_, ?_, hbest.finish_eq_none_iff, fun best => hbest.earliestBest⟩
  · intro hnothing
    refine Nat.le_min.2 ⟨hcount, length_le_of_forall_lt hzero ?_⟩
    intro earlier t hrun hne
    have hearlier : ∀ other ∈ earlier, other.output = 0 := by
      intro other hother
      refine hnothing other ?_
      rw [hrun]
      exact List.mem_append_left _ hother
    exact (hallowed earlier t [] hrun).hopes hne hearlier
  · rintro hstop earlier drop later hrun ⟨t, ht, hpos⟩ hdrop
    cases later with
    | nil => rfl
    | cons next later =>
      -- the next trial would come after the drop
      have hsplit : run.1 = (earlier ++ [drop]) ++ next :: later := by simp [hrun]
      have hallows := hallowed (earlier ++ [drop]) next later hsplit
      have hsome : ∃ t ∈ earlier ++ [drop], 0 < t.output := ⟨t, List.mem_append_left _ ht, hpos⟩
      exact absurd hdrop (hallows.notDropped hstop hsome drop (by simp))

/-- A stride that doubles an amount to the right and halves it to the left. -/
inductive Doubling where
  | right
  | left

instance : Stride Doubling where
  toward _ right := if right then .right else .left
  apply
    | .right, amount => 2 * amount
    | .left, amount => amount / 2

/-- Six trials are allowed, but the fifth one drops to nothing and is the last. Two had the largest output, and the
first of them is found. -/
theorem alternate_bounded_drop :
    let limits : SearchLimits := ⟨6, 3, true⟩
    let answers : List Answer := [⟨false, 5, 91⟩, ⟨false, 9, 92⟩, ⟨false, 9, 93⟩, ⟨false, 7, 94⟩, ⟨false, 0, 95⟩,
      ⟨false, 8, 96⟩]
    let run := (fresh limits 5000 1000 Doubling.right).alternate answers
    1 ≤ limits.maxTrials ∧ 1 ≤ limits.giveUpAfter ∧ run.1.map (·.amount) = [1000, 2000, 4000, 2000, 1000] ∧
      run.1.length ≤ limits.maxTrials ∧ run.2.finish = some ⟨2000, 9, 92⟩ ∧
      Trial.EarliestBest run.1 ⟨2000, 9, 92⟩ := by
  intro limits answers run
  have hmax : 1 ≤ limits.maxTrials := by decide
  have hzero : 1 ≤ limits.giveUpAfter := by decide
  have hfinish : run.2.finish = some ⟨2000, 9, 92⟩ := by decide
  obtain ⟨hcount, -, -, -, hfound⟩ := alternate_bounded hmax hzero 5000 1000 Doubling.right answers
  exact ⟨hmax, hzero, by decide, hcount, hfinish, hfound _ hfinish⟩

/-! ### The cap -/

/-- **All proposals but the first respect the cap.** The first one is the amount the search starts from, so a run
respects its cap exactly if this amount does. -/
theorem alternate_capped [Stride σ] (limits : SearchLimits) (maxAmount amount : ℕ) (stride : σ)
    (answers : List Answer) :
    let trials := ((fresh limits maxAmount amount stride).alternate answers).1
    (∀ t, trials.head? = some t → t.amount = amount) ∧ (∀ t ∈ trials.tail, t.amount ≤ maxAmount) ∧
      ((∀ t ∈ trials, t.amount ≤ maxAmount) ↔ trials = [] ∨ amount ≤ maxAmount) := by
  intro trials
  obtain ⟨hallowed, -⟩ := (After.fresh limits maxAmount amount stride).alternate answers
  cases htrials : trials with
  | nil => simp
  | cons first rest =>
    have hfirst : first.amount = amount := (hallowed [] first rest htrials).first rfl
    have hrest : ∀ t ∈ rest, t.amount ≤ maxAmount := by
      intro t ht
      obtain ⟨between, later, rfl⟩ := List.append_of_mem ht
      exact (hallowed (first :: between) t later htrials).capped (by simp)
    refine ⟨?_, hrest, ?_⟩
    · intro t ht
      obtain rfl := Option.some.inj ht
      exact hfirst
    · constructor
      · intro hall
        refine .inr ?_
        rw [← hfirst]
        exact hall first List.mem_cons_self
      · rintro (hnone | hstart) t ht
        · cases hnone
        · rcases List.mem_cons.1 ht with rfl | ht
          · rw [hfirst]
            exact hstart
          · exact hrest t ht

/-- **A sandwich may start beyond what the attacker holds:** from five thousand, with a thousand to spend. -/
theorem alternate_overBalance :
    ((sandwich 5000 1000).alternate [⟨true, 7, 100000⟩]).1 = [⟨5000, 7, 100000⟩] ∧
      ¬ ∀ (amount balance : ℕ) (answers : List Answer),
        ∀ t ∈ ((sandwich amount balance).alternate answers).1, t.amount ≤ balance := by
  have hrun : ((sandwich 5000 1000).alternate [⟨true, 7, 100000⟩]).1 = [⟨5000, 7, 100000⟩] := rfl
  refine ⟨hrun, fun hcapped => ?_⟩
  have hle := hcapped 5000 1000 [⟨true, 7, 100000⟩] ⟨5000, 7, 100000⟩ (by simp [hrun])
  exact absurd hle (by decide)

/-! ### The bound on the steps -/

section Explore

variable [Stride σ] {m : Type → Type} [Monad m] {β : Type}

/-- A search that has made all its trials proposes nothing more. -/
theorem next_of_full {s : SizeSearch σ} (hstarted : s.started = true) (hfull : s.limits.maxTrials ≤ s.count)
    (expired : Bool) : s.next expired = (none, s) := by
  simp [next, hstarted, exhausted, hfull]

/-- A search has no use for more steps than it has trials left, but for its first one. -/
theorem explore_add (expired : Bool) (trial : ℕ → ℕ → m β) (yielded : β → Option (ℕ × ℕ)) (extra fuel k : ℕ)
    {s : SizeSearch σ} (hfirst : s.started = true ∨ 0 < fuel) (hfuel : s.limits.maxTrials ≤ s.count + fuel) :
    s.explore expired trial yielded (fuel + extra) k = s.explore expired trial yielded fuel k := by
  induction fuel generalizing s k with
  | zero =>
    have hstarted : s.started = true := hfirst.resolve_right (Nat.lt_irrefl 0)
    cases extra with
    | zero => rfl
    | succ extra => rw [Nat.zero_add, explore, explore, next_of_full hstarted hfuel]
  | succ fuel ih =>
    rw [Nat.succ_add, explore, explore]
    rcases hnext : s.next expired with ⟨_ | x, s'⟩
    · rfl
    · have hp := Proposes.of_next hnext
      have hleft : s'.limits.maxTrials ≤ s'.count + fuel := by
        rw [hp.limits, hp.count]
        omega
      dsimp only
      congr 1
      funext result
      -- to record a trial changes neither the count nor the limits
      rw [ih]
      · cases yielded result <;> exact .inl hp.started
      · cases yielded result <;> exact hleft

/-- **The bound on the steps is never met:** with more of them, a search does the same. -/
theorem explore_bound (s : SizeSearch σ) (expired : Bool) (trial : ℕ → ℕ → m β) (yielded : β → Option (ℕ × ℕ))
    (extra k : ℕ) :
    s.explore expired trial yielded (s.bound + extra) k = s.explore expired trial yielded s.bound k := by
  have hfuel : s.limits.maxTrials ≤ s.count + s.bound := by
    unfold bound
    omega
  exact explore_add expired trial yielded extra s.bound k (.inr (Nat.succ_pos _)) hfuel

end Explore

end SizeSearch
end Searcher

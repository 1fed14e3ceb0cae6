/-
# What a simulation promises

The trial that a simulation reports was one of many on one engine. Still it tells what the attack does on the chain as
it was pinned: replayed from there, an arbitrage gains the output of its trial and uses its gas, and the legs of a
sandwich use theirs and earn its revenue; and no other trial of the run was better. This holds whichever simulations the
guard has served before, and wherever they failed. When the guard is released, the engine stands in the world that was
pinned, and every snapshot that it took has been restored once (`Simulation.reproducible`).

Nothing depends on how a search strides from one amount to the next, so all of this is said for any stride.
-/

import Mathlib.Data.List.Basic
import Searcher.Proofs.Simulation.Traced

namespace Searcher
namespace Simulation

open Simulating (bind_eq_ok exists_of_ok)

variable {σ W : Type}

/-! ### Replays -/

/-- The victim and then an arbitrage: what the attacker holds of a token in between and at last, and the gas used. -/
def replayedArbitrage (e : Engine σ) (s : SimulationSettings) (victim : Transaction) (path : Path) (token : Address)
    (amount : Nat) : Simulating σ (Nat × Nat × Nat) := do
  let _ ← e.replay victim
  let before ← e.balanceOf s.attacker token
  let outcome ← attack e s .arbitrage amount path
  let after ← e.balanceOf s.attacker token
  return (before, after, outcome.gas)

/-- A front run, the victim and a back run: what the attacker holds of a token at first and at last, and the gas used by
its two calls. -/
def replayedSandwich (e : Engine σ) (s : SimulationSettings) (victim : Transaction) (path : Path) (token : Address)
    (frontAmount backAmount : Nat) : Simulating σ (Nat × Nat × Nat × Nat) := do
  let before ← e.balanceOf s.attacker token
  let front ← attack e s .frontRun frontAmount path
  let _ ← e.replay victim
  let back ← attack e s .backRun backAmount path
  let after ← e.balanceOf s.attacker token
  return (before, after, front.gas, back.gas)

section

variable {τ : Type} {R : {α : Type} → Simulating τ α → Simulating σ α → Prop} {e : Engine τ} {e' : Engine σ}
  (h : CallRelation R e e') (s : SimulationSettings) (victim : Transaction) (path : Path) (token : Address)
include h

/-- Replaying an arbitrage is a program over the calls of the engine. -/
theorem replayedArbitrage_related (amount : Nat) :
    R (replayedArbitrage e s victim path token amount) (replayedArbitrage e' s victim path token amount) :=
  h.bind (h.replay victim) fun _ => h.bind (h.balanceOf _ _) fun _ => h.bind (h.attack s path _ _) fun _ =>
    h.bind (h.balanceOf _ _) fun _ => h.pure _

/-- So is replaying a sandwich. -/
theorem replayedSandwich_related (frontAmount backAmount : Nat) :
    R (replayedSandwich e s victim path token frontAmount backAmount)
      (replayedSandwich e' s victim path token frontAmount backAmount) :=
  h.bind (h.balanceOf _ _) fun _ => h.bind (h.attack s path _ _) fun _ => h.bind (h.replay victim) fun _ =>
    h.bind (h.attack s path _ _) fun _ => h.bind (h.balanceOf _ _) fun _ => h.pure _

end

section

variable {v : EngineView σ W} {e : Engine σ} {w : W} {settings : SimulationSettings} {victim : Transaction}
  {path : Path}

/-- A trial of an arbitrage that earns something is replayed with the balances that it saw. -/
theorem arbitrageTrial_replayed (h : e.Faithful v) {token : Address} {base amount output gas : Nat}
    (hprobe : (probe v.machine settings victim path token w).1 = .ok base)
    (htrial : (arbitrageTrial v.machine settings victim path token base amount w).1 = .ok (output, gas))
    (hpos : output ≠ 0) :
    (replayedArbitrage v.machine settings victim path token amount w).1 = .ok (base, base + output, gas) := by
  -- the probe and the trial replay the victim alike, so the probe read the balance that the trial starts from
  obtain ⟨_, hprobe⟩ := exists_of_ok hprobe
  obtain ⟨_, htrial⟩ := exists_of_ok htrial
  obtain ⟨replayed, w₁, hvictim, hprobe⟩ := bind_eq_ok.1 hprobe
  obtain ⟨held, w₁', hbase, hprobe⟩ := bind_eq_ok.1 hprobe
  obtain ⟨_, _, _, hprobe⟩ := bind_eq_ok.1 hprobe
  obtain rfl : held = base := Except.ok.inj (congrArg Prod.fst hprobe)
  obtain rfl : w₁' = w₁ := (Reads.balanceOf h _ _).world_eq hbase
  obtain ⟨replayed', w₁'', hvictim', htrial⟩ := bind_eq_ok.1 htrial
  obtain rfl : w₁' = w₁'' := congrArg Prod.snd (hvictim.symm.trans hvictim')
  obtain ⟨outcome, w₂, hattack, htrial⟩ := bind_eq_ok.1 htrial
  obtain ⟨after, w₃, hafter, htrial⟩ := bind_eq_ok.1 htrial
  obtain ⟨hgain, rfl⟩ := Prod.mk.inj (Except.ok.inj (congrArg Prod.fst htrial))
  have hsum : after = held + output := by omega
  subst hsum
  have hreplay : replayedArbitrage v.machine settings victim path token amount w =
      (.ok (held, held + output, outcome.gas), w₃) := by
    refine bind_eq_ok.2 ⟨replayed, w₁', hvictim, ?_⟩
    refine bind_eq_ok.2 ⟨held, w₁', hbase, ?_⟩
    refine bind_eq_ok.2 ⟨outcome, w₂, hattack, ?_⟩
    exact bind_eq_ok.2 ⟨held + output, w₃, hafter, rfl⟩
  rw [hreplay]

/-- So is a trial of a sandwich, whose other reads leave the chain alone. -/
theorem sandwichTrial_replayed (h : e.Faithful v) {rates : List BalanceRate} {first last : Address} {base amount : Nat}
    {trial : SandwichTrial} (hbase : (v.machine.balanceOf settings.attacker first w).1 = .ok base)
    (htrial : (sandwichTrial v.machine settings victim path rates first last base amount w).1 = .ok trial)
    (hpos : trial.revenue ≠ 0) :
    (replayedSandwich v.machine settings victim path first trial.frontAmount trial.backAmount w).1 =
      .ok (base, base + trial.revenue, trial.frontGas, trial.backGas) := by
  -- the steps of the trial, of which only the two calls and the victim move the chain
  obtain ⟨wEnd, htrial⟩ := exists_of_ok htrial
  obtain ⟨heldBefore, w₁, hheldBefore, hrest₁⟩ := bind_eq_ok.1 htrial
  obtain ⟨poolsBefore, w₂, hpoolsBefore, hrest₂⟩ := bind_eq_ok.1 hrest₁
  obtain ⟨front, w₃, hfront, hrest₃⟩ := bind_eq_ok.1 hrest₂
  obtain ⟨_, w₄, hrates, hrest₄⟩ := bind_eq_ok.1 hrest₃
  obtain ⟨replayed, w₅, hvictim, hrest₅⟩ := bind_eq_ok.1 hrest₄
  obtain ⟨held, w₆, hheld, hrest₆⟩ := bind_eq_ok.1 hrest₅
  obtain ⟨back, w₇, hback, hrest₇⟩ := bind_eq_ok.1 hrest₆
  obtain ⟨after, w₈, hafter, hend⟩ := bind_eq_ok.1 hrest₇
  have hw₁ : w₁ = w := (Reads.balanceOf h _ _).world_eq hheldBefore
  have hw₂ : w₂ = w₁ := (Reads.poolBalances h _).world_eq hpoolsBefore
  have hw₄ : w₄ = w₃ := (Reads.checkRates h _ _ _).world_eq hrates
  have hw₆ : w₆ = w₅ := (Reads.balanceOf h _ _).world_eq hheld
  rw [hw₂, hw₁] at hfront
  rw [hw₄] at hvictim
  rw [hw₆] at hback
  obtain rfl := Except.ok.inj (congrArg Prod.fst hend)
  have hbase' : v.machine.balanceOf settings.attacker first w = (.ok base, w) :=
    Prod.ext hbase (Reads.balanceOf h _ _ w)
  have hsum : base + (after - base) = after := by
    change after - base ≠ 0 at hpos
    omega
  have hreplay : replayedSandwich v.machine settings victim path first amount
      (bought (first = last) amount heldBefore held) w = (.ok (base, after, front.gas, back.gas), w₈) := by
    refine bind_eq_ok.2 ⟨base, w, hbase', ?_⟩
    refine bind_eq_ok.2 ⟨front, w₃, hfront, ?_⟩
    refine bind_eq_ok.2 ⟨replayed, w₅, hvictim, ?_⟩
    refine bind_eq_ok.2 ⟨back, w₇, hback, ?_⟩
    exact bind_eq_ok.2 ⟨after, w₈, hafter, rfl⟩
  change (replayedSandwich v.machine settings victim path first amount
    (bought (first = last) amount heldBefore held) w).1 = .ok (base, base + (after - base), front.gas, back.gas)
  rw [hreplay, hsum]

end

/-! ### Reports -/

section

variable (v : EngineView σ W) (e : Engine σ) (w : W) (settings : SimulationSettings) (victim : Transaction)
  (path : Path)

/-- What the trial that an arbitrage reports tells of the world `w`. -/
structure ArbitrageReport (trials : List Trial) (trial : Trial) : Prop where
  /-- It is one of the trials that were made. -/
  isOne : trial ∈ trials
  /-- No other gained more. -/
  isMax : ∀ t ∈ trials, t.output ≤ trial.output
  /-- Replayed from the world it gains its output, and uses its gas. -/
  replayed : ∃ last before, path.tokens.getLast? = some last ∧ ∀ s, v.world s = w →
    (replayedArbitrage e settings victim path last trial.amount s).1 =
      .ok (before, before + trial.output, trial.gasUsed)

/-- What the trial that a sandwich reports tells of the world `w`. -/
structure SandwichReport (trials : List SandwichTrial) (trial : SandwichTrial) : Prop where
  /-- It is one of the trials that were made. -/
  isOne : trial ∈ trials
  /-- No other earned more. -/
  isMax : ∀ t ∈ trials, t.revenue ≤ trial.revenue
  /-- Replayed from the world it earns its revenue, and its legs use their gas. -/
  replayed : ∃ first before, path.tokens.head? = some first ∧ ∀ s, v.world s = w →
    (replayedSandwich e settings victim path first trial.frontAmount trial.backAmount s).1 =
      .ok (before, before + trial.revenue, trial.frontGas, trial.backGas)

end

/-- A result that is not the one put for a failure is no failure. -/
theorem ok_of_getD {α : Type} {r : Except SimulationError α} {a d : α} (h : a = r.toOption.getD d) (hne : a ≠ d) :
    r = .ok a := by
  cases r with
  | error cause => exact absurd h hne
  | ok b => exact congrArg Except.ok h.symm

/-- A search that ends with a trial ends with its best one, which pays something. -/
theorem finish_eq_some {τ : Type} {search : SizeSearch τ} {trial : Trial} (h : search.finish = some trial) :
    search.best = trial ∧ trial.output ≠ 0 := by
  unfold SizeSearch.finish at h
  split at h
  · cases h
  · rename_i hpos
    obtain rfl := Option.some.inj h
    exact ⟨rfl, hpos⟩

/-- Of a row of sandwiches the earliest of those with the largest revenue is kept. -/
theorem foldl_bestSandwich (best : SandwichTrial) (trials : List SandwichTrial) :
    let last := trials.foldl (fun best t => if best.revenue < t.revenue then t else best) best
    best.revenue ≤ last.revenue ∧ (∀ t ∈ trials, t.revenue ≤ last.revenue) ∧ (last = best ∨ last ∈ trials) := by
  induction trials generalizing best with
  | nil => exact ⟨Nat.le_refl _, (fun t ht => nomatch ht), .inl rfl⟩
  | cons t trials ih =>
    rw [List.foldl_cons]
    by_cases hbetter : best.revenue < t.revenue
    · rw [if_pos hbetter]
      obtain ⟨himproves, hmax, hone⟩ := ih t
      exact ⟨by omega, List.forall_mem_cons.2 ⟨himproves, hmax⟩, .inr (List.mem_cons.2 hone)⟩
    · rw [if_neg hbetter]
      obtain ⟨himproves, hmax, hone⟩ := ih best
      exact ⟨himproves, List.forall_mem_cons.2 ⟨by omega, hmax⟩, hone.imp_right (List.mem_cons_of_mem t)⟩

/-! ### Runs -/

section

variable {τ : Type} [Stride τ] {v : EngineView σ W} {e : Engine σ} {w : W}

/-- An arbitrage reports what its trial does to the world that is pinned. -/
theorem arbitrageTraced_keeps (h : e.Faithful v) (huntimed : e.Untimed) (stride : τ)
    (settings : SimulationSettings) (victim : Transaction) (path : Path) :
    Keeps v w (arbitrageTraced stride e.recorded settings victim path) fun run =>
      path.tokens.head? = path.tokens.getLast? → ∀ trial, run.2 = some trial →
        ArbitrageReport v e w settings victim path run.1 trial := by
  have hcalls := Tracks.callRelation h
  unfold arbitrageTraced
  cases hhead : path.tokens.head? with
  | none => exact .pure fun _ _ hnone => nomatch hnone
  | some first =>
    cases hlast : path.tokens.getLast? with
    | none => exact .pure fun _ _ hnone => nomatch hnone
    | some last =>
      refine .bind (.fresh h huntimed settings (hcalls.probe settings victim path first)) fun probed hprobed => ?_
      cases probed with
      | error cause => exact .pure fun _ _ hnone => nomatch hnone
      | ok base =>
        -- each trial is what the world makes of its amount
        have htrial (_ amount : Nat) := Keeps.fresh_getD (w := w) h huntimed settings
          (hcalls.arbitrageTrial settings victim path last base amount) (0, 0)
        refine .bind (.explore htrial _ _ _) fun ⟨tried, search⟩ hsearch => .pure ?_
        obtain ⟨htried, hbest⟩ := hsearch
        intro hcycle trial hfinish
        obtain rfl : first = last := Option.some.inj hcycle
        obtain ⟨rfl, hpos⟩ := finish_eq_some hfinish
        have hmem : search.best ∈ SizeSearch.recordedOf some tried := by
          rcases hbest.isOne with hstart | hmem
          · exact absurd (congrArg Trial.output hstart) hpos
          · exact hmem
        refine ⟨hmem, hbest.isMax, first, base, hlast, fun s hs => ?_⟩
        have hearned := ok_of_getD (htried _ (SizeSearch.mem_of_recorded hmem)) fun hzero =>
          hpos (congrArg Prod.fst hzero)
        rw [(replayedArbitrage_related hcalls settings victim path first _).result_eq
          (replayedArbitrage_related e.forgets_record settings victim path first _), hs]
        exact arbitrageTrial_replayed h hprobed.symm hearned hpos

/-- The trials of the search for a sandwich are what the pinned world makes of their amounts. -/
theorem searchSandwich_keeps (h : e.Faithful v) (huntimed : e.Untimed) (settings : SimulationSettings)
    (victim : Transaction) (path : Path) (rates : List BalanceRate) (first last : Address) (base : Nat)
    (search : SizeSearch τ) :
    Keeps v w (searchSandwich e.recorded settings victim path rates first last base search) fun trials =>
      ∀ t ∈ trials, ∃ amount, t =
        (sandwichTrial v.machine settings victim path rates first last base amount w).1.toOption.getD {} := by
  have hcalls := Tracks.callRelation h
  have htrial (_ amount : Nat) := Keeps.fresh_getD (w := w) h huntimed settings
    (hcalls.sandwichTrial settings victim path rates first last base amount) {}
  refine .bind (.explore htrial _ _ _) fun run hrun => .pure fun t ht => ?_
  obtain ⟨p, hp, rfl⟩ := List.mem_map.1 ht
  exact ⟨p.1, hrun.1 p hp⟩

/-- A sandwich reports what its trial does to the world that is pinned. -/
theorem sandwichTraced_keeps (h : e.Faithful v) (huntimed : e.Untimed) (stride : τ)
    (settings : SimulationSettings) (victim : Transaction) (path : Path) (amountIn : Nat) (rates : List BalanceRate) :
    Keeps v w (sandwichTraced stride e.recorded settings victim path amountIn rates) fun run =>
      ∀ trial, run.2 = some trial → SandwichReport v e w settings victim path run.1 trial := by
  have hcalls := Tracks.callRelation h
  unfold sandwichTraced
  cases hhead : path.tokens.head? with
  | none => exact .pure fun _ hnone => nomatch hnone
  | some first =>
    cases path.tokens.getLast? with
    | none => exact .pure fun _ hnone => nomatch hnone
    | some last =>
      cases path.pools.getLast? with
      | none => exact .pure fun _ hnone => nomatch hnone
      | some target =>
        dsimp only
        split
        · exact .pure fun _ hnone => nomatch hnone
        rw [← bind_assoc]
        refine .bind (.reset_ofEngine h (hcalls.balanceOf settings.attacker first)) fun base hbase => ?_
        refine .bind (searchSandwich_keeps h huntimed settings victim path rates first last base _)
          fun trials htrials => .pure fun trial hreported => ?_
        dsimp only at hreported ⊢
        split at hreported
        · cases hreported
        rename_i hpos
        obtain rfl := Option.some.inj hreported
        obtain ⟨-, hmax, hone⟩ := foldl_bestSandwich {} trials
        have hmem : bestSandwich trials ∈ trials :=
          hone.resolve_left fun hstart => hpos (congrArg SandwichTrial.revenue hstart)
        refine ⟨hmem, hmax, first, base, hhead, fun s hs => ?_⟩
        obtain ⟨amount, htrial⟩ := htrials _ hmem
        have hearned := ok_of_getD htrial fun hzero => hpos (congrArg SandwichTrial.revenue hzero)
        rw [(replayedSandwich_related hcalls settings victim path first _ _).result_eq
          (replayedSandwich_related e.forgets_record settings victim path first _ _), hs]
        exact sandwichTrial_replayed h hbase hearned hpos

/-- A session holds the world that it pins, whatever is asked for and whatever fails. -/
theorem session_held (h : e.Faithful v) (huntimed : e.Untimed) (s : σ) (jobs : List Job) :
    Held v (v.world s) (session e.recorded jobs ⟨(s, []), none⟩).2 := by
  have hjobs : Keeps v (v.world s) (jobs.forM (·.run e.recorded)) fun _ => True := by
    refine .forM (fun job => ?_) jobs
    cases job with
    | arbitrage settings victim path =>
      have hrun := (arbitrageTraced_keeps h huntimed (Pace.start SizeSearch.gamma) settings victim path
        (w := v.world s)).map Prod.snd
      rw [← arbitrageBy_eq] at hrun
      exact .bind hrun.attempt fun _ _ => .pure trivial
    | sandwich settings victim path amountIn rates =>
      have hrun := (sandwichTraced_keeps h huntimed (Pace.start SizeSearch.gamma) settings victim path amountIn rates
        (w := v.world s)).map Prod.snd
      rw [← sandwichBy_eq] at hrun
      exact .bind hrun.attempt fun _ _ => .pure trivial
  have hpin : Held v (v.world s) (Guarding.pin e.recorded ⟨(s, []), none⟩).2 := (Guarding.pin_held h [] rfl).1
  unfold session
  rw [Simulating.bind_apply]
  rcases hpinned : Guarding.pin e.recorded ⟨(s, []), none⟩ with ⟨cause | ⟨⟩, g⟩ <;> rw [hpinned] at hpin
  · exact hpin
  · exact (hjobs g hpin).1

/-- **A simulation tells what the attack does on the chain that was pinned, and leaves that chain.** On a faithful
engine without a time limit, after any session: the trial that an arbitrage along a cycle reports is one of those made,
no other gained more, and it gains its output and uses its gas when it is replayed from the world that was pinned. A
sandwich tells the same of its revenue and the gas of its legs. Both hold for a search by any stride, and so for one at
a pace (`arbitrage`, `sandwich`). When the guard is released, the engine stands in that world; on record the same run
shows the snapshots that were taken, each of them restored once, before the next one. -/
theorem reproducible (h : e.Faithful v) (huntimed : e.Untimed) {s : σ} {jobs : List Job}
    {r : Except SimulationError Unit} {g : GuardedFork σ} (hsession : session e jobs ⟨s, none⟩ = (r, g)) :
    (∀ (τ : Type) [Stride τ] (stride : τ) settings victim path trial g',
      path.tokens.head? = path.tokens.getLast? →
      arbitrageBy stride e settings victim path g = (.ok (some trial), g') →
        ∃ trials, arbitrageTraced stride e settings victim path g = (.ok (trials, some trial), g') ∧
          ArbitrageReport v e (v.world s) settings victim path trials trial) ∧
    (∀ (τ : Type) [Stride τ] (stride : τ) settings victim path amountIn rates trial g',
      sandwichBy stride e settings victim path amountIn rates g = (.ok (some trial), g') →
        ∃ trials, sandwichTraced stride e settings victim path amountIn rates g = (.ok (trials, some trial), g') ∧
          SandwichReport v e (v.world s) settings victim path trials trial) ∧
    ∃ s' g₁ ids, Guarding.release e g = (.ok (), ⟨s', none⟩) ∧ v.world s' = v.world s ∧
      session e.recorded jobs ⟨(s, []), none⟩ = (r, g₁) ∧
      Guarding.release e.recorded g₁ = (.ok (), ⟨(s', SnapshotEvent.closed ids), none⟩) := by
  -- the run on record, which ends in a guard that holds the world
  have hheld := session_held h huntimed s jobs
  have hforget : session e jobs ⟨s, none⟩ = _ := session_forgets huntimed jobs ⟨(s, []), none⟩
  rw [hsession] at hforget
  rcases hrecord : session e.recorded jobs ⟨(s, []), none⟩ with ⟨r₁, g₁⟩
  rw [hrecord] at hheld hforget
  obtain ⟨rfl, rfl⟩ := Prod.mk.inj hforget
  refine ⟨?_, ?_, ?_⟩
  · intro τ _ stride settings victim path trial g' hcycle hrun
    rw [arbitrageBy_eq] at hrun
    obtain ⟨⟨trials, best⟩, htraced, hbest⟩ := Simulating.map_eq_ok hrun
    obtain rfl : best = some trial := hbest
    refine ⟨trials, htraced, ?_⟩
    have hrecorded := arbitrageTraced_forgets huntimed stride settings victim path g₁
    rw [htraced] at hrecorded
    have hok := (Prod.mk.inj hrecorded).1.symm
    exact (arbitrageTraced_keeps h huntimed stride settings victim path g₁ hheld).2 _ hok hcycle trial rfl
  · intro τ _ stride settings victim path amountIn rates trial g' hrun
    rw [sandwichBy_eq] at hrun
    obtain ⟨⟨trials, best⟩, htraced, hbest⟩ := Simulating.map_eq_ok hrun
    obtain rfl : best = some trial := hbest
    refine ⟨trials, htraced, ?_⟩
    have hrecorded := sandwichTraced_forgets huntimed stride settings victim path amountIn rates g₁
    rw [htraced] at hrecorded
    have hok := (Prod.mk.inj hrecorded).1.symm
    exact (sandwichTraced_keeps h huntimed stride settings victim path amountIn rates g₁ hheld).2 _ hok trial rfl
  · obtain ⟨s', ids, hrelease, hworld⟩ := Guarding.release_held h hheld
    have hreleased := Guarding.release_forgets e g₁
    rw [hrelease] at hreleased
    exact ⟨s', g₁, ids, hreleased, hworld, rfl, hrelease⟩

end

end Simulation

/-! ### A purse -/

/-- The first of the arguments in call data that is not zero, as far as it is among the first two: the amount of an
attack. -/
def firstArgument (data : Bytes) : Nat :=
  let word (start : Nat) : Nat := ((data.slice? start 32).map Bytes.toNat).getD 0
  if word 4 = 0 then word 36 else word 4

/-- A chain whose state is what is in one purse, whatever the holder and the token. A call of the owner adds the amount
that it names and uses one gas for each of it, unless the amount is refused. Any other call adds two, and a static one
reads the purse. -/
def EngineView.purse (owner : Address) (refused : List Nat) : EngineView (Nat × List Nat) Nat where
  world := Prod.fst
  pinned s id := s.2[id]?
  run n c :=
    if c.isStatic then (.ok { output := Abi.wordBytes n }, n)
    else if c.caller = owner then
      let amount := firstArgument c.data
      if refused.contains amount then (.error (.reverted "refused"), n) else (.ok { gas := amount }, n + amount)
    else (.ok { gas := 21000 }, n + 2)

/-- The engine of such a chain, whose snapshots are numbered from zero. -/
def Engine.purse (owner : Address) (refused : List Nat) : Engine (Nat × List Nat) where
  fork _ _ _ := return ()
  snapshot := fun (n, pins) => (.ok pins.length, n, pins ++ [n])
  restore id := fun (n, pins) =>
    match pins[id]? with
    | some m => (.ok (), m, pins.take id)
    | none => (.error .notForked, n, pins)
  call c := fun (n, pins) =>
    let (r, n) := (EngineView.purse owner refused).run n c
    (r, n, pins)
  setCode _ _ := return ()
  blockNumber := return 0
  within _ x := x

/-- **The purse is faithful:** its calls change the balance alone, and its snapshots pin it. -/
theorem Engine.purse_faithful (owner : Address) (refused : List Nat) :
    (purse owner refused).Faithful (.purse owner refused) where
  call_result _ _ := rfl
  call_world _ _ := rfl
  call_pinned _ _ := rfl
  static_world c n h := by
    change (if c.isStatic then _ else _ : Except SimulationError CallOutcome × Nat).2 = n
    rw [if_pos h]
  snapshot_world _ := rfl
  snapshot_pinned := by
    rintro ⟨n, pins⟩ id hid
    obtain rfl := Except.ok.inj hid
    exact List.getElem?_concat_length
  restore_result := by
    rintro ⟨n, pins⟩ id m hpinned
    change pins[id]? = some m at hpinned
    simp only [purse, hpinned]
  restore_world := by
    rintro ⟨n, pins⟩ id m hpinned
    change pins[id]? = some m at hpinned
    simp only [EngineView.purse, purse, hpinned]

namespace Simulation

/-- A purse of twenty that refuses the amounts 11 and 28, after a session with a failed sandwich. An arbitrage doubles
its amount until it is refused, and gains fourteen at the second of its three trials. A sandwich is refused at its
first amount, begins again from less, and earns most at all that the purse holds. In the end the purse holds twenty
again. -/
theorem reproducible_purse :
    let settings : SimulationSettings := { attacker := .ofNat 1, owner := .ofNat 2 }
    let hurried : SimulationSettings := { settings with isExpired := true }
    let e := Engine.purse settings.owner [11, 28]
    let v := EngineView.purse settings.owner [11, 28]
    let pool : Address := .ofNat 10
    let victim : Transaction :=
      { hash := .ofNat 0, caller := .ofNat 3, receiver := some pool,
        swapEvents := [⟨.uniswapV2, pool, .ofNat 20, .ofNat 21, 1, 1⟩] }
    let cycle : Path :=
      { amountIn := 7, exchanges := [0, 0], pools := [pool, pool], tokens := [.ofNat 20, .ofNat 21, .ofNat 20] }
    let line : Path := { cycle with pools := [pool], tokens := [.ofNat 20, .ofNat 21] }
    let jobs : List Job := [.arbitrage hurried victim cycle, .sandwich hurried victim line 11 []]
    let g := (session e jobs ⟨(20, []), none⟩).2
    let doubling := SizeSearch.Doubling.right
    let gained : List Trial := [⟨7, 7, 7⟩, ⟨14, 14, 14⟩, ⟨28, 0, 0⟩]
    let earned : List SandwichTrial :=
      [{}, ⟨5, 7, 5, 7, 14⟩, ⟨10, 12, 10, 12, 24⟩, ⟨20, 22, 20, 22, 44⟩, ⟨20, 22, 20, 22, 44⟩]
    session e jobs ⟨(20, []), none⟩ = (.ok (), g) ∧
      (arbitrageTraced doubling e settings victim cycle g).1 = .ok (gained, some ⟨14, 14, 14⟩) ∧
      ArbitrageReport v e 20 settings victim cycle gained ⟨14, 14, 14⟩ ∧
      (sandwichTraced doubling e settings victim line 11 [] g).1 = .ok (earned, some ⟨20, 22, 20, 22, 44⟩) ∧
      SandwichReport v e 20 settings victim line earned ⟨20, 22, 20, 22, 44⟩ ∧
      ∃ s', Guarding.release e g = (.ok (), ⟨s', none⟩) ∧ v.world s' = 20 := by
  intro settings hurried e v pool victim cycle line jobs g doubling gained earned
  have hpinned : (session e jobs ⟨(20, []), none⟩).1 = .ok () := by decide +kernel
  have hgained : (arbitrageTraced doubling e settings victim cycle g).1 = .ok (gained, some ⟨14, 14, 14⟩) := by
    decide +kernel
  have hearned : (sandwichTraced doubling e settings victim line 11 [] g).1 =
      .ok (earned, some ⟨20, 22, 20, 22, 44⟩) := by decide +kernel
  have hbest : (arbitrageBy doubling e settings victim cycle g).1 = .ok (some ⟨14, 14, 14⟩) := by decide +kernel
  have hmost : (sandwichBy doubling e settings victim line 11 [] g).1 = .ok (some ⟨20, 22, 20, 22, 44⟩) := by
    decide +kernel
  have hsession : session e jobs ⟨(20, []), none⟩ = (.ok (), g) := Prod.ext hpinned rfl
  obtain ⟨g₁, harbitrage⟩ := Simulating.exists_of_ok hbest
  obtain ⟨g₂, hsandwich⟩ := Simulating.exists_of_ok hmost
  obtain ⟨hcycles, hlines, s', _, _, hrelease, hworld, _, _⟩ :=
    reproducible (Engine.purse_faithful settings.owner [11, 28]) (fun _ _ => rfl) hsession
  obtain ⟨trials, htraced, hreport⟩ := hcycles _ doubling settings victim cycle ⟨14, 14, 14⟩ g₁ rfl harbitrage
  obtain ⟨trials', htraced', hreport'⟩ :=
    hlines _ doubling settings victim line 11 [] ⟨20, 22, 20, 22, 44⟩ g₂ hsandwich
  -- the trials that are reported are those that were made
  have hsame := hgained
  rw [htraced] at hsame
  obtain rfl : trials = gained := congrArg Prod.fst (Except.ok.inj hsame)
  have hsame' := hearned
  rw [htraced'] at hsame'
  obtain rfl : trials' = earned := congrArg Prod.fst (Except.ok.inj hsame')
  exact ⟨hsession, hgained, hreport, hearned, hreport', s', hrelease, hworld⟩

end Simulation
end Searcher

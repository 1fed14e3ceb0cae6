/-
# Scripted engines

An engine whose chain is a table of balances. What a call does is written down in rules: the first rule that fits the
call applies. Time passes only where a rule sleeps.

Everything that is asked of the engine, but for balances, is put on a record.
-/

import Searcher.Checked
import Searcher.Simulation.Engine

namespace Searcher
namespace Script

/-- Balances by holder and token. An entry may be zero. -/
abbrev Balances := List ((Address × Address) × Nat)

namespace Balances

/-- The balance of an account in a token. -/
def balance (b : Balances) (holder token : Address) : Nat := (b.lookup (holder, token)).getD 0

/-- Sets a balance. -/
def set (b : Balances) (holder token : Address) (amount : Nat) : Balances :=
  if b.any (·.1 = (holder, token)) then b.map fun e => if e.1 = (holder, token) then (e.1, amount) else e
  else b ++ [((holder, token), amount)]

end Balances

/-- An amount that depends on the amount of a call. -/
inductive Amount where
  | const (c : Nat)
  /-- The fraction `n / d` of the amount. -/
  | linear (n d : Nat)
  /-- A parabola that is zero at no amount and at `c`. -/
  | hill (c : Nat)

/-- The value at an amount. -/
def Amount.eval (x : Nat) : Amount → Nat
  | const c => c
  | linear n d => saturate (x * n) / d
  | hill c => if x < c then wrap (x * (c - x)) / c else 0

/-- A change of one balance. -/
structure Effect where
  holder : Address
  token : Address
  adds : Bool
  amount : Amount

/-- A rule: to which calls it applies, and what it does. -/
structure Rule where
  name : String
  receiver : Option Address := none
  caller : Option Address := none
  selector : Option Bytes := none
  /-- The amount is larger. -/
  above : Option Nat := none
  /-- The account has a balance of no token, which is how rules leave marks. -/
  flag : Option Address := none
  noFlag : Option Address := none
  /-- The word of the arguments that is the amount. -/
  amountWord : Nat := 0
  revertReason : Option String := none
  engineFailure : Option String := none
  sleep : Nat := 0
  effects : List Effect := []
  gas : Nat := 0

/-- What is on the record. -/
inductive Entry where
  | call (name : String) (call : EngineCall) (amount : Nat)
  | unmatched (call : EngineCall)
  | fork (url : String) (block : Nat) (timestamp : Option Nat)
  | code (account : Address) (code : Bytes)

/-- A script with its state. -/
structure State where
  rules : List Rule := []
  /-- Tokens that return nothing when asked for a balance. -/
  badTokens : List Address := []
  /-- The returns to a snapshot that succeed; all do when absent. -/
  goodRestores : Option Nat := none
  balances : Balances := []
  snapshots : List Balances := []
  restores : Nat := 0
  /-- The time left of the budget that is set. -/
  budget : Option Nat := none
  entries : List Entry := []

/-- Puts something on record. -/
def note (entry : Entry) : Simulating State Unit := modify fun s => { s with entries := s.entries ++ [entry] }

/-- The holder whose balance a call asks for. -/
def balanceHolder? (data : Bytes) : Option Address :=
  if data.take 4 = Keccak.selector "balanceOf(address)" then (data.slice? 4 32).map fun w => .ofNat w.toNat else none

/-- The amount of a call: a word of its arguments, or zero where the data ends before. -/
def Rule.amountOf (r : Rule) (data : Bytes) : Nat := ((data.slice? (4 + 32 * r.amountWord) 32).map Bytes.toNat).getD 0

/-- Whether an account is marked. -/
def State.isMarked (s : State) (account : Address) : Bool := (s.balances.lookup (account, .zero)).isSome

/-- Whether a rule applies to a call. -/
def Rule.applies (r : Rule) (s : State) (c : EngineCall) : Bool :=
  r.receiver.all (· = c.receiver) ∧ r.caller.all (· = c.caller) ∧ r.selector.all (· = c.data.take 4) ∧
    r.above.all (· < r.amountOf c.data) ∧ r.flag.all s.isMarked ∧ r.noFlag.all fun a => ¬ s.isMarked a

/-- Lets time pass, up to the end of the budget. -/
def elapse (time : Nat) : Simulating State Unit := do
  match (← get).budget with
  | none => return
  | some left =>
    if left < time then throw .timeout
    modify fun s => { s with budget := some (left - time) }

/-- Makes a change. -/
def Effect.run (f : Effect) (x : Nat) : Simulating State Unit := do
  let held := (← get).balances.balance f.holder f.token
  let amount := f.amount.eval x
  if ¬ f.adds ∧ held < amount then throw (.reverted "balance")
  let held := if f.adds then saturate (held + amount) else held - amount
  modify fun s => { s with balances := s.balances.set f.holder f.token held }

/-- Runs a call by a rule that applies. -/
def Rule.run (r : Rule) (c : EngineCall) : Simulating State CallOutcome := do
  let x := r.amountOf c.data
  note (.call r.name c x)
  if let some reason := r.revertReason then throw (.reverted reason)
  if let some reason := r.engineFailure then throw (.engine reason)
  elapse r.sleep
  r.effects.forM fun f => f.run x
  return { gas := r.gas }

/-- Runs a call. -/
def call (c : EngineCall) : Simulating State CallOutcome := do
  let s ← get
  match balanceHolder? c.data with
  | some holder =>
    return { output :=
      if s.badTokens.contains c.receiver then [] else .ofNat 32 (s.balances.balance holder c.receiver) }
  | none =>
    match s.rules.find? fun r => r.applies s c with
    | some r => r.run c
    | none =>
      note (.unmatched c)
      throw (.reverted "unmatched call")

/-- Goes back to a snapshot. -/
def restore (id : Nat) : Simulating State Unit := do
  modify fun s => { s with restores := s.restores + 1 }
  let s ← get
  if s.goodRestores.any (· < s.restores) then throw (.engine "revert failed")
  match s.snapshots[id]? with
  | none => throw .notForked
  | some balances => set { s with balances, snapshots := s.snapshots.take id }

/-- Pins the balances under the number of snapshots so far. -/
def snapshot : Simulating State Nat := do
  let s ← get
  set { s with snapshots := s.snapshots ++ [s.balances] }
  return s.snapshots.length

/-- Runs a piece of work within a budget. -/
def within {α : Type} (budget : Nat) (x : Simulating State α) : Simulating State α := fun s =>
  let (r, s) := x { s with budget := some budget }
  (r, { s with budget := none })

/-- The engine that follows its script. -/
def engine : Engine State where
  fork url block timestamp := note (.fork url block timestamp)
  snapshot := snapshot
  restore := restore
  call := call
  setCode account code := note (.code account code)
  blockNumber := return 0
  within := within

end Script
end Searcher

/-
# Workers

A worker takes one victim after another. It loads the market around it, finds paths, simulates the attacks on a fork of
the chain until one earns enough, and submits that one as the gate decides, if the victim still waits for a block.

| attack | size | earns enough |
| --- | --- | --- |
| arbitrage | by formula, else by trial | a ten-thousandth of the native token |
| sandwich | by formula, else by trial | anything |

The formulas only serve paths of pairs; what they promise must cover the gas.

What fails ends the evaluation of the victim, but for paths: a path whose simulation fails, or whose revenue has no
price, is passed over. Tick words that were read are kept for later victims.
-/

import Searcher.CommandLine.Arguments
import Searcher.Node.KnownTransaction
import Searcher.Relay.Http
import Searcher.Relay.Submitter
import Searcher.Search.VictimMarket
import Searcher.Simulation.BalanceRate
import Searcher.Simulation.Sandwich
import Searcher.Solver.Sandwich

namespace Searcher

/-- Why the evaluation of a victim was ended. -/
inductive EvaluationError where
  | node (cause : NodeError)
  | reading (cause : ReadError)
  | fork (cause : SimulationError)
deriving DecidableEq

/-- What came of a victim. -/
inductive Evaluation where
  /-- No path can use the victim. -/
  | noPaths
  /-- No attack earns enough. -/
  | noAttack
  /-- The victim no longer waits. -/
  | gone
  | rejected (decision : Decision)
  /-- There is no key to sign with. -/
  | unsigned
  | submitted (result : Except SubmissionError String)

/-- A step of an evaluation, on the tick words that are kept and the services. -/
abbrev Evaluating (σ : Type) := ExceptT EvaluationError (StateM (TickCache × σ))

/-- A worker with its services. -/
structure Worker (σ : Type) where
  strategy : Strategy
  node : Node σ
  reader : ChainReader σ
  engine : Engine σ
  relay : Relay σ
  /-- The endpoint from which forks are made. -/
  endpoint : String
  wrapped : Address
  settings : SimulationSettings
  /-- The attacker's code, unless its contract is there. -/
  code : Option Bytes
  submitter : Option Submitter

namespace Worker

variable {σ : Type} {α ε : Type}

/-- The number of the chain. -/
def chainId (node : Node σ) : Asking σ Nat := node.ask "eth_chainId" [] (Json.number? 64)

/-- The key of a configuration, `some none` when it has none; a text that is no key has nothing. -/
def keyOf? (config : Config) : Option (Option SigningKey) :=
  match config.privateKey with
  | none => some none
  | some text => (SigningKey.ofHex? text).map some

/-- Who signs, `some none` when there is no key. Nothing when a worker cannot start: its key is none, or the node does
not tell the chain. -/
def signer? (config : Config) (node : Node σ) : StateM σ (Option (Option Submitter)) := do
  match keyOf? config with
  | none => return none
  | some none => return some none
  | some (some key) => return (← (chainId node).run).toOption.map fun id => some ⟨key, id⟩

/-- A worker of a configuration. Without a key, the attacker contract is called by the account that reads. -/
def ofConfig (config : Config) (strategy : Strategy) (code : Option Bytes) (node : Node σ) (engine : Engine σ)
    (relay : Relay σ) (submitter : Option Submitter) : Worker σ where
  strategy := strategy
  node := node
  reader := ⟨node, config.multicallChunk⟩
  engine := engine
  relay := relay
  endpoint := config.httpEndpoint
  wrapped := config.wrappedNative
  settings := ⟨config.attacker, (submitter.map (·.key.address)).getD Engine.reader, config.trialTimeout,
    config.pathTimeout = 0⟩
  code := code
  submitter := submitter

/-- A step of the services. -/
def onServices (fail : ε → EvaluationError) (x : ExceptT ε (StateM σ) α) : Evaluating σ α :=
  ExceptT.adapt fail (Part.second.runExcept x)

/-- The number of the latest block. -/
def latestBlock (w : Worker σ) : Evaluating σ Nat :=
  onServices .node (w.node.ask "eth_blockNumber" [] (Json.number? 64))

/-- Works on a fork at a block and releases it. -/
def onFork (w : Worker σ) (block : Nat) (x : Guarding σ α) : Evaluating σ α :=
  onServices .fork fun s =>
    match w.engine.prepare w.endpoint block none w.settings.attacker w.code w.wrapped s with
    | (.error e, s) => (.error e, s)
    | (.ok (), s) =>
      let guarded : Guarding σ α := do
        Guarding.pin w.engine
        let a ← x
        let _ ← Guarding.attempt (Guarding.release w.engine)
        return a
      let (r, g) := guarded ⟨s, none⟩
      (r, g.engine)

/-- The value of an amount of a token in the native one, where it has a price. -/
def valueOf (w : Worker σ) (amount : Nat) (token : Address) (block : Nat) : Guarding σ (Option Nat) := fun g =>
  let (r, s) := w.reader.tokenValue amount token w.wrapped (some block) g.engine
  (.ok r.toOption, { g with engine := s })

/-- An attack that earns enough: its path, its trial and its revenue in the native token. -/
structure Found (τ : Type) where
  path : Path
  trial : τ
  revenue : Nat

/-- A path with the size of an opportunity, if it covers the gas. -/
def sized (path : Path) (o : Opportunity) : Option Path :=
  if Opportunity.passesGasFloor o.revenue then some { path with amountIn := o.amountIn } else none

/-- What a simulated arbitrage has to earn. -/
def leastRevenue : Nat := 10 ^ 14

/-- Tries the arbitrage along a path. -/
def tryArbitrage (w : Worker σ) (m : VictimMarket) (events : List SwapEvent) (victim : Transaction) (block : Nat)
    (path : Path) : Guarding σ (Option (Found Trial)) := do
  let path? := if path.isConstantProduct then sized path (.arbitrage path m.market events) else some path
  let some path := path? | return none
  let some last := path.tokens.getLast? | return none
  match ← Guarding.attempt (Simulation.arbitrage w.engine w.settings victim path) with
  | .ok (some trial) =>
    if trial.output < leastRevenue then return none
    return (← w.valueOf trial.output last block).map (⟨path, trial, ·⟩)
  | _ => return none

/-- The part of the victim's least output that a formula leaves it, in ten-thousandths. -/
def slippage : Nat := 100

/-- A path of a sandwich with its size by formula, if it covers the gas. -/
def sizedSandwich (m : VictimMarket) (victim : Transaction) (path : Path) : Option Path := do
  let target ← path.pools.getLast?
  let event ← victim.swapEvents.find? (·.pool = target)
  sized path (Sandwich.solve path m.market event slippage)

/-- Tries the sandwich along a path. -/
def trySandwich (w : Worker σ) (m : VictimMarket) (victim : Transaction) (block : Nat) (path : Path) :
    Guarding σ (Option (Found SandwichTrial)) := do
  let path? := if path.isConstantProduct then sizedSandwich m victim path else some path
  let some path := path? | return none
  let some first := path.tokens.head? | return none
  let rates := BalanceRate.ofPath m.index path
  match ← Guarding.attempt (Simulation.sandwich w.engine w.settings victim path path.amountIn rates) with
  | .ok (some trial) =>
    if trial.revenue = 0 then return none
    return (← w.valueOf trial.revenue first block).map (⟨path, trial, ·⟩)
  | _ => return none

/-- Whether the victim still waits for a block. -/
def stillPending (w : Worker σ) (victim : Transaction) : Evaluating σ Bool :=
  onServices .node do
    match ← w.node.request "eth_getTransactionByHash" [.ofWord victim.hash] with
    | .null => return false
    | tx =>
      if (KnownTransaction.read? tx).isNone then throw .unreadable
      return ((tx.get? "blockNumber").getD .null).isNull

/-- Submits what is planned, if there is who signs it. -/
def hand (w : Worker σ) (submit : Submitter → Submitting σ String) : Evaluating σ Evaluation :=
  match w.submitter with
  | none => return .unsigned
  | some s => do return .submitted (← ExceptT.lift (Part.second.run (submit s).run))

/-- Plans an arbitrage that was found and submits it as the gate decides. -/
def sendArbitrage (w : Worker σ) (victim : Transaction) (next : NextBlock) (f : Found Trial) :
    Evaluating σ Evaluation := do
  let decision := Gate.arbitrage f.revenue f.trial.gasUsed victim next
  let some function := decision.arbitrageFunction | return .rejected decision
  let attack := Arbitrage.make f.path f.trial.amount f.revenue f.trial.gasUsed function
  let some tx := Plan.arbitrage attack w.settings.attacker decision | return .rejected decision
  w.hand fun s => s.arbitrage w.node w.relay victim tx decision

/-- Plans a sandwich that was found and submits it as the gate decides. -/
def sendSandwich (w : Worker σ) (victim : Transaction) (next : NextBlock) (f : Found SandwichTrial) :
    Evaluating σ Evaluation := do
  let decision := Gate.sandwich f.revenue f.trial.frontGas f.trial.backGas victim next
  let attack := SandwichAttack.make f.path f.trial f.revenue .frontRun .backRunRelayed
  let some (front, back) := Plan.sandwich attack w.settings.attacker decision | return .rejected decision
  w.hand fun s => s.sandwich w.node w.relay victim front back decision

/-- Sends an attack that was found, if the victim still waits. -/
def finish {τ : Type} (w : Worker σ) (victim : Transaction) (send : Found τ → Evaluating σ Evaluation) :
    Option (Found τ) → Evaluating σ Evaluation
  | none => return .noAttack
  | some f => do if ← w.stillPending victim then send f else return .gone

/-- The paths that pay. -/
def screen (w : Worker σ) (m : VictimMarket) (paths : List Path) (block : Nat) : Evaluating σ (List Path) :=
  ExceptT.lift (m.screen w.reader paths block)

/-- Looks for an arbitrage behind a victim. -/
def arbitrage (w : Worker σ) (victim : Transaction) (next : NextBlock) : Evaluating σ Evaluation := do
  let block ← w.latestBlock
  let pairs := PathFinder.arbitragePairs victim.swapEvents w.wrapped
  let m ← onServices .reading (VictimMarket.load w.reader victim.swapEvents pairs block)
  let events := m.resolve victim.swapEvents
  let paths := PathFinder.arbitrages events m.index w.wrapped
  if paths.isEmpty then return .noPaths
  let paths ← w.screen m paths block
  let found ← w.onFork block (paths.findSomeM? (w.tryArbitrage m events victim block))
  w.finish victim (w.sendArbitrage victim next) found

/-- Looks for a sandwich around a victim. -/
def sandwich (w : Worker σ) (victim : Transaction) (next : NextBlock) : Evaluating σ Evaluation := do
  let block ← w.latestBlock
  let pairs := PathFinder.sandwichPairs victim.swapEvents w.wrapped
  let m ← onServices .reading (VictimMarket.load w.reader victim.swapEvents pairs block)
  let paths := PathFinder.sandwiches (m.resolve victim.swapEvents) m.index w.wrapped
  if paths.isEmpty then return .noPaths
  let paths ← w.screen m paths block
  let m ← onServices .reading (m.addReferencePools w.reader paths block)
  let found ← w.onFork block (paths.findSomeM? (w.trySandwich m victim block))
  w.finish victim (w.sendSandwich victim next) found

/-- Looks for an attack on a victim. -/
def evaluate (w : Worker σ) (victim : Transaction) (next : NextBlock) : Evaluating σ Evaluation :=
  match w.strategy with
  | .arbitrage => w.arbitrage victim next
  | .sandwich => w.sandwich victim next

/-- Looks for attacks on victims, one after another. -/
def work (w : Worker σ) (next : NextBlock) (victims : List Transaction) :
    StateM (TickCache × σ) (List (Except EvaluationError Evaluation)) :=
  victims.mapM fun victim => (w.evaluate victim next).run

/-- Starts a worker of a configuration, which looks for attacks on victims. A worker that cannot start does nothing. -/
def search (config : Config) (strategy : Strategy) (code : Option Bytes) (node : Node σ) (engine : Engine σ)
    (transport : Transport σ) (next : NextBlock) (victims : List Transaction) :
    StateM σ (List (Except EvaluationError Evaluation)) := do
  match ← signer? config node with
  | none => return []
  | some submitter =>
    let relay := HttpRelay.toRelay ⟨transport, config.relayAuthorization⟩
    let w := ofConfig config strategy code node engine relay submitter
    let (evaluations, _, s) := w.work next victims (.empty config.tickCacheCapacity, ← get)
    set s
    return evaluations

end Worker
end Searcher

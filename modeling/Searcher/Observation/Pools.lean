/-
# Loading pools

A chain reader asks a node for the state of pools, all of them at one block, and puts together those whose values were
all told. A pool is named with the exchange it is thought to stand on; its factory may know better, as long as the
pools of the factory's exchange are asked the same.

A refresh replaces the states of pools and nothing else. A pool whose values were not all told keeps its state.
-/

import Searcher.Observation.Concentrated
import Searcher.Observation.Curve
import Searcher.Observation.Pair

namespace Searcher

/-- A pool by its address and the exchange it is thought to stand on. -/
structure PoolSpec where
  pool : Address
  exchange : Exchange
deriving DecidableEq, Inhabited

namespace PoolSpec

/-- What is asked about a pool; nothing about a Curve pool that is not known. -/
def questions (spec : PoolSpec) : List Question :=
  match spec.exchange.family with
  | .constantProduct => Pair.questions spec.pool spec.exchange
  | .concentrated => Concentrated.questions spec.pool spec.exchange
  | _ => ((Curve.lookup spec.pool).map Curve.questions).getD []

/-- Whether pools of two exchanges are asked the same. -/
def asksAlike (a b : Exchange) : Bool :=
  a.family = b.family ∧ (a = .thenaFusion ↔ b = .thenaFusion)

/-- The exchange of a pool: that of its factory, if it is known and its pools are asked the same. -/
def exchangeFrom (spec : PoolSpec) (o : Observed) : Exchange :=
  match (o.address? spec.pool .factory).bind Factory.atAddress? with
  | some f => if asksAlike f.exchange spec.exchange then f.exchange else spec.exchange
  | none => spec.exchange

/-- The tokens and the state of a pool of an exchange at a block. -/
def contents? (o : Observed) (pool : Address) (exchange : Exchange) (block timestamp : Nat) :
    Option (List Address × PoolState) := do
  match exchange.family with
  | .constantProduct => return (← o.tokens? pool, ← Pair.state? o pool exchange)
  | .concentrated => return (← o.tokens? pool, ← Concentrated.state? o pool exchange)
  | _ =>
    let info ← Curve.lookup pool
    return (← Curve.tokens? o info, ← Curve.state? o info block timestamp)

/-- The pool, if all its values were told. -/
def assemble? (spec : PoolSpec) (o : Observed) (block timestamp : Nat) : Option Pool := do
  let exchange := spec.exchangeFrom o
  let (tokens, state) ← contents? o spec.pool exchange block timestamp
  (Pool.make spec.pool exchange tokens state).toOption

end PoolSpec

/-- The specification under which a pool is loaded again. -/
def Pool.spec (pool : Pool) : PoolSpec := ⟨pool.address, pool.exchange⟩

/-- The pool with the state of another one. -/
def Pool.withStateOf (pool fresh : Pool) : Pool := { pool with state := fresh.state }

/-- The pool with the state of the last one at its address among some others, if there is one. -/
def Pool.renewed (pool : Pool) (fresh : List Pool) : Pool :=
  match fresh.reverse.find? (·.address = pool.address) with
  | some p => pool.withStateOf p
  | none => pool

/-- A reader of the chain through a node, which puts at most `partSize` reads into one question. -/
structure ChainReader (σ : Type) where
  node : Node σ
  partSize : Nat

/-- The contract that answers many reads at once. It also tells the number and the time of the block. -/
def multicall : Address := .ofNat 0xcA11bde05977b3631167028862bE2a173976CA11

namespace ChainReader

variable {σ : Type}

/-- What is observed by questions at a block. -/
def observe (reader : ChainReader σ) (questions : List Question) (block : Option Nat) : Reading σ Observed :=
  Batch.run reader.node reader.partSize block questions

/-- What is asked about the block itself. -/
def blockQuestions : List Question :=
  [.ask multicall .timestamp "getCurrentBlockTimestamp()", .ask multicall .blockNumber "getBlockNumber()"]

/-- Loads the pools that can be put together, in order. -/
def loadPools (reader : ChainReader σ) (specs : List PoolSpec) (block : Option Nat) : Reading σ (List Pool) := do
  let o ← reader.observe (blockQuestions ++ specs.flatMap PoolSpec.questions) block
  let timestamp := (o.count? multicall .timestamp).getD 0
  let number := ((o.count? multicall .blockNumber).or block).getD 0
  return specs.filterMap (·.assemble? o number timestamp)

/-- Loads the states of pools again, in place. -/
def refreshInPlace (reader : ChainReader σ) (block : Option Nat) : Updating (List Pool) σ Unit := do
  let specs := (← get).1.map Pool.spec
  let fresh ← (reader.loadPools specs block).beside (List Pool)
  modify fun (pools, s) => (pools.map (·.renewed fresh), s)

/-- Pools with the states that they have now. -/
def refresh (reader : ChainReader σ) (pools : List Pool) (block : Option Nat) : Reading σ (List Pool) := do
  return (← (reader.refreshInPlace block).on pools).1

end ChainReader
end Searcher

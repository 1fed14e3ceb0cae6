/-
# Refreshing pools

A refresh asks all questions about some pools again and puts each pool together anew. What it takes from the new pool is
the state alone (`Pool.Refreshed`): the factory of a pool may have put the new one on another exchange, but never on one
of another family, so the state fits the exchange that the pool is kept on.

A pool is found again by its address. If the addresses differ, what is found is what was put together for the pool
itself (`find?_reloaded`). A refresh whose questions all fail leaves the pools as they are.
-/

import Mathlib.Data.List.Forall2
import Mathlib.Data.List.Nodup
import Searcher.Proofs.Observation.Listings
import Searcher.Proofs.Observation.Loading

namespace Searcher

variable {σ : Type} {reader : ChainReader σ} {block : Option Nat} {o : Observed} {pools : List Pool} {pool : Pool}

/-- The pool as it is put together from what was observed of it and of the block. -/
def PoolSpec.loaded? (spec : PoolSpec) (o : Observed) (block : Option Nat) : Option Pool :=
  spec.assemble? o (((o.count? multicall .blockNumber).or block).getD 0) ((o.count? multicall .timestamp).getD 0)

/-- A pool before and after a refresh that has put it together as `fresh`, if its values were all told. It has kept what
it is, and its state, which fits its exchange, is that of `fresh`, or the old one where there is none. -/
structure Pool.Refreshed (fresh : Option Pool) (old new : Pool) : Prop where
  address : new.address = old.address
  exchange : new.exchange = old.exchange
  tokens : new.tokens = old.tokens
  family : new.exchange.family = new.state.family
  kept : fresh = none → new.state = old.state
  replaced : ∀ p, fresh = some p → new.state = p.state

namespace Pool.Refreshed

variable {fresh old new : Pool}

/-- A refresh is what it says, and nothing else. -/
theorem eq_withStateOf (h : Refreshed (some fresh) old new) : new = old.withStateOf fresh := by
  obtain ⟨haddress, hexchange, htokens, -, -, hstate⟩ := h
  rw [withStateOf, ← haddress, ← hexchange, ← htokens, ← hstate fresh rfl]

/-- Where nothing is put together the pool is as it was. -/
theorem eq_self (h : Refreshed none old new) : new = old := by
  obtain ⟨haddress, hexchange, htokens, -, hstate, -⟩ := h
  rcases old with ⟨address, exchange, tokens, state⟩
  rcases new with ⟨address', exchange', tokens', state'⟩
  obtain rfl : state' = state := hstate rfl
  obtain rfl : address' = address := haddress
  obtain rfl : exchange' = exchange := hexchange
  obtain rfl : tokens' = tokens := htokens
  rfl

end Pool.Refreshed

namespace ChainReader

/-- Where the chain is observed, the pools that it tells are loaded. -/
theorem loadPools_of_ok {specs : List PoolSpec} {s : σ} (h : (reader.observe (Chain.asked specs) block s).1 = .ok o) :
    (reader.loadPools specs block s).1 = .ok (specs.filterMap (·.loaded? o block)) := by
  unfold loadPools
  rw [← Chain.asked, Reading.bind_apply_of_ok h]
  rfl

/-- Where it is not, the error is that of the reads. -/
theorem loadPools_of_error {specs : List PoolSpec} {s : σ} {e : ReadError}
    (h : (reader.observe (Chain.asked specs) block s).1 = .error e) :
    (reader.loadPools specs block s).1 = .error e := by
  unfold loadPools
  rw [← Chain.asked, Reading.bind_apply_of_error h]

/-- What is put together for a pool is found again at its address. -/
theorem find?_reloaded (distinct : (pools.map (·.address)).Nodup) (hpool : pool ∈ pools) (o : Observed)
    (block : Option Nat) :
    (((pools.map Pool.spec).filterMap (·.loaded? o block)).reverse.find? (·.address = pool.address)) =
      pool.spec.loaded? o block := by
  -- whatever was put together at the address of the pool was put together for it
  have hown : ∀ p ∈ (pools.map Pool.spec).filterMap (·.loaded? o block), p.address = pool.address →
      pool.spec.loaded? o block = some p := by
    intro p hp haddress
    obtain ⟨spec, hspec, hloaded⟩ := List.mem_filterMap.1 hp
    obtain ⟨other, hother, rfl⟩ := List.mem_map.1 hspec
    obtain ⟨hsame, -⟩ := PoolSpec.assemble?_eq_some hloaded
    have hother : other = pool := List.inj_on_of_nodup_map distinct hother hpool (hsame.symm.trans haddress)
    rw [← hother]
    exact hloaded
  rcases hfound : ((pools.map Pool.spec).filterMap (·.loaded? o block)).reverse.find? (·.address = pool.address) with
    _ | p
  · rcases hloaded : pool.spec.loaded? o block with _ | p
    · exact hfound
    · have hp : p ∈ ((pools.map Pool.spec).filterMap (·.loaded? o block)).reverse :=
        List.mem_reverse.2 (List.mem_filterMap.2 ⟨pool.spec, List.mem_map_of_mem hpool, hloaded⟩)
      obtain ⟨haddress, -⟩ := PoolSpec.assemble?_eq_some hloaded
      exact absurd (decide_eq_true haddress) (List.find?_eq_none.1 hfound p hp)
  · have hp := List.mem_reverse.1 (List.mem_of_find?_eq_some hfound)
    have haddress : p.address = pool.address := by simpa using List.find?_some hfound
    rw [hown p hp haddress, hfound]

end ChainReader

/-- What a refresh makes of a pool: the pool with the state of the one that was put together, if there is one. -/
theorem Pool.refreshed_getD (hfamily : pool.exchange.family = pool.state.family) (o : Observed) (block : Option Nat) :
    Refreshed (pool.spec.loaded? o block) pool (((pool.spec.loaded? o block).map pool.withStateOf).getD pool) := by
  rcases hloaded : pool.spec.loaded? o block with _ | fresh
  · exact {
      address := rfl
      exchange := rfl
      tokens := rfl
      family := hfamily
      kept := fun _ => rfl
      replaced := fun p hp => by cases hp }
  · -- the factory may have put the new pool on another exchange, of the same family
    obtain ⟨-, -, hstate, -⟩ := PoolSpec.assemble?_eq_some hloaded
    exact {
      address := rfl
      exchange := rfl
      tokens := rfl
      family := hstate.symm
      kept := fun hnone => by cases hnone
      replaced := fun p hp => by cases hp; rfl }

namespace ChainReader

/-- A refresh asks for the pools as they are, and then renews each of them. -/
theorem refreshInPlace_apply (reader : ChainReader σ) (block : Option Nat) (pools : List Pool) (s : σ) :
    reader.refreshInPlace block (pools, s) =
      ((reader.loadPools (pools.map Pool.spec) block).beside (List Pool) >>= fun fresh =>
        modify fun (pools, s) => (pools.map (·.renewed fresh), s)) (pools, s) := rfl

/-- What a refresh makes of pools with different addresses. -/
theorem refreshInPlace_of_ok (distinct : (pools.map (·.address)).Nodup) {s : σ}
    (h : (reader.observe (Chain.asked (pools.map Pool.spec)) block s).1 = .ok o) :
    reader.refreshInPlace block (pools, s) =
      (.ok (), pools.map fun pool => ((pool.spec.loaded? o block).map pool.withStateOf).getD pool,
        (reader.loadPools (pools.map Pool.spec) block s).2) := by
  have hrenewed : pools.map (·.renewed ((pools.map Pool.spec).filterMap (·.loaded? o block))) =
      pools.map fun pool => ((pool.spec.loaded? o block).map pool.withStateOf).getD pool := by
    refine List.map_congr_left fun pool hpool => ?_
    rw [Pool.renewed, find?_reloaded distinct hpool]
    cases pool.spec.loaded? o block <;> rfl
  rw [refreshInPlace_apply, Reading.beside_bind_of_ok (loadPools_of_ok h), ← hrenewed]
  rfl

/-- **A refresh that fails leaves all pools as they were**, with the error of the reads. -/
theorem refreshInPlace_of_error {s : σ} {e : ReadError}
    (h : (reader.observe (Chain.asked (pools.map Pool.spec)) block s).1 = .error e) :
    reader.refreshInPlace block (pools, s) = (.error e, pools, (reader.loadPools (pools.map Pool.spec) block s).2) := by
  rw [refreshInPlace_apply, Reading.beside_bind_of_error (loadPools_of_error h)]

/-- **A refresh replaces states and nothing else.** Let the pools have different addresses and states of the families of
their exchanges. If the questions about them fail, so does the refresh, and the pools are as they were. Otherwise each
pool is where it was, with its address, its exchange, its tokens and a state of its exchange's family. This state is the
one that the pool is put together with by what was observed, or exactly the old one if it cannot be put together. -/
theorem refreshInPlace_keeps (reader : ChainReader σ) (block : Option Nat)
    (distinct : (pools.map (·.address)).Nodup) (fits : ∀ pool ∈ pools, pool.exchange.family = pool.state.family)
    (s : σ) :
    let observed := (reader.observe (Chain.asked (pools.map Pool.spec)) block s).1
    let result := reader.refreshInPlace block (pools, s)
    (∀ e, observed = .error e → result.1 = .error e ∧ result.2.1 = pools) ∧
      ∀ o, observed = .ok o → result.1 = .ok () ∧
        List.Forall₂ (fun old new => Pool.Refreshed (old.spec.loaded? o block) old new) pools result.2.1 := by
  intro observed result
  constructor
  · intro e herror
    rw [show result = _ from refreshInPlace_of_error herror]
    exact ⟨rfl, rfl⟩
  · intro o hok
    rw [show result = _ from refreshInPlace_of_ok distinct hok]
    refine ⟨rfl, ?_⟩
    rw [List.forall₂_map_right_iff, List.forall₂_same]
    intro pool hpool
    exact Pool.refreshed_getD (fits pool hpool) o block

end ChainReader

/-- A chain of pairs of a factory with a fixed fee, of which the second rolls all calls back. -/
def Chain.onePair : Chain := fun r =>
  if r.target = .ofNat 2 then none else Chain.pairsOf Factory.pancakeswapV2.address r

/-- A pair that is thought to stand on an exchange whose factory tells fees. -/
def Pool.misplaced (n reserve : Nat) : Pool :=
  ⟨.ofNat n, .mdex, [.ofNat 8, .ofNat 9], .constantProduct reserve reserve ⟨1000, 3⟩⟩

/-- Two pairs are refreshed, of which one tells nothing. The other one is found on the exchange of its factory, and
takes over its new state where it stands. -/
theorem ChainReader.refreshInPlace_keeps_onePair :
    let reader : ChainReader Unit := ⟨.ofChain .onePair, 3⟩
    let pools : List Pool := [.misplaced 1 5, .misplaced 2 6]
    let result := reader.refreshInPlace none (pools, ())
    (pools.map (·.address)).Nodup ∧ (∀ pool ∈ pools, pool.exchange.family = pool.state.family) ∧ result.1 = .ok () ∧
      result.2.1 = [(Pool.misplaced 1 5).withStateOf (.ofPairs .pancakeswapV2 1 ⟨10000, 25⟩), .misplaced 2 6] := by
  intro reader pools result
  have distinct : ([Pool.misplaced 1 5, .misplaced 2 6].map (·.address)).Nodup := by decide
  have fits : ∀ pool ∈ [Pool.misplaced 1 5, .misplaced 2 6], pool.exchange.family = pool.state.family := by decide
  let observed := Chain.observed .onePair (pools.map Pool.spec)
  have htold : (reader.observe (Chain.asked (pools.map Pool.spec)) none ()).1 = .ok observed :=
    Batch.run_tells (Node.ofChain_tells .onePair none) 3 _ ()
  have hfirst : (Pool.misplaced 1 5).spec.loaded? (Chain.observed .onePair (pools.map Pool.spec)) none =
      some (.ofPairs .pancakeswapV2 1 ⟨10000, 25⟩) := by decide +kernel
  have hsecond : (Pool.misplaced 2 6).spec.loaded? (Chain.observed .onePair (pools.map Pool.spec)) none = none := by
    decide +kernel
  obtain ⟨-, hrefreshed⟩ := refreshInPlace_keeps reader none distinct fits ()
  obtain ⟨hdone, hnew⟩ := hrefreshed observed htold
  obtain ⟨new, rest, hnew, hrest, heq⟩ := List.forall₂_cons_left_iff.1 hnew
  obtain ⟨new', rest', hnew', hrest', rfl⟩ := List.forall₂_cons_left_iff.1 hrest
  obtain rfl := List.forall₂_nil_left_iff.1 hrest'
  rw [hfirst] at hnew
  rw [hsecond] at hnew'
  exact ⟨distinct, fits, hdone, by rw [heq, hnew.eq_withStateOf, hnew'.eq_self]⟩

end Searcher

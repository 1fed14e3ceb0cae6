/-
# Paths

A path is a row of hops: hop `i` trades `tokens[i]` for `tokens[i + 1]` at `pools[i]`, which stands on the exchange
with the number `exchanges[i]`. The attacker contract takes the three lists as they are, so a path may be ill-formed;
`isValid` tells.
-/

import Searcher.Exchange
import Searcher.Address

namespace Searcher

/-- A row of hops. -/
structure Path where
  amountIn : Nat := 0
  exchanges : List Nat := []
  pools : List Address := []
  tokens : List Address := []
deriving DecidableEq, Inhabited

/-- One hop of a path. Its exchange may be unknown. -/
structure Leg where
  exchange : Option Exchange
  pool : Address
  tokenIn : Address
  tokenOut : Address
deriving DecidableEq

namespace Path

/-- The path over pools on known exchanges. -/
def ofHops (amountIn : Nat) (hops : List (Exchange × Address)) (tokens : List Address) : Path :=
  ⟨amountIn, hops.map (·.1.id), hops.map (·.2), tokens⟩

/-- The number of hops. -/
def length (p : Path) : Nat := p.pools.length

/-- Whether it ends at the token it starts from. -/
def isCycle (p : Path) : Bool := 1 < p.tokens.length ∧ p.tokens.head? = p.tokens.getLast?

/-- Whether the tokens at both ends of every hop differ. -/
def changesTokens (tokens : List Address) : Bool := (tokens.zip tokens.tail).all fun (a, b) => a ≠ b

/-- Whether the lists fit each other, every hop changes the token, and every exchange is known. -/
def isValid (p : Path) : Bool :=
  ¬ p.pools.isEmpty ∧ p.exchanges.length = p.pools.length ∧ p.tokens.length = p.pools.length + 1 ∧
    changesTokens p.tokens ∧ p.exchanges.all fun id => (Exchange.ofId? id).isSome

/-- The exchanges that are known. -/
def knownExchanges (p : Path) : List Exchange := p.exchanges.filterMap Exchange.ofId?

/-- Whether every hop is at a pair of reserves. -/
def isConstantProduct (p : Path) : Bool :=
  p.exchanges.length = p.length ∧ p.exchanges.all fun id => (Exchange.ofId? id).any Exchange.isConstantProduct

/-- The exchange of hop `i`, if it is known. -/
def exchangeAt (p : Path) (i : Nat) : Option Exchange := p.exchanges[i]?.bind Exchange.ofId?

/-- The hops that have both tokens. -/
def legs (p : Path) : List Leg :=
  p.pools.zipIdx.filterMap fun (pool, i) =>
    match p.tokens[i]?, p.tokens[i + 1]? with
    | some a, some b => some ⟨p.exchangeAt i, pool, a, b⟩
    | _, _ => none

/-- Hop `i` for people. -/
def renderHop (p : Path) (pool : Address) (i : Nat) : String :=
  let name := ((p.exchangeAt i).map Exchange.name).getD "?"
  let tokens := match p.tokens[i]?, p.tokens[i + 1]? with
    | some a, some b => " (" ++ a.checksummed ++ " -> " ++ b.checksummed ++ ")"
    | _, _ => ""
  "[" ++ name ++ "] " ++ pool.checksummed ++ tokens

/-- The path for people. -/
def render (p : Path) : String :=
  String.intercalate " | " (p.pools.zipIdx.map fun (pool, i) => p.renderHop pool i)

end Path
end Searcher

/-
# The pool index

Tokens are joined by the pools that trade them: a pool links every two of its tokens. The index answers which pools
trade two tokens, and which of them hold most of a token as far as balances have been observed.

Links are listed with the newest first, and those whose tokens stand in the order asked for before the others. Pools
of equal balance keep that order.
-/

import Searcher.Pool

namespace Searcher

/-- A pool that trades two tokens. -/
structure PoolLink where
  pool : Address
  exchange : Exchange
deriving DecidableEq, Inhabited

/-- A link between two tokens, in the order in which its pool lists them. -/
structure TokenEdge where
  first : Address
  second : Address
  link : PoolLink
deriving DecidableEq

/-- A pool as the index knows it. -/
structure IndexedPool where
  address : Address
  exchange : Exchange
  tokens : List Address
deriving DecidableEq

/-- An observed balance. -/
structure ObservedBalance where
  pool : Address
  token : Address
  amount : Nat
deriving DecidableEq

/-- The pools by the tokens they trade. All lists have the newest entry first. -/
structure PoolIndex where
  edges : List TokenEdge := []
  pools : List IndexedPool := []
  balances : List ObservedBalance := []

namespace PoolIndex

/-- The links between a pool's tokens, in the order of the list. -/
def edgesOf (link : PoolLink) : List Address → List TokenEdge
  | [] => []
  | a :: rest => ((rest.filter (· ≠ a)).map fun b => ⟨a, b, link⟩) ++ edgesOf link rest

/-- The pool at an address. -/
def pool? (index : PoolIndex) (pool : Address) : Option IndexedPool := index.pools.find? fun p => p.address = pool

/-- Adds a pool, unless one with its address is there. -/
def addPool (index : PoolIndex) (pool : Address) (exchange : Exchange) (tokens : List Address) : PoolIndex :=
  if (index.pool? pool).isSome then index
  else { index with
    edges := (edgesOf ⟨pool, exchange⟩ tokens).reverse ++ index.edges
    pools := ⟨pool, exchange, tokens⟩ :: index.pools }

/-- Records a balance, in place of an earlier one. -/
def setBalance (index : PoolIndex) (pool token : Address) (amount : Nat) : PoolIndex :=
  { index with balances := ⟨pool, token, amount⟩ :: index.balances }

/-- The pool's balance of a token, zero unless one was recorded. -/
def balance (index : PoolIndex) (pool token : Address) : Nat :=
  ((index.balances.find? fun b => b.pool = pool ∧ b.token = token).map (·.amount)).getD 0

/-- The index of some pools and balances, the last balance of a pool in a token being the one that counts. -/
def ofPools (pools : List Pool) (balances : List ObservedBalance) : PoolIndex :=
  let index : PoolIndex := pools.foldl (fun (index : PoolIndex) p => index.addPool p.address p.exchange p.tokens) {}
  { index with balances := balances.reverse }

/-- The links of edges that go from `a` to `b`. -/
def directed (index : PoolIndex) (a b : Address) : List PoolLink :=
  (index.edges.filter fun e => e.first = a ∧ e.second = b).map (·.link)

/-- The pools that trade two tokens. -/
def between (index : PoolIndex) (a b : Address) : List PoolLink := index.directed a b ++ index.directed b a

/-- The pools that trade two tokens, other than those excluded, by falling balance of `measure`. -/
def ranked (index : PoolIndex) (a b measure : Address) (exclude : List Address) : List PoolLink :=
  let candidates := (index.between a b).filter fun link => ¬ exclude.contains link.pool
  candidates.mergeSort fun x y => index.balance y.pool measure ≤ index.balance x.pool measure

/-- The pool that holds most of `a`: the first of the ranked ones that holds any. -/
def deepest (index : PoolIndex) (a b : Address) (exclude : List Address) : Option PoolLink :=
  (index.ranked a b a exclude).find? fun link => index.balance link.pool a ≠ 0

/-- Those of the ranked pools that hold any of `a`. -/
def funded (index : PoolIndex) (a b : Address) (exclude : List Address) : List PoolLink :=
  (index.ranked a b a exclude).filter fun link => index.balance link.pool a ≠ 0

/-- The two pools that hold most of `a`: the first two of those that hold any. -/
def deepestTwo (index : PoolIndex) (a b : Address) (exclude : List Address) : Option PoolLink × Option PoolLink :=
  let funded := index.funded a b exclude
  (funded.head?, funded.tail.head?)

/-- The pool that holds the second most of `a`. -/
def secondDeepest (index : PoolIndex) (a b : Address) (exclude : List Address) : Option PoolLink :=
  (index.deepestTwo a b exclude).2

/-- The number of tokens that are linked. -/
def tokenCount (index : PoolIndex) : Nat :=
  (index.edges.flatMap fun e => [e.first, e.second]).eraseDups.length

end PoolIndex
end Searcher

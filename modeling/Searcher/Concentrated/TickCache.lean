/-
# The cache of tick words

A worker keeps the words it has read, up to a capacity of at least one; the word used longest ago makes room for a new
one. Reading a word is a use, even of a word that turns out to be too old; asking whether a word is fresh is not.
-/

import Searcher.Concentrated.TickSource

namespace Searcher

/-- The pool and the number of a word. -/
structure WordKey where
  pool : Address
  word : Int
deriving DecidableEq

/-- Tick words of any pools, the one used last in front. -/
structure TickCache where
  /-- One less than the number of words it may hold. -/
  spare : Nat
  entries : List (WordKey × TickWord)

namespace TickCache

/-- The empty cache for at most `capacity` words, or one word when that is zero. -/
def empty (capacity : Nat) : TickCache := ⟨capacity - 1, []⟩

/-- The number of words it may hold. -/
def capacity (cache : TickCache) : Nat := cache.spare + 1

/-- The number of words it holds. -/
def size (cache : TickCache) : Nat := cache.entries.length

/-- The word under a key, of any age. -/
def find? (cache : TickCache) (key : WordKey) : Option TickWord :=
  (cache.entries.find? fun entry => entry.1 = key).map (·.2)

/-- The entries of other keys, in order. -/
def others (cache : TickCache) (key : WordKey) : List (WordKey × TickWord) :=
  cache.entries.filter fun entry => entry.1 ≠ key

/-- Puts a word in front, in place of the one under its key, or else of the last one when the cache is full. -/
def insert (cache : TickCache) (key : WordKey) (word : TickWord) : TickCache :=
  { cache with entries := (key, word) :: (cache.others key).take cache.spare }

/-- Whether the word is present and was read at `block` or later. -/
def isFresh (cache : TickCache) (key : WordKey) (block : Nat) : Bool :=
  (cache.find? key).any fun word => block ≤ word.block

/-- The words of a pool that are absent or older than `block`. -/
def missing (cache : TickCache) (pool : Address) (words : List Int) (block : Nat) : List Int :=
  words.filter fun word => ¬ cache.isFresh ⟨pool, word⟩ block

/-- Moves the word under a key to the front. -/
def touch (cache : TickCache) (key : WordKey) : TickCache :=
  match cache.find? key with
  | some word => { cache with entries := (key, word) :: cache.others key }
  | none => cache

/-- Uses the word under a key: it is returned unless it is older than `block`, and moves to the front anyway. -/
def get (cache : TickCache) (key : WordKey) (block : Nat) : Option TickWord × TickCache :=
  ((cache.find? key).filter fun word => block ≤ word.block, cache.touch key)

/-- Uses the word under a number of a pool. It is missing unless it was read at `block` or later. -/
def read (pool : Address) (block : Nat) (word : Int) : Ticking TickCache TickWord := do
  let (found, cache) := (← getThe TickCache).get ⟨pool, word⟩ block
  set cache
  match found with
  | some w => return w
  | none => throw (.missingTickWord pool word)

/-- The cache as the tick data of one pool at one block. -/
def source (pool : Address) (block : Nat) : TickSource TickCache := .ofWords (read pool block)

end TickCache
end Searcher

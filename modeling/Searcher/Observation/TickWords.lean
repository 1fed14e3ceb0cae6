/-
# Loading tick words

A word of the bitmap goes into the cache with the change of liquidity at each of its marks, or not at all. Most pools
are seen through a lens contract, which lists the changes of a whole word. Pools of Thena Fusion are asked twice: for
their words, and then for each tick that the words mark.
-/

import Searcher.Concentrated.TickCache
import Searcher.Market
import Searcher.Observation.Pools

namespace Searcher

/-- Words that are wanted of a pool. -/
structure WantedWords where
  pool : Address
  exchange : Exchange
  spacing : Int
  words : List Int
deriving DecidableEq

/-- The contract that lists the changes of liquidity of a word. -/
def tickLens : Address := .ofNat 0xbfd8137f7d1516d3ea5ca83523914859ec47f573

namespace WantedWords

/-- Those of some words of a pool that the cache does not have at a block. -/
def missing? (cache : TickCache) (block : Nat) (pool : Pool) (words : ConcentratedState → List Int) :
    Option WantedWords :=
  match pool.state with
  | .concentrated s =>
    let missing := cache.missing pool.address (words s) block
    if missing.isEmpty then none else some ⟨pool.address, pool.exchange, s.spacing, missing⟩
  | _ => none

/-- Whether the pool is asked for each tick. -/
def isTickwise (w : WantedWords) : Bool := w.exchange = .thenaFusion

/-- What is asked about a word. -/
def wordQuestions (w : WantedWords) (word : Int) : List Question :=
  let number := Abi.ofInt word
  if w.isTickwise then [.ask w.pool (.bitmap word) "tickTable(int16)" [number]]
  else [.ask w.pool (.bitmap word) "tickBitmap(int16)" [number],
    .via tickLens w.pool (.nets word) "getPopulatedTicksInWord(address,int16)" [w.pool.toNat, number]]

/-- The words with their pools. -/
def each {α : Type} (wanted : List WantedWords) (f : WantedWords → Int → α) : List α :=
  wanted.flatMap fun w => w.words.map (f w)

/-- What is asked about all words. -/
def wordQuestionsOf (wanted : List WantedWords) : List Question := (each wanted wordQuestions).flatten

/-- Whether a tick can be asked for: it has 24 bits and a sign. -/
def isAskable (tick : Int) : Bool := -(2 ^ 23) ≤ tick ∧ tick < 2 ^ 23

/-- What is asked about the ticks that a word marks. -/
def tickQuestions (o : Observed) (w : WantedWords) (word : Int) : List Question :=
  match w.isTickwise, o.word? w.pool (.bitmap word) with
  | true, some bitmap => ((Bitmap.initializedTicks word bitmap w.spacing).filter isAskable).map fun tick =>
      .ask w.pool (.tick tick) "ticks(int24)" [Abi.ofInt tick]
  | _, _ => []

/-- What is asked about the ticks that all words mark. -/
def tickQuestionsOf (o : Observed) (wanted : List WantedWords) : List Question :=
  (each wanted (tickQuestions o)).flatten

/-- Elements of three words, as the tick and the change of liquidity that they state. -/
def netsOfWords : List Nat → List (Int × Int)
  | tick :: net :: _ :: rest => (Abi.toInt 24 tick, Abi.toInt 128 net) :: netsOfWords rest
  | _ => []

/-- The change of liquidity at a tick. -/
def tickNet? (ticks : Observed) (pool : Address) (tick : Int) : Option (Int × Int) := do
  let _ :: net :: _ ← ticks.words? pool (.tick tick) 8 | none
  return (tick, Abi.toInt 128 net)

/-- The changes of liquidity at the marks of a word. -/
def nets? (o ticks : Observed) (w : WantedWords) (word : Int) (bitmap : Nat) : Option (List (Int × Int)) :=
  if w.isTickwise then (Bitmap.initializedTicks word bitmap w.spacing).mapM (tickNet? ticks w.pool)
  else if bitmap = 0 then some []
  else (o.array? w.pool (.nets word) 3).map netsOfWords

/-- A word with its key, if it was told in full. -/
def entry? (o ticks : Observed) (block : Nat) (w : WantedWords) (word : Int) : Option (WordKey × TickWord) := do
  let bitmap ← o.word? w.pool (.bitmap word)
  return (⟨w.pool, word⟩, ⟨bitmap, ← nets? o ticks w word bitmap, block⟩)

end WantedWords

/-- Puts words into the cache, as far as they are there; returns how many it put there. -/
def TickCache.store : List (Option (WordKey × TickWord)) → StateM TickCache Nat
  | [] => return 0
  | none :: rest => store rest
  | some (key, word) :: rest => do
    modify (·.insert key word)
    return (← store rest) + 1

namespace ChainReader

variable {σ : Type}

/-- What is observed by questions, without a batch when there are none. -/
def observeAny (reader : ChainReader σ) (questions : List Question) (block : Option Nat) : Reading σ Observed :=
  if questions.isEmpty then return [] else reader.observe questions block

/-- Reads wanted words into the cache; returns how many it wrote. -/
def fillWords (reader : ChainReader σ) (wanted : List WantedWords) (block : Nat) : Updating TickCache σ Nat := do
  let o ← (reader.observeAny (WantedWords.wordQuestionsOf wanted) block).beside TickCache
  let ticks ← (reader.observeAny (WantedWords.tickQuestionsOf o wanted) block).beside TickCache
  ExceptT.lift (Part.first.run (TickCache.store (WantedWords.each wanted (WantedWords.entry? o ticks block))))

/-- Reads the words around the current ticks of pools, as far as the cache does not have them. -/
def fillAround (reader : ChainReader σ) (pools : List Pool) (radius : Int) (block : Nat) :
    Updating TickCache σ Nat := do
  let cache := (← get).1
  reader.fillWords (pools.filterMap fun p => WantedWords.missing? cache block p (·.wordsAround radius)) block

/-- Reads words of a pool, as far as the cache does not have them. -/
def fillMissing (reader : ChainReader σ) (pool : Pool) (words : List Int) (block : Nat) :
    Updating TickCache σ Nat := do
  let cache := (← get).1
  reader.fillWords (WantedWords.missing? cache block pool fun _ => words).toList block

/-- The cache with the words around the current ticks of pools, and how many were read. -/
def loadTickWords (reader : ChainReader σ) (cache : TickCache) (pools : List Pool) (radius : Int) (block : Nat) :
    Reading σ (TickCache × Nat) :=
  (reader.fillAround pools radius block).on cache

/-- The cache with words of a pool, and how many were read. -/
def loadWords (reader : ChainReader σ) (cache : TickCache) (pool : Pool) (words : List Int) (block : Nat) :
    Reading σ (TickCache × Nat) :=
  (reader.fillMissing pool words block).on cache

/-- The loader that reads through the node. -/
def tickLoader (reader : ChainReader σ) : TickLoader σ where
  load pool words block := do
    let written ← (reader.fillMissing pool words block).run
    return written.mapError ReadError.message

end ChainReader
end Searcher

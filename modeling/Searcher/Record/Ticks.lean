/-
# Records of tick data

| value | record |
| --- | --- |
| tick word | its `bitmap`, its `nets` as pairs of tick and change, the `block` it was read at |
| cache | a `capacity`; under `fill` ranges of words cut from one list of ticks; under `words` single words |
| state | `sqrt_price`, `tick`, `liquidity`, `fee`, `tick_spacing` |
-/

import Searcher.Json.Fields
import Searcher.Concentrated.Quote
import Searcher.Concentrated.TickCache

namespace Searcher
namespace TickWord

/-- The ticks of a record with their changes of liquidity. -/
def netsOfJson (j : Json) : List (Int × Int) :=
  j.list "nets" fun entry => ((entry.item 0).toInt, (entry.item 1).toInt)

def ofJson (j : Json) : TickWord :=
  ⟨j.nat "bitmap", netsOfJson j, j.nat "block"⟩

def toJson (w : TickWord) : Json :=
  .obj [("bitmap", .ofNat w.bitmap), ("block", .ofNat w.block),
    ("nets", .ofList (fun entry => .arr [.int entry.1, .ofInt entry.2]) w.nets)]

end TickWord

namespace TickCache

/-- The integers from `lo` to `hi`. -/
def range (lo hi : Int) : List Int :=
  (List.range (hi - lo + 1).toNat).map fun (k : Nat) => lo + k

/-- Inserts every word of a range, each with those of the record's ticks that lie in it. -/
def fill (cache : TickCache) (j : Json) : TickCache :=
  (range (j.integer "lo") (j.integer "hi")).foldl (fun cache word =>
    cache.insert ⟨j.address "pool", word⟩
      (.ofNets (TickWord.netsOfJson j) (j.integer "spacing") word (j.nat "block"))) cache

def ofJson (j : Json) : TickCache :=
  let filled := (j.get "fill").elements.foldl fill (empty (j.natD "capacity" 4096))
  (j.get "words").elements.foldl (fun cache w =>
    cache.insert ⟨w.address "pool", w.integer "word"⟩ (TickWord.ofJson w)) filled

end TickCache

namespace ConcentratedState

def ofJson (j : Json) : ConcentratedState :=
  ⟨j.nat "sqrt_price", j.integer "tick", j.nat "liquidity", j.nat "fee", j.integer "tick_spacing"⟩

/-- The fields of the record. -/
def fields (s : ConcentratedState) : List (String × Json) :=
  [("sqrt_price", .ofNat s.sqrtPrice), ("tick", .int s.tick), ("liquidity", .ofNat s.liquidity),
    ("fee", .count s.fee), ("tick_spacing", .int s.spacing)]

end ConcentratedState
end Searcher

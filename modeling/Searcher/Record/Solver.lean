/-
# Records of hops, searches and loaders

A hop is a list of two reserves and a fee, which may be left out. The limits of a search are named, or written out with
the step of its stride under `gamma`. A loader of tick words is one list of ticks; it cannot read the words listed as
`unreadable`, and fails altogether with the text under `fail`.
-/

import Searcher.Record.Market
import Searcher.Simulation.BalanceRate
import Searcher.Simulation.SizeSearch
import Searcher.Solver.Sandwich

namespace Searcher

namespace Hop

def ofJson (j : Json) : Hop := ⟨(j.item 0).toNat, (j.item 1).toNat, .ofJson (j.item 2)⟩

def toJson (h : Hop) : Json := .arr [.ofNat h.reserveIn, .ofNat h.reserveOut, h.fee.toJson]

end Hop

namespace Opportunity

def toJson (o : Opportunity) : Json := .ofNats [o.amountIn, o.revenue]

end Opportunity

namespace BalanceRate

def ofJson (j : Json) : BalanceRate := ⟨(j.item 0).toNat, (j.item 1).toNat⟩

def toJson (r : BalanceRate) : Json := .ofNats [r.numerator, r.denominator]

end BalanceRate

namespace Trial

def toJson (t : Trial) : Json := .ofNats [t.amount, t.output, t.gasUsed]

end Trial

/-- The double nearest to a number. -/
def Json.toFloat : Json → Float
  | .int n => Float.ofInt n
  | .decimal m e => (if m < 0 then -1.0 else 1.0) * Float.ofScientific m.natAbs (e < 0) e.natAbs
  | _ => 0.0

namespace SizeSearch

/-- The search of a record with `amount`, `max_amount` and `settings`. -/
def ofJson (j : Json) : SizeSearch Pace :=
  match j.get "settings" with
  | .str "arbitrage" => .arbitrage (j.nat "amount")
  | .str _ => .sandwich (j.nat "amount") (j.nat "max_amount")
  | s =>
    { limits := ⟨s.nat "max_count", s.nat "break_count_if_zero", s.flag "stop_on_drop"⟩
      maxAmount := j.nat "max_amount"
      amount := j.nat "amount"
      stride := .start (s.get "gamma").toFloat }

end SizeSearch

namespace TickLoader

/-- The words that a loader was asked for. -/
structure Request where
  pool : Address
  words : List Int

/-- The loader of a record. It notes its requests. -/
def ofJson (j : Json) : TickLoader (List Request) where
  load pool words block := fun (cache, asked) =>
    let asked := asked ++ [⟨pool.address, words⟩]
    match j.present? "fail" with
    | some reason => (.error reason.toText, cache, asked)
    | none =>
      let unreadable := j.list "unreadable" Json.toInt
      let readable := words.filter fun w => ¬ unreadable.contains w
      let cache := readable.foldl (fun cache w => cache.insert ⟨pool.address, w⟩
        (.ofNets (TickWord.netsOfJson j) (j.natD "spacing" 1) w block)) cache
      (.ok readable.length, cache, asked)

end TickLoader
end Searcher

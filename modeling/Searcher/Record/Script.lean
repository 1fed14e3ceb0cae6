/-
# Records of scripted engines

A rule is an object in which a field that is absent puts no condition on a call. An effect is a list of the holder, the
token, `add` or `sub`, and the amount, which is a list of its kind and its numbers.
-/

import Searcher.Record.Market
import Searcher.Simulation.Script
import Searcher.Simulation.SizeSearch

namespace Searcher
namespace Script

namespace Balances

def ofJson (items : List Json) : Balances :=
  items.foldl (fun b j => b.set (j.item 0).toAddress (j.item 1).toAddress (j.item 2).toNat) []

/-- The entries in the order of holders and tokens. -/
def toJson (b : Balances) : Json :=
  let sorted := b.mergeSort fun x y =>
    x.1.1.toNat < y.1.1.toNat ∨ (x.1.1 = y.1.1 ∧ x.1.2.toNat ≤ y.1.2.toNat)
  .ofList (fun ((holder, token), amount) => .arr [.ofAddress holder, .ofAddress token, .ofNat amount]) sorted

end Balances

namespace Amount

def ofJson (j : Json) : Amount :=
  match (j.item 0).toText with
  | "lin" => linear (j.item 1).toNat (j.item 2).toNat
  | "hill" => hill (j.item 1).toNat
  | _ => const (j.item 1).toNat

end Amount

namespace Effect

def ofJson (j : Json) : Effect :=
  ⟨(j.item 0).toAddress, (j.item 1).toAddress, (j.item 2).toText = "add", .ofJson (j.item 3)⟩

end Effect

namespace Rule

def ofJson (j : Json) : Rule :=
  { name := j.text "name"
    receiver := j.address? "to"
    caller := j.address? "caller"
    selector := (j.present? "selector").map Json.toBytes
    above := j.nat? "above"
    flag := j.address? "flag"
    noFlag := j.address? "no_flag"
    amountWord := j.nat "amount_word"
    revertReason := (j.present? "revert").map Json.toText
    engineFailure := (j.present? "engine_error").map Json.toText
    sleep := j.nat "sleep_ms"
    effects := j.list "effects" Effect.ofJson
    gas := j.nat "gas" }

end Rule

namespace State

def ofJson (j : Json) : State :=
  { rules := j.list "rules" Rule.ofJson
    badTokens := j.addresses "bad_balance"
    goodRestores := j.nat? "fail_reset"
    balances := .ofJson (j.get "balances").elements }

end State

namespace Entry

def toJson : Entry → Json
  | call name c x => .arr [.str name, .ofAddress c.caller, .ofNat c.value, .ofNat x, .bool c.isStatic]
  | unmatched c => .arr [.str "unmatched", .ofAddress c.caller, .ofAddress c.receiver, .bool c.isStatic]
  | fork url block timestamp => .arr [.str "fork", .str url, .ofNat block, .ofOption .ofNat timestamp]
  | code account bytes => .arr [.str "set_code", .ofAddress account, .ofBytes bytes]

end Entry
end Script

/-- The trial of an arbitrage with the names of its parts. -/
def Trial.fields (t : Trial) : Json :=
  .obj [("amount", .ofNat t.amount), ("output", .ofNat t.output), ("gas_used", .ofNat t.gasUsed)]

end Searcher

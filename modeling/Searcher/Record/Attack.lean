/-
# Records of decisions and plans
-/

import Searcher.Attack.Plan
import Searcher.Record.Market

namespace Searcher

namespace Decision

def ofJson (j : Json) : Decision :=
  match j.text "kind" with
  | "single" => .single (j.nat "gas_price")
  | "bundle" => .bundle (j.nat "gas_price") (j.nat "target_block") (j.nat "bundle_fee")
  | _ => .reject (.stated (((j.present? "reason").map Json.toText).getD "no"))

def fields : Decision → List (String × Json)
  | reject reason => [("kind", .str "reject"), ("reason", .str reason.message)]
  | single price => [("kind", .str "single"), ("gas_price", .ofNat price)]
  | bundle price block fee => [("kind", .str "bundle"), ("gas_price", .ofNat price), ("target_block", .ofNat block),
      ("bundle_fee", .ofNat fee)]

def toJson (d : Decision) : Json :=
  .obj (d.fields ++ [("call", .ofOption (fun f : AttackFunction => .str f.name) d.arbitrageFunction)])

end Decision

namespace AttackFunction

/-- The function of an arbitrage. -/
def arbitrageOfJson (j : Json) : AttackFunction := if j.toText = "with_bloxroute" then arbitrageRelayed else arbitrage

/-- The function of a front run. -/
def frontOfJson : Json → AttackFunction
  | .str _ | .null => frontRun
  | j => frontRunChecked (j.nat "back_amount") (j.nat "pool_balance")

/-- The function of a back run. -/
def backOfJson : Json → AttackFunction
  | .str "with_bloxroute" => backRunRelayed
  | .str _ | .null => backRun
  | j => backRunChecked (j.nat "block_number")

end AttackFunction

namespace SandwichTrial

def ofJson (j : Json) : SandwichTrial :=
  ⟨j.nat "front_amount", j.nat "back_amount", j.nat "front_gas_used", j.nat "back_gas_used", j.nat "revenue"⟩

def toJson (t : SandwichTrial) : Json :=
  .obj [("front_amount", .ofNat t.frontAmount), ("back_amount", .ofNat t.backAmount),
    ("front_gas_used", .ofNat t.frontGas), ("back_gas_used", .ofNat t.backGas), ("revenue", .ofNat t.revenue)]

end SandwichTrial

namespace PlannedTx

def ofJson (j : Json) : PlannedTx :=
  ⟨j.address "to", j.bytes "calldata", j.nat "value", j.nat "gas_limit", j.nat "gas_price"⟩

def toJson (t : PlannedTx) : Json :=
  .obj [("to", .ofAddress t.receiver), ("calldata", .ofBytes t.callData), ("value", .ofNat t.value),
    ("gas_limit", .ofNat t.gasLimit), ("gas_price", .ofNat t.gasPrice)]

end PlannedTx
end Searcher

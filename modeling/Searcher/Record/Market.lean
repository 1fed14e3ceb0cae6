/-
# Records of events, paths and transactions

Integers of a transaction are decimal texts throughout; an absent field has its default.
-/

import Searcher.Path
import Searcher.Transaction
import Searcher.Record.Pools

namespace Searcher

namespace SwapEvent

def ofJson (j : Json) : SwapEvent :=
  ⟨.ofJson (j.get "dex"), j.address "pool", j.address "token_in", j.address "token_out", j.nat "amount_in",
    j.nat "amount_out"⟩

def toJson (e : SwapEvent) : Json :=
  .obj [("dex", e.exchange.toJson), ("pool", .ofAddress e.pool), ("token_in", .ofAddress e.tokenIn),
    ("token_out", .ofAddress e.tokenOut), ("amount_in", .ofNat e.amountIn), ("amount_out", .ofNat e.amountOut)]

end SwapEvent

namespace Path

def ofJson (j : Json) : Path :=
  ⟨j.nat "amount_in", j.nats "exchanges", j.addresses "pools", j.addresses "tokens"⟩

def toJson (p : Path) : Json :=
  .obj [("amount_in", .ofNat p.amountIn), ("exchanges", .ofList .count p.exchanges), ("pools", .ofAddresses p.pools),
    ("tokens", .ofAddresses p.tokens)]

end Path

namespace TxKind

def ofText : String → TxKind
  | "eip2930" => .eip2930
  | "eip1559" => .eip1559
  | _ => .legacy

def text : TxKind → String
  | legacy => "legacy"
  | eip2930 => "eip2930"
  | eip1559 => "eip1559"

end TxKind

namespace AccessItem

def ofJson (j : Json) : AccessItem := ⟨(j.item 0).toAddress, (j.item 1).elements.map Json.toWord⟩

def toJson (a : AccessItem) : Json := .arr [.ofAddress a.address, .ofList .ofWord a.keys]

end AccessItem

namespace Transaction

def ofJson (j : Json) : Transaction :=
  { hash := (j.get "hash").toWord
    kind := .ofText (j.text "kind")
    chainId := j.nat? "chain_id"
    nonce := j.nat "nonce"
    gas := j.nat "gas"
    gasPrice := j.nat? "gas_price"
    maxFeePerGas := j.nat? "max_fee_per_gas"
    maxPriorityFeePerGas := j.nat? "max_priority_fee_per_gas"
    caller := j.address "caller"
    receiver := j.address? "receiver"
    value := j.nat "value"
    input := j.bytes "input"
    accessList := j.list "access_list" AccessItem.ofJson
    signature := ⟨j.nat "v", j.nat "r", j.nat "s"⟩
    swapEvents := j.list "swap_events" SwapEvent.ofJson }

def toJson (t : Transaction) : Json :=
  .obj [("hash", .ofWord t.hash), ("kind", .str t.kind.text), ("chain_id", .ofOption .ofNat t.chainId),
    ("nonce", .ofNat t.nonce), ("gas", .ofNat t.gas), ("gas_price", .ofOption .ofNat t.gasPrice),
    ("max_fee_per_gas", .ofOption .ofNat t.maxFeePerGas),
    ("max_priority_fee_per_gas", .ofOption .ofNat t.maxPriorityFeePerGas), ("caller", .ofAddress t.caller),
    ("receiver", .ofOption .ofAddress t.receiver), ("value", .ofNat t.value), ("input", .ofBytes t.input),
    ("access_list", .ofList AccessItem.toJson t.accessList), ("v", .ofNat t.signature.v), ("r", .ofNat t.signature.r),
    ("s", .ofNat t.signature.s), ("swap_events", .ofList SwapEvent.toJson t.swapEvents)]

end Transaction
end Searcher

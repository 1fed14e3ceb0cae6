/-
# Validators

The relay announces which validator builds the next block. Some validators belong to a club and take bundles from its
members only; others take what the relay sends them.
-/

import Searcher.Attack.Gate
import Searcher.Abi
import Searcher.Json.Reader
import Searcher.Json.Wire
import Searcher.Node.Basic
import Searcher.Relay.Http

namespace Searcher

/-- Who builds a block. -/
structure BlockBuilder where
  height : Nat
  wallet : Address
deriving DecidableEq, Inhabited

/-- A message from a service that cannot be read. -/
inductive MessageError where
  | malformed
deriving DecidableEq, Repr

namespace BlockBuilder

/-- What the next block is to an attacker, by the members of the club and those the relay reaches. Membership of the
club comes first. -/
def nextBlock (b : BlockBuilder) (club relay : List Address) : NextBlock :=
  if club.contains b.wallet then .club
  else if relay.contains b.wallet ∧ b.height < 2 ^ 63 then .ofInt b.height
  else .unknown

/-- Reads the builder of a block. -/
def ofJson? (j : Json) : Option BlockBuilder := do
  let [height, wallet] ← j.fields? ["block_height", "wallet_id"] | none
  return ⟨← Json.required Json.whole? height, ← Json.required Json.wireAddress? wallet⟩

/-- The first builder that a notification announces; none if the message is of another kind. -/
def ofNotification (text : String) : Except MessageError (Option BlockBuilder) :=
  match Json.read text with
  | none => .error .malformed
  | some message =>
    match message.follow? ["params", "result", "future_validator_info", "0"] with
    | none => .ok none
    | some first => match ofJson? first with
      | some b => .ok (some b)
      | none => .error .malformed

end BlockBuilder

namespace Validators

/-- The contract that lists the members of the club. -/
def registry : Address := .ofNat 0x5cC05Fde1D231A840061C1a2d7e913cEdc8EaBaF

/-- The members of the club, as its contract lists them. -/
def club {σ : Type} (node : Node σ) : Asking σ (List Address) := do
  let returned ← node.read ⟨registry, Abi.callData "getPuissants()" []⟩ none
  match Abi.array? returned 1 with
  | some words => return words.map Abi.toAddress
  | none => throw .unreadable

/-- The validators that an answer of the relay lists; what is not an address is left out. -/
def ofRelayAnswer (answer : Json) : List Address :=
  match answer.follow? ["result", "validators"] with
  | some (.arr items) => items.filterMap fun j => j.str?.bind Address.ofHex?
  | _ => []

/-- The validators that the relay reaches on a network, as it answers a request. -/
def ofRelay {σ : Type} (transport : Transport σ) (authorization network : String) :
    StateM σ (Except String (List Address)) := do
  let body : Json := .obj [("id", .str "1"), ("method", .str "bsc_mev_validators"),
    ("params", .obj [("blockchain_network", .str network)])]
  match ← transport.post (some authorization) body with
  | .error reason => return .error reason
  | .ok reply =>
    match Json.read reply.body with
    | some answer => return .ok (ofRelayAnswer answer)
    | none => return .error "error decoding response body"

end Validators
end Searcher

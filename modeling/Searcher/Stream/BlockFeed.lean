/-
# The feed of blocks

The relay announces the builder of the next block. What that block is to an attacker follows from the validators that
the club and the relay listed when the feed was started; a list that cannot be had is empty. A message that cannot be
read ends the session.
-/

import Searcher.Stream.Reconnect
import Searcher.Stream.Validator

namespace Searcher

/-- A feed with the validators that are known to it. -/
structure BlockFeed where
  network : String
  club : List Address
  relay : List Address

namespace BlockFeed

/-- The feed of a network with the validators as they are listed. -/
def start {σ : Type} (node : Node σ) (transport : Transport σ) (authorization network : String) :
    StateM σ BlockFeed := do
  let club ← (Validators.club node).run
  let relay ← Validators.ofRelay transport authorization network
  return ⟨network, club.toOption.getD [], relay.toOption.getD []⟩

/-- What asks for the feed. -/
def request (network : String) : Json :=
  .obj [("jsonrpc", .str "2.0"), ("id", .int 1), ("method", .str "subscribe"),
    ("params", .arr [.str "bdnBlocks", .obj [("include", .arr [.str "header", .str "future_validator_info"])],
      .obj [("blockchain_network", .str network)]])]

/-- Takes a message; the state is what was announced last. -/
def take (feed : BlockFeed) (message : String) : StateM (Option NextBlock) Bool := do
  match BlockBuilder.ofNotification message with
  | .error _ => return false
  | .ok none => return true
  | .ok (some builder) =>
    set (some (builder.nextBlock feed.club feed.relay))
    return true

/-- The subscription to the feed. -/
def subscription (feed : BlockFeed) : Subscription (Option NextBlock) := ⟨request feed.network, feed.take⟩

end BlockFeed
end Searcher

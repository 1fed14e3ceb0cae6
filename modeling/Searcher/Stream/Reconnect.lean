/-
# Sessions and reconnecting

A stream is subscribed to over a connection. The first message after the subscription acknowledges it, whatever it says;
each later one goes to the subscriber, who may hang up. What is no text is passed over. A session also ends when the
peer closes it.

A stream that ends, for whatever reason, is opened again after a fixed delay. Nothing that was missed meanwhile is asked
for again.
-/

import Searcher.Json.Basic

namespace Searcher

/-- What a peer sends. -/
inductive Frame where
  | text (message : String)
  | binary
  | close
deriving DecidableEq, Repr

/-- A subscription with what becomes of its messages. -/
structure Subscription (σ : Type) where
  /-- What is sent to ask for the stream. -/
  request : Json
  /-- Takes a message and tells whether to stay. -/
  take : (message : String) → StateM σ Bool

/-- How far a connection is. -/
inductive Session where
  /-- The subscription is not acknowledged yet. -/
  | subscribing
  | subscribed
  | ended
deriving DecidableEq, Repr

namespace Session

variable {σ : Type}

/-- The session after a frame. -/
def receive (sub : Subscription σ) : Session → Frame → StateM σ Session
  | ended, _ => return ended
  | _, .close => return ended
  | session, .binary => return session
  | subscribing, .text _ => return subscribed
  | subscribed, .text message => return if ← sub.take message then subscribed else ended

/-- What can be seen after each frame: whether the session goes on, and a view of the state. A peer sends nothing more
to a session that has ended; a frame that closes it shows nothing. -/
def follow {β : Type} (sub : Subscription σ) (view : σ → β) : Session → List Frame → StateM σ (List (Bool × β))
  | _, [] => return []
  | _, .close :: _ => return []
  | session, frame :: rest => do
    let session ← session.receive sub frame
    let seen := view (← get)
    if session = ended then return [(false, seen)]
    return (true, seen) :: (← session.follow sub view rest)

end Session

/-- What a peer does with a connection. -/
inductive Peer where
  | refuses
  /-- Takes the subscription, sends frames and is gone. -/
  | sends (frames : List Frame)
deriving DecidableEq, Repr

/-- A connection seen from the peer: what was asked for and what each frame did, or nothing when it was refused. -/
abbrev Visit (β : Type) := Option (Json × List (Bool × β))

namespace Subscription

variable {σ β : Type}

/-- Connects to a peer. -/
def visit (sub : Subscription σ) (view : σ → β) : Peer → StateM σ (Visit β)
  | .refuses => return none
  | .sends frames => return some (sub.request, ← Session.subscribing.follow sub view frames)

/-- Connects to one peer after another, as a stream that ends is opened again. -/
def visitAll (sub : Subscription σ) (view : σ → β) (peers : List Peer) : StateM σ (List (Visit β)) :=
  peers.mapM (sub.visit view)

end Subscription

namespace Reconnect

/-- The times up to `limit` at which attempts start, the first of at most `count` at `now`. Attempt `k` lasts
`costs[k]`, the list being used over and over. -/
def startsFrom (costs : List Nat) (delay limit : Nat) : (count k now : Nat) → List Nat
  | 0, _, _ => []
  | count + 1, k, now =>
    if limit < now then []
    else now :: startsFrom costs delay limit count (k + 1) (now + costs.getD (k % costs.length) 0 + delay)

/-- The times up to `limit` at which attempts start. Without any delay or cost, no more than a round for each unit of
time is listed. -/
def starts (costs : List Nat) (delay limit : Nat) : List Nat :=
  startsFrom costs delay limit ((limit + 1) * max costs.length 1) 0 0

end Reconnect
end Searcher

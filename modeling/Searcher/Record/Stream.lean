/-
# Records of connections

A frame is an object with a `text`, or the name `binary` or `close`. A peer is an object that says with `refuse` that it
takes no connection, and lists its `frames` otherwise. Of a connection the authorization is on record, and unless it was
refused the subscription and, for each frame, whether the session went on and what was to be seen.
-/

import Searcher.Json.Fields
import Searcher.Stream.Reconnect

namespace Searcher

def Frame.ofJson (j : Json) : Frame :=
  match j.get? "text" with
  | some message => text message.toText
  | none => if j.toText = "close" then close else binary

def Peer.ofJson (j : Json) : Peer := if j.flag "refuse" then refuses else sends (j.list "frames" Frame.ofJson)

/-- A connection with what it was authorized by; an empty authorization is not told. -/
def Visit.toJson {β : Type} (authorization : String) (seen : β → Json) (v : Visit β) : Json :=
  let told : Json := if authorization.isEmpty then .null else .str authorization
  .obj (("authorization", told) :: match v with
    | none => []
    | some (request, frames) =>
      [("subscribe", request), ("frames", .ofList (fun (alive, b) => .arr [.bool alive, seen b]) frames)])

end Searcher

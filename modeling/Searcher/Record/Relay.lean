/-
# Records of relays

An answer is the text of a name, or an object with the reason of a refusal under `rejected`. A submission is a list: of
`bundle`, the transactions and the block, or of `private` and the transaction.

An answer over HTTP is a list of its status and its body; what was posted is a list of the authorization, the method and
the parameters.
-/

import Searcher.Json.Fields
import Searcher.Relay.Recorded
import Searcher.Relay.RecordedHttp

namespace Searcher
namespace RecordedRelay

/-- An answer. -/
def replyOfJson (j : Json) : Except String String :=
  match j.get? "rejected" with
  | some reason => .error reason.toText
  | none => .ok j.toText

def State.ofJson (j : Json) : State := { replies := j.list "replies" replyOfJson }

def Entry.toJson : Entry → Json
  | .bundle raw block => .arr [.str "bundle", .ofList .ofBytes raw, .ofNat block]
  | .single raw => .arr [.str "private", .ofBytes raw]

/-- What was submitted. -/
def State.sent (s : State) : Json := .ofList Entry.toJson s.entries

end RecordedRelay

namespace RecordedHttp

def replyOfJson (j : Json) : HttpReply := ⟨(j.item 0).toNat, (j.item 1).toText⟩

def State.ofJson (j : Json) : State := { replies := j.list "replies" replyOfJson }

def Entry.toJson (e : Entry) : Json :=
  .arr [.ofOption .str e.authorization, e.body.get "method", e.body.get "params"]

/-- What was posted. -/
def State.sent (s : State) : Json := .ofList Entry.toJson s.entries

end RecordedHttp
end Searcher

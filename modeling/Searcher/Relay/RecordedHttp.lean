/-
# Recorded transports

A service whose answers are written down beforehand, which puts on record what is posted to it. When no answer is left
it answers with an empty object.
-/

import Searcher.Relay.Http

namespace Searcher
namespace RecordedHttp

/-- The answer when no other is left. -/
def lastReply : HttpReply := ⟨200, "\x7b\x7d"⟩

/-- What was posted. -/
structure Entry where
  authorization : Option String
  body : Json

/-- A recorded service with its state. -/
structure State where
  /-- The answers that are left. -/
  replies : List HttpReply := []
  entries : List Entry := []

/-- Puts a request on record and takes the next answer. -/
def submit (entry : Entry) : StateM State HttpReply := do
  let s ← get
  set { s with replies := s.replies.drop 1, entries := s.entries ++ [entry] }
  return s.replies.headD lastReply

/-- The transport to the service. -/
def transport : Transport State where
  post authorization body := .ok <$> submit ⟨authorization, body⟩

end RecordedHttp
end Searcher

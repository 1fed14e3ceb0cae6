/-
# Relays behind HTTP

Requests are posted as JSON; the answer is an object with an `error` or a `result`. A relay that asks for it is told an
authorization with every request.

The network is a parameter: a transport posts a value and returns the status and the body of the answer, or says why
there is none.
-/

import Searcher.Json.Printer
import Searcher.Json.Reader
import Searcher.Node.Basic
import Searcher.Relay.Basic

namespace Searcher

/-- The status and the body of an answer. -/
structure HttpReply where
  status : Nat
  body : String
deriving DecidableEq

/-- A way to post a value to a service, with an authorization. -/
structure Transport (σ : Type) where
  post : (authorization : Option String) → (body : Json) → StateM σ (Except String HttpReply)

/-- The transport of a program without a network. -/
def Transport.offline {σ : Type} : Transport σ := ⟨fun _ _ => pure (.error "error sending request")⟩

namespace HttpReply

/-- The texts of the statuses. -/
def phrases : List (Nat × String) :=
  [(100, "Continue"), (101, "Switching Protocols"), (102, "Processing"), (200, "OK"), (201, "Created"),
   (202, "Accepted"), (203, "Non Authoritative Information"), (204, "No Content"), (205, "Reset Content"),
   (206, "Partial Content"), (207, "Multi-Status"), (208, "Already Reported"), (226, "IM Used"),
   (300, "Multiple Choices"), (301, "Moved Permanently"), (302, "Found"), (303, "See Other"), (304, "Not Modified"),
   (305, "Use Proxy"), (307, "Temporary Redirect"), (308, "Permanent Redirect"), (400, "Bad Request"),
   (401, "Unauthorized"), (402, "Payment Required"), (403, "Forbidden"), (404, "Not Found"),
   (405, "Method Not Allowed"), (406, "Not Acceptable"), (407, "Proxy Authentication Required"),
   (408, "Request Timeout"), (409, "Conflict"), (410, "Gone"), (411, "Length Required"),
   (412, "Precondition Failed"), (413, "Payload Too Large"), (414, "URI Too Long"), (415, "Unsupported Media Type"),
   (416, "Range Not Satisfiable"), (417, "Expectation Failed"), (418, "I'm a teapot"), (421, "Misdirected Request"),
   (422, "Unprocessable Entity"), (423, "Locked"), (424, "Failed Dependency"), (425, "Too Early"),
   (426, "Upgrade Required"), (428, "Precondition Required"), (429, "Too Many Requests"),
   (431, "Request Header Fields Too Large"), (451, "Unavailable For Legal Reasons"), (500, "Internal Server Error"),
   (501, "Not Implemented"), (502, "Bad Gateway"), (503, "Service Unavailable"), (504, "Gateway Timeout"),
   (505, "HTTP Version Not Supported"), (506, "Variant Also Negotiates"), (507, "Insufficient Storage"),
   (508, "Loop Detected"), (510, "Not Extended"), (511, "Network Authentication Required")]

/-- The status with its text. -/
def statusLine (r : HttpReply) : String :=
  toString r.status ++ " " ++ (phrases.lookup r.status).getD "<unknown status code>"

/-- Whether the status is a success. -/
def isSuccess (r : HttpReply) : Bool := 200 ≤ r.status ∧ r.status < 300

/-- The result that the answer tells. -/
def result (r : HttpReply) : Except SubmissionError Json :=
  if r.isSuccess then
    match Json.read r.body with
    | none => .error .unreadable
    | some body =>
      match body.get? "error", body.get? "result" with
      | some e, _ => .error (.rejected (((e.get? "message").bind Json.str?).getD "unknown error"))
      | none, none | none, some .null => .error (.rejected "empty result")
      | none, some result => .ok result
  else .error (.status r.statusLine r.body)

end HttpReply

/-- A relay behind a transport; an empty authorization is not told. -/
structure HttpRelay (σ : Type) where
  transport : Transport σ
  authorization : String

namespace HttpRelay

variable {σ : Type}

/-- The result of a request. -/
def request (relay : HttpRelay σ) (method : String) (params : List Json) : Submitting σ Json := do
  let authorization := if relay.authorization.isEmpty then none else some relay.authorization
  let body : Json := .obj [("jsonrpc", .str "2.0"), ("id", .int 1), ("method", .str method), ("params", .arr params)]
  match ← ExceptT.lift (relay.transport.post authorization body) with
  | .error reason => throw (.unreachable reason)
  | .ok reply => MonadExcept.ofExcept reply.result

/-- The name of a bundle, which is the result or stands in it. -/
def bundleName (result : Json) : Except SubmissionError String :=
  match result.str?.or ((result.get? "bundleHash").bind Json.str?) with
  | some name => .ok name
  | none => .error (.rejected ("no bundle hash in " ++ result.render))

/-- The name of a transaction. -/
def transactionName (result : Json) : Except SubmissionError String :=
  match result with
  | .str name => .ok name
  | result => .error (.rejected ("unexpected result " ++ result.render))

/-- The relay that posts what is submitted. -/
def toRelay (relay : HttpRelay σ) : Relay σ where
  bundle raw block := do
    let params := .obj [("txs", .ofList .ofBytes raw), ("blockNumber", .ofQuantity block)]
    MonadExcept.ofExcept (bundleName (← relay.request "eth_sendBundle" [params]))
  single raw := do
    MonadExcept.ofExcept (transactionName (← relay.request "eth_sendRawTransaction" [.ofBytes raw]))

end HttpRelay
end Searcher

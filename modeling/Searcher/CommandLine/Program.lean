/-
# The program

What a command prints and how it ends. A command that fails prints its reason as an error and ends with one; a command
line that is wrong ends with two.

The world is given: the variables of the environment, the file with the attacker's code, and a way to reach the node
behind an endpoint.
-/

import Searcher.CommandLine.Help
import Searcher.PathFinder
import Searcher.Text.Url
import Searcher.Trace.Request

namespace Searcher

/-- How the program ends. -/
structure Outcome where
  exit : Nat
  output : String := ""
  /-- What is reported as an error. -/
  failure : Option String := none
deriving DecidableEq, Repr

/-- What the program has of the world. -/
structure World (σ : Type) where
  environment : Environment
  /-- The contents of the file with the attacker's code, or why it cannot be read. -/
  codeFile : Except String String
  connect : Url → Node σ

namespace Program

variable {σ : Type}

/-- A command that prints something, or fails. -/
abbrev Printing (σ : Type) := ExceptT String (StateM σ)

/-- A step that fails with a reason of its own. -/
def orFail {ε α : Type} (message : ε → String) : Except ε α → Printing σ α
  | .ok a => pure a
  | .error e => throw (message e)

/-- The line about a quote. -/
def quote (amountIn reserveIn reserveOut feeBase feeTaken : Nat) : Except String String :=
  match Fee.ofParts? feeBase feeTaken with
  | none => .error s!"fee {feeTaken}/{feeBase} takes the whole input"
  | some fee =>
    match ConstantProduct.amountOut amountIn reserveIn reserveOut fee with
    | .ok out => .ok (toString out ++ "\n")
    | .error e => .error e.message

/-- Payments in the native token below this amount are not shown. -/
def minedDust : Nat := 10 ^ 16

/-- The line about a swap. -/
def swapLine (e : SwapEvent) : String :=
  "  " ++ e.exchange.name ++ " " ++ e.pool.checksummed ++ ": " ++ toString e.amountIn ++ " " ++
    Token.symbol e.tokenIn ++ " -> " ++ toString e.amountOut ++ " " ++ Token.symbol e.tokenOut

/-- A list of pairs of tokens. -/
def pairsText (pairs : List PathFinder.TokenPair) : String :=
  "[" ++ String.intercalate ", " (pairs.map fun p => "(" ++ p.1.hex ++ ", " ++ p.2.hex ++ ")") ++ "]"

/-- The receiver of a transaction. -/
def receiverText : Option Address → String
  | some a => "Some(" ++ a.hex ++ ")"
  | none => "None"

/-- The lines about a mined transaction and its swaps. -/
def transactionLines (tx : Transaction) (wrapped : Address) : List String :=
  ["Transaction " ++ tx.hash.hex,
   "  from " ++ tx.caller.checksummed ++ " to " ++ receiverText tx.receiver ++ " gas " ++ toString tx.gas ++
     " price " ++ toString tx.effectiveGasPrice] ++
  if tx.swapEvents.isEmpty then ["  no swaps"]
  else tx.swapEvents.map swapLine ++
    ["  arbitrage pairs: " ++ pairsText (PathFinder.arbitragePairs tx.swapEvents wrapped),
     "  sandwich pairs: " ++ pairsText (PathFinder.sandwichPairs tx.swapEvents wrapped)]

/-- Shows the swaps of a mined transaction. -/
def trace (w : World σ) (hash : String) : Printing σ String := do
  let config ← orFail ConfigError.message (Config.ofEnvironment w.environment)
  let url ← orFail UrlError.message (Url.ofText config.httpEndpoint)
  let hash ← orFail HexError.message (Bytes.readFixed 32 hash)
  let tx ← ExceptT.adapt TraceError.message
    (Trace.mined (w.connect url) (.ofBytes hash) config.wrappedNative minedDust)
  return String.join ((transactionLines tx config.wrappedNative).map (· ++ "\n"))

/-- Checks what a search for attacks needs before it starts. -/
def prepare (w : World σ) : Except String (Config × Option Bytes) := do
  let config ← (Config.ofEnvironment w.environment).mapError ConfigError.message
  let _ ← (Url.ofText config.httpEndpoint).mapError UrlError.message
  if config.contract.isNone ∧ config.codePath.isSome then
    let file ← w.codeFile
    return (config, ← (config.attackerCode file).mapError ConfigError.message)
  return (config, ← (config.attackerCode "").mapError ConfigError.message)

/-- What a command prints. A search for attacks prints nothing, and ends when there is nothing left to listen to. -/
def perform (w : World σ) : Command → Printing σ String
  | .quote amountIn reserveIn reserveOut feeBase feeTaken =>
    orFail id (quote amountIn reserveIn reserveOut feeBase feeTaken)
  | .trace hash => trace w hash
  | .run _ => do
    let _ ← orFail id (prepare w)
    return ""

/-- Runs the program with its arguments. -/
def run (w : World σ) (arguments : List String) : StateM σ Outcome := do
  match Command.ofArguments arguments with
  | .error .usage => return { exit := 2 }
  | .error (.help topic) => return { exit := 0, output := topic.text }
  | .ok command =>
    match ← (perform w command).run with
    | .ok output => return { exit := 0, output }
    | .error reason => return { exit := 1, failure := some reason }

end Program
end Searcher

/-
# Arguments

The command line names a command and its options:

| command | arguments |
| --- | --- |
| none | as `run` |
| `run` | `--strategy arbitrage` or `--strategy sandwich` |
| `trace` | the hash of a transaction |
| `quote` | `--amount-in`, `--reserve-in`, `--reserve-out`; `--fee-n`, `--fee-s` |
| `help` | a command |

The value of an option follows it, or stands behind a `=`. A value does not begin with a dash, and an option is given
once. After `--` nothing is an option. `-h` and `--help` ask for help where they stand; what is wrong before them is
reported first.
-/

import Searcher.Config
import Searcher.Json.Wire

namespace Searcher

/-- The attack that is looked for. -/
inductive Strategy where
  | arbitrage
  | sandwich
deriving DecidableEq, Repr

namespace Strategy

/-- The name of an attack, as it is given on the command line. -/
def name : Strategy → String
  | arbitrage => "arbitrage"
  | sandwich => "sandwich"

/-- The attack with a name. -/
def ofName? (text : String) : Option Strategy := [arbitrage, sandwich].find? (·.name = text)

end Strategy

/-- What the program is asked to do. -/
inductive Command where
  /-- To look for attacks. -/
  | run (strategy : Strategy)
  /-- To show the swaps of a mined transaction. -/
  | trace (hash : String)
  /-- To quote a pair with its reserves and a fee. -/
  | quote (amountIn reserveIn reserveOut feeBase feeTaken : Nat)
deriving DecidableEq, Repr

/-- What help is about. -/
inductive HelpTopic where
  | program
  | run
  | trace
  | quote
  | help
deriving DecidableEq, Repr

/-- What the arguments ask for instead of a command. -/
inductive ArgumentsError where
  | usage
  | help (topic : HelpTopic)
deriving DecidableEq, Repr

namespace Arguments

/-- The options and the other arguments of a command. -/
structure Given where
  options : List (String × String) := []
  others : List String := []

/-- What a command takes. -/
structure Form where
  topic : HelpTopic
  /-- Whether a value fits an option; nothing for an unknown option. -/
  fits : String → Option (String → Bool)
  /-- How many other arguments there may be. -/
  others : Nat

/-- Adds an option, if it is known and new and its value fits. -/
def Given.addOption (g : Given) (s : Form) (name value : String) : Except ArgumentsError Given :=
  match s.fits name with
  | some fits =>
    if (g.options.lookup name).isNone ∧ fits value then .ok { g with options := g.options ++ [(name, value)] }
    else .error .usage
  | none => .error .usage

/-- Adds another argument, if there may be one more. -/
def Given.addOther (g : Given) (s : Form) (value : String) : Except ArgumentsError Given :=
  if g.others.length < s.others then .ok { g with others := g.others ++ [value] } else .error .usage

/-- Whether an argument has the form of an option. -/
def isOption (a : String) : Bool := a.startsWith "-" ∧ a ≠ "-"

/-- Whether an argument asks for help. -/
def isHelp (a : String) : Bool := a = "--help" ∨ a.startsWith "-h"

/-- The name and the value of an argument that has both. -/
def nameAndValue? (a : String) : Option (String × String) :=
  match a.toList.dropWhile (· ≠ '=') with
  | _ :: value => some (String.ofList (a.toList.takeWhile (· ≠ '=')), String.ofList value)
  | [] => none

/-- Reads the arguments of a command. -/
def read (s : Form) (g : Given) : List String → Except ArgumentsError Given
  | [] => .ok g
  | a :: rest =>
    if a = "--" then rest.foldlM (fun g value => g.addOther s value) g
    else if isHelp a then .error (.help s.topic)
    else if ¬ isOption a then do read s (← g.addOther s a) rest
    else match nameAndValue? a, rest with
      | some (name, value), rest => do read s (← g.addOption s name value) rest
      | none, value :: rest =>
        if isOption value then .error .usage else do read s (← g.addOption s a value) rest
      | none, [] => .error .usage

/-- An amount of 256 bits. -/
def amount? (text : String) : Option Nat := (Json.numberOfText? text).filter (· < 2 ^ 256)

/-- What `run` takes. -/
def runForm : Form where
  topic := .run
  fits name := if name = "--strategy" then some fun v => (Strategy.ofName? v).isSome else none
  others := 0

/-- What `trace` takes. -/
def traceForm : Form := ⟨.trace, fun _ => none, 1⟩

/-- What `quote` takes. -/
def quoteForm : Form where
  topic := .quote
  fits name :=
    if ["--amount-in", "--reserve-in", "--reserve-out"].contains name then some fun v => (amount? v).isSome
    else if ["--fee-n", "--fee-s"].contains name then some fun v => (Config.number? v).isSome
    else none
  others := 0

/-- The number of an option. -/
def Given.number (g : Given) (read : String → Option Nat) (name : String) : Except ArgumentsError Nat :=
  match (g.options.lookup name).bind read with
  | some n => .ok n
  | none => .error .usage

/-- The number of an option that has a default. -/
def Given.numberD (g : Given) (name : String) (default : Nat) : Nat :=
  ((g.options.lookup name).bind Config.number?).getD default

/-- What help is about, by the name of a command. -/
def topic? : List String → Option HelpTopic
  | [] => some .program
  | ["run"] => some .run
  | ["trace"] => some .trace
  | ["quote"] => some .quote
  | ["help"] => some .help
  | _ => none

end Arguments

open Arguments in
/-- Reads the command line. -/
def Command.ofArguments : List String → Except ArgumentsError Command
  | [] | ["--"] => .ok (.run .arbitrage)
  | "run" :: rest => do
    let g ← Arguments.read runForm {} rest
    return .run (((g.options.lookup "--strategy").bind Strategy.ofName?).getD .arbitrage)
  | "trace" :: rest => do
    match (← Arguments.read traceForm {} rest).others with
    | [hash] => return .trace hash
    | _ => throw .usage
  | "quote" :: rest => do
    let g ← Arguments.read quoteForm {} rest
    return .quote (← g.number amount? "--amount-in") (← g.number amount? "--reserve-in")
      (← g.number amount? "--reserve-out") (g.numberD "--fee-n" 1000) (g.numberD "--fee-s" 3)
  | "help" :: rest =>
    match topic? rest with
    | some topic => .error (.help topic)
    | none => .error .usage
  | a :: _ => .error (if isHelp a then .help .program else .usage)

end Searcher

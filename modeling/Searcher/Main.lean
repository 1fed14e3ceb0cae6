/-
# The command line

The thin layer around the program: it reads the environment and the file with the attacker's code, and prints. No
network is at hand here, so every node is out of reach.
-/

import Searcher.CommandLine.Program

open Searcher

/-- The variables that are read. -/
def variableNames : List String :=
  ["HTTP_ENDPOINT", "RELAY_WS_ENDPOINT", "RELAY_BLOCK_WS_ENDPOINT", "RELAY_HTTP_ENDPOINT", "RELAY_AUTHORIZATION",
    "RELAY_NETWORK", "FORK_ENDPOINT", "ACCOUNT_PRIVATE_KEY", "CONTRACT_ADDRESS", "ATTACKER_BYTECODE_PATH",
    "WRAPPED_NATIVE", "WORKERS", "QUEUE_CAPACITY", "MULTICALL_CHUNK", "TRIAL_TIMEOUT_MS", "PATH_TIMEOUT_MS",
    "TICK_CACHE_CAPACITY", "RECONNECT_DELAY_MS"]

/-- The environment of the process. -/
def environment : IO Environment := do
  let set ← variableNames.mapM fun key => return (key, ← IO.getEnv key)
  return fun key => (set.lookup key).join

/-- The contents of a file, or why it cannot be read. -/
def contents (path : String) : IO (Except String String) := do
  try return .ok (← IO.FS.readFile path)
  catch e => return .error (toString e)

/-- The program: its environment and files are read, it is run against a node that is not connected, and its output is
printed. -/
def main (arguments : List String) : IO UInt32 := do
  let environment ← environment
  let codeFile ← contents ((environment "ATTACKER_BYTECODE_PATH").getD "")
  let connect (u : Url) : Node Unit := Node.offline ("error sending request for url (" ++ u.render ++ ")")
  let (outcome, _) := Program.run { environment, codeFile, connect } arguments ()
  IO.print outcome.output
  match outcome.failure with
  | some reason => IO.eprintln ("Error: " ++ reason)
  | none => return outcome.exit.toUInt32
  return outcome.exit.toUInt32

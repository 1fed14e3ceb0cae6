/-
# Configuration

The program is configured by variables of its environment. Only the endpoint of the node has no default.

| variable | default |
| --- | --- |
| `HTTP_ENDPOINT` | |
| `RELAY_WS_ENDPOINT`, `RELAY_BLOCK_WS_ENDPOINT` | `wss://virginia.bsc.blxrbdn.com/ws` |
| `RELAY_HTTP_ENDPOINT` | `https://mev.api.blxrbdn.com` |
| `RELAY_AUTHORIZATION`, `ACCOUNT_PRIVATE_KEY`, `CONTRACT_ADDRESS`, `ATTACKER_BYTECODE_PATH` | none |
| `RELAY_NETWORK` | `BSC-Mainnet` |
| `FORK_ENDPOINT` | `http://127.0.0.1:8545` |
| `WRAPPED_NATIVE` | the wrapped native token |
| `WORKERS`, `QUEUE_CAPACITY`, `MULTICALL_CHUNK` | 6, 30, 100 |
| `TRIAL_TIMEOUT_MS`, `PATH_TIMEOUT_MS`, `RECONNECT_DELAY_MS` | 2000, 8000, 100 |
| `TICK_CACHE_CAPACITY` | 4096 |

An address may have blanks around it, and an empty one counts as absent. A number may have a plus sign.
-/

import Searcher.Text.Hex
import Searcher.Token

namespace Searcher

/-- The variables of the environment that are set. -/
abbrev Environment := String → Option String

/-- Why the program is not configured. -/
inductive ConfigError where
  | missing (key : String)
  /-- The variable is not a number. -/
  | invalid (key value : String)
  | notAddress (key : String) (cause : HexError)
  /-- Neither a contract nor the code of one is given. -/
  | noAttacker
  | badCode (cause : HexError)
deriving DecidableEq, Repr

/-- The reason for people. -/
def ConfigError.message : ConfigError → String
  | missing key => key ++ " not set"
  | invalid key value => key ++ " has an invalid value: " ++ value
  | notAddress key cause => key ++ " is not an address: " ++ cause.message
  | noAttacker => "either CONTRACT_ADDRESS or ATTACKER_BYTECODE_PATH must be set"
  | badCode cause => cause.message

/-- The configuration. Times are in milliseconds. -/
structure Config where
  httpEndpoint : String
  relayWsEndpoint : String
  relayBlockWsEndpoint : String
  relayHttpEndpoint : String
  relayAuthorization : String
  network : String
  /-- One endpoint, or several with commas between. -/
  forkEndpoint : String
  privateKey : Option String
  contract : Option Address
  codePath : Option String
  wrappedNative : Address
  workers : Nat
  queueCapacity : Nat
  multicallChunk : Nat
  trialTimeout : Nat
  pathTimeout : Nat
  tickCacheCapacity : Nat
  reconnectDelay : Nat
deriving DecidableEq

namespace Config

/-- A number of 64 bits in base 10. -/
def number? (text : String) : Option Nat :=
  let digits := match text.toList with
    | '+' :: cs => cs
    | cs => cs
  if digits.isEmpty ∨ ¬ digits.all Char.isDigit then none
  else
    let n := digits.foldl (fun acc c => acc * 10 + (c.toNat - 48)) 0
    if n < 2 ^ 64 then some n else none

/-- The number of a variable. -/
def number (env : Environment) (key : String) (default : Nat) : Except ConfigError Nat :=
  match env key with
  | none => .ok default
  | some raw => match number? raw with
    | some n => .ok n
    | none => .error (.invalid key raw)

/-- The address of a variable. -/
def address (env : Environment) (key : String) : Except ConfigError (Option Address) :=
  match env key with
  | none | some "" => .ok none
  | some raw => match Bytes.readFixed 20 (Text.trim raw) with
    | .ok bs => .ok (some (.ofBytes bs))
    | .error cause => .error (.notAddress key cause)

/-- The configuration of an environment. The first variable in this order that is wrong is reported. -/
def ofEnvironment (env : Environment) : Except ConfigError Config := do
  let some httpEndpoint := env "HTTP_ENDPOINT" | throw (.missing "HTTP_ENDPOINT")
  let text (key default : String) : String := (env key).getD default
  let feed := "wss://virginia.bsc.blxrbdn.com/ws"
  return {
    httpEndpoint
    relayWsEndpoint := text "RELAY_WS_ENDPOINT" feed
    relayBlockWsEndpoint := text "RELAY_BLOCK_WS_ENDPOINT" feed
    relayHttpEndpoint := text "RELAY_HTTP_ENDPOINT" "https://mev.api.blxrbdn.com"
    relayAuthorization := text "RELAY_AUTHORIZATION" ""
    network := text "RELAY_NETWORK" "BSC-Mainnet"
    forkEndpoint := text "FORK_ENDPOINT" "http://127.0.0.1:8545"
    privateKey := env "ACCOUNT_PRIVATE_KEY"
    contract := ← address env "CONTRACT_ADDRESS"
    codePath := env "ATTACKER_BYTECODE_PATH"
    wrappedNative := (← address env "WRAPPED_NATIVE").getD Token.wbnb
    workers := ← number env "WORKERS" 6
    queueCapacity := ← number env "QUEUE_CAPACITY" 30
    multicallChunk := ← number env "MULTICALL_CHUNK" 100
    trialTimeout := ← number env "TRIAL_TIMEOUT_MS" 2000
    pathTimeout := ← number env "PATH_TIMEOUT_MS" 8000
    tickCacheCapacity := ← number env "TICK_CACHE_CAPACITY" 4096
    reconnectDelay := ← number env "RECONNECT_DELAY_MS" 100 }

/-- Where attacker code is installed on a fork when there is no contract. -/
def installedAttacker : Address := .ofNat 0xa77ac

/-- The attacker contract on the fork. -/
def attacker (c : Config) : Address := c.contract.getD installedAttacker

/-- The fork endpoints without blanks around them. -/
def forkEndpoints (c : Config) : List String :=
  ((c.forkEndpoint.splitOn ",").map Text.trim).filter (· ≠ "")

/-- The fork endpoint of a worker: they take turns. -/
def forkEndpointFor (c : Config) (worker : Nat) : String :=
  c.forkEndpoints.getD (worker % c.forkEndpoints.length) c.forkEndpoint

/-- The digits of attacker code after any number of `0x`. -/
def codeDigits : List Char → List Char
  | '0' :: 'x' :: rest => codeDigits rest
  | cs => cs

/-- The code to install on forks, where `file` holds it in hexadecimal; none when there is a contract. -/
def attackerCode (c : Config) (file : String) : Except ConfigError (Option Bytes) :=
  match c.contract, c.codePath with
  | some _, _ => .ok none
  | none, none => .error .noAttacker
  | none, some _ =>
    match Bytes.read (String.ofList (codeDigits (Text.trimChars file.toList))) with
    | .ok code => .ok (some code)
    | .error cause => .error (.badCode cause)

end Config
end Searcher

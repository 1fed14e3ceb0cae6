/-
# Addresses of services

An address of a service names a scheme, and, for the schemes of the web, a host and a port:

    scheme://user@host:port/path

Blanks around an address do not count, and line ends and tabulators nowhere. The schemes of the web need a host; of all
other schemes only the form of host and port is checked.

| part | form |
| --- | --- |
| scheme | a letter, then letters, digits, `+`, `-` and `.` |
| host | a name without special characters, four numbers with dots between, or a number of 128 bits in brackets |
| port | a number of 16 bits, or nothing |
-/

import Searcher.Bytes

namespace Searcher

/-- Why a text is not the address of a service. -/
inductive UrlError where
  | noScheme
  | emptyHost
  | port
  /-- The host has a character that no name of a host has. -/
  | hostName
  /-- The same where the scheme is not one of the web. -/
  | hostCharacter
  | fourNumbers
  | brackets
deriving DecidableEq, Repr

/-- The reason for people. -/
def UrlError.message : UrlError → String
  | noScheme => "relative URL without a base"
  | emptyHost => "empty host"
  | port => "invalid port number"
  | hostName => "invalid international domain name"
  | hostCharacter => "invalid domain character"
  | fourNumbers => "invalid IPv4 address"
  | brackets => "invalid IPv6 address"

/-- The address of a service. -/
structure Url where
  scheme : String
  /-- The host and the port, where the scheme has them. -/
  host : Option (String × Option Nat)
  /-- All that follows. -/
  rest : String
deriving DecidableEq, Repr

namespace Url

/-- The schemes of the web with their ports. -/
def webPorts : List (String × Nat) := [("http", 80), ("https", 443), ("ws", 80), ("wss", 443), ("ftp", 21)]

/-- Whether a character is left out at the ends. -/
def isEdge (c : Char) : Bool := c.toNat ≤ 0x20

/-- The characters of an address without those that do not count. -/
def significant (text : String) : List Char :=
  (((text.toList.dropWhile isEdge).reverse.dropWhile isEdge).reverse).filter
    fun c => c ≠ '\t' ∧ c ≠ '\n' ∧ c ≠ '\r'

/-- Whether a scheme may have the character after its first. -/
def isSchemeChar (c : Char) : Bool := c.isAlphanum ∨ c = '+' ∨ c = '-' ∨ c = '.'

/-- The scheme in lower case, and what follows its colon. -/
def scheme? (cs : List Char) : Option (String × List Char) :=
  let name := cs.takeWhile isSchemeChar
  match cs.dropWhile isSchemeChar with
  | ':' :: rest => if name.head?.any Char.isAlpha then some (String.ofList (name.map Char.toLower), rest) else none
  | _ => none

/-- The characters that end host and port. -/
def endsAuthority (web : Bool) (c : Char) : Bool := c = '/' ∨ c = '?' ∨ c = '#' ∨ (web ∧ c = '\\')

/-- The characters after the last `@`, or all. -/
def withoutUser (cs : List Char) : List Char :=
  if cs.contains '@' then (cs.reverse.takeWhile (· ≠ '@')).reverse else cs

/-- The host and the text of the port. Colons within brackets belong to the host. -/
def splitPort (cs : List Char) : List Char × Option (List Char) :=
  let inBrackets := if cs.head? = some '[' then (cs.takeWhile (· ≠ ']')).length else 0
  let host := cs.take inBrackets ++ (cs.drop inBrackets).takeWhile (· ≠ ':')
  match cs.drop host.length with
  | [] => (host, none)
  | _ :: port => (host, some port)

/-- The number of a port; nothing when no port is named. -/
def port? : Option (List Char) → Except UrlError (Option Nat)
  | none | some [] => .ok none
  | some cs =>
    let n := cs.foldl (fun acc c => acc * 10 + (c.toNat - 48)) 0
    if cs.all Char.isDigit ∧ n < 2 ^ 16 then .ok (some n) else .error .port

/-- The characters that no host has. -/
def isForbidden (c : Char) : Bool :=
  c = '\x00' ∨ " \t\n\r#/:<>?@[\\]^|".toList.contains c

/-- The characters that no name of a host has. -/
def isForbiddenInName (c : Char) : Bool := isForbidden c ∨ c.toNat < 0x20 ∨ c = '%' ∨ c.toNat = 0x7F

/-- The texts between separators. -/
def splitAt (separator : Char) (cs : List Char) : List (List Char) :=
  cs.foldr (fun c parts => if c = separator then [] :: parts else
    match parts with
    | part :: rest => (c :: part) :: rest
    | [] => [[c]]) [[]]

/-- The value of a digit in base 16. -/
def digit? (c : Char) : Option Nat :=
  if c.isDigit then some (c.toNat - 48)
  else if 'a' ≤ c ∧ c ≤ 'f' then some (c.toNat - 87)
  else if 'A' ≤ c ∧ c ≤ 'F' then some (c.toNat - 55)
  else none

/-- The number of digits in a base; none of no digits. -/
def digits? (base : Nat) (cs : List Char) : Option Nat :=
  cs.foldlM (fun acc c => do
    let d ← digit? c
    if d < base then some (acc * base + d) else none) 0

/-- A part of a host of four numbers: in base 16 after `0x`, in base 8 after `0`, else in base 10. -/
def part? : List Char → Option Nat
  | [] => none
  | '0' :: 'x' :: cs | '0' :: 'X' :: cs => digits? 16 cs
  | '0' :: c :: cs => digits? 8 (c :: cs)
  | cs => digits? 10 cs

/-- The parts of a host of numbers; one dot may follow the last. -/
def parts (cs : List Char) : List (List Char) :=
  let all := splitAt '.' cs
  if 1 < all.length ∧ all.getLast? = some [] then all.dropLast else all

/-- Whether the last part of a host is a number, so that it has to be one of four numbers. -/
def endsInNumber (cs : List Char) : Bool :=
  match (parts cs).getLast? with
  | some last => (¬ last.isEmpty ∧ last.all Char.isDigit) ∨ (last.take 2 = ['0', 'x'] ∧ (part? last).isSome)
  | none => false

/-- The number of 32 bits of a host of numbers. The last part fills all bytes that are left. -/
def fourNumbers? (cs : List Char) : Option Nat := do
  let numbers ← (parts cs).mapM part?
  let last ← numbers.getLast?
  let firsts := numbers.dropLast
  if 3 < firsts.length ∨ firsts.any (255 < ·) ∨ 256 ^ (4 - firsts.length) ≤ last then none
  return firsts.zipIdx.foldl (fun acc (n, i) => acc + n * 256 ^ (3 - i)) last

/-- Four numbers with dots between. -/
def dotted (n : Nat) : String :=
  String.intercalate "." ((List.range 4).map fun i => toString (n / 256 ^ (3 - i) % 256))

/-- Whether a text in brackets is a number of 128 bits: eight groups of digits, or fewer with one gap. -/
def isBracketed (cs : List Char) : Bool :=
  let groups := splitAt ':' cs
  let full := groups.filter (¬ ·.isEmpty)
  let gaps := groups.length - full.length
  full.all (fun g => g.length ≤ 4 ∧ (digits? 16 g).isSome) ∧
    ((gaps = 0 ∧ full.length = 8) ∨
      (0 < gaps ∧ full.length < 8 ∧ 1 < ((String.ofList cs).splitOn "::").length ∧ gaps ≤ 3))

/-- The host of an address, in its plain form. -/
def host? (web : Bool) (cs : List Char) : Except UrlError String :=
  match cs with
  | '[' :: inner =>
    if inner.getLast? = some ']' ∧ isBracketed inner.dropLast then .ok (String.ofList (cs.map Char.toLower))
    else .error .brackets
  | cs =>
    if ¬ web then if cs.any isForbidden then .error .hostCharacter else .ok (String.ofList cs)
    else if cs.isEmpty then .error .emptyHost
    else if cs.any isForbiddenInName then .error .hostName
    else
      let name := cs.map Char.toLower
      if endsInNumber name then match fourNumbers? name with
        | some n => .ok (dotted n)
        | none => .error .fourNumbers
      else .ok (String.ofList name)

/-- The address whose scheme is read, where host and port follow. -/
def ofAuthority (scheme : String) (web : Bool) (cs : List Char) : Except UrlError Url := do
  let authority := cs.takeWhile (¬ endsAuthority web ·)
  let (host, port) := splitPort (withoutUser authority)
  if host.isEmpty ∧ (port.isSome ∨ authority.contains '@') then throw .emptyHost
  let host ← host? web host
  let port ← port? port
  let rest := String.ofList (cs.drop authority.length)
  return ⟨scheme, some (host, port.filter fun p => webPorts.lookup scheme ≠ some p), rest⟩

/-- Reads the address of a service. -/
def ofText (text : String) : Except UrlError Url :=
  match scheme? (significant text) with
  | none => .error .noScheme
  | some (scheme, cs) =>
    if (webPorts.lookup scheme).isSome then ofAuthority scheme true (cs.dropWhile fun c => c = '/' ∨ c = '\\')
    else match cs with
      | '/' :: '/' :: rest =>
        if scheme = "file" then .ok ⟨scheme, none, String.ofList cs⟩ else ofAuthority scheme false rest
      | cs => .ok ⟨scheme, none, String.ofList cs⟩

/-- The address in its plain form. -/
def render (u : Url) : String :=
  match u.host with
  | none => u.scheme ++ ":" ++ u.rest
  | some (host, port) =>
    let port := match port with
      | some p => ":" ++ toString p
      | none => ""
    let path := if u.rest.startsWith "/" ∨ (webPorts.lookup u.scheme).isNone then u.rest else "/" ++ u.rest
    u.scheme ++ "://" ++ host ++ port ++ path

end Url
end Searcher

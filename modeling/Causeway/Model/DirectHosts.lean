import Mathlib.Data.List.Basic

/-!
# Direct hosts

`config.rs`: the host names that go past the node, as they are read from the configuration and validated again.
-/

namespace Causeway

/-- Rejections; the source puts the value and the reason into one text. -/
inductive DirectHostError where
  | invalid (value reason : String)
  | duplicate (host : String)
  | notCanonical (host canonical : String)
deriving DecidableEq

structure RoutingConfig where
  directHosts : List String

/-! ### Address literals -/

/-- An octet of an IPv4 literal: decimal, without a leading zero. -/
def isOctet (text : List Char) : Bool :=
  !text.isEmpty && text.length ≤ 3 && text.all Char.isDigit && (text.length = 1 || text.head? ≠ some '0') &&
    Nat.ofDigitChars 10 text 0 ≤ 255

def isIpv4 (text : List Char) : Bool := (text.splitOn '.').length = 4 && (text.splitOn '.').all isOctet

def isHexDigit (c : Char) : Bool := c.isDigit || ('a' ≤ c && c ≤ 'f') || ('A' ≤ c && c ≤ 'F')

def isHexGroup (text : List Char) : Bool := !text.isEmpty && text.length ≤ 4 && text.all isHexDigit

/-- The number of 16-bit groups that pieces between colons stand for; only the last one may be an IPv4 literal. -/
def countGroups (embedded : Bool) : List (List Char) → Option Nat
  | [] => some 0
  | [piece] => if isHexGroup piece then some 1 else if embedded && isIpv4 piece then some 2 else none
  | piece :: pieces => if isHexGroup piece then (countGroups embedded pieces).map (· + 1) else none

/-- The groups of one side of `::`. -/
def sideGroups (embedded : Bool) (text : List Char) : Option Nat :=
  if text.isEmpty then some 0 else countGroups embedded (text.splitOn ':')

/-- What stands before and after the first `::`. -/
def splitDoubleColon : List Char → Option (List Char × List Char)
  | [] => none
  | [_] => none
  | c :: d :: text =>
      if c = ':' && d = ':' then some ([], text)
      else (splitDoubleColon (d :: text)).map fun sides => (c :: sides.1, sides.2)

def isIpv6 (text : List Char) : Bool :=
  match splitDoubleColon text with
  | none => countGroups true (text.splitOn ':') = some 8
  | some (head, tail) =>
      match sideGroups false head, sideGroups true tail with
      | some m, some n => m + n ≤ 7
      | _, _ => false

def isIpAddr (text : List Char) : Bool := isIpv4 text || isIpv6 text

/-! ### Canonical hosts -/

/-- The first reason against a label. -/
def labelError (label : List Char) : Option String :=
  if label.isEmpty then some "DNS labels must not be empty"
  else if 63 < label.length then some "each DNS label must be at most 63 bytes"
  else if !(label.head?.any Char.isAlphanum) || !(label.getLast?.any Char.isAlphanum) then
    some "each DNS label must start and end with an ASCII letter or digit"
  else if !(label.all fun c => c.isAlphanum || c = '-') then
    some "DNS labels may contain only ASCII letters, digits, and hyphens"
  else none

def canonicalDirectHost (value : String) : Except DirectHostError String :=
  let text := value.toList
  let labels := text.splitOn '.'
  if text.isEmpty then .error (.invalid value "hostname must not be empty")
  else if !(text.all fun c => c.toNat < 128) then .error (.invalid value "hostname must contain ASCII DNS labels only")
  else if 253 < value.utf8ByteSize then .error (.invalid value "hostname must be at most 253 bytes")
  else if isIpAddr text then .error (.invalid value "IP literals are not allowed")
  else if !text.contains '.' then .error (.invalid value "hostname must contain at least one dot")
  else if labels.all fun label => label.all Char.isDigit then
    .error (.invalid value "numeric dotted addresses are not allowed")
  else
    match labels.findSome? labelError with
    | some reason => .error (.invalid value reason)
    | none => .ok (String.ofList (text.map Char.toLower))

/-- The loop of `deserialize_direct_hosts`, with the hosts it has seen. -/
def readDirectHosts (seen directHosts : List String) : List String → Except DirectHostError (List String)
  | [] => .ok directHosts
  | configured :: rest => do
      let host ← canonicalDirectHost configured
      if host ∈ seen then throw (.duplicate host)
      readDirectHosts (host :: seen) (directHosts ++ [host]) rest

def deserializeDirectHosts (configured : List String) : Except DirectHostError (List String) := readDirectHosts [] [] configured

/-- The loop of `RoutingConfig::validate`. -/
def checkDirectHosts (seen : List String) : List String → Except DirectHostError Unit
  | [] => .ok ()
  | host :: rest => do
      let canonical ← canonicalDirectHost host
      if canonical ≠ host then throw (.notCanonical host canonical)
      if canonical ∈ seen then throw (.duplicate canonical)
      checkDirectHosts (canonical :: seen) rest

def RoutingConfig.validate (routing : RoutingConfig) : Except DirectHostError Unit := checkDirectHosts [] routing.directHosts

end Causeway

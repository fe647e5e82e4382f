import Causeway.Model.Egress
import Causeway.Text.Numeral

/-!
# Process identities

`dataplane.rs`: who owns a directory of credentials, as its marker and as its name, when the process table says that a process started, and the names of the credential files.
-/

namespace Causeway

def instancePrefix : String := "causeway-instance-v1-"

def identityFileName : String := "identity-v1"

structure ProcessIdentity where
  bootId : String
  pid : UInt32
  startTime : UInt64
deriving DecidableEq

/-- `str::parse::<u32>` -/
def parseU32 (text : List Char) : Option UInt32 := (Text.parseUnsigned (2 ^ 32) text).map UInt32.ofNat

/-- `str::parse::<u64>` -/
def parseU64 (text : List Char) : Option UInt64 := (Text.parseUnsigned (2 ^ 64) text).map UInt64.ofNat

/-- `str::strip_prefix` -/
def stripPrefix (start text : List Char) : Option (List Char) :=
  if start.isPrefixOf text then some (text.drop start.length) else none

/-- `str::strip_suffix` -/
def stripSuffix (stop text : List Char) : Option (List Char) :=
  if stop.isSuffixOf text then some (text.take (text.length - stop.length)) else none

def isLowerHex (c : Char) : Bool := c.isDigit || ('a' ≤ c && c ≤ 'f')

/-- The source counts bytes; what it admits has one byte for each character. -/
def validBootId (value : List Char) : Bool :=
  value.length = 36 && value.zipIdx.all fun byte =>
    if byte.2 ∈ [8, 13, 18, 23] then byte.1 = '-' else isLowerHex byte.1

namespace ProcessIdentity

def encode (identity : ProcessIdentity) : String :=
  "schema=1\nboot_id=" ++ identity.bootId ++ "\npid=" ++ toString identity.pid ++ "\nstart_time=" ++
    toString identity.startTime ++ "\n"

def parse (value : String) : Option ProcessIdentity :=
  match textLines value.toList with
  | [schema, boot, pid, start] => do
      guard (schema = "schema=1".toList)
      let bootId ← stripPrefix "boot_id=".toList boot
      let pid ← (stripPrefix "pid=".toList pid).bind parseU32
      let startTime ← (stripPrefix "start_time=".toList start).bind parseU64
      guard (validBootId bootId)
      let identity := { bootId := String.ofList bootId, pid := pid, startTime := startTime }
      guard (value = identity.encode)
      return identity
  | _ => none

end ProcessIdentity

def strictInstanceName (identity : ProcessIdentity) (nonceHex : String) : String :=
  instancePrefix ++ identity.bootId ++ "-" ++ toString identity.pid ++ "-" ++ toString identity.startTime ++ "-" ++ nonceHex

/-- `identity_from_instance_name`; the boot id has hyphens of its own, so it is a slice. -/
def identityFromInstanceName (name : String) : Option ProcessIdentity := do
  let rest ← stripPrefix instancePrefix.toList name.toList
  let bootId := rest.take 36
  guard (validBootId bootId)
  let fields ← stripPrefix ['-'] (rest.drop 36)
  match fields.splitOn '-' with
  | [pidText, startText, nonce] => do
      let pid ← parseU32 pidText
      guard ((toString pid).toList = pidText)
      let startTime ← parseU64 startText
      guard ((toString startTime).toList = startText)
      guard (nonce.length = 32 && nonce.all isLowerHex)
      return { bootId := String.ofList bootId, pid := pid, startTime := startTime }
  | _ => none

/-- The command name may have spaces and parentheses; the fields begin after the last parenthesis. -/
def parseProcessStartTime (stat : List Char) : Option UInt64 :=
  if ')' ∈ stat then
    (splitWhitespace (stat.reverse.takeWhile (· ≠ ')')).reverse)[19]?.bind parseU64
  else none

/-- `split_once('-')` -/
def splitHyphen (text : List Char) : Option (List Char × List Char) :=
  match text.dropWhile (· ≠ '-') with
  | [] => none
  | _ :: rest => some (text.takeWhile (· ≠ '-'), rest)

def strictCredentialName (name : String) : Bool :=
  match stripSuffix ".json".toList name.toList with
  | none => false
  | some stem =>
      match (stripPrefix "sslocal-".toList stem).or (stripPrefix "singbox-".toList stem) with
      | none => false
      | some rest =>
          match splitHyphen rest with
          | none => false
          | some (pid, sequence) =>
              !pid.isEmpty && pid.all Char.isDigit && (parseU32 pid).any (fun value => (toString value).toList = pid) &&
                sequence.length = 16 && sequence.all isLowerHex

/-- The name that `PrivateConfig::create` gives a file. -/
def privateConfigName (adapter : String) (pid : UInt32) (sequence : UInt64) : String :=
  adapter ++ "-" ++ toString pid ++ "-" ++ String.ofList (List.leftpad 16 '0' (Nat.toDigits 16 sequence.toNat)) ++ ".json"

end Causeway

import Causeway.Model.Keys

/-!
# The URL file

How the dashboard's editor saves the URL of a subscription, and what the daemon's next fetch makes of the file. A tree says what each path leads to.
-/

namespace Causeway

inductive Entry where
  | file (content : ByteArray) (mode : Nat)
  | directory
  /-- A device, a pipe or a socket. -/
  | special

abbrev Tree := Path → Option Entry

/-- How the calls on the temporary file go, as far as the tree leaves it open. -/
structure WriteCalls where
  opened : Bool
  /-- The mode of a new file, after the process's mask. -/
  mode : Nat
  /-- The number of bytes that are written if not all are. -/
  short : Option Nat
  synced : Bool
  permitted : Bool
  renamed : Bool
  /-- The text of whatever fails. -/
  error : String

namespace Tree

def openTruncate (tree : Tree) (calls : WriteCalls) (path : Path) : Option Tree :=
  match calls.opened, tree path with
  | true, none => some (Function.update tree path (some (.file .empty calls.mode)))
  | true, some (.file _ mode) => some (Function.update tree path (some (.file .empty mode)))
  | true, some .special => some tree
  | _, _ => none

/-- Write to what has just been opened. -/
def write (tree : Tree) (path : Path) (content : ByteArray) : Tree :=
  match tree path with
  | some (.file _ mode) => Function.update tree path (some (.file content mode))
  | _ => tree

def setPermissions (tree : Tree) (path : Path) (mode : Nat) : Tree :=
  match tree path with
  | some (.file content _) => Function.update tree path (some (.file content mode))
  | _ => tree

/-- `rename`; a directory is not replaced. -/
def rename (tree : Tree) (calls : WriteCalls) (old new : Path) : Option Tree :=
  match calls.renamed, tree new with
  | false, _ | _, some .directory => none
  | _, _ => some (Function.update (Function.update tree new (tree old)) old none)

end Tree

/-! ### Saving -/

/-- The path with `.tmp` after its file name. -/
def urlTmp (path : Path) (name : String) : Path := path.dropLast ++ [name ++ ".tmp"]

def urlBytes (url : String) : ByteArray := url.toUTF8 ++ "\n".toUTF8

def writeSubscriptionUrlAtomic (calls : WriteCalls) (path : Path) (url : String) (tree : Tree) : Except String Unit × Tree :=
  match fileName path with
  | none => (.error "url_file has no file name", tree)
  | some name =>
      let tmp := urlTmp path name
      match tree.openTruncate calls tmp with
      | none => (.error calls.error, tree)
      | some tree =>
          match calls.short with
          | some count => (.error calls.error, tree.write tmp ((urlBytes url).extract 0 count))
          | none =>
              let tree := tree.write tmp (urlBytes url)
              if !calls.synced then (.error calls.error, tree)
              else if !calls.permitted then (.error calls.error, tree)
              else
                let tree := tree.setPermissions tmp 0o600
                match tree.rename calls tmp path with
                | none => (.error calls.error, tree)
                | some tree => (.ok (), tree)

/-! ### Fetching -/

inductive SubscriptionError where
  | io (path : Path)
  | invalidUrlFile (path : Path)
deriving DecidableEq

def validateSecretFile (tree : Tree) (path : Path) : Except SubscriptionError Unit :=
  match tree path with
  | none => .error (.io path)
  | some (.file _ mode) => if mode &&& 0o077 ≠ 0 then .error (.invalidUrlFile path) else .ok ()
  | some _ => .error (.invalidUrlFile path)

/-- The URL that `fetch_remote_manifest_with` hands to `curl`. -/
def fetchUrl (tree : Tree) (path : Path) : Except SubscriptionError String := do
  validateSecretFile tree path
  match tree path with
  | some (.file content _) =>
      if Dashboard.maxSubscriptionUrlBytes < content.size then throw (.invalidUrlFile path)
      match String.fromUTF8? content with
      | none => throw (.io path)
      | some raw =>
          let url := trim raw
          if !url.startsWith Dashboard.urlScheme || url.utf8ByteSize ≤ Dashboard.urlScheme.utf8ByteSize ||
              url.toList.any fun c => isWhitespace c || isControl c then
            throw (.invalidUrlFile path)
          else return url
  | _ => throw (.io path)

def replaceChar (c : Char) (text : List Char) (value : List Char) : List Char :=
  value.flatMap fun d => if d = c then text else [d]

def escapeCurlConfig (value : List Char) : List Char := replaceChar '"' ['\\', '"'] (replaceChar '\\' ['\\', '\\'] value)

def subscriptionFetchUserAgent : String := "clash-verge/v2.2.3"

/-- What is written to the standard input of `curl`. -/
def fetcherConfig (url : String) : List Char :=
  "user-agent = \"".toList ++ subscriptionFetchUserAgent.toList ++ "\"\nurl = \"".toList ++ escapeCurlConfig url.toList ++ "\"\n".toList

end Causeway

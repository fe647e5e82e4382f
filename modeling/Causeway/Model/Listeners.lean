import Mathlib.Data.Finset.Card
import Causeway.Model.Adapters
import Causeway.Model.Identity
import Causeway.Text.Hex

/-!
# Owned listeners

`dataplane.rs`: whether the listening sockets at the two addresses of an adapter belong to the process that was spawned, from the kernel's table of TCP sockets and from the descriptors of the process.
-/

namespace Causeway

open Text

inductive ByteOrder where
  | little
  | big
deriving DecidableEq

/-- `u32::from_ne_bytes` -/
def fromNeBytes (order : ByteOrder) (a b c d : UInt8) : UInt32 :=
  match order with
  | .little => UInt32.ofNat (256 * (256 * (256 * d.toNat + c.toNat) + b.toNat) + a.toNat)
  | .big => UInt32.ofNat (256 * (256 * (256 * a.toNat + b.toNat) + c.toNat) + d.toNat)

/-- What is looked up in the table for an address. -/
def listenerKey (order : ByteOrder) (addr : SocketAddr) : Except String (List Char) :=
  match addr.ip with
  | .v4 a b c d => .ok (paddedHex 8 (fromNeBytes order a b c d).toNat ++ ':' :: paddedHex 4 addr.port.toNat)
  | .v6 _ => .error "adapter ownership check supports IPv4 loopback only"

/-- The inode in a row for a listening socket at one of the addresses. -/
def listeningInode (wanted : Finset (List Char)) (line : List Char) : Option (List Char) :=
  let fields := splitWhitespace line
  if 9 < fields.length ∧ fields[3]? = some "0A".toList ∧ fields[1]?.any (· ∈ wanted) then fields[9]? else none

/-- The inode in the target of a descriptor's link. -/
def socketInode (target : List Char) : Option (List Char) :=
  (stripPrefix "socket:[".toList target).bind (stripSuffix [']'])

/-- The links in `/proc/<pid>/fd`, with the targets of those that can be read; `none` where there is no such process. -/
abbrev Descriptors := Option (List (Option (List Char)))

/-- `child_owns_listeners`, with the results of reading the kernel's table and the descriptors. -/
def childOwnsListeners (order : ByteOrder) (tcp : Except String (List Char)) (fds : Except String Descriptors)
    (first second : SocketAddr) : Except String Bool := do
  let firstKey ← listenerKey order first
  let secondKey ← listenerKey order second
  let wanted : Finset (List Char) := {firstKey, secondKey}
  let table ← tcp
  let listeningInodes := (((textLines table).drop 1).filterMap (listeningInode wanted)).toFinset
  if listeningInodes.card ≠ wanted.card then return false
  match ← fds with
  | none => return false
  | some targets =>
      let owned := ((targets.reduceOption.filterMap socketInode).filter (· ∈ listeningInodes)).toFinset
      return owned = listeningInodes

end Causeway

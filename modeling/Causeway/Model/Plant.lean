import Causeway.Model.Listeners
import Causeway.Model.Throttle

/-!
# What data planes share

`dataplane.rs`: the files of the workspace, the processes and the sockets of the machine, and the calls that a plane makes. Between any two calls processes exit, listen, and come and go, and their numbers are used again.
-/

namespace Causeway

open Text

/-! ### What planes share -/

/-- A file of the workspace. -/
structure PrivateFile where
  content : Bytes
  mode : UInt32
  /-- The thread that created it; nothing for what was there before. -/
  creator : Option Nat
deriving DecidableEq

/-- A zombie has exited and keeps its number until it is waited for. -/
inductive ProcessState where
  | running | killed | zombie
deriving DecidableEq

/-- An entry of the process table. -/
structure PidEntry where
  state : ProcessState
  /-- The thread that spawned it; nothing for a process of somebody else. -/
  parent : Option Nat
  /-- Whether the daemon has the right to kill it. -/
  killable : Bool
  /-- Left to the runtime, which waits for it in the background. -/
  orphaned : Bool
  command : List String
  env : List (String × String)
deriving DecidableEq

/-- Who has a socket open. -/
inductive Holder where
  /-- The daemon, for the start that one of its threads is about. -/
  | thread (i : Nat)
  | process (pid : Nat)
deriving DecidableEq

/-- The state of a TCP socket, as the kernel numbers them. -/
def tcpListen : UInt8 := 10

structure Socket where
  inode : Nat
  addr : SocketAddr
  state : UInt8
  holders : List Holder
deriving DecidableEq

/-- A socket without one of its holders; it is gone with the last one. -/
def Socket.without (socket : Socket) (holder : Holder) : Option Socket :=
  let holders := socket.holders.filter (· ≠ holder)
  if holders.isEmpty then none else some { socket with holders := holders }

/-- An address and a port as the kernel prints them. -/
def procAddress (order : ByteOrder) (a b c d : UInt8) (port : UInt16) : List Char :=
  (match order with
    | .little => [d, c, b, a]
    | .big => [a, b, c, d]).flatMap byteHex ++
    ':' :: [UInt8.ofNat (port.toNat / 256), UInt8.ofNat (port.toNat % 256)].flatMap byteHex

/-- The fields of a row of `/proc/net/tcp`; sockets of IPv6 have a table of their own. -/
def procFields (order : ByteOrder) (socket : Socket) : Option (List (List Char)) :=
  match socket.addr.ip with
  | .v4 a b c d =>
      some ["0:".toList, procAddress order a b c d socket.addr.port, "00000000:0000".toList, byteHex socket.state,
        "00000000:00000000".toList, "00:00000000".toList, "00000000".toList, "1000".toList, "0".toList,
        (toString socket.inode).toList, "1".toList]
  | .v6 _ => none

/-- A row is padded with blanks. -/
def procRow (fields : List (List Char)) : List Char := (fields.flatMap fun field => ' ' :: field) ++ [' ']

/-- A handle that a start has returned, as its owner keeps it. -/
structure Held where
  owner : Nat
  pid : Nat
  socksAddr : SocketAddr
  httpAddr : SocketAddr
  config : String
  aclConfig : Option String
deriving DecidableEq

structure Plant where
  /-- `CONFIG_SEQUENCE` -/
  sequence : UInt64
  /-- The workspace, by the names in it. -/
  files : String → Option PrivateFile
  processes : Nat → Option PidEntry
  sockets : List Socket
  /-- Inodes of sockets are counted up. -/
  nextInode : Nat
  /-- The files of which the log says that they could not be removed. -/
  warnings : List String
  held : List Held

/-- What happens besides the planes. -/
inductive Happening where
  | nothing
  | exits (pid : Nat)
  /-- Somebody else's process, which the daemon may have the right to kill. -/
  | starts (pid : Nat) (killable : Bool)
  /-- Several sockets may listen at one address, with `SO_REUSEPORT`. -/
  | opens (pid : Nat) (addr : SocketAddr) (state : UInt8)
  /-- One process has a socket from another. -/
  | shares (inode source pid : Nat)
  | closes (inode pid : Nat)
  /-- The runtime has waited for a process that was left to it. -/
  | reaps (pid : Nat)
deriving DecidableEq

/-- How a call goes, as far as the machine leaves it open. -/
structure Answer where
  error : Option ErrorKind := none
  /-- The future is dropped where it waits. -/
  dropped : Bool := false
  /-- A timeout has passed. -/
  late : Bool := false
  ok : Bool := true
  pid : Nat := 0
  port : UInt16 := 0
  umask : UInt32 := 0
  /-- How much of a failed write was written. -/
  written : Nat := 0
  killable : Bool := true
  /-- Descriptors that are no sockets. -/
  targets : List (Option (List Char)) := []
  happening : Happening := .nothing

def Answer.attempt {α : Type} (o : Answer) (w : Plant) (f : Except ErrorKind α × Plant) :
    Except ErrorKind α × Plant :=
  match o.error with
  | some kind => (.error kind, w)
  | none => f

namespace Plant

variable (o : Answer) (w : Plant)

/-! ### Files -/

/-- `create_new`: what is there already is left alone. -/
def createNew (me : Nat) (name : String) : Except ErrorKind Unit × Plant :=
  o.attempt w <|
    match w.files name with
    | some _ => (.error .alreadyExists, w)
    | none =>
        let file : PrivateFile := { content := [], mode := 0o600 &&& ~~~o.umask, creator := some me }
        (.ok (), { w with files := Function.update w.files name (some file) })

def change (name : String) (f : PrivateFile → PrivateFile) : Plant :=
  { w with files := Function.update w.files name ((w.files name).map f) }

def setMode (name : String) (mode : UInt32) : Except ErrorKind Unit × Plant :=
  o.attempt w (.ok (), w.change name fun file => { file with mode := mode })

/-- `write_all` on an empty file; when it fails, a part may have been written. -/
def writeAll (name : String) (bytes : Bytes) : Except ErrorKind Unit × Plant :=
  match o.error with
  | some kind => (.error kind, w.change name fun file => { file with content := bytes.take o.written })
  | none => (.ok (), w.change name fun file => { file with content := bytes })

/-- A file that is there is not missing, whatever else goes wrong. -/
def removeFile (name : String) : Except ErrorKind Unit × Plant :=
  match w.files name, o.error with
  | none, _ => (.error .notFound, w)
  | some _, some kind => (.error (if kind = .notFound then .other else kind), w)
  | some _, none => (.ok (), { w with files := Function.update w.files name none })

/-! ### Sockets -/

/-- No socket listens at the address. -/
def Vacant (addr : SocketAddr) : Prop := ∀ socket ∈ w.sockets, socket.state = tcpListen → socket.addr ≠ addr

instance (addr : SocketAddr) : Decidable (w.Vacant addr) := inferInstanceAs (Decidable (∀ _ ∈ _, _))

def openSocket (holder : Holder) (addr : SocketAddr) (state : UInt8) : Plant :=
  { w with sockets := ⟨w.nextInode, addr, state, [holder]⟩ :: w.sockets, nextInode := w.nextInode + 1 }

/-- A holder closes some of its sockets. -/
def closeSockets (holder : Holder) (which : Socket → Bool) : Plant :=
  { w with sockets := w.sockets.filterMap fun socket => if which socket then socket.without holder else some socket }

/-! ### Processes -/

def setState (pid : Nat) (state : ProcessState) : Plant :=
  { w with
    processes := Function.update w.processes pid ((w.processes pid).map fun entry => { entry with state := state }) }

def forget (pid : Nat) : Plant := { w with processes := Function.update w.processes pid none }

def spawn (me : Nat) (command : List String) (env : List (String × String)) : Except ErrorKind Nat × Plant :=
  o.attempt w <|
    match w.processes o.pid with
    | some _ => (.error .wouldBlock, w)
    | none =>
        let entry : PidEntry := ⟨.running, some me, o.killable, false, command, env⟩
        (.ok o.pid, { w with processes := Function.update w.processes o.pid (some entry) })

/-- Whether a child can be waited for; then it has been. -/
def tryWait (pid : Nat) : Except ErrorKind Bool × Plant :=
  o.attempt w <|
    match w.processes pid with
    | none => (.error .other, w)
    | some entry => if entry.state = .zombie then (.ok true, w.forget pid) else (.ok false, w)

def kill (pid : Nat) : Except ErrorKind Unit × Plant :=
  match w.processes pid with
  | none => (.error .other, w)
  | some entry =>
      if !entry.killable then (.error .permissionDenied, w)
      else if entry.state = .running then (.ok (), w.setState pid .killed)
      else (.ok (), w)

/-- `wait` under a timeout: it blocks while the child has not exited. -/
def waitTimeout (pid : Nat) : Option (Option (Except ErrorKind Unit) × Plant) :=
  if o.late then some (none, w)
  else
    match o.error, w.processes pid with
    | some kind, _ => some (some (.error kind), w)
    | none, some entry => if entry.state = .zombie then some (some (.ok ()), w.forget pid) else none
    | none, none => some (some (.error .other), w)

/-- The handle of a child that was not waited for is dropped: the runtime tries once, and keeps the number otherwise. -/
def leave (pid : Nat) : Plant :=
  match w.processes pid with
  | none => w
  | some entry =>
      if entry.state = .zombie then w.forget pid
      else { w with processes := Function.update w.processes pid (some { entry with orphaned := true }) }

/-! ### The kernel's tables -/

def procNetTcp (order : ByteOrder) : List Char :=
  (" sl local_address rem_address st".toList :: (w.sockets.filterMap (procFields order)).map procRow).flatMap fun line =>
    line ++ ['\n']

/-- `/proc/<pid>/fd` -/
def procFds (pid : Nat) : Descriptors :=
  (w.processes pid).map fun _ =>
    (o.targets.filter fun target => (target.bind socketInode).isNone) ++
      (w.sockets.filter fun socket => .process pid ∈ socket.holders).map fun socket =>
        some ("socket:[".toList ++ (toString socket.inode).toList ++ [']'])

/-! ### The rest of the machine -/

def happen : Happening → Plant
  | .nothing => w
  | .exits pid =>
      let w := w.closeSockets (.process pid) fun _ => true
      match w.processes pid with
      | none => w
      | some entry => if entry.parent.isSome then w.setState pid .zombie else w.forget pid
  | .starts pid killable =>
      match w.processes pid with
      | none => { w with processes := Function.update w.processes pid (some ⟨.running, none, killable, false, [], []⟩) }
      | some _ => w
  | .opens pid addr state =>
      if (w.processes pid).any (·.state ≠ .zombie) then w.openSocket (.process pid) addr state else w
  | .shares inode source pid =>
      if (w.processes pid).any (·.state ≠ .zombie) then
        { w with
          sockets := w.sockets.map fun socket =>
            if socket.inode = inode ∧ .process source ∈ socket.holders then
              { socket with holders := .process pid :: socket.holders }
            else socket }
      else w
  | .closes inode pid => w.closeSockets (.process pid) fun socket => socket.inode = inode
  | .reaps pid =>
      match w.processes pid with
      | none => w
      | some entry => if entry.orphaned && entry.state = .zombie then w.forget pid else w

end Plant

end Causeway

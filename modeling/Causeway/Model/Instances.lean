import Causeway.Concurrent.Pool
import Causeway.Model.Roles
import Causeway.Model.Throttle

/-!
# Instances of the daemon

`daemon_lock.rs`, and the control socket of `control.rs`: what a start of the daemon claims before anything else, and gives up last. Any number of processes may start on one run directory, and each of them may be killed at any system call; the kernel then takes back its lock and closes its listener, and the files stay.
-/

namespace Causeway

open Concurrent

/-! ### The host -/

structure SocketIdentity where
  device : Nat
  inode : Nat
deriving DecidableEq

inductive FileType where
  | file | dir | symlink | socket | special
deriving DecidableEq

/-- What `symlink_metadata` tells of a path. -/
structure Metadata where
  fileType : FileType
  identity : SocketIdentity
  mode : Nat
deriving DecidableEq

/-- Who listens on a socket. -/
inductive Party where
  | process (pid : Nat)
  /-- A daemon that predates the lock. -/
  | legacy
deriving DecidableEq

/-- One run directory, and what the kernel holds for the processes. -/
structure Host where
  runDir : Option Metadata
  lockFile : Option Metadata
  /-- What the path of the control socket leads to. -/
  socket : Option Metadata
  /-- The process that has the lock file locked. -/
  lock : Option Nat
  listening : SocketIdentity → Option Party

/-- How a system call goes, as far as the host leaves it open. -/
structure Sys where
  /-- The process is killed instead. -/
  killed : Bool := false
  error : Option ErrorKind := none
  /-- What an attempt to connect comes to where nobody listens; nothing if it takes too long. -/
  connect : Option (Except ErrorKind Unit) := some (.error .connectionRefused)
  /-- A new file. -/
  identity : SocketIdentity := ⟨0, 0⟩
  mode : Nat := 0
  /-- The text of a failure elsewhere in the daemon. -/
  text : String := ""

/-- Refused and reset both mean that nobody is listening. -/
def isStaleSignal (kind : ErrorKind) : Bool := kind = .connectionRefused ∨ kind = .connectionReset

/-- A call that fails where the outside says so, and else has this outcome. -/
def Sys.attempt {α : Type} (sys : Sys) (w : Host) (f : Except ErrorKind α × Host) : Except ErrorKind α × Host :=
  match sys.error with
  | some kind => (.error kind, w)
  | none => f

namespace Host

variable (sys : Sys) (w : Host)

/-- `create_dir_all` on the run directory. -/
def createDirAll : Except ErrorKind Unit × Host :=
  sys.attempt w <|
    match w.runDir with
    | none => (.ok (), { w with runDir := some ⟨.dir, sys.identity, sys.mode⟩ })
    | some found =>
        -- A link may lead to a directory.
        if found.fileType = .dir ∨ found.fileType = .symlink then (.ok (), w) else (.error .alreadyExists, w)

def metadata (found : Option Metadata) : Except ErrorKind Metadata × Host :=
  sys.attempt w <|
    match found with
    | none => (.error .notFound, w)
    | some found => (.ok found, w)

def secureRunDir (mode : Nat) : Except ErrorKind Unit × Host :=
  sys.attempt w (.ok (), { w with runDir := w.runDir.map fun found => { found with mode := mode } })

/-- Open the lock file for writing; it is created if it is not there, and a link is not followed. -/
def openLock : Except ErrorKind Unit × Host :=
  sys.attempt w <|
    match w.lockFile with
    | none => (.ok (), { w with lockFile := some ⟨.file, sys.identity, sys.mode⟩ })
    | some found =>
        match found.fileType with
        | .file | .special => (.ok (), w)
        | .dir => (.error .isADirectory, w)
        | .symlink => (.error .filesystemLoop, w)
        | .socket => (.error .other, w)

def secureLock (mode : Nat) : Except ErrorKind Unit × Host :=
  sys.attempt w (.ok (), { w with lockFile := w.lockFile.map fun found => { found with mode := mode } })

/-- `flock` for the exclusive lock, without waiting. -/
def flock (me : Nat) : Except ErrorKind Unit × Host :=
  sys.attempt w <|
    match w.lock with
    | none => (.ok (), { w with lock := some me })
    | some _ => (.error .wouldBlock, w)

def unlock (me : Nat) : Host := if w.lock = some me then { w with lock := none } else w

/-- An attempt to connect; where somebody listens it is neither refused nor reset. -/
def connect : Option (Except ErrorKind Unit) :=
  match w.socket with
  | none => some (.error .notFound)
  | some found =>
      match w.listening found.identity, sys.connect with
      | some _, some (.error kind) => if isStaleSignal kind then some (.ok ()) else some (.error kind)
      | _, outcome => outcome

/-- `remove_file` on the path of the control socket. -/
def removeSocket : Except ErrorKind Unit × Host :=
  sys.attempt w <|
    match w.socket with
    | none => (.error .notFound, w)
    | some found => if found.fileType = .dir then (.error .isADirectory, w) else (.ok (), { w with socket := none })

/-- `bind` creates the socket's file; its identity may have been that of a file that is gone. -/
def bindSocket : Except ErrorKind SocketIdentity × Host :=
  sys.attempt w <|
    if w.socket = none ∧ w.listening sys.identity = none then
      (.ok sys.identity, { w with socket := some ⟨.socket, sys.identity, sys.mode⟩ })
    else (.error .addrInUse, w)

def listen (me : Nat) (identity : SocketIdentity) : Except ErrorKind Unit × Host :=
  sys.attempt w (.ok (), { w with listening := Function.update w.listening identity (some (.process me)) })

def closeListener (identity : SocketIdentity) : Host :=
  { w with listening := Function.update w.listening identity none }

def secureSocket (mode : Nat) : Except ErrorKind Unit × Host :=
  sys.attempt w (.ok (), { w with socket := w.socket.map fun found => { found with mode := mode } })

/-- What a process leaves behind when it is killed. -/
def kill (me : Nat) : Host :=
  { w.unlock me with
    listening := fun identity => if w.listening identity = some (.process me) then none else w.listening identity }

end Host

/-! ### Processes -/

/-- How a process, or a part of its program, ends before its end. -/
inductive Exit where
  | killed
  | failed (error : String)

/-- A program whose steps are system calls of one process. -/
abbrev Proc := ExceptT Exit (Prog Host Sys)

namespace Proc

variable {α : Type}

def call (me : Nat) (f : Sys → Host → α × Host) : Proc α :=
  ExceptT.mk <| .atomic fun sys w =>
    if sys.killed then some (.error .killed, w.kill me)
    else some (.ok (f sys w).1, (f sys w).2)

def fail (error : String) : Proc α := throw (.failed error)

/-- `?` on a system call, with a context. -/
def check (context : String) (p : Proc (Except ErrorKind α)) : Proc α := do
  match ← p with
  | .ok a => return a
  | .error _ => fail context

/-- `bail!` unless this holds. -/
def ensure (p : Prop) [Decidable p] (error : String) : Proc Unit := if p then return () else fail error

/-- What is dropped where this part of the program fails. -/
def orDrop (p : Proc α) (drop : Proc Unit) : Proc α :=
  ExceptT.mk do
    match ← p.run with
    | .ok a => return .ok a
    | .error .killed => return .error .killed
    | .error (.failed error) => (do drop; fail error : Proc α).run

end Proc

/-! ### The lock -/

section

variable (cfg : FilesConfig) (me : Nat)

def lockPath : Path := cfg.runDir ++ ["daemon.lock"]

/-- `DaemonLock::acquire` -/
def acquire : Proc Unit := do
  let runDir := displayPath cfg.runDir
  let path := displayPath (lockPath cfg)
  .check ("create daemon run dir " ++ runDir) (.call me fun sys w => w.createDirAll sys)
  let found ← .check ("inspect daemon run dir " ++ runDir) (.call me fun sys w => w.metadata sys w.runDir)
  .ensure (found.fileType = .dir) ("daemon run path " ++ runDir ++ " must be a real directory, not a symlink or file")
  .check ("secure daemon run dir " ++ runDir) (.call me fun sys w => w.secureRunDir sys 0o700)
  .check ("open daemon lock " ++ path) (.call me fun sys w => w.openLock sys)
  let found ← .check ("inspect daemon lock " ++ path) (.call me fun sys w => w.metadata sys w.lockFile)
  .ensure (found.fileType = .file) ("daemon lock path " ++ path ++ " is not a regular file")
  .check ("secure daemon lock " ++ path) (.call me fun sys w => w.secureLock sys 0o600)
  match ← .call me fun sys w => w.flock sys me with
  | .ok () => return ()
  | .error .wouldBlock =>
      .fail ("another CAUSEWAY daemon already owns " ++ path ++ "; stop that service or use its control socket")
  | .error _ => .fail ("lock daemon state via " ++ path)

/-- `DaemonLock::drop` -/
def unlock : Proc Unit := .call me fun _ w => ((), w.unlock me)

/-! ### The control socket -/

def livenessConfirmations : Nat := 5

/-- `LIVENESS_RECHECK_DELAY`, if another attempt is to follow. -/
def sleepBetween : Nat → Proc Unit
  | 0 => return ()
  | _ + 1 => .call me fun _ w => ((), w)

/-- The attempts to connect, of which this many more are to succeed. -/
def confirmStale (path : String) (identity : SocketIdentity) : Nat → Proc Unit
  | 0 => .fail ("control socket " ++ path ++ " is already active; use the running CAUSEWAY daemon")
  | confirmations + 1 => do
      match ← .call me fun sys w => (w.connect sys, w) with
      | some (.ok ()) => do
          sleepBetween me confirmations
          confirmStale path identity confirmations
      | some (.error kind) =>
          if isStaleSignal kind then
            let current ← .check ("re-inspect stale control socket " ++ path)
              (.call me fun sys w => w.metadata sys w.socket)
            .ensure (current.fileType = .socket ∧ current.identity = identity)
              ("control socket " ++ path ++ " changed while checking it; refusing to remove it")
            .check ("remove stale control socket " ++ path) (.call me fun sys w => w.removeSocket sys)
          else .fail ("cannot verify whether control socket " ++ path ++ " is stale; refusing to remove it")
      | none => .fail ("timed out checking control socket " ++ path ++ "; refusing to remove it")

def removeStaleControlSocket (path : String) : Proc Unit := do
  match ← .call me fun sys w => w.metadata sys w.socket with
  | .error .notFound => return ()
  | .error _ => .fail ("inspect control socket " ++ path)
  | .ok found =>
      .ensure (found.fileType = .socket)
        ("refusing to replace non-socket control path " ++ path ++ "; move it aside and restart CAUSEWAY")
      confirmStale me path found.identity livenessConfirmations

/-- `remove_socket_if_owned`; a failure is only logged. -/
def removeSocketIfOwned (expected : SocketIdentity) : Proc Unit := do
  match ← .call me fun sys w => w.metadata sys w.socket with
  | .error _ => return ()
  | .ok found =>
      if found.fileType = .socket ∧ found.identity = expected then
        let _ ← .call me fun sys w => w.removeSocket sys

def closeListener (identity : SocketIdentity) : Proc Unit := .call me fun _ w => ((), w.closeListener identity)

/-- `BoundControlSocket`: the socket of the listener, and what was found at the path when it was captured. -/
structure BoundControlSocket where
  listener : SocketIdentity
  ownedSocket : SocketIdentity

/-- `OwnedSocket::capture` -/
def capture (path : String) : Proc SocketIdentity := do
  let found ← .check ("inspect bound control socket " ++ path) (.call me fun sys w => w.metadata sys w.socket)
  .ensure (found.fileType = .socket) ("bound control socket path " ++ path ++ " is no longer a Unix socket")
  return found.identity

/-- `control::bind` -/
def bindControlSocket : Proc BoundControlSocket := do
  let path := displayPath cfg.socketPath
  .check ("create control socket dir " ++ displayPath cfg.runDir) (.call me fun sys w => w.createDirAll sys)
  removeStaleControlSocket me path
  let listener ← .check ("bind control socket " ++ path) (.call me fun sys w => w.bindSocket sys)
  .check ("bind control socket " ++ path) (.call me fun sys w => w.listen sys me listener)
  .orDrop (do
    let ownedSocket ← capture me path
    .orDrop (.check ("secure control socket " ++ path) (.call me fun sys w => w.secureSocket sys 0o600))
      (removeSocketIfOwned me ownedSocket)
    return ⟨listener, ownedSocket⟩) (closeListener me listener)

/-! ### A life -/

/-- What `run` does while it has the lock and the socket. -/
def serveUntilShutdown : Proc Unit := do
  match ← .call me fun sys w => (if sys.error.isSome then some sys.text else none, w) with
  | some text => .fail text
  | none => return ()

def dropBound (bound : BoundControlSocket) : Proc Unit := do
  closeListener me bound.listener
  removeSocketIfOwned me bound.ownedSocket

/-- `run`: the claims, and how they are given up. -/
def runDaemon : Proc Unit := do
  acquire cfg me
  .orDrop (do
    let bound ← bindControlSocket cfg me
    .orDrop (serveUntilShutdown me) (dropBound me bound)
    dropBound me bound) (unlock me)
  unlock me

end

/-- A host on which processes start the daemon. -/
def instances (cfg : FilesConfig) (w : Host) : Pool Host Sys (Except Exit Unit) where
  shared := w
  thread me := (runDaemon cfg me).run

end Causeway

import Causeway.Concurrent.Pool
import Causeway.Model.Plant

/-!
# Adapter processes

`dataplane.rs`: how a data plane is started, and stopped. Any number of planes are started and stopped at once, and the future of a start or a stop may be dropped wherever it waits.
-/

namespace Causeway

open Concurrent

/-! ### Futures -/

/-- How a future, or a part of it, ends before its end. -/
inductive Halt where
  | dropped
  | failed (error : String)
deriving DecidableEq

/-- A program whose steps are calls of the daemon. -/
abbrev Plane := ExceptT Halt (Prog Plant Answer)

namespace Plane

variable {α : Type}

def call (f : Answer → Plant → α × Plant) : Plane α :=
  ExceptT.mk <| .atomic fun o w => some (.ok (f o w).1, (f o w).2)

/-- An `await`: it may block, and the future may be dropped. -/
def awaits (f : Answer → Plant → Option (α × Plant)) : Plane α :=
  ExceptT.mk <| .atomic fun o w =>
    if o.dropped then some (.error .dropped, w) else (f o w).map fun r => (.ok r.1, r.2)

def fail (error : String) : Plane α := throw (.failed error)

/-- `?` on a call, with a context. -/
def check (context : String) (p : Plane (Except ErrorKind α)) : Plane α := do
  match ← p with
  | .ok a => return a
  | .error _ => fail context

/-- `bail!` unless this holds. -/
def ensure (p : Prop) [Decidable p] (error : String) : Plane Unit := if p then return () else fail error

/-- What is dropped where this part ends early. -/
def orDrop (p : Plane α) (drop : Plane Unit) : Plane α :=
  tryCatch p fun halt => do
    drop
    throw halt

/-- How this part ends, as a value. -/
def observing (p : Plane α) : Plane (Except Halt α) := tryCatch (.ok <$> p) fun halt => return .error halt

end Plane

/-! ### Ports -/

structure StdTcpListener where
  inode : Nat
  addr : SocketAddr
deriving DecidableEq

structure LoopbackPortPair where
  socks : StdTcpListener
  http : StdTcpListener
  socksAddr : SocketAddr
  httpAddr : SocketAddr

def loopback (port : UInt16) : SocketAddr := ⟨.v4 127 0 0 1, port⟩

section

variable (me : Nat)

/-- `bind` to port zero: the kernel finds a free one. -/
def bindLoopback : Plane (Except ErrorKind StdTcpListener) :=
  .call fun o w => o.attempt w <|
    if w.Vacant (loopback o.port) then
      (.ok ⟨w.nextInode, loopback o.port⟩, w.openSocket (.thread me) (loopback o.port) tcpListen)
    else (.error .addrInUse, w)

def localAddr (listener : StdTcpListener) : Plane (Except ErrorKind SocketAddr) :=
  .call fun o w => o.attempt w (.ok listener.addr, w)

def dropListener (listener : StdTcpListener) : Plane Unit :=
  .call fun _ w => ((), w.closeSockets (.thread me) fun socket => socket.inode = listener.inode)

/-- The loop of `LoopbackPortPair::reserve`. -/
def reserveWithin : Nat → Plane LoopbackPortPair
  | 0 => .fail "reserve two distinct loopback adapter ports"
  | attempts + 1 => do
      match ← bindLoopback me with
      | .error _ => reserveWithin attempts
      | .ok socks =>
          match ← bindLoopback me with
          | .error _ => do
              dropListener me socks
              reserveWithin attempts
          | .ok http => do
              let drop : Plane Unit := do
                dropListener me http
                dropListener me socks
              let socksAddr ← .orDrop (.check "read reserved socks address" (localAddr socks)) drop
              let httpAddr ← .orDrop (.check "read reserved http address" (localAddr http)) drop
              if socksAddr ≠ httpAddr then return ⟨socks, http, socksAddr, httpAddr⟩
              drop
              reserveWithin attempts

/-- `LoopbackPortPair::reserve` -/
def LoopbackPortPair.reserve : Plane LoopbackPortPair := reserveWithin me 8

/-- `LoopbackPortPair::release` -/
def LoopbackPortPair.release (ports : LoopbackPortPair) : Plane (SocketAddr × SocketAddr) := do
  dropListener me ports.socks
  dropListener me ports.http
  return (ports.socksAddr, ports.httpAddr)

end

/-! ### Planes -/

structure SslocalPlane where
  bin : String
  obfsPluginBin : String
  directHosts : List String

structure SingboxPlane where
  bin : String
  directHosts : List String

/-- `DispatchPlane`, with what it uses of its process and its machine. -/
structure DispatchPlane where
  ss : SslocalPlane
  singbox : SingboxPlane
  workspace : String
  pid : UInt32
  env : List (String × String)
  order : ByteOrder
  /-- `serde_json::to_vec_pretty` -/
  toVecPretty : Json → Option Bytes

def proxyEnvVars : List String :=
  ["HTTP_PROXY", "HTTPS_PROXY", "ALL_PROXY", "NO_PROXY", "http_proxy", "https_proxy", "all_proxy", "no_proxy"]

def applyDirectNetworkEnv (env : List (String × String)) : List (String × String) :=
  env.filter fun entry => entry.1 ∉ proxyEnvVars

/-! ### Credential files -/

/-- The file's name in the workspace, until it is removed. -/
structure PrivateConfig where
  path : Option String
deriving DecidableEq

/-- The name of a file of the workspace, as a path. -/
def DispatchPlane.file (plane : DispatchPlane) (name : String) : String := plane.workspace ++ "/" ++ name

namespace PrivateConfig

variable (plane : DispatchPlane)

def cleanup (config : PrivateConfig) : Plane (Except String Unit × PrivateConfig) :=
  match config.path with
  | none => return (.ok (), config)
  | some path => do
      match ← .call fun o w => w.removeFile o path with
      | .ok () => return (.ok (), ⟨none⟩)
      | .error .notFound => return (.ok (), ⟨none⟩)
      | .error _ => return (.error ("remove private data-plane config " ++ plane.file path), config)

/-- `drop` logs what it cannot remove. -/
def drop (config : PrivateConfig) : Plane Unit := do
  match (← config.cleanup plane).1, config.path with
  | .error _, some path => .call fun _ w => ((), { w with warnings := path :: w.warnings })
  | _, _ => return ()

end PrivateConfig

section

variable (plane : DispatchPlane) (me : Nat)

/-- The loop of `PrivateConfig::create`. -/
def createWithin (adapter : String) (bytes : Bytes) : Nat → Plane PrivateConfig
  | 0 =>
      .fail ("could not allocate a unique private data-plane config in " ++ plane.workspace ++ " after 256 attempts")
  | attempts + 1 => do
      let sequence ← .call fun _ w => (w.sequence, { w with sequence := w.sequence + 1 })
      let name := privateConfigName adapter plane.pid sequence
      match ← .call fun o w => w.createNew o me name with
      | .ok () =>
          .orDrop (do
            .check ("secure data-plane config " ++ plane.file name) (.call fun o w => w.setMode o name 0o600)
            .check ("write private data-plane config " ++ plane.file name) (.call fun o w => w.writeAll o name bytes)
            .check ("sync private data-plane config " ++ plane.file name) (.call fun o w => o.attempt w (.ok (), w))
            return ⟨some name⟩) (PrivateConfig.drop plane ⟨some name⟩)
      | .error .alreadyExists => createWithin adapter bytes attempts
      | .error _ => .fail ("create private data-plane config in " ++ plane.workspace)

def PrivateConfig.create (adapter : String) (bytes : Bytes) : Plane PrivateConfig := do
  .check ("create data-plane work directory " ++ plane.workspace) (.call fun o w => o.attempt w (.ok (), w))
  .check ("secure data-plane work directory " ++ plane.workspace) (.call fun o w => o.attempt w (.ok (), w))
  createWithin plane me adapter bytes 256

end

/-- What is dropped of an ACL. -/
def dropAcl (plane : DispatchPlane) : Option PrivateConfig → Plane Unit
  | none => return ()
  | some acl => acl.drop plane

/-! ### Children -/

/-- Tokio's handle of a child; once it has been waited for, its number means nothing. -/
structure Child where
  pid : Nat
  done : Bool
deriving DecidableEq

namespace Child

def id (child : Child) : Option Nat := if child.done then none else some child.pid

def tryWait (child : Child) : Plane (Except ErrorKind Bool × Child) :=
  if child.done then return (.ok true, child)
  else do
    match ← .call fun o w => w.tryWait o child.pid with
    | .ok true => return (.ok true, { child with done := true })
    | result => return (result, child)

def startKill (child : Child) : Plane (Except ErrorKind Unit) :=
  if child.done then return .error .invalidInput else .call fun _ w => w.kill child.pid

/-- `wait` under a timeout, with nothing if it passes. -/
def waitTimeout (child : Child) : Plane (Option (Except ErrorKind Unit) × Child) := do
  match ← .awaits fun o w => w.waitTimeout o child.pid with
  | some (.ok ()) => return (some (.ok ()), { child with done := true })
  | result => return (result, child)

/-- `kill_on_drop` -/
def drop (child : Child) : Plane Unit :=
  if child.done then return ()
  else do
    let _ ← .call fun _ w => w.kill child.pid
    .call fun _ w => ((), w.leave child.pid)

end Child

def stopOwnedChild (child : Child) (adapter : String) : Plane (Except String Unit × Child) := do
  match ← child.tryWait with
  | (.ok true, child) => return (.ok (), child)
  | (.error _, child) => return (.error ("query " ++ adapter ++ " status"), child)
  | (.ok false, child) =>
      match ← child.startKill with
      | .error _ => return (.error ("kill owned " ++ adapter ++ " process"), child)
      | .ok () =>
          match ← child.waitTimeout with
          | (some (.ok ()), child) => return (.ok (), child)
          | (some (.error _), child) => return (.error ("wait for killed " ++ adapter), child)
          | (none, child) =>
              return (.error ("owned " ++ adapter ++ " process did not exit within 3s after KILL"), child)

/-! ### Handles -/

/-- `SslocalHandle` and `SingboxHandle`; the second has no ACL. -/
structure AdapterHandle where
  adapter : String
  child : Child
  socksAddr : SocketAddr
  httpAddr : SocketAddr
  config : PrivateConfig
  aclConfig : Option PrivateConfig
  nodeName : String

namespace AdapterHandle

variable (plane : DispatchPlane)

def cleanupAcl : Option PrivateConfig → Plane (Except String Unit × Option PrivateConfig)
  | none => return (.ok (), none)
  | some acl => do
      let (result, acl) ← acl.cleanup plane
      return (result, some acl)

def stop (handle : AdapterHandle) : Plane (Except String Unit × AdapterHandle) := do
  let (processResult, child) ← stopOwnedChild handle.child handle.adapter
  let (configResult, config) ← handle.config.cleanup plane
  let (aclResult, acl) ← cleanupAcl plane handle.aclConfig
  return (processResult *> configResult *> aclResult, { handle with child := child, config := config, aclConfig := acl })

/-- `drop` of the handle, and of its fields. -/
def drop (handle : AdapterHandle) : Plane Unit := do
  let (_, config) ← handle.config.cleanup plane
  let (_, acl) ← cleanupAcl plane handle.aclConfig
  handle.child.drop
  config.drop plane
  dropAcl plane acl

end AdapterHandle

/-! ### Readiness -/

section

variable (plane : DispatchPlane) (me : Nat)

/-- `TcpStream::connect`, which nobody answers where nobody listens. -/
def connectTo (addr : SocketAddr) : Plane Bool :=
  .awaits fun o w => some (o.ok && !decide (w.Vacant addr), w)

/-- `adapter_is_ready`, one read after the other. -/
def adapterIsReady (child : Child) (socksAddr httpAddr : SocketAddr) : Plane (Except String Bool) :=
  match child.id with
  | none => return .ok false
  | some pid => do
      let table ← .call fun o w => ((o.attempt w (.ok (w.procNetTcp plane.order), w)).1, w)
      let fds ← .call fun o w => ((o.attempt w (.ok (w.procFds o pid), w)).1, w)
      let table := table.mapError fun _ => "read /proc/net/tcp for adapter ownership"
      let fds := fds.mapError fun _ => "inspect adapter file descriptors"
      match childOwnsListeners plane.order table fds socksAddr httpAddr with
      | .error error => return .error error
      | .ok false => return .ok false
      | .ok true => do
          let socksOk ← connectTo socksAddr
          let httpOk ← connectTo httpAddr
          return .ok (socksOk && httpOk)

/-- How often the wait sleeps for 100 ms until `ready_timeout`, at the most. -/
def readySleeps : Nat := 100

/-- A start that does not get ready stops its handle. -/
def giveUp (handle : AdapterHandle) (error : String) : Plane (Option (Except String Unit) × AdapterHandle) := do
  let (_, handle) ← handle.stop plane
  return (some (.error error), handle)

/-- One round of the readiness loop, before it looks at the deadline; nothing if it is to go on. -/
def readyRound (hint : String) (handle : AdapterHandle) : Plane (Option (Except String Unit) × AdapterHandle) := do
  match ← adapterIsReady plane handle.child handle.socksAddr handle.httpAddr with
  | .ok true => return (some (.ok ()), handle)
  | .error _ => giveUp plane handle ("verify " ++ handle.adapter ++ " listener ownership")
  | .ok false =>
      match ← handle.child.tryWait with
      | (.ok true, child) =>
          giveUp plane { handle with child := child }
            (handle.adapter ++ " exited immediately after start, node " ++ handle.nodeName ++ " (" ++ hint ++ ")")
      | (.error _, child) => giveUp plane { handle with child := child } ("query " ++ handle.adapter ++ " during readiness")
      | (.ok false, child) => return (none, { handle with child := child })

/-- The readiness loop of `start`. Nothing of the handle has changed where the future may be dropped. -/
def untilReady (hint : String) (handle : AdapterHandle) : Nat → Plane (Option (Except String Unit) × AdapterHandle)
  | 0 => do
      match ← readyRound plane hint handle with
      | (none, handle) => giveUp plane handle (handle.adapter ++ " port readiness timed out (10s)")
      | result => return result
  | sleeps + 1 => do
      match ← readyRound plane hint handle with
      | (none, handle) => do
          if ← .call fun o w => (o.late, w) then
            giveUp plane handle (handle.adapter ++ " port readiness timed out (10s)")
          else
            .awaits fun _ w => some ((), w)
            untilReady hint handle sleeps
      | result => return result

/-! ### Starting -/

/-- What the two planes do differently. -/
structure Adapter where
  /-- Its name in file names. -/
  stem : String
  label : String
  bin : String
  args : List String
  hint : String

/-- The ACL is a private file like the configuration. -/
def createAcl (stem : String) : Option String → Plane (Option PrivateConfig)
  | none => return none
  | some text => some <$> PrivateConfig.create plane me stem text.toUTF8.toList

/-- What a start writes before it spawns anything. -/
def createFiles (stem : String) (checks : Plane Unit) (acl : Option String) (config : Option String → Json) :
    Plane (Option PrivateConfig × PrivateConfig) := do
  checks
  let aclConfig ← createAcl plane me stem acl
  .orDrop (do
    match plane.toVecPretty (config ((aclConfig.bind (·.path)).map plane.file)) with
    | none => .fail "serialize adapter config"
    | some bytes =>
        let config ← PrivateConfig.create plane me stem bytes
        return (aclConfig, config)) (dropAcl plane aclConfig)

def dropPorts (ports : LoopbackPortPair) : Plane Unit := do
  let _ ← ports.release me

/-- `start`, once the child was spawned. -/
def launch (hint : String) (handle : AdapterHandle) : Plane AdapterHandle := do
  let (result, handle) ← .orDrop (untilReady plane hint handle readySleeps) (handle.drop plane)
  match result with
  | some (.error error) => do
      handle.drop plane
      .fail error
  | _ => return handle

/-- `start`, after the node was found to be of the right kind. -/
def startAdapter (adapter : Adapter) (ports : LoopbackPortPair) (nodeName : String) (checks : Plane Unit)
    (acl : Option String) (config : Option String → Json) : Plane AdapterHandle := do
  let (aclConfig, config) ← .orDrop (createFiles plane me adapter.stem checks acl config) (dropPorts me ports)
  let (socksAddr, httpAddr) ← ports.release me
  let command := adapter.bin :: adapter.args ++ config.path.toList.map plane.file
  let pid ← .orDrop (.check ("spawn " ++ adapter.label ++ " (" ++ adapter.bin ++ ")")
    (.call fun o w => w.spawn o me command (applyDirectNetworkEnv plane.env))) (do
      config.drop plane
      dropAcl plane aclConfig)
  launch plane adapter.hint ⟨adapter.label, ⟨pid, false⟩, socksAddr, httpAddr, config, aclConfig, nodeName⟩

/-- `SslocalPlane::start` -/
def SslocalPlane.start (ports : LoopbackPortPair) : Node → Plane AdapterHandle
  | .anytls _ =>
      .orDrop (.fail "sslocal plane only serves ss nodes (got anytls)") (dropPorts me ports)
  | .ss node =>
      startAdapter plane me
        ⟨"sslocal", "sslocal", plane.ss.bin, ["-c"], "check whether the cipher/password is supported"⟩ ports node.name
        (do
          .ensure ((← .call fun o w => (o.ok, w)) = true)
            ("sslocal does not exist: " ++ plane.ss.bin ++ " (run scripts/install-dataplane.sh first)")
          if node.plugin.isSome then
            .ensure ((← .call fun o w => (o.ok, w)) = true)
              ("node " ++ node.name ++ " requires the simple-obfs plugin, but the binary does not exist: " ++
                plane.ss.obfsPluginBin ++ " (run scripts/install-plugin.sh first)"))
        (buildSslocalAcl plane.ss.directHosts)
        (buildSslocalConfigWithAcl node ports.socksAddr ports.httpAddr plane.ss.obfsPluginBin)

/-- `SingboxPlane::start` -/
def SingboxPlane.start (ports : LoopbackPortPair) : Node → Plane AdapterHandle
  | .ss _ =>
      .orDrop (.fail "sing-box plane only serves anytls nodes (got ss)") (dropPorts me ports)
  | .anytls node =>
      startAdapter plane me ⟨"singbox", "sing-box", plane.singbox.bin, ["run", "-c"], "check the node fields"⟩
        ports node.name
        (do
          .ensure ((← .call fun o w => (o.ok, w)) = true)
            ("sing-box does not exist: " ++ plane.singbox.bin ++ " (set singbox_bin in the config)"))
        none
        (fun _ => buildSingboxConfigWithDirectHosts node ports.socksAddr ports.httpAddr plane.singbox.directHosts)

/-- `DispatchPlane::start` -/
def DispatchPlane.start (ports : LoopbackPortPair) (node : Node) : Plane AdapterHandle :=
  match node with
  | .ss _ => SslocalPlane.start plane me ports node
  | .anytls _ => SingboxPlane.start plane me ports node

/-! ### A plane's life -/

def hold (handle : AdapterHandle) : Plane Unit :=
  .call fun _ w =>
    ((), { w with
      held := ⟨me, handle.child.pid, handle.socksAddr, handle.httpAddr, handle.config.path.getD "",
        handle.aclConfig.bind (·.path)⟩ :: w.held })

def letGo : Plane Unit := .call fun _ w => ((), { w with held := w.held.filter fun held => held.owner ≠ me })

/-- A handle is stopped this often, wherever a stop is dropped, and then dropped itself. -/
def retire (handle : AdapterHandle) : Nat → Plane (List (Except Halt (Except String Unit)))
  | 0 => do
      handle.drop plane
      return []
  | stops + 1 => do
      match ← .observing (handle.stop plane) with
      | .ok (result, handle) => return .ok result :: (← retire handle stops)
      | .error halt => return .error halt :: (← retire handle stops)

/-- A node is given ports and started; its handle is kept for a while, and then retired. -/
def lifeOf (node : Node) (stops : Nat) : Plane (List (Except Halt (Except String Unit))) := do
  let ports ← LoopbackPortPair.reserve me
  -- The future of the start may be dropped before it is polled.
  .orDrop (.awaits fun _ w => some ((), w)) (dropPorts me ports)
  let handle ← plane.start me ports node
  hold me handle
  letGo me
  retire plane handle stops

end

/-- The rest of the machine, for this many happenings. -/
def elsewhere : Nat → Plane (List (Except Halt (Except String Unit)))
  | 0 => return []
  | count + 1 => do
      .call fun o w => ((), w.happen o.happening)
      elsewhere count

/-- The planes of a daemon, each with its node and the number of its stops, beside the rest of the machine. -/
def planes (plane : DispatchPlane) (lives : Nat → Node × Nat) (count : Nat) (w : Plant) :
    Pool Plant Answer (Except Halt (List (Except Halt (Except String Unit)))) where
  shared := w
  thread
    | 0 => (elsewhere count).run
    | i + 1 => (lifeOf plane (i + 1) (lives i).1 (lives i).2).run

end Causeway

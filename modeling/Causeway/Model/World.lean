import Causeway.Concurrent.Pool
import Causeway.Concurrent.Lock
import Causeway.Model.State
import Causeway.Model.Subscription

/-!
# The shared world of the supervisor

Everything the tasks of the daemon share: the fields of `Ctx`, the class runtimes and routes, the locks around them, the files, the running data planes and the spawned jobs. `Outside` is what the rest of the machine answers at one step: clocks, network verdicts, file-system results.

`Trail` remembers what happened, for statements and proofs only: no operation decides anything by it.
-/

namespace Causeway

open Concurrent

/-- One answer of the outside world; each step looks at the parts it asks for. -/
structure Outside where
  now : Int := 0
  instant : Nat := 0
  ok : Bool := true
  /-- The awaited deadline passed first. -/
  elapsed : Bool := false
  /-- The status line a check of this target gets, or none if it fails. -/
  status : String → Option Nat := fun _ => some 204
  rtt : ℚ := 0
  rtts : String → Option ℚ := fun _ => none
  socksPort : Nat := 0
  httpPort : Nat := 0
  detail : String := ""
  /-- Bytes relayed in each direction. -/
  relayed : Nat × Nat := (0, 0)
  body : Option Bytes := none
  file : Path → Option Bytes := fun _ => none
  /-- How many bytes one write took. -/
  count : Nat := 1
  choice : Nat := 0
  config : Option Config := none
  /-- The task panics here. -/
  panicked : Bool := false

/-- The parts of the program that are not under its source tree, and the configuration it runs on. -/
structure Env where
  cfg : Config
  parseStr : Bytes → Option (List Node)
  sourceIdentity : SubscriptionProfileConfig → Option String
  toVecPretty : StateFileV2 → Bytes
  fromStr : Bytes → Option StateWire

namespace Env

def classes (env : Env) : List String := env.cfg.classes.keys

/-- The bytes a save writes for a state, if it can be saved at all. -/
def serialize (env : Env) (st : StateFile) : Option Bytes :=
  match st.toWire with
  | .ok wire => some (env.toVecPretty wire)
  | .error _ => none

/-- `load`: nothing if there is no file. -/
def load (env : Env) (file : Option Bytes) : Except StateFile.StateError (Option StateFile) :=
  match file with
  | none => .ok none
  | some text =>
      match env.fromStr text with
      | none => .error .json
      | some wire => wire.load.map some

end Env

/-! ### Class runtimes and routes -/

structure Handle where
  id : Nat
  socksAddr : Nat
  httpAddr : Nat
deriving DecidableEq

/-- An activated path. `pathConnections` is the identity of its connection counter. -/
structure ActiveNode where
  node : Node
  handle : Handle
  pathConnections : Nat
deriving DecidableEq

structure AutoRecoveryBackoff where
  consecutiveFailures : Nat
  retryNotBefore : Option Nat
deriving DecidableEq

structure ClassRuntime where
  active : Option ActiveNode
  autoRecovery : AutoRecoveryBackoff
  healthFailures : Nat
deriving DecidableEq

structure ClassRoute where
  socksUpstream : Option Nat
  httpUpstream : Option Nat
  nodeName : String
  generation : UInt64
  pathConnections : Option Nat
  trafficSubscription : String
deriving DecidableEq

structure SubscriptionRuntime where
  active : String
  nodes : List Node
  catalog : SubscriptionsConfig
  generation : UInt64
deriving DecidableEq

structure NodeTraffic where
  up : Nat
  down : Nat
deriving DecidableEq

structure TrafficState where
  subscription : Option String
  nodes : BTreeMap NodeTraffic
deriving DecidableEq

def NodeTraffic.add (traffic : NodeTraffic) (up down : Nat) : NodeTraffic :=
  ⟨min (traffic.up + up) (2 ^ 64 - 1), min (traffic.down + down) (2 ^ 64 - 1)⟩

/-- Bytes of a profile that is not selected are dropped. -/
def TrafficState.add (state : TrafficState) (subscription node : String) (up down : Nat) : TrafficState :=
  if state.subscription ≠ some subscription then state
  else { state with nodes := state.nodes.insert node (((state.nodes[node]?).getD ⟨0, 0⟩).add up down) }

/-- Counters are cleared exactly when the profile changes. -/
def TrafficState.selectSubscription (state : TrafficState) (subscription : String) : TrafficState :=
  if state.subscription ≠ some subscription then { subscription := some subscription, nodes := ∅ }
  else state

/-! ### Replies and events -/

structure ProbeResult where
  node : String
  ok : Bool
  rttMs : Option ℚ
  httpStatus : Option Nat
  error : Option String
deriving DecidableEq

structure SwitchOutcome where
  requested : String
  installed : String
  fallback : Bool
deriving DecidableEq

structure SwitchForSiteOutcome where
  site : String
  action : String
  nodeBefore : Option String
  nodeAfter : Option String
  detail : String
deriving DecidableEq

structure SubscriptionSwitchOutcome where
  previous : String
  active : String
  nodeCount : Nat
  refreshed : Bool
deriving DecidableEq

inductive Event where
  | switched (unix : Int) (cls node reason : String) (generation : UInt64)
  | activationFailed (unix : Int) (cls node error : String)
  | healthFailed (unix : Int) (cls node : String) (consecutive : Nat)
  | probed (unix : Int) (source : String) (ok total : Nat)
  | reloaded (unix : Int) (detail : String)
  | subscriptionChanged (unix : Int) (previous active : String) (nodeCount : Nat) (refreshed : Bool)
  | subscriptionChangeFailed (unix : Int) (profile error : String)
deriving DecidableEq

structure SubscriptionSummary where
  name : String
  nodeCount : Option Nat
deriving DecidableEq

/-- One configured class as the dashboard shows it. -/
structure ClassOverview where
  name : String
  listen : String
  activeNode : Option String
  generation : UInt64
  selection : String
deriving DecidableEq

/-- What a status request is told of one class. -/
structure StatusSnapshot where
  cls : String
  activeNode : Option String
  socksPort : Option Nat
  httpPort : Option Nat
  generation : UInt64
  nodes : BTreeMap NodeStats
  traffic : BTreeMap NodeTraffic
  activeConns : Nat
  activeSubscription : Option String
  subscriptionGeneration : Option UInt64
  subscriptionTxnInProgress : Option Bool
  availableSubscriptions : List SubscriptionSummary
  availableNodes : List String
  classes : List ClassOverview

structure Reply where
  ok : Bool
  error : Option String := none
  status : Option StatusSnapshot := none
  switch : Option SwitchOutcome := none
  subscriptionSwitch : Option SubscriptionSwitchOutcome := none
  probe : Option (List ProbeResult) := none
  events : Option (List Event) := none
  siteMatrix : Option (BTreeMap (BTreeMap SiteVerdict)) := none
  siteSwitch : Option SwitchForSiteOutcome := none
  message : Option String := none

def Reply.err (error : String) : Reply := { ok := false, error := some error }

def eventCap : Nat := 200

/-- `EventLog::push`: a ring that drops its oldest entry. -/
def pushEvent (events : List Event) (event : Event) : List Event :=
  (if events.length = eventCap then events.drop 1 else events) ++ [event]

/-! ### Files -/

/-- Bytes written at an offset, over a hole of zeros if the offset is past the end. -/
def writeAt (content : Bytes) (offset : Nat) (bytes : Bytes) : Bytes :=
  content.take offset ++ List.replicate (offset - content.length) 0 ++ bytes ++
    content.drop (offset + bytes.length)

/-- Files of one directory by inode. -/
structure Inodes where
  content : Nat → Bytes
  next : Nat

namespace Inodes

variable (inodes : Inodes)

def create : Nat × Inodes :=
  (inodes.next, { content := Function.update inodes.content inodes.next [], next := inodes.next + 1 })

def truncate (inode : Nat) : Inodes :=
  { inodes with content := Function.update inodes.content inode [] }

def write (inode offset : Nat) (bytes : Bytes) : Inodes :=
  { inodes with
    content := Function.update inodes.content inode (writeAt (inodes.content inode) offset bytes) }

end Inodes

/-- `tmp` and `file` are the two names the state file is saved through. -/
structure StateDir where
  inodes : Inodes
  tmp : Option Nat
  file : Option Nat

namespace StateDir

variable (dir : StateDir)

/-- The two names are those of different files that exist. -/
structure Ok : Prop where
  tmp : ∀ inode, dir.tmp = some inode → inode < dir.inodes.next
  file : ∀ inode, dir.file = some inode → inode < dir.inodes.next
  apart : ∀ inode, dir.tmp = some inode → dir.file ≠ some inode

def bytes : Option Bytes := dir.file.map dir.inodes.content

/-- Open the temporary name for writing: truncate the file it names, or create one. -/
def openTmp : Nat × StateDir :=
  match dir.tmp with
  | some inode => (inode, { dir with inodes := dir.inodes.truncate inode })
  | none => (dir.inodes.create.1, { dir with inodes := dir.inodes.create.2, tmp := some dir.inodes.create.1 })

def write (inode offset : Nat) (bytes : Bytes) : StateDir :=
  { dir with inodes := dir.inodes.write inode offset bytes }

/-- `rename(tmp, file)`: fails if the temporary name is gone. -/
def renameTmp : Option StateDir :=
  dir.tmp.map fun inode => { dir with tmp := none, file := some inode }

end StateDir

/-- The cache files by path; the configuration keeps them apart from the state file. -/
structure CacheDir where
  inodes : Inodes
  files : Path → Option Nat

namespace CacheDir

variable (dir : CacheDir)

def bytes (path : Path) : Option Bytes := (dir.files path).map dir.inodes.content

/-- Rename a private file over the path. -/
def rename (inode : Nat) (path : Path) : CacheDir :=
  { dir with files := Function.update dir.files path (some inode) }

end CacheDir

/-! ### What happened -/

/-- What a verdict or a result rests on, in counts of subscription publications: the pool its node was taken from, the gate it was measured under, and its recording. -/
structure Stamp where
  takenAt : Nat
  gateAt : Nat
  recordedAt : Nat
deriving DecidableEq

/-- What a hysteresis step compares: two nodes, and the statistics it reads of them. -/
structure Challenge where
  current : String
  challenger : String
  currentStats : Option NodeStats
  challengerStats : Option NodeStats
deriving DecidableEq

def Challenge.won (challenge : Challenge) (hysteresis : ℚ) : Bool :=
  match challenge.challengerStats, challenge.currentStats with
  | some c, some i => challengerWins c i hysteresis
  | some _, none => true
  | none, _ => false

/-- What an automatic switch goes by under the class lock: the active node, the pool and the scores. -/
structure SwitchField where
  active : Option String
  nodes : List Node
  st : StateFile
deriving DecidableEq

/-- Why a path is installed. -/
inductive Cause where
  | initial
  | manual
  | healthFailures (bookedAt : Nat)
  /-- With what the step found under the class lock, and the names of the candidates that have failed before. -/
  | challengerWins (challenge : Challenge) (field : SwitchField) (failed : List String)
  | egressChange
  | subscriptionChange (refreshed : Bool)
  /-- For a site: the node the request wants to leave, and the active one when it took the class. -/
  | site (nodeBefore activeAtLock : Option String)
  | pathRecovery (cause : Cause)
deriving DecidableEq

def Cause.reason : Cause → String
  | .initial => "initial"
  | .manual | .site _ _ => "manual"
  | .healthFailures _ => "health-failures"
  | .challengerWins _ _ _ => "challenger-wins"
  | .egressChange => "egress-change"
  | .subscriptionChange _ => "subscription-change"
  | .pathRecovery _ => "path-recovery"

/-- The cause for the next candidate after the one of this name has failed. -/
def Cause.missed (name : String) : Cause → Cause
  | .challengerWins challenge field failed => .challengerWins challenge field (failed ++ [name])
  | cause => cause

/-- The booking of the health verdict that a recovery acts on. -/
def Cause.recovery : Cause → Option Nat
  | .healthFailures bookedAt => some bookedAt
  | .pathRecovery cause => cause.recovery
  | _ => none

/-- How far a health sample came: it failed or timed out before the listener had read a route for it, or it went on through the path that the route showed. -/
inductive Passage where
  | unreached
  | through (path : Option Nat)
deriving DecidableEq

/-- What happened to one class, in order: a path was put in its route, or a health verdict was booked. A booked verdict comes with how far its samples came and the number of earlier events when the first of them was taken. -/
inductive ClassEvent where
  | installed (new : ActiveNode) (old : Option ActiveNode) (cause : Cause)
  | booked (samples : List Passage) (sampledAt : Nat) (ok : Bool)
deriving DecidableEq

/-- What is remembered of a step. An install comes with the publications its node was chosen and installed under. -/
inductive Obs where
  | precheck (thread : Nat) (node : String) (passed : Bool)
  | installed (thread : Nat) (cls node : String) (chosenAt installedAt : Nat)
  | siteVerdict (thread : Nat) (site node : String) (status : SiteStatus) (stamp : Option Stamp) (now : Nat)
  | siteSwitch (thread : Nat) (site node : String) (stamp : Option Stamp) (now : Nat)
  | siteRecorded (site node : String) (stamp : Stamp)
  | probeErred (node : String)
  | probeRecorded (node : String) (readAt : Nat) (stamp : Stamp)
deriving DecidableEq

/-- What happened to the recovery of a class: an attempt that health failures asked for has started, one has failed, or a path was installed by whatever operation. -/
inductive RecoveryEvent where
  | started (now : Nat)
  | failed (now delay : Nat)
  | installed
deriving DecidableEq

inductive SaveKind where
  /-- `save_state`: the shared state, under its mutex. -/
  | shared
  /-- The transaction's clone, with the cache commit it makes durable. -/
  | cloned (target : String) (commit : Option (Path × Bytes))
deriving DecidableEq

structure Save where
  kind : SaveKind
  content : Bytes
  inode : Option Nat
  written : Nat
  renamed : Bool
deriving DecidableEq

/-- What the transaction replaced the state with: the state it had cloned, the one that was there, and the next one. -/
structure Replacement where
  cloned : StateFile
  present : StateFile
  next : StateFile

/-- What a drain has waited out. -/
inductive DrainTimer where
  | grace
  | cap
deriving DecidableEq

/-- A connection that completed normally: the node and the profile of the route it had captured, what it relayed, and how often the selected profile had changed by its capture. -/
structure Carried where
  node : String
  profile : String
  up : Nat
  down : Nat
  capturedAt : Nat
deriving DecidableEq

structure Trail where
  /-- Subscription publications so far. -/
  published : Nat
  /-- How often the selected profile has changed. -/
  selections : Nat
  /-- Newest first. -/
  carried : List Carried
  /-- The publication a class's route belongs to. -/
  routeEpoch : String → Nat
  /-- The routes read by connections, newest first, with their publication. -/
  reads : List (String × Nat)
  /-- Newest first. -/
  hist : String → List ClassEvent
  /-- Newest first. -/
  log : List Obs
  stamps : String → String → Option Stamp
  saves : Nat → Option Save
  /-- The profile a transaction is committing, from its save to its publication, and whether that save has returned. -/
  window : Nat → Option (String × Bool)
  passed : List StateFile
  /-- The cache commits that the state file on disk records. -/
  recorded : String → Option (Path × Bytes)
  /-- The catalog of the transaction that began last. -/
  catalog : Option SubscriptionsConfig
  replaced : List Replacement
  /-- The threads with a connection open on a path, one entry for each. -/
  leases : List (Nat × Nat)
  /-- The timers that drains have seen run out, by path. -/
  timers : List (Nat × DrainTimer)
  /-- Newest first. -/
  recovery : String → List RecoveryEvent

namespace Trail

variable (trail : Trail) (me : Nat)

def updateSave (f : Save → Save) : Trail :=
  { trail with saves := Function.update trail.saves me ((trail.saves me).map f) }

def note (obs : Obs) : Trail := { trail with log := obs :: trail.log }

def noteRecovery (cls : String) (event : RecoveryEvent) : Trail :=
  { trail with recovery := Function.update trail.recovery cls (event :: trail.recovery cls) }

end Trail

/-! ### Jobs, locks and the world -/

/-- A spawned task. -/
inductive Job where
  | probe (request index : Nat) (node : Node) (era : UInt64) (cls : String) (takenAt readAt : Nat)
  | site (request : Nat) (node : Node) (site url : String) (takenAt : Nat)
  | drain (active : ActiveNode)
deriving DecidableEq

/-- The round of the job and its place in it. -/
def Job.slot : Job → Option (Nat × Nat)
  | .probe request index _ _ _ _ _ => some (request, index)
  | .site request _ _ _ _ => some (request, 0)
  | .drain _ => none

inductive LockName where
  | subscriptionTxn
  | reconfiguration
  | cls (name : String)
  | route (name : String)
  | state
deriving DecidableEq

/-- Who answers for a running data plane; a drain is queued until a thread runs it. -/
inductive Owner where
  | task (thread : Nat)
  | active (cls : String)
  | draining (runner : Option Nat)
deriving DecidableEq

/-- A class's plane is replaced: whoever replaces it gets the old one. -/
def swapPlanes (me : Nat) (cls : String) (newActive : ActiveNode) (old : Option ActiveNode)
    (planes : Nat → Option Owner) : Nat → Option Owner :=
  let handed :=
    match old with
    | some old => Function.update planes old.handle.id (some (.task me))
    | none => planes
  Function.update handed newActive.handle.id (some (.active cls))

structure World where
  locks : LockName → Lock
  subscriptions : SubscriptionRuntime
  state : StateFile
  runtime : String → ClassRuntime
  route : String → ClassRoute
  traffic : TrafficState
  events : List Event
  subscriptionTxnsInProgress : Nat
  shutdown : Bool
  drainShutdown : Bool
  /-- Open client connections. -/
  conns : Nat
  /-- Connections on each path: a `u64` of the source, one for each open connection. -/
  connections : Nat → Nat
  stateDir : StateDir
  cacheDir : CacheDir
  /-- The running data planes. -/
  planes : Nat → Option Owner
  nextPlane : Nat
  jobs : List Job
  /-- The size of the drain set. -/
  draining : Nat
  finished : List (Nat × Nat × Option ProbeResult)
  permits : Nat → Nat
  nextRequest : Nat
  /-- The threads that have begun and that shutdown waits for. -/
  entered : List Nat
  /-- No further thread begins. -/
  closed : Bool
  trail : Trail

/-- The rounds of jobs: what is spawned but not taken, what is done but not joined, and the number of the next round. -/
structure Rounds where
  jobs : List Job
  finished : List (Nat × Nat × Option ProbeResult)
  next : Nat

def World.rounds (w : World) : Rounds := ⟨w.jobs.filter (·.slot.isSome), w.finished, w.nextRequest⟩

/-- A task of the daemon. -/
abbrev Sup := Prog World Outside

end Causeway

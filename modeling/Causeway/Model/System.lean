import Causeway.Model.Loops
import Causeway.Model.Status

/-!
# The daemon

The tasks that run beside each other, the pool they form, and startup: what a start reads from disk and the world it begins in. Teardown begins only after all of them and has a module of its own.
-/

namespace Causeway

open Concurrent

/-- Everything that runs on the shared world. Numbers are how many rounds of an endless loop are run. -/
inductive Task where
  | idle
  | switch (cls node : String)
  | switchSubscription (name : String)
  | reload
  | probeNow (cls : String)
  | siteProbe (site : Option String)
  | switchForSite (cls site : String)
  | activateInitial (cls : String)
  | healthLoop (cls : String) (ticks : Nat)
  | probeLoop (rounds : Nat)
  | egressLoop (rounds : Nat)
  | job
  | status (cls : String) (retries : Nat)
  | connection (cls : String) (proto : InboundProto)
  /-- The shutdown signal. -/
  | signal
deriving DecidableEq

/-- The control reply of a manual switch. -/
def Sup.switchRequest (env : Env) (me : Nat) (cls node : String) : Sup Reply := do
  if cls ∉ env.classes then return .err ("unknown class " ++ cls.quote)
  match ← Sup.switchTo env me cls node .operator with
  | .ok outcome => return { ok := true, switch := some outcome }
  | .error error => return .err error

def noReply : Reply := { ok := true }

/-- The program of a task, run by thread `me`. -/
def Task.prog (env : Env) (me : Nat) : Task → Sup Reply
  | .idle => return noReply
  | .switch cls node => Sup.switchRequest env me cls node
  | .switchSubscription name => Sup.switchSubscription env me name
  | .reload => Sup.reload env me
  | .probeNow cls => Sup.probeNow env me cls
  | .siteProbe site => Sup.siteProbeRequest env me site
  | .switchForSite cls site => Sup.switchForSite env me cls site
  | .activateInitial cls => do
      if cls ∈ env.classes then Sup.activateInitial env me cls
      return noReply
  | .healthLoop cls ticks => do
      if cls ∈ env.classes then Sup.rounds (Sup.healthTick env me cls) ticks
      return noReply
  | .probeLoop rounds => do
      Sup.rounds (Sup.probeRound env me) rounds
      return noReply
  | .egressLoop rounds => do
      Sup.rounds (Sup.egressRound env me) rounds
      return noReply
  | .job => do
      Sup.runJob env me
      return noReply
  | .status cls retries => Sup.status env cls retries
  | .connection cls proto => do
      if cls ∈ env.classes then Sup.handleConn me cls proto
      return noReply
  | .signal => do
      Sup.modify fun w => { w with shutdown := true }
      return noReply

/-- The daemon with any assignment of tasks to threads. -/
def daemon (env : Env) (tasks : Nat → Task) (w : World) : Pool World Outside Reply :=
  { shared := w, thread := fun i => (tasks i).prog env i }

/-! ### Startup -/

def idleRuntime : ClassRuntime := { active := none, autoRecovery := ⟨0, none⟩, healthFailures := 0 }

def emptyRoute : ClassRoute :=
  { socksUpstream := none, httpUpstream := none, nodeName := "", generation := 0, pathConnections := none,
    trafficSubscription := "" }

def defaultProfileName (catalog : SubscriptionsConfig) : Option String :=
  if !catalog.files.isEmpty then some legacySubscriptionName
  else
    match catalog.default, catalog.profiles.keys with
    | some name, _ => some name
    | none, [name] => some name
    | none, _ => none

/-- `startup_snapshot`: the offline pool; an unconfirmed cache is used only for a trusted source. -/
def startupSnapshot (env : Env) (read : Path → Option Bytes) (st : StateFile) (identities : BTreeMap String)
    (active : String) (profile : SubscriptionProfileConfig) : List Node :=
  match st.subscriptionCacheSlots[active]? with
  | some slot => loadProfileSnapshotFromSlot env.parseStr read profile (some slot)
  | none =>
      if (identities[active]?).any fun identity => st.sourceIsTrusted active identity then
        loadProfileSnapshotFromSlot env.parseStr read profile none
      else []

/-- A start from a loaded state: reconciled and activated, with the node pool. Nothing if it refuses to start. -/
def startFrom (env : Env) (read : Path → Option Bytes) (st : StateFile) : Option (StateFile × String × List Node) := do
  let identities ← env.cfg.subscriptions.sourceIdentities env.sourceIdentity
  let st := st.reconcileStartupSources identities
  let fallback ← defaultProfileName env.cfg.subscriptions
  let active := (st.activeSubscription.filter fun name =>
    (env.cfg.subscriptions.profile name).isSome).getD fallback
  let st := (st.activateSubscription active).2
  let profile ← env.cfg.subscriptions.profile active
  let nodes := startupSnapshot env read st identities active profile
  if nodes.isEmpty then none else some (st, active, nodes)

/-- What a start loads from the state file and the caches. -/
def loadStartup (env : Env) (read : Path → Option Bytes) (file : Option Bytes) :
    Option (StateFile × String × List Node) :=
  match env.load file with
  | .error _ => none
  | .ok st => startFrom env read (st.getD default)

def emptyTrail (recorded : String → Option (Path × Bytes)) : Trail :=
  { published := 0, selections := 0, carried := [], routeEpoch := fun _ => 0, reads := [], hist := fun _ => [], log := [],
    stamps := fun _ _ => none, saves := fun _ => none, window := fun _ => none, passed := [],
    recorded := recorded, catalog := none, replaced := [], leases := [], timers := [], recovery := fun _ => [] }

def startWorld (env : Env) (stateDir : StateDir) (cacheDir : CacheDir) (recorded : String → Option (Path × Bytes))
    (st : StateFile) (active : String) (nodes : List Node) : World :=
  { locks := fun _ => .free
    subscriptions := { active := active, nodes := nodes, catalog := env.cfg.subscriptions, generation := 0 }
    state := st
    runtime := fun _ => idleRuntime
    route := fun _ => emptyRoute
    traffic := { subscription := some active, nodes := ∅ }
    events := []
    subscriptionTxnsInProgress := 0
    shutdown := false
    drainShutdown := false
    conns := 0
    connections := fun _ => 0
    stateDir := stateDir
    cacheDir := cacheDir
    planes := fun _ => none
    nextPlane := 0
    jobs := []
    draining := 0
    finished := []
    permits := fun _ => 0
    nextRequest := 0
    entered := []
    closed := false
    trail := emptyTrail recorded }

end Causeway

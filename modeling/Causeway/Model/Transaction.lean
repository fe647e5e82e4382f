import Causeway.Model.Switching

/-!
# The subscription transaction

`switch_subscription_locked`: prepare the target profile, stage one data plane for every class, commit the cache, save the next state, and publish. Up to the save every failure discards what was staged; after it the transaction cannot fail.
-/

namespace Causeway

open Concurrent

def timedOut : String := "subscription transaction timed out before commit"

/-- What a transaction has established before it takes the write gate. -/
structure Request where
  target : String
  catalog : SubscriptionsConfig
  previous : String
  previousCatalog : SubscriptionsConfig
  confirmedSlot : Option String
  sourceTrusted : Bool
  prepared : PreparedSubscription

/-- The requested profile is the active one. -/
def Request.refreshed (request : Request) : Bool := request.previous = request.target

/-- A class with its staged path and the route generation it will get. -/
structure Planned where
  cls : String
  active : ActiveNode
  generation : UInt64

namespace Sup

def subscriptionFailure (profile message : String) : Sup Reply := do
  pushEvent fun o => .subscriptionChangeFailed o.now profile message
  return .err message

/-! ### Preparation -/

/-- Fetch and parse, or elapse. -/
def fetchProfile (env : Env) (profile : SubscriptionProfileConfig) : Sup (Option (Option PreparedProfile)) :=
  ask fun o =>
    if o.elapsed then none else some (prepareProfile env.parseStr o.file o.body profile)

/-- The confirmed cache generation of the profile. -/
def loadConfirmed (env : Env) (profile : SubscriptionProfileConfig) (confirmedSlot : Option String) :
    Sup (List Node) :=
  act fun o w =>
    (loadProfileSnapshotFromSlot env.parseStr (fun path => (w.cacheDir.bytes path).or (o.file path))
      profile confirmedSlot, w)

/-- `prepare_subscription`: nothing if the deadline passed; an inner nothing if it failed. -/
def prepareSubscription (env : Env) (profile : SubscriptionProfileConfig) (allowCachedFallback : Bool)
    (confirmedSlot : Option String) : Sup (Option (Option PreparedSubscription)) := do
  match ← fetchProfile env profile with
  | none => return none
  | some (some prepared) => return some (some (.fresh prepared))
  | some none =>
      if allowCachedFallback then
        match ← loadConfirmed env profile confirmedSlot with
        | [] => return some none
        | nodes => return some (some (.cached nodes))
      else return some none

/-- Everything up to the write gate. -/
def openTransaction (env : Env) (target : String) (catalog : SubscriptionsConfig)
    (allowCachedFallback isReload : Bool) : Sup (Except Reply Request) := do
  match catalog.profile target with
  | none => return .error (.err "unknown subscription profile")
  | some profile =>
  match env.sourceIdentity profile with
  | none => return .error (.err "invalid subscription source identity")
  | some sourceIdentity =>
  let (previous, previousCatalog) ← act fun _ w =>
    ((w.subscriptions.active, w.subscriptions.catalog), { w with trail := { w.trail with catalog := some catalog } })
  let catalogSourceUnchanged :=
    (previousCatalog.profile target).bind env.sourceIdentity = some sourceIdentity
  let (confirmedSlot, trusted) ← readState fun st =>
    (st.subscriptionCacheSlots[target]?, st.sourceIsTrusted target sourceIdentity)
  let sourceTrusted := trusted && catalogSourceUnchanged
  match ← prepareSubscription env profile
      (allowCachedFallback && previous ≠ target && sourceTrusted) confirmedSlot with
  | none => return .error (← subscriptionFailure target timedOut)
  | some none => return .error (← subscriptionFailure target "subscription preparation failed")
  | some (some prepared) =>
      if prepared.nodes.isEmpty then
        return .error (← subscriptionFailure target "subscription preparation failed")
      if prepared.nodes.length > maxProfileNodes then
        return .error (← subscriptionFailure target "subscription node-count limit exceeded")
      if isReload then
        if (← look (·.subscriptions.active)) ≠ previous then
          return .error (.err "reload aborted: active subscription changed")
      return .ok ⟨target, catalog, previous, previousCatalog, confirmedSlot, sourceTrusted, prepared⟩

/-! ### Staging -/

def stopStaged : List ActiveNode → Sup Unit
  | [] => return
  | active :: staged => do
      stopPlane active.handle.id
      stopStaged staged

/-- The first candidate of a class that passes its pre-check, under the deadline. -/
def stageFirst (env : Env) (me : Nat) (cls : String) : List Node → Sup Attempt
  | [] => return .failed "no candidate passed pre-check for a class"
  | candidate :: candidates => do
      match ← tryActivate env me cls candidate true with
      | .failed _ => stageFirst env me cls candidates
      | attempt => return attempt

/-- The candidates of one class: a refresh prefers the incumbent and keeps the region allowlist. -/
def stagingCandidates (env : Env) (request : Request) (stats : Option (BTreeMap NodeStats)) (cls : String) :
    Sup (List Node) := do
  let preferred ← if request.refreshed then activeName cls else pure none
  let regions := if request.refreshed then env.cfg.classRegions cls else []
  return (profileCandidates request.prepared.nodes stats preferred regions).take maxSwitchCandidates

/-- One path per class, or stop what was staged. -/
def stageClasses (env : Env) (me : Nat) (request : Request) (stats : Option (BTreeMap NodeStats)) :
    List String → List ActiveNode → Sup (Except String (List ActiveNode))
  | [], staged => return .ok staged
  | cls :: classes, staged => do
      let candidates ← stagingCandidates env request stats cls
      match ← stageFirst env me cls candidates with
      | .activated active => stageClasses env me request stats classes (staged ++ [active])
      | .elapsed =>
          stopStaged staged
          return .error timedOut
      | .failed error =>
          stopStaged staged
          return .error error

/-! ### Commit -/

/-- `commit_prepared_cache`: the committed profile, and the file and bytes it rests on. -/
def commitPreparedCache (prepared : PreparedSubscription) (confirmedSlot : Option String) :
    Sup (Option (PreparedSubscription × Option (Path × Bytes))) :=
  match prepared with
  | .cached nodes => return some (.cached nodes, none)
  | .fresh fresh => do
      match ← commitCacheSlot fresh confirmedSlot with
      | none => return none
      | some committed =>
          return some (.fresh committed, fresh.pendingCache.bind fun (base, bytes) =>
            (cacheSlotPath base (nextSlot confirmedSlot)).map fun path => (path, bytes))

/-- Each class with its staged path and its next route generation. -/
def planClasses : List (String × ActiveNode) → Sup (List Planned)
  | [] => return []
  | (cls, active) :: staged => do
      let generation ← Prog.atomic fun _ w =>
        match w.locks (.route cls) with
        | .writer _ => none
        | .readers _ => some ((w.route cls).generation, w)
      let planned ← planClasses staged
      return ⟨cls, active, generation + 1⟩ :: planned

end Sup

/-- A planned class's entry; ports are not persisted before publication. -/
def planState (st : StateFile) (planned : Planned) : StateFile :=
  (st.updateClass planned.cls fun _ =>
    { activeNode := some planned.active.node.name, socksPort := none, httpPort := none,
      generation := planned.generation }).resetHealthFailures planned.active.node.name

/-- The state a transaction saves and publishes; nothing if a source of the catalog has no identity. -/
def nextState (env : Env) (request : Request) (fresh : Bool) (committedSlot : Option String)
    (planned : List Planned) (now : Int) (st : StateFile) : Option StateFile :=
  (request.catalog.sourceIdentities env.sourceIdentity).map fun next =>
    let previous := (request.previousCatalog.sourceIdentities env.sourceIdentity).getD ∅
    let st := st.applySubscriptionCatalog previous next (if fresh then some request.target else none)
    let st := (st.activateSubscription request.target).2
    let st :=
      match committedSlot with
      | some slot =>
          { st with subscriptionCacheSlots := st.subscriptionCacheSlots.insert request.target slot }
      | none => st
    { planned.foldl planState st with updatedUnix := now }

namespace Sup

/-! ### Publication -/

def lockRoutes (me : Nat) : List String → Sup Unit
  | [] => return
  | cls :: classes => do
      acquireWrite me (.route cls)
      lockRoutes me classes

def releaseAll (me : Nat) : List LockName → Sup Unit
  | [] => return
  | name :: names => do
      release me name
      releaseAll me names

/-- `*st = next_state`, under the state mutex; `cloned` is the state the next one was made from. -/
def replaceState (me : Nat) (cloned next : StateFile) : Sup Unit :=
  modify fun w => { w with
    state := next
    trail := { w.trail with
      window := Function.update w.trail.window me none
      replaced := ⟨cloned, w.state, next⟩ :: w.trail.replaced } }

/-- One class of the published batch: runtime, route and persisted ports. -/
def publishClass (me : Nat) (target : String) (refreshed : Bool) (planned : Planned) : Sup (Option ActiveNode) :=
  act fun _ w =>
    let old := (w.runtime planned.cls).active
    let route : ClassRoute :=
      { socksUpstream := some planned.active.handle.socksAddr
        httpUpstream := some planned.active.handle.httpAddr
        nodeName := planned.active.node.name
        generation := planned.generation
        pathConnections := some planned.active.pathConnections
        trafficSubscription := target }
    let hist := .installed planned.active old (.subscriptionChange refreshed) :: w.trail.hist planned.cls
    (old, { w with
      runtime := Function.update w.runtime planned.cls
        { active := some planned.active, autoRecovery := ⟨0, none⟩, healthFailures := 0 }
      route := Function.update w.route planned.cls route
      state := w.state.updateClass planned.cls fun cs =>
        { cs with
          socksPort := some planned.active.handle.socksAddr
          httpPort := some planned.active.handle.httpAddr }
      planes := swapPlanes me planned.cls planned.active old w.planes
      trail := { (w.trail.noteRecovery planned.cls .installed).note (.installed me planned.cls planned.active.node.name
        (w.trail.published + 1) (w.trail.published + 1)) with
        routeEpoch := Function.update w.trail.routeEpoch planned.cls (w.trail.published + 1)
        hist := Function.update w.trail.hist planned.cls hist } })

def publishClasses (me : Nat) (target : String) (refreshed : Bool) : List Planned → Sup (List ActiveNode)
  | [] => return []
  | planned :: rest => do
      let old ← publishClass me target refreshed planned
      let others ← publishClasses me target refreshed rest
      return old.toList ++ others

/-- The profile, its pool and the catalog change together. -/
def publishRuntime (target : String) (nodes : List Node) (catalog : SubscriptionsConfig) : Sup Unit :=
  modify fun w => { w with
    subscriptions :=
      { active := target, nodes := nodes, catalog := catalog, generation := w.subscriptions.generation + 1 }
    trail := { w.trail with published := w.trail.published + 1 } }

def selectSubscription (target : String) : Sup Unit :=
  modify fun w => { w with
    traffic := w.traffic.selectSubscription target
    trail := { w.trail with
      selections := w.trail.selections + if w.traffic.subscription = some target then 0 else 1 } }

/-- The publication: every route lock and the state mutex are held over all of it. -/
def publish (env : Env) (me : Nat) (request : Request) (nodes : List Node) (planned : List Planned)
    (cloned next : StateFile) : Sup (List ActiveNode) := do
  lockRoutes me env.classes
  acquireWrite me .state
  replaceState me cloned next
  let old ← publishClasses me request.target request.refreshed planned
  publishRuntime request.target nodes request.catalog
  selectSubscription request.target
  release me .state
  releaseAll me (env.classes.map .route)
  return old

def pushSwitched (now : Int) (refreshed : Bool) : List Planned → Sup Unit
  | [] => return
  | planned :: rest => do
      pushEvent fun _ => .switched now planned.cls planned.active.node.name
        (Cause.subscriptionChange refreshed).reason planned.generation
      pushSwitched now refreshed rest

def drainAll : List ActiveNode → Sup Unit
  | [] => return
  | old :: rest => do
      scheduleDrain old
      drainAll rest

/-- What remains once the next state is saved. -/
def finishTransaction (env : Env) (me : Nat) (request : Request) (nodes : List Node)
    (planned : List Planned) (cloned next : StateFile) (now : Int) : Sup Reply := do
  let old ← publish env me request nodes planned cloned next
  saveState env me
  pushSwitched now request.refreshed planned
  pushEvent fun _ =>
    .subscriptionChanged now request.previous request.target nodes.length request.refreshed
  drainAll old
  return {
    ok := true
    subscriptionSwitch := some ⟨request.previous, request.target, nodes.length, request.refreshed⟩ }

/-- What is saved: the next state, with what publication needs. -/
structure Prepared where
  nodes : List Node
  planned : List Planned
  cloned : StateFile
  next : StateFile
  commit : Option (Path × Bytes)
  now : Int

/-- Stage every class, commit the cache and compute the next state; failures stop what was staged. -/
def stageTransaction (env : Env) (me : Nat) (request : Request) :
    Sup (Except String (List ActiveNode × Prepared)) := do
  let stats ← readState fun st =>
    if request.sourceTrusted then st.nodesForSubscription request.target else none
  match ← stageClasses env me request stats env.classes [] with
  | .error message => return .error message
  | .ok staged =>
      if ← ask (·.elapsed) then
        stopStaged staged
        return .error timedOut
      match ← commitPreparedCache request.prepared request.confirmedSlot with
      | none =>
          stopStaged staged
          return .error "subscription cache commit failed"
      | some (prepared, commit) =>
          let now ← ask (·.now)
          let planned ← planClasses (env.classes.zip staged)
          let (cloned, next) ← readState fun st =>
            (st, nextState env request prepared.isFresh prepared.committedSlot planned now st)
          match next with
          | none =>
              stopStaged staged
              return .error "invalid subscription source identity"
          | some next => return .ok (staged, ⟨prepared.nodes, planned, cloned, next, commit, now⟩)

/-- The transaction under the write gate and every class lock. -/
def transact (env : Env) (me : Nat) (request : Request) : Sup Reply := do
  match ← stageTransaction env me request with
  | .error message => subscriptionFailure request.target message
  | .ok (staged, prepared) =>
      match ← saveAtomic env me (.cloned request.target prepared.commit) prepared.next with
      | none =>
          stopStaged staged
          subscriptionFailure request.target "subscription state commit failed"
      | some _ =>
          finishTransaction env me request prepared.nodes prepared.planned prepared.cloned prepared.next
            prepared.now

/-- Take the class locks in order; false if the deadline passed at one of them. -/
def lockClasses (me : Nat) : List String → Sup Bool
  | [] => return true
  | cls :: classes => do
      if ← acquireWriteBy me (.cls cls) then lockClasses me classes
      else return false

/-- `switch_subscription_locked`, with the transaction mutex held by the caller. -/
def switchSubscriptionLocked (env : Env) (me : Nat) (target : String) (catalog : SubscriptionsConfig)
    (allowCachedFallback isReload : Bool) : Sup Reply := do
  match ← openTransaction env target catalog allowCachedFallback isReload with
  | .error reply => return reply
  | .ok request =>
      if ← acquireWriteBy me .reconfiguration then
        releasing me .reconfiguration do
          let reply ←
            if ← lockClasses me env.classes then transact env me request
            else subscriptionFailure target timedOut
          releaseAll me (env.classes.map .cls)
          return reply
      else subscriptionFailure target timedOut

/-- Subscription mutations queued or running; status requests look at it. -/
def countTransaction (f : Nat → Nat) : Sup Unit :=
  modify fun w => { w with subscriptionTxnsInProgress := f w.subscriptionTxnsInProgress }

def switchSubscription (env : Env) (me : Nat) (target : String) : Sup Reply := do
  countTransaction (· + 1)
  let reply ← withWrite me .subscriptionTxn do
    let catalog ← look (·.subscriptions.catalog)
    switchSubscriptionLocked env me target catalog true false
  countTransaction (· - 1)
  return reply

end Sup

def nonSubscriptionConfigChanged (running candidate : Config) : Bool :=
  { candidate with subscriptions := running.subscriptions } ≠ running

namespace Sup

def reloadFailed (detail : String) : Sup Reply := do
  pushEvent fun o => .reloaded o.now detail
  return .err detail

/-- `reload` with the transaction mutex held. -/
def reloadLocked (env : Env) (me : Nat) : Sup Reply := do
  match ← ask (·.config) with
  | none => reloadFailed "reload failed: invalid configuration"
  | some cfg =>
      if nonSubscriptionConfigChanged env.cfg cfg then
        return ← reloadFailed "non-subscription configuration changed — daemon restart required"
      let active ← look (·.subscriptions.active)
      if (cfg.subscriptions.profile active).isNone then
        return ← reloadFailed "reload aborted: active subscription is no longer configured"
      let outcome ← switchSubscriptionLocked env me active cfg.subscriptions false true
      if !outcome.ok then
        return ← reloadFailed (outcome.error.getD "reload failed: subscription refresh failed")
      let nodeCount := (outcome.subscriptionSwitch.map (·.nodeCount)).getD 0
      let detail := "config OK — " ++ toString nodeCount ++
        " node(s) in pool (interval changes take effect on restart)"
      pushEvent fun o => .reloaded o.now detail
      return { ok := true, message := some detail }

/-- `reload`: the subscription catalog is all that may change. -/
def reload (env : Env) (me : Nat) : Sup Reply := do
  countTransaction (· + 1)
  let reply ← withWrite me .subscriptionTxn (reloadLocked env me)
  countTransaction (· - 1)
  return reply

end Sup

end Causeway

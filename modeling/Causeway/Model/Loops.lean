import Causeway.Model.Probing
import Causeway.Model.Transaction

/-!
# Background loops

Health ticks, probe cycles with their hysteresis step, egress rebuilds, initial activation, drains and client connections. An endless loop is modelled by every number of its rounds.
-/

namespace Causeway

open Concurrent

/-- Whose plane it is once thread `me` runs the job. -/
def Job.run (me : Nat) (planes : Nat → Option Owner) : Job → Nat → Option Owner
  | .drain active => Function.update planes active.handle.id (some (.draining (some me)))
  | _ => planes

namespace Sup

def forEach {α : Type} (body : α → Sup Unit) : List α → Sup Unit
  | [] => return
  | item :: items => do
      body item
      forEach body items

/-- A loop's rounds, until one of them ends it. -/
def rounds (body : Sup Bool) : Nat → Sup Unit
  | 0 => return
  | count + 1 => do
      if ← body then rounds body count

/-! ### Health ticks -/

/-- A multi-sample verdict; nothing if it was cancelled. -/
structure Sampled where
  verdict : Option Bool
  samples : List Passage
  sampledAt : Option Nat

/-- `is_healthy_sampled` through the class's own listener: any failing sample fails the tick. -/
def takeSamples (me : Nat) (cls url : String) (samples : List Passage) (sampledAt : Option Nat) : Nat → Sup Sampled
  | 0 => return ⟨some true, samples, sampledAt⟩
  | count + 1 => do
      if ← look (·.shutdown) then return ⟨none, samples, sampledAt⟩
      if ← ask (·.ok) then
        let (route, eventCount, _) ← captureRoute me cls .http
        let checked ← checkStatusTimed url
        releaseConnection me route .http
        let samples := samples ++ [.through route.pathConnections]
        let sampledAt := some (sampledAt.getD eventCount)
        match checked with
        | .ok (code, _) =>
            if route.httpUpstream.isSome && isSuccess code then takeSamples me cls url samples sampledAt count
            else return ⟨some false, samples, sampledAt⟩
        | .error _ => return ⟨some false, samples, sampledAt⟩
      else
        -- The connect to the listener fails, or the timeout comes before the listener has read the route.
        let eventCount ← look fun w => (w.trail.hist cls).length
        return ⟨some false, samples ++ [.unreached], some (sampledAt.getD eventCount)⟩

/-- The class-local streak and its event; returns the streak and the number of events so far. -/
def bookVerdict (cls : String) (ok : Bool) (sampled : Sampled) : Sup (Nat × Nat) :=
  act fun _ w =>
    let failures := if ok then 0 else min ((w.runtime cls).healthFailures + 1) (2 ^ 32 - 1)
    let hist := .booked sampled.samples (sampled.sampledAt.getD 0) ok :: w.trail.hist cls
    ((failures, hist.length), { w with
      runtime := Function.update w.runtime cls { w.runtime cls with healthFailures := failures }
      trail := { w.trail with hist := Function.update w.trail.hist cls hist } })

/-- `record_health_outcome`: the class's streak and when it was booked; a class without a path asks for recovery at once. -/
def recordHealthOutcome (env : Env) (cls : String) (ok : Bool) (sampled : Sampled) : Sup (Nat × Nat) := do
  match ← activeName cls with
  | some node =>
      lockState fun _ st =>
        ((), st.updateStats node fun stats => { stats with
          consecutiveHealthFailures := if ok then 0 else (stats.consecutiveHealthFailures + 1) % 2 ^ 32 })
      let (consecutive, bookedAt) ← bookVerdict cls ok sampled
      if !ok && consecutive > 0 then
        pushEvent fun o => .healthFailed o.now cls node consecutive
      return (consecutive, bookedAt)
  | none =>
      let bookedAt ← look fun w => (w.trail.hist cls).length
      return (env.cfg.health.failThreshold, bookedAt)

/-- One tick of `health_loop`, under the read gate throughout; false ends the loop. -/
def healthTick (env : Env) (me : Nat) (cls : String) : Sup Bool :=
  withRead me .reconfiguration do
    let sampled ← takeSamples me cls (env.cfg.classHealthUrl cls) [] none
      (max (env.cfg.classHealthSamples cls) 1)
    match sampled.verdict with
    | none => return false
    | some ok =>
        if ← look (·.shutdown) then return false
        let (failures, bookedAt) ← withWrite me (.cls cls) (recordHealthOutcome env cls ok sampled)
        if !ok && failures ≥ env.cfg.health.failThreshold then
          if !(← look (·.shutdown)) then recoverAfterHealthFailure env me cls bookedAt
        return true

/-! ### Probe cycles and hysteresis -/

/-- `probe_cycle`: TCP probes of the whole pool into the shared scores. -/
def probeCycle (env : Env) (me : Nat) (source : String) : Sup Unit :=
  withRead me .reconfiguration do
    let (nodes, _) ← pool
    let rtts ← ask (·.rtts)
    lockState fun o st =>
      ((), { nodes.foldl (fun st node => st.updateStats node.name fun stats =>
        stats.recordProbe (rtts node.name) env.cfg.selection.emaAlpha o.now) st with updatedUnix := o.now })
    saveState env me
    pushEvent fun o =>
      .probed o.now source (nodes.filter fun node => (rtts node.name).isSome).length nodes.length

/-- The incumbent and its best challenger, seen under the class lock. -/
def findChallenger (env : Env) (me : Nat) (cls : String) : Sup (Option (String × String)) :=
  withWrite me (.cls cls) do
    match ← activeName cls with
    | none => return none
    | some current =>
        let (nodes, _) ← pool
        readState fun st =>
          ((rankedCandidates nodes st (env.cfg.classRegions cls)).find? fun node =>
            node.name ≠ current).map fun node => (current, node.name)

/-- The hysteresis decision on the scores as they are. -/
def shouldSwitch (env : Env) (current challenger : String) : Sup (Bool × Challenge) :=
  readState fun st =>
    let challenge : Challenge := ⟨current, challenger, st.nodes[current]?, st.nodes[challenger]?⟩
    (challenge.won env.cfg.selection.hysteresis, challenge)

def hysteresisStep (env : Env) (me : Nat) (cls : String) : Sup Unit := do
  match ← findChallenger env me cls with
  | none => return
  | some (current, challenger) =>
      if env.cfg.classAutoSwitch cls then
        let (won, challenge) ← shouldSwitch env current challenger
        if won then switchNode env me cls challenge

def probeRound (env : Env) (me : Nat) : Sup Bool := do
  if ← look (·.shutdown) then return false
  probeCycle env me "periodic"
  forEach (hysteresisStep env me) env.classes
  return true

/-- One confirmed change in `egress_observer_loop`. -/
def egressRound (env : Env) (me : Nat) : Sup Bool := do
  if ← look (·.shutdown) then return false
  forEach (rebuildCurrentAfterEgressChange env me) env.classes
  return true

/-! ### Initial activation -/

/-- The first candidate that passes is installed; failures leave no mark. -/
def activateFirst (env : Env) (me : Nat) (cls : String) (chosenAt : Nat) : List Node → Sup Unit
  | [] => return
  | candidate :: candidates => do
      match ← tryActivate env me cls candidate false with
      | .activated active => installActive env me cls active .initial chosenAt
      | _ => activateFirst env me cls chosenAt candidates

/-- `activate_initial`: the incumbent of the state file first, then by score. -/
def activateInitial (env : Env) (me : Nat) (cls : String) : Sup Unit :=
  withWrite me (.cls cls) do
    let preferred ← readState fun st => (st.classes[cls]?).bind (·.activeNode)
    let (nodes, chosenAt) ← pool
    let candidates ← readState fun st =>
      profileCandidates nodes (some st.nodes) preferred (env.cfg.classRegions cls)
    activateFirst env me cls chosenAt candidates

/-! ### Jobs and connections -/

/-- Wait for a drain's timer, unless shutdown or what else it waits for is there. -/
def awaitDrain (path : Nat) (timer : DrainTimer) (enough : World → Bool) : Sup Unit :=
  .atomic fun o w =>
    if w.drainShutdown || enough w then some ((), w)
    else if o.elapsed then
      some ((), { w with trail := { w.trail with timers := (path, timer) :: w.trail.timers } })
    else none

/-- The drain of a retired path: the grace period, then polls until its connections are gone or the hard cap is reached, then the stop. -/
def drainPath (active : ActiveNode) : Sup Unit := do
  awaitDrain active.pathConnections .grace fun _ => false
  awaitDrain active.pathConnections .cap fun w => w.connections active.pathConnections = 0
  modify fun w => { w with
    planes := Function.update w.planes active.handle.id none
    draining := w.draining - 1 }

def takeJob (me : Nat) : Sup Job :=
  .atomic fun o w => (w.jobs[o.choice]?).map fun job =>
    (job, { w with jobs := w.jobs.eraseIdx o.choice, planes := job.run me w.planes })

def runJob (env : Env) (me : Nat) : Sup Unit := do
  match ← takeJob me with
  | .probe request index node era cls takenAt readAt =>
      probeJob env me request index node era cls takenAt readAt
  | .site request node site url takenAt => siteJob me request node site url takenAt
  | .drain active => drainPath active

/-- `TrafficCounters::add` at the end of a connection. -/
def addTraffic (route : ClassRoute) (up down capturedAt : Nat) : Sup Unit :=
  modify fun w => { w with
    traffic := if route.nodeName ≠ "" then w.traffic.add route.trafficSubscription route.nodeName up down else w.traffic
    trail := { w.trail with
      carried := ⟨route.nodeName, route.trafficSubscription, up, down, capturedAt⟩ :: w.trail.carried } }

def countConns (f : Nat → Nat) : Sup Unit := modify fun w => { w with conns := f w.conns }

/-- `handle_conn` with the accepted connection's own count; a protocol that is not known ends it. -/
def handleConn (me : Nat) (cls : String) (proto : InboundProto) : Sup Unit := do
  countConns (· + 1)
  if ← ask (·.ok) then
    let (route, _, capturedAt) ← captureRoute me cls proto
    if (route.upstream proto).isSome then
      if ← ask (·.ok) then
        let (up, down) ← ask (·.relayed)
        addTraffic route up down capturedAt
      releaseConnection me route proto
  countConns (· - 1)

end Sup

end Causeway

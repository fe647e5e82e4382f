import Causeway.Model.Persist
import Causeway.Model.Select

/-!
# Activation

Start and pre-check one candidate path, install it on a class, and try candidates in order. The caller holds the class lock throughout.
-/

namespace Causeway

open Concurrent

/-- How an attempt to activate a candidate ends. -/
inductive Attempt where
  | elapsed
  | failed (error : String)
  | activated (active : ActiveNode)

namespace Sup

/-- The fuse around a wait; without one nothing elapses. -/
def fuse (fused : Bool) : Sup Bool := if fused then ask (·.elapsed) else pure false

/-- Spawn and wait for readiness. When the fuse blows, the handle is dropped, which kills the plane. -/
def startFused (me : Nat) (spec : StartSpec) (fused : Bool) : Sup (Option (Except String Handle)) := do
  match ← spawnPlane me spec with
  | .error error => return some (.error error)
  | .ok handle =>
      if ← fuse fused then
        stopPlane handle.id
        return none
      match ← ask fun o => if o.ok then none else some o.detail with
      | none => return some (.ok handle)
      | some error =>
          stopPlane handle.id
          return some (.error error)

/-- `try_activate`, under the transaction's deadline if `fused`. -/
def tryActivate (env : Env) (me : Nat) (cls : String) (node : Node) (fused : Bool) : Sup Attempt := do
  match ← reserve node with
  | .error error => return .failed error
  | .ok spec =>
      match ← startFused me spec fused with
      | none => return .elapsed
      | some (.error error) => return .failed error
      | some (.ok handle) =>
          let checked ← checkStatusTimed (env.cfg.classHealthUrl cls)
          if ← fuse fused then
            stopPlane handle.id
            return .elapsed
          match checked with
          | .ok (code, _) =>
              if isSuccess code then
                observe fun _ => ((), .precheck me node.name true)
                return .activated { node := node, handle := handle, pathConnections := handle.id }
              else
                observe fun _ => ((), .precheck me node.name false)
                stopPlane handle.id
                return .failed ("candidate path pre-check returned HTTP " ++ toString code)
          | .error error =>
              observe fun _ => ((), .precheck me node.name false)
              stopPlane handle.id
              return .failed ("candidate path pre-check failed: " ++ error)

/-- A retired path joins the drain set, which stops it after its connections are gone. -/
def scheduleDrain (old : ActiveNode) : Sup Unit :=
  modify fun w => { w with
    jobs := w.jobs ++ [.drain old]
    draining := w.draining + 1
    planes := Function.update w.planes old.handle.id (some (.draining none)) }

/-- `rt.active.replace`, with the reset of the recovery backoff. -/
def replaceActive (me : Nat) (cls : String) (newActive : ActiveNode) : Sup (Option ActiveNode) :=
  act fun _ w =>
    ((w.runtime cls).active, { w with
      runtime := Function.update w.runtime cls { w.runtime cls with
        active := some newActive
        autoRecovery := ⟨0, none⟩ }
      planes := swapPlanes me cls newActive (w.runtime cls).active w.planes
      trail := w.trail.noteRecovery cls .installed })

def flipRoute (me : Nat) (cls : String) (newActive : ActiveNode) (old : Option ActiveNode)
    (subscription : String) (cause : Cause) (chosenAt : Nat) : Sup UInt64 :=
  writeRoute cls fun w =>
    let route : ClassRoute :=
      { socksUpstream := some newActive.handle.socksAddr
        httpUpstream := some newActive.handle.httpAddr
        nodeName := newActive.node.name
        generation := (w.route cls).generation + 1
        pathConnections := some newActive.pathConnections
        trafficSubscription := subscription }
    let hist := .installed newActive old cause :: w.trail.hist cls
    (route.generation, { w with
      route := Function.update w.route cls route
      trail := { w.trail.note (.installed me cls newActive.node.name chosenAt w.trail.published) with
        routeEpoch := Function.update w.trail.routeEpoch cls w.trail.published
        hist := Function.update w.trail.hist cls hist } })

/-- The class's entry in the state file after an install. -/
def recordInstall (cls : String) (newActive : ActiveNode) (generation : UInt64) : Sup Unit :=
  lockState fun o st =>
    ((), { (st.updateClass cls fun _ =>
      { activeNode := some newActive.node.name
        socksPort := some newActive.handle.socksAddr
        httpPort := some newActive.handle.httpAddr
        generation := generation }).resetHealthFailures newActive.node.name with updatedUnix := o.now })

def resetClassFailures (cls : String) : Sup Unit :=
  modify fun w => { w with
    runtime := Function.update w.runtime cls { w.runtime cls with healthFailures := 0 } }

/-- `install_active`: flip the route, record state, drain the old path. The node was chosen from the pool of publication `chosenAt`. -/
def installActive (env : Env) (me : Nat) (cls : String) (newActive : ActiveNode) (cause : Cause)
    (chosenAt : Nat) : Sup Unit := do
  let subscription ← look (·.subscriptions.active)
  let old ← replaceActive me cls newActive
  let generation ← flipRoute me cls newActive old subscription cause chosenAt
  recordInstall cls newActive generation
  resetClassFailures cls
  saveState env me
  pushEvent fun o => .switched o.now cls newActive.node.name cause.reason generation
  match old with
  | some old => scheduleDrain old
  | none => return

/-- A failed candidate's mark on the shared scores, unless the class has a target of its own. -/
def recordFailedCandidate (env : Env) (cls node : String) : Sup Unit :=
  if (env.cfg.classHealthOverride cls).isNone then
    lockState fun o st =>
      ((), st.updateStats node fun stats => stats.recordProbe none env.cfg.selection.emaAlpha o.now)
  else return

/-- `try_candidates`: install the first candidate that passes; the error is the last failure. -/
def tryCandidates (env : Env) (me : Nat) (cls : String) (cause : Cause) (chosenAt : Nat)
    (lastCause : Option String) : List Node → Sup (Except (Option String) String)
  | [] => return .error lastCause
  | candidate :: candidates => do
      if ← look (·.drainShutdown) then return .error lastCause
      match ← tryActivate env me cls candidate false with
      | .activated active =>
          installActive env me cls active cause chosenAt
          return .ok active.node.name
      | .failed error =>
          recordFailedCandidate env cls candidate.name
          pushEvent fun o => .activationFailed o.now cls candidate.name error
          tryCandidates env me cls (cause.missed candidate.name) chosenAt (some (candidate.name ++ ": " ++ error)) candidates
      | .elapsed => return .error lastCause

end Sup

end Causeway

import Causeway.Model.Activation

/-!
# Switching

Automatic recovery, hysteresis switches, manual switches and the same-node rebuild after an egress change.
-/

namespace Causeway

open Concurrent

namespace AutoRecoveryBackoff

variable (backoff : AutoRecoveryBackoff)

def isReadyAt (now : Nat) : Bool :=
  match backoff.retryNotBefore with
  | none => true
  | some deadline => now ≥ deadline

def initialBackoff : Nat := 60

def maxBackoff : Nat := 15 * 60

/-- The loop of `record_failure_at`. -/
def doubled (delay : Nat) : Nat → Nat
  | 0 => delay
  | doublings + 1 => if delay < maxBackoff then doubled (min (delay * 2) maxBackoff) doublings else delay

def delay (failures : Nat) : Nat := doubled initialBackoff (failures - 1)

def recordFailureAt (now : Nat) : AutoRecoveryBackoff :=
  let failures := min (backoff.consecutiveFailures + 1) (2 ^ 32 - 1)
  { consecutiveFailures := failures, retryNotBefore := some (now + delay failures) }

end AutoRecoveryBackoff

/-- For whom a node is requested. -/
inductive Requester where
  | operator
  /-- A site request: the node it wants to leave, the site, and what its verdict rests on. -/
  | site (nodeBefore : Option String) (site : String) (stamp : Option Stamp)
deriving DecidableEq

/-- The cause of the installs made for a requester, given the node active when the class was taken. -/
def Requester.cause (requester : Requester) (activeAtLock : Option String) : Cause :=
  match requester with
  | .operator => .manual
  | .site nodeBefore _ _ => .site nodeBefore activeAtLock

def pathTail (pathActive : Bool) : String :=
  if pathActive then "keeping current path" else "no active path to keep"

namespace Sup

/-- The candidates and the incumbent of an automatic switch, with the state they were read from. -/
def switchField (env : Env) (cls : String) (current : Option String) (nodes : List Node) :
    Sup (List Node × Option Node × StateFile) :=
  readState fun st =>
    (((rankedCandidates nodes st (env.cfg.classRegions cls)).filter fun node =>
        some node.name ≠ current).take maxSwitchCandidates,
      current.bind fun name => nodes.find? fun node => node.name = name, st)

/-- `switch_node_locked`: other scored nodes first, the current node as the last resort. -/
def switchNodeLocked (env : Env) (me : Nat) (cls : String) (causeAt : SwitchField → Cause) :
    Sup Bool := do
  let current ← activeName cls
  let (nodes, chosenAt) ← pool
  let (candidates, currentNode, st) ← switchField env cls current nodes
  let cause := causeAt ⟨current, nodes, st⟩
  match ← tryCandidates env me cls cause chosenAt none candidates with
  | .ok _ => return true
  | .error _ =>
      if ← look (·.drainShutdown) then return false
      match currentNode with
      | none => return false
      | some node =>
          match ← tryCandidates env me cls (.pathRecovery cause) chosenAt none [node] with
          | .ok _ => return true
          | .error _ => return false

/-- Is a recovery allowed now? Pinned classes stay on their node, and failures back off. -/
def recoveryAllowed (env : Env) (cls : String) : Sup Bool :=
  act fun o w =>
    let allowed := (!((w.runtime cls).active.isSome && !env.cfg.classAutoSwitch cls)) &&
      (w.runtime cls).autoRecovery.isReadyAt o.instant
    (allowed, if allowed then { w with trail := w.trail.noteRecovery cls (.started o.instant) } else w)

def recordRecoveryFailure (cls : String) : Sup Unit :=
  act fun o w =>
    let autoRecovery := (w.runtime cls).autoRecovery.recordFailureAt o.instant
    let delay := AutoRecoveryBackoff.delay autoRecovery.consecutiveFailures
    ((), { w with
      runtime := Function.update w.runtime cls { w.runtime cls with autoRecovery := autoRecovery }
      trail := w.trail.noteRecovery cls (.failed o.instant delay) })

/-- `recover_after_health_failure`, for the verdict booked at `bookedAt`. -/
def recoverAfterHealthFailure (env : Env) (me : Nat) (cls : String) (bookedAt : Nat) : Sup Unit :=
  withWrite me (.cls cls) do
    if !(← recoveryAllowed env cls) then return
    if ← switchNodeLocked env me cls fun _ => .healthFailures bookedAt then return
    recordRecoveryFailure cls

/-- `switch_node`, called by the hysteresis loop. -/
def switchNode (env : Env) (me : Nat) (cls : String) (challenge : Challenge) : Sup Unit :=
  withRead me .reconfiguration do
    withWrite me (.cls cls) do
      let _ ← switchNodeLocked env me cls fun field => .challengerWins challenge field []
      return

/-- The active node when a request takes the class. -/
def requestedFrom (me : Nat) (cls : String) (requested : String) (requester : Requester) :
    Sup (Option String) :=
  match requester with
  | .operator => activeName cls
  | .site _ site stamp =>
      observe fun w => ((w.runtime cls).active.map (·.node.name),
        .siteSwitch me site requested stamp w.trail.published)

/-- The fallback field of a manual switch, unrestricted by regions. -/
def fallbackField (requested : String) (current : Option String) (nodes : List Node) : Sup (List Node) :=
  readState fun st =>
    ((rankedCandidates nodes st []).filter fun node =>
      node.name ≠ requested && some node.name ≠ current).take maxSwitchCandidates

def switchFailure (tail : String) : Option String → String
  | some cause => "no candidate could be activated, " ++ tail ++ " (last failure: " ++ cause ++ ")"
  | none => "no candidate was attempted, " ++ tail

/-- `switch_to` under the gate and the class lock. -/
def switchToLocked (env : Env) (me : Nat) (cls requested : String) (requester : Requester) :
    Sup (Except String SwitchOutcome) := do
  let (nodes, chosenAt) ← pool
  match nodes.find? fun node => node.name = requested with
  | none => return .error ("unknown node " ++ requested.quote)
  | some node =>
      let current ← requestedFrom me cls requested requester
      if current = some requested then
        return .ok { requested := requested, installed := requested, fallback := false }
      match ← tryCandidates env me cls (requester.cause current) chosenAt none [node] with
      | .ok installed =>
          return .ok { requested := requested, installed := installed, fallback := false }
      | .error requestedCause =>
          let candidates ← fallbackField requested current nodes
          match ← tryCandidates env me cls (requester.cause current) chosenAt none candidates with
          | .ok installed =>
              return .ok { requested := requested, installed := installed, fallback := true }
          | .error lastCause =>
              let active ← look fun w => (w.runtime cls).active.isSome
              return .error (switchFailure (pathTail active) (lastCause.or requestedCause))

/-- `switch_to`: the requested node first, then by score. -/
def switchTo (env : Env) (me : Nat) (cls requested : String) (requester : Requester) :
    Sup (Except String SwitchOutcome) :=
  withRead me .reconfiguration do
    withWrite me (.cls cls) do
      switchToLocked env me cls requested requester

/-! ### Egress -/

/-- Shutdown, or a subscription change queued or running. -/
def rebuildUnwanted : Sup Bool := look fun w => w.shutdown || w.subscriptionTxnsInProgress ≠ 0

/-- The rebuild under all its locks; `elapsed` is the shutdown signal during a wait. -/
def rebuildLocked (env : Env) (me : Nat) (cls : String) : Sup Unit := do
  if ← rebuildUnwanted then return
  match ← look fun w => (w.runtime cls).active.map fun active => (active.node, w.trail.published) with
  | none => return
  | some (node, chosenAt) =>
      match ← tryActivate env me cls node true with
      | .elapsed => return
      | .failed _ => return
      | .activated replacement =>
          let egressStillCurrent ← ask fun o => !o.elapsed && o.ok
          if (← rebuildUnwanted) || !egressStillCurrent then
            stopPlane replacement.handle.id
            return
          installActive env me cls replacement .egressChange chosenAt

/-- `rebuild_current_after_egress_change`: every lock is only tried. -/
def rebuildCurrentAfterEgressChange (env : Env) (me : Nat) (cls : String) : Sup Unit := do
  if ← rebuildUnwanted then return
  if ← tryAcquireWrite me .subscriptionTxn then
    releasing me .subscriptionTxn do
      if ← rebuildUnwanted then return
      if ← tryAcquireWrite me .reconfiguration then
        releasing me .reconfiguration do
          if ← tryAcquireWrite me (.cls cls) then
            releasing me (.cls cls) (rebuildLocked env me cls)

end Sup

end Causeway

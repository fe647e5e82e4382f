import Causeway.Model.Switching

/-!
# Recovery trails

What is said of a switch that has installed nothing. The walks are those of the switches, and keep a record of the candidates that they started.
-/

namespace Causeway

/-- What happened to the rebuild of the current node. -/
inductive Rebuild where
  /-- There is nothing to rebuild. -/
  | notPossible
  /-- Shutdown landed before its start. -/
  | aborted
  | failed
deriving DecidableEq

/-- What happened to the other candidates. -/
inductive Alternates where
  | notAttempted
  | failed
deriving DecidableEq

def recoveryOutcome : Alternates → Rebuild → String
  | .failed, .failed => "all candidates and current-node rebuild failed"
  | .failed, .aborted => "all candidates failed and the current-node rebuild was aborted by shutdown"
  | .failed, .notPossible => "all candidates failed and no current-node rebuild was attempted"
  | .notAttempted, .failed => "the current-node rebuild failed"
  | .notAttempted, .aborted => "the current-node rebuild was aborted by shutdown"
  | .notAttempted, .notPossible => "no candidate was attempted"

def recoveryHeadline (alternates : Alternates) (rebuild : Rebuild) (pathActive : Bool) : String :=
  recoveryOutcome alternates rebuild ++ ", " ++ pathTail pathActive

def rebuildOutcome : Option String → Rebuild
  | some _ => .failed
  | none => .aborted

def alternatesOutcome : Option String → Alternates
  | some _ => .failed
  | none => .notAttempted

/-- A candidate that was started, with the error it failed with. -/
structure Start where
  node : Node
  error : Option String

/-- What a walk reports of its last candidate. -/
def Start.cause (start : Start) : Option String := start.error.map fun error => start.node.name ++ ": " ++ error

/-- The candidates of a switch, the current node apart from the others, and those of them that were started. -/
structure Walks where
  candidates : List Node
  alternates : List Start
  currentNode : Option Node
  rebuild : List Start

/-- How an automatic switch ends: with an install, by shutdown, or with something to say. -/
inductive SwitchEnd where
  | installed
  | stopped
  | failed (alternates : Alternates) (rebuild : Rebuild) (lastCause : Option String)

def SwitchEnd.switched : SwitchEnd → Bool
  | .installed => true
  | .stopped | .failed _ _ _ => false

namespace Sup

/-- `try_candidates`, with the starts. -/
def tryCandidatesWalk (env : Env) (me : Nat) (cls : String) (cause : Cause) (chosenAt : Nat)
    (lastCause : Option String) : List Node → Sup (Except (Option String) String × List Start)
  | [] => return (.error lastCause, [])
  | candidate :: candidates => do
      if ← look (·.drainShutdown) then return (.error lastCause, [])
      match ← tryActivate env me cls candidate false with
      | .activated active =>
          installActive env me cls active cause chosenAt
          return (.ok active.node.name, [⟨candidate, none⟩])
      | .failed error =>
          recordFailedCandidate env cls candidate.name
          pushEvent fun o => .activationFailed o.now cls candidate.name error
          let (outcome, starts) ←
            tryCandidatesWalk env me cls (cause.missed candidate.name) chosenAt (some (candidate.name ++ ": " ++ error)) candidates
          return (outcome, ⟨candidate, some error⟩ :: starts)
      | .elapsed => return (.error lastCause, [⟨candidate, none⟩])

/-- `switch_node_locked` up to its trail. -/
def switchNodeWalks (env : Env) (me : Nat) (cls : String) (causeAt : SwitchField → Cause) :
    Sup (SwitchEnd × Walks) := do
  let current ← activeName cls
  let (nodes, chosenAt) ← pool
  let (candidates, currentNode, st) ← switchField env cls current nodes
  let cause := causeAt ⟨current, nodes, st⟩
  let (outcome, alternates) ← tryCandidatesWalk env me cls cause chosenAt none candidates
  match outcome with
  | .ok _ => return (.installed, ⟨candidates, alternates, currentNode, []⟩)
  | .error lastCause =>
      if ← look (·.drainShutdown) then return (.stopped, ⟨candidates, alternates, currentNode, []⟩)
      match currentNode with
      | none =>
          return (.failed (alternatesOutcome lastCause) .notPossible lastCause, ⟨candidates, alternates, currentNode, []⟩)
      | some node =>
          let (outcome, rebuild) ← tryCandidatesWalk env me cls (.pathRecovery cause) chosenAt none [node]
          match outcome with
          | .ok _ => return (.installed, ⟨candidates, alternates, currentNode, rebuild⟩)
          | .error rebuildCause =>
              return (.failed (alternatesOutcome lastCause) (rebuildOutcome rebuildCause) (rebuildCause.or lastCause),
                ⟨candidates, alternates, currentNode, rebuild⟩)

/-- The final headline with the cause next to it, if there is one. -/
def switchNodeTrail (env : Env) (me : Nat) (cls : String) (causeAt : SwitchField → Cause) :
    Sup (Option (String × Option String) × Walks) := do
  let (ending, walks) ← switchNodeWalks env me cls causeAt
  match ending with
  | .installed | .stopped => return (none, walks)
  | .failed alternates rebuild lastCause =>
      let active ← look fun w => (w.runtime cls).active.isSome
      return (some (recoveryHeadline alternates rebuild active, lastCause), walks)

/-- `switch_to` under the gate and the class lock, with the starts. -/
def switchToWalks (env : Env) (me : Nat) (cls requested : String) (requester : Requester) :
    Sup (Except String SwitchOutcome × Walks) := do
  let (nodes, chosenAt) ← pool
  match nodes.find? fun node => node.name = requested with
  | none => return (.error ("unknown node " ++ requested.quote), ⟨[], [], none, []⟩)
  | some node =>
      let current ← requestedFrom me cls requested requester
      if current = some requested then
        return (.ok { requested := requested, installed := requested, fallback := false }, ⟨[], [], none, []⟩)
      let (outcome, first) ← tryCandidatesWalk env me cls (requester.cause current) chosenAt none [node]
      match outcome with
      | .ok installed =>
          return (.ok { requested := requested, installed := installed, fallback := false }, ⟨[node], first, none, []⟩)
      | .error requestedCause =>
          let candidates ← fallbackField requested current nodes
          let (outcome, others) ← tryCandidatesWalk env me cls (requester.cause current) chosenAt none candidates
          match outcome with
          | .ok installed =>
              return (.ok { requested := requested, installed := installed, fallback := true },
                ⟨node :: candidates, first ++ others, none, []⟩)
          | .error lastCause =>
              let active ← look fun w => (w.runtime cls).active.isSome
              return (.error (switchFailure (pathTail active) (lastCause.or requestedCause)),
                ⟨node :: candidates, first ++ others, none, []⟩)

end Sup

end Causeway

import Causeway.Model.World
import Causeway.Concurrent.Waiting

/-!
# The locks of the supervisor

What each operation of the supervisor locks, in which nesting, and where it waits for tasks of its own: the bodies of `supervisor.rs` with everything but the guards and the branches between them left out. A guard that is dropped at the end of its statement is a `brief` one. A branch, and a loop that ends early, may be taken either way here, whatever the data say.

The programs of the tasks have the same bodies with their data. There a section under a standard lock is a single step, and a lock that is taken disables a step; who stands in line, and behind whom, is modelled here only. What locks a program does take, it takes as its script has them: `follows_task`.
-/

namespace Causeway.Locks

open Concurrent.Waiting (Access)

/-- What a task of the supervisor may have to wait for. -/
inductive Name where
  /-- The tasks one `ProbeNow` or `SiteProbe` starts. -/
  | probeTasks
  | subscriptionTxn
  | reconfiguration
  /-- The tasks one `probe_all` starts. -/
  | timingTasks
  | cls (name : String)
  | route (name : String)
  | state
  | subscriptions
  | traffic
  | events
  | draining
deriving DecidableEq

/-- The locks of the asynchronous runtime are fair; those of the standard library promise nothing. -/
def Name.Fair : Name → Prop
  | .subscriptionTxn | .reconfiguration | .cls _ | .draining => True
  | _ => False

instance : DecidablePred Name.Fair
  | .subscriptionTxn | .reconfiguration | .cls _ | .draining => .isTrue trivial
  | .probeTasks | .timingTasks | .route _ | .state | .subscriptions | .traffic | .events => .isFalse id

abbrev Code := Concurrent.Waiting.Code Name

open Concurrent.Waiting.Code

def steps : List Code → Code
  | [] => skip
  | code :: codes => seq code (steps codes)

def maybe (code : Code) : Code := either code skip

/-- A guard that nothing else is taken under. -/
def brief (access : Access) (name : Name) : Code := holding access name skip

/-! ### Helpers -/

def pool : Code := brief .read .subscriptions

def lockState : Code := brief .write .state

def saveState : Code := brief .write .state

def pushEvent : Code := brief .write .events

def scheduleDrain : Code := brief .write .draining

/-! ### Installing and switching -/

def installActive (cls : String) : Code :=
  steps [brief .read .subscriptions, brief .write (.route cls), lockState, saveState, pushEvent, maybe scheduleDrain]

def tryCandidates (cls : String) : Code :=
  steps [loop (steps [maybe lockState, pushEvent]), maybe (installActive cls)]

def switchNodeLocked (cls : String) : Code :=
  steps [pool, lockState, tryCandidates cls, maybe (tryCandidates cls)]

def switchNodeInner (cls : String) : Code := holding .write (.cls cls) (switchNodeLocked cls)

def recoverAfterHealthFailure (cls : String) : Code :=
  holding .write (.cls cls) (maybe (switchNodeLocked cls))

def switchNode (cls : String) : Code := holding .read .reconfiguration (switchNodeInner cls)

def switchTo (cls : String) : Code :=
  holding .read .reconfiguration <| holding .write (.cls cls) <|
    steps [pool, maybe (steps [tryCandidates cls, maybe (steps [lockState, tryCandidates cls])])]

/-! ### The subscription transaction -/

def subscriptionFailure : Code := pushEvent

/-- Every class lock in name order, each under the deadline. -/
def lockClasses (body : Code) : List String → Code
  | [] => body
  | cls :: classes => holdingBy .write (.cls cls) (lockClasses body classes) subscriptionFailure

/-- Every route guard, in the order of the class guards. -/
def lockRoutes (body : Code) : List String → Code
  | [] => body
  | cls :: classes => holding .write (.route cls) (lockRoutes body classes)

def publish (classes : List String) : Code :=
  lockRoutes (holding .write .state (steps [brief .write .subscriptions, brief .write .traffic])) classes

/-- From the staging on: the planned generations, the next state and the publication. -/
def commit (classes : List String) : Code :=
  steps [lockState,
    either subscriptionFailure <|
      steps [steps (classes.map fun cls => brief .read (.route cls)), lockState,
        either subscriptionFailure <|
          steps [publish classes, saveState, loop pushEvent, loop scheduleDrain]]]

def switchSubscriptionLocked (classes : List String) : Code :=
  maybe <| steps [brief .read .subscriptions, lockState,
    either subscriptionFailure <|
      steps [maybe (brief .read .subscriptions),
        maybe (holdingBy .write .reconfiguration (lockClasses (commit classes) classes) subscriptionFailure)]]

def switchSubscription (classes : List String) : Code :=
  holding .write .subscriptionTxn (steps [brief .read .subscriptions, switchSubscriptionLocked classes])

def reload (classes : List String) : Code :=
  holding .write .subscriptionTxn <|
    either pushEvent <| steps [brief .read .subscriptions,
      either pushEvent (steps [switchSubscriptionLocked classes, pushEvent])]

/-! ### Status and probes -/

def classSnapshot : Code :=
  steps [loop (steps [brief .read .subscriptions, lockState,
      maybe (steps [brief .read .subscriptions, maybe (brief .read .subscriptions)])]),
    maybe (brief .write .traffic)]

def probeNowNode : Code :=
  holding .read .reconfiguration (steps [brief .read .subscriptions, maybe lockState])

def probeNow : Code :=
  steps [pool, brief .read .subscriptions, gather .probeTasks probeNowNode, saveState, pushEvent]

def probeSiteNode : Code := holding .read .reconfiguration lockState

def siteProbeRequest : Code :=
  maybe <| steps [pool, gather .probeTasks probeSiteNode, saveState, loop lockState, pushEvent, lockState]

def switchForSite (cls : String) : Code :=
  maybe <| steps [brief .write (.cls cls),
    maybe (steps [lockState, maybe (steps [pool, maybe probeSiteNode])]),
    maybe (steps [pool, lockState, loop (steps [probeSiteNode, maybe (switchTo cls)]), saveState])]

/-! ### The loops -/

def recordHealthOutcome : Code := maybe (holding .write .state (maybe pushEvent))

def healthTick (cls : String) : Code :=
  holding .read .reconfiguration <| maybe <|
    steps [holding .write (.cls cls) recordHealthOutcome, maybe (recoverAfterHealthFailure cls)]

def healthLoop (cls : String) : Code := steps [brief .write (.cls cls), loop (healthTick cls)]

def probeCycle : Code :=
  holding .read .reconfiguration (steps [pool, gather .timingTasks skip, lockState, saveState, pushEvent])

def challenge (cls : String) : Code :=
  steps [holding .write (.cls cls) (maybe (steps [pool, lockState])),
    maybe (steps [lockState, maybe (switchNode cls)])]

def probeLoop (classes : List String) : Code := loop (steps [probeCycle, steps (classes.map challenge)])

def rebuildCurrentAfterEgressChange (cls : String) : Code :=
  maybe <| trying .write .subscriptionTxn (maybe <| trying .write .reconfiguration
    (trying .write (.cls cls) (maybe (installActive cls)) skip) skip) skip

def egressObserverLoop (classes : List String) : Code :=
  loop (steps (classes.map rebuildCurrentAfterEgressChange))

def activateInitial (cls : String) : Code :=
  holding .write (.cls cls) (steps [lockState, pool, lockState, maybe (installActive cls)])

def handleConn (cls : String) : Code := steps [brief .read (.route cls), maybe (brief .write .traffic)]

/-! ### The supervisor -/

inductive Operation where
  | status
  | switch (cls : String)
  | switchForSite (cls : String)
  | probeNow
  | siteProbe
  | switchSubscription
  | reload
  | events
  | siteStatus
  | probeCycle
  | activateInitial (cls : String)
  | healthLoop (cls : String)
  | probeLoop
  | egressObserverLoop
  | scheduleDrain
  | connection (cls : String)

def Operation.code (classes : List String) : Operation → Code
  | .status => classSnapshot
  | .switch cls => switchTo cls
  | .switchForSite cls => Locks.switchForSite cls
  | .probeNow => Locks.probeNow
  | .siteProbe => siteProbeRequest
  | .switchSubscription => Locks.switchSubscription classes
  | .reload => Locks.reload classes
  | .events => pushEvent
  | .siteStatus => lockState
  | .probeCycle => Locks.probeCycle
  | .activateInitial cls => Locks.activateInitial cls
  | .healthLoop cls => Locks.healthLoop cls
  | .probeLoop => Locks.probeLoop classes
  | .egressObserverLoop => Locks.egressObserverLoop classes
  | .scheduleDrain => Locks.scheduleDrain
  | .connection cls => handleConn cls

/-- The programs of a supervisor with these classes. -/
def Runs (env : Env) (code : Code) : Prop := ∃ operation : Operation, operation.code env.classes = code

end Causeway.Locks

import Causeway.Model.System

/-!
# Shutdown

The daemon's whole life: tasks begin while their server or listener is open, and after the signal teardown waits for all of them before it stops the active planes and then the drains.
-/

namespace Causeway

open Concurrent

namespace Sup

/-- A task begins, unless its server or listener has closed. -/
def enter (me : Nat) : Sup Unit :=
  .atomic fun _ w => if w.closed then none else some ((), { w with entered := me :: w.entered })

def leave (me : Nat) : Sup Unit := modify fun w => { w with entered := w.entered.erase me }

def joinTasks : Sup Unit := .atomic fun _ w => if w.entered = [] then some ((), w) else none

def takeActive (me : Nat) (cls : String) : Sup (Option ActiveNode) :=
  act fun _ w =>
    ((w.runtime cls).active, { w with
      runtime := Function.update w.runtime cls { w.runtime cls with active := none }
      planes :=
        match (w.runtime cls).active with
        | some active => Function.update w.planes active.handle.id (some (.task me))
        | none => w.planes })

/-- The active plane of one class is stopped, and its ports are forgotten. -/
def retireClass (me : Nat) (cls : String) : Sup Unit :=
  withWrite me (.cls cls) do
    match ← takeActive me cls with
    | some active => stopPlane active.handle.id
    | none => pure ()
    lockState fun _ st =>
      ((), st.updateClass cls fun cs => { cs with socksPort := none, httpPort := none })

/-- `stop_draining`: the drains need not wait any longer, and all of them are joined. -/
def stopDraining : Sup Unit := do
  modify fun w => { w with drainShutdown := true }
  .atomic fun _ w => if w.draining = 0 then some ((), w) else none

/-- What `run` does once the shutdown signal is there. -/
def teardown (env : Env) (me : Nat) : Sup Reply := do
  modify fun w => { w with shutdown := true }
  modify fun w => { w with closed := true }
  joinTasks
  forEach (retireClass me) env.classes
  stopDraining
  saveState env me
  return noReply

end Sup

/-- A task as its server or listener runs it. Jobs are joined by their round or by the drain set. -/
def Task.joined (env : Env) (me : Nat) : Task → Sup Reply
  | .job => Task.job.prog env me
  | task => do
      Sup.enter me
      let reply ← task.prog env me
      Sup.leave me
      return reply

/-- The daemon with its teardown on thread 0. -/
def life (env : Env) (tasks : Nat → Task) (w : World) : Pool World Outside Reply where
  shared := w
  thread
    | 0 => Sup.teardown env 0
    | i + 1 => (tasks i).joined env (i + 1)

end Causeway

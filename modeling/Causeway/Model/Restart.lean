import Causeway.Model.System

/-!
# Restarts

Lives of the daemon, one after the other. A life ends at shutdown or after any step at which the process is killed; the next start finds the files as they are by then, under whatever configuration is there.
-/

namespace Causeway

open Concurrent

/-- The cache slot that a state file names for a profile. -/
def Env.namedSlot (env : Env) (file : Option Bytes) (name : String) : Option String :=
  match env.load file with
  | .ok (some st) => st.subscriptionCacheSlots[name]?
  | _ => none

/-- A start on the files that are left. -/
inductive Restarted (env : Env) (left : World) : World → Prop
  | intro (read : Path → Option Bytes) (st : StateFile) (active : String) (nodes : List Node)
      (loaded : loadStartup env (fun path => (left.cacheDir.bytes path).or (read path)) left.stateDir.bytes =
        some (st, active, nodes)) :
      Restarted env left (startWorld env left.stateDir left.cacheDir left.trail.recorded st active nodes)

/-- One life: its configuration, the requests it gets and the steps it takes. -/
structure Life where
  cfg : Config
  tasks : Nat → Task
  moves : List (Move World)

/-- The lives of the daemon on the same files, and the world the last one ends in. -/
inductive Lives (env : Env) (disk : World) : List Life → World → Prop
  | none : Lives env disk [] disk
  | next {lives : List Life} {left w : World} {cfg : Config} {tasks : Nat → Task} {moves : List (Move World)}
      {last : Pool World Outside Reply} (earlier : Lives env disk lives left)
      (restarted : Restarted { env with cfg := cfg } left w)
      (run : (daemon { env with cfg := cfg } tasks w).Run moves last) :
      Lives env disk (lives ++ [⟨cfg, tasks, moves⟩]) last.shared

/-- Every request of a life is for a transaction. -/
def Life.Transactions (life : Life) : Prop :=
  ∀ i, life.tasks i = .idle ∨ life.tasks i = .reload ∨ ∃ name, life.tasks i = .switchSubscription name

/-- The profile that the transaction of a task is for, while this one is active. -/
def Task.target (active : String) : Task → Option String
  | .switchSubscription name => some name
  | .reload => some active
  | _ => none

end Causeway

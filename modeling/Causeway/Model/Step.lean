import Causeway.Model.World

/-!
# Atomic steps

The steps the supervisor's operations are made of. A short critical section under a `std` lock that takes no other lock is one step; an `await` on a lock is a step that is disabled while the lock is taken; the guards of the long-lived locks are released where their scope ends.
-/

namespace Causeway

open Concurrent

inductive InboundProto where
  | socks5
  | http
deriving DecidableEq

def ClassRoute.upstream (route : ClassRoute) : InboundProto → Option Nat
  | .socks5 => route.socksUpstream
  | .http => route.httpUpstream

/-- The path a connection counts itself on: none without an upstream. -/
def ClassRoute.leased (route : ClassRoute) (proto : InboundProto) : Option Nat :=
  (route.upstream proto).bind fun _ => route.pathConnections

def countConnection (path : Option Nat) (f : Nat → Nat) (connections : Nat → Nat) : Nat → Nat :=
  match path with
  | some path => Function.update connections path (f (connections path))
  | none => connections

namespace Sup

variable {α : Type}

def look (f : World → α) : Sup α := .atomic fun _ w => some (f w, w)

/-- Hear from the outside. -/
def ask (f : Outside → α) : Sup α := .atomic fun o w => some (f o, w)

def act (f : Outside → World → α × World) : Sup α := .atomic fun o w => some (f o w)

def modify (f : World → World) : Sup Unit := .atomic fun _ w => some ((), f w)

/-! ### Locks -/

def acquireWrite (me : Nat) (name : LockName) : Sup Unit :=
  .atomic fun _ w => ((w.locks name).acquireWrite me).map fun lock =>
    ((), { w with locks := Function.update w.locks name lock })

def acquireRead (me : Nat) (name : LockName) : Sup Unit :=
  .atomic fun _ w => ((w.locks name).acquireRead me).map fun lock =>
    ((), { w with locks := Function.update w.locks name lock })

/-- `timeout_at(deadline, lock)`: false if the deadline passed first. -/
def acquireWriteBy (me : Nat) (name : LockName) : Sup Bool :=
  .atomic fun o w =>
    if o.elapsed then some (false, w)
    else ((w.locks name).acquireWrite me).map fun lock =>
      (true, { w with locks := Function.update w.locks name lock })

/-- `try_lock`: false if the lock is taken. -/
def tryAcquireWrite (me : Nat) (name : LockName) : Sup Bool :=
  .atomic fun _ w =>
    match (w.locks name).acquireWrite me with
    | some lock => some (true, { w with locks := Function.update w.locks name lock })
    | none => some (false, w)

def release (me : Nat) (name : LockName) : Sup Unit :=
  modify fun w => { w with locks := Function.update w.locks name ((w.locks name).release me) }

def withWrite (me : Nat) (name : LockName) (body : Sup α) : Sup α := do
  acquireWrite me name
  let value ← body
  release me name
  return value

def withRead (me : Nat) (name : LockName) (body : Sup α) : Sup α := do
  acquireRead me name
  let value ← body
  release me name
  return value

/-- The rest of a scope that holds a lock already taken. -/
def releasing (me : Nat) (name : LockName) (body : Sup α) : Sup α := do
  let value ← body
  release me name
  return value

/-! ### Critical sections -/

def lockState (f : Outside → StateFile → α × StateFile) : Sup α :=
  .atomic fun o w =>
    if w.locks .state = .free then
      let (value, st) := f o w.state
      some (value, { w with state := st })
    else none

def readState (f : StateFile → α) : Sup α := lockState fun _ st => (f st, st)

/-- A short section under the class's route lock, held for writing. -/
def writeRoute (cls : String) (f : World → α × World) : Sup α :=
  .atomic fun _ w => if w.locks (.route cls) = .free then some (f w) else none

/-- A connection captures the class's route under the read lock and counts itself on its path. With the route come the numbers of class events and of changes of the selected profile so far. -/
def captureRoute (me : Nat) (cls : String) (proto : InboundProto) : Sup (ClassRoute × Nat × Nat) :=
  .atomic fun _ w =>
    match w.locks (.route cls) with
    | .writer _ => none
    | .readers _ =>
        let route := w.route cls
        some ((route, (w.trail.hist cls).length, w.trail.selections), { w with
          connections := countConnection (route.leased proto) (· + 1) w.connections
          trail := { w.trail with
            reads := (cls, w.trail.routeEpoch cls) :: w.trail.reads
            leases := ((route.leased proto).map fun path => (me, path)).toList ++ w.trail.leases } })

/-- The connection's lease on its path ends. -/
def releaseConnection (me : Nat) (route : ClassRoute) (proto : InboundProto) : Sup Unit :=
  modify fun w => { w with
    connections := countConnection (route.leased proto) (· - 1) w.connections
    trail := { w.trail with
      leases := w.trail.leases.diff ((route.leased proto).map fun path => (me, path)).toList } }

def pushEvent (f : Outside → Event) : Sup Unit :=
  act fun o w => ((), { w with events := Causeway.pushEvent w.events (f o) })

/-- Look at the world and remember what was seen. -/
def observe (f : World → α × Obs) : Sup α :=
  act fun _ w => ((f w).1, { w with trail := w.trail.note (f w).2 })

/-- The current node pool, with the publication it belongs to. -/
def pool : Sup (List Node × Nat) := look fun w => (w.subscriptions.nodes, w.trail.published)

def activeName (cls : String) : Sup (Option String) :=
  look fun w => (w.runtime cls).active.map (·.node.name)

/-! ### Data planes -/

structure StartSpec where
  node : Node
  socksAddr : Nat
  httpAddr : Nat

/-- Reserve two local ports. -/
def reserve (node : Node) : Sup (Except String StartSpec) :=
  ask fun o => if o.ok then .ok ⟨node, o.socksPort, o.httpPort⟩ else .error o.detail

/-- The child process exists from here on. -/
def spawnPlane (me : Nat) (spec : StartSpec) : Sup (Except String Handle) :=
  act fun o w =>
    if o.ok then
      (.ok ⟨w.nextPlane, spec.socksAddr, spec.httpAddr⟩,
        { w with
          planes := Function.update w.planes w.nextPlane (some (.task me))
          nextPlane := w.nextPlane + 1 })
    else (.error o.detail, w)

/-- Stop a data plane, or kill it by dropping its handle. -/
def stopPlane (id : Nat) : Sup Unit :=
  modify fun w => { w with planes := Function.update w.planes id none }

/-- Spawn and wait until both ports accept; a plane that never gets ready is killed. -/
def startPlane (me : Nat) (spec : StartSpec) : Sup (Except String Handle) := do
  match ← spawnPlane me spec with
  | .error error => return .error error
  | .ok handle =>
      match ← ask fun o => if o.ok then none else some o.detail with
      | none => return .ok handle
      | some error =>
          stopPlane handle.id
          return .error error

/-- A check of `url` through a plane: its status and the time it took, or the error. -/
def checkStatusTimed (url : String) : Sup (Except String (Nat × ℚ)) :=
  ask fun o =>
    match o.status url with
    | some code => .ok (code, o.rtt)
    | none => .error o.detail

end Sup

/-- `(200..300).contains(&code)` -/
def isSuccess (code : Nat) : Bool := 200 ≤ code && code < 300

end Causeway

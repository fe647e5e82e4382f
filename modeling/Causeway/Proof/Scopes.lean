import Causeway.Concurrent.Scripts
import Causeway.Proof.Locks
import Causeway.Proof.Bodies

/-!
# Locks and scopes in a script

What a thread has in its hands, and the rules by which a program of the supervisor follows a script: for each way of taking a lock, for giving it back, and for all that takes none.
-/

namespace Causeway

open Concurrent Prog Waiting

/-! ### Steps that leave the locks alone -/

/-- No lock is taken or given back. -/
def Lockfree (s t : World) : Prop := t.locks = s.locks

instance : Std.Refl Lockfree := ⟨fun _ => rfl⟩

section

variable {env : Env} {i : Nat} {cls : String} {α : Type}

theorem lockfree_pushEvent {f : Outside → Event} : (Sup.pushEvent f).Within Lockfree := within_act fun _ _ => rfl

theorem lockfree_lockState {f : Outside → StateFile → α × StateFile} : (Sup.lockState f).Within Lockfree :=
  within_lockState fun _ _ => rfl

theorem lockfree_observe {f : World → α × Obs} : (Sup.observe f).Within Lockfree := within_act fun _ _ => rfl

theorem lockfree_stopPlane {id : Nat} : (Sup.stopPlane id).Within Lockfree := within_modify fun _ => rfl

theorem lockfree_spawnPlane {spec : Sup.StartSpec} : (Sup.spawnPlane i spec).Within Lockfree := by
  refine within_act fun o w => ?_
  split <;> rfl

theorem lockfree_tryActivate {node : Node} {fused : Bool} : (Sup.tryActivate env i cls node fused).Within Lockfree :=
  within_tryActivate (fun _ => lockfree_spawnPlane) (fun _ => lockfree_stopPlane) fun _ => lockfree_observe

theorem lockfree_testNode {url : String} {node : Node} {record : Bool} {takenAt readAt : Nat} :
    (Sup.testNode env i url node record takenAt readAt).Within Lockfree := by
  refine within_testNode (fun _ => lockfree_spawnPlane) (fun _ => lockfree_stopPlane) (fun _ => lockfree_observe)
    fun rtt => within_atomic fun o s b t heq => ?_
  split at heq <;> cases heq
  rfl

theorem lockfree_measureSite {node : Node} {url : String} {now : Int} : (Sup.measureSite i node url now).Within Lockfree :=
  within_measureSite (fun _ => lockfree_spawnPlane) fun _ => lockfree_stopPlane

theorem lockfree_saveAtomic {kind : SaveKind} {st : StateFile} : (Sup.saveAtomic env i kind st).Within Lockfree := by
  refine within_saveAtomic (fun _ => within_modify fun _ => rfl) (fun _ => within_saveSteps ?_ (fun _ _ _ => ?_) ?_)
    fun _ => within_modify fun _ => rfl
  all_goals
    refine within_act fun o w => ?_
    split <;> rfl

theorem lockfree_commitPreparedCache {prepared : PreparedSubscription} {slot : Option String} :
    (Sup.commitPreparedCache prepared slot).Within Lockfree := by
  refine within_commitPreparedCache (within_act fun o w => ?_) (fun _ _ _ => within_act fun o w => ?_)
    fun _ _ => within_act fun o w => ?_
  all_goals split <;> rfl

theorem lockfree_stageTransaction {request : Request} : (Sup.stageTransaction env i request).Within Lockfree :=
  within_stageTransaction (fun _ _ => lockfree_tryActivate) (fun _ => lockfree_stopPlane) fun _ _ => lockfree_commitPreparedCache

theorem lockfree_captureRoute {proto : InboundProto} : (Sup.captureRoute i cls proto).Within Lockfree := by
  refine within_atomic fun o s b t heq => ?_
  split at heq <;> cases heq
  rfl

theorem lockfree_takeSamples {url : String} {samples : List Passage} {sampledAt : Option Nat} {count : Nat} :
    (Sup.takeSamples i cls url samples sampledAt count).Within Lockfree :=
  within_takeSamples lockfree_captureRoute fun _ => within_modify fun _ => rfl

theorem lockfree_handleConn {proto : InboundProto} : (Sup.handleConn i cls proto).Within Lockfree :=
  within_handleConn (fun _ => within_modify fun _ => rfl) lockfree_captureRoute (fun _ => within_modify fun _ => rfl)
    fun _ _ _ _ => within_modify fun _ => rfl

theorem lockfree_recordHealthOutcome {ok : Bool} {sampled : Sup.Sampled} :
    (Sup.recordHealthOutcome env cls ok sampled).Within Lockfree :=
  within_recordHealthOutcome (fun _ => lockfree_lockState) (within_act fun _ _ => rfl) fun _ => lockfree_pushEvent

theorem lockfree_recoveryAllowed : (Sup.recoveryAllowed env cls).Within Lockfree := by
  refine within_act fun o w => ?_
  dsimp only
  split <;> rfl

theorem lockfree_drainPath {active : ActiveNode} : (Sup.drainPath active).Within Lockfree := by
  refine within_drainPath (fun path timer enough => within_atomic fun o s b t heq => ?_) fun _ => rfl
  split at heq
  · cases heq
    rfl
  · split at heq <;> cases heq
    rfl

theorem lockfree_joinAll {request count : Nat} {slots : List (Option ProbeResult)} :
    (Sup.joinAll request count slots).Within Lockfree := by
  refine within_joinAll (within_atomic fun o s b t heq => ?_)
  split at heq
  · split at heq <;> cases heq
    rfl
  · cases heq

theorem lockfree_openTransaction {target : String} {catalog : SubscriptionsConfig} {allowCachedFallback isReload : Bool} :
    (Sup.openTransaction env target catalog allowCachedFallback isReload).Within Lockfree :=
  within_openTransaction (fun _ => lockfree_pushEvent) fun _ => rfl

theorem lockfree_subscriptionFailure {profile message : String} : (Sup.subscriptionFailure profile message).Within Lockfree :=
  within_subscriptionFailure fun _ => lockfree_pushEvent

end

/-! ### What a thread holds -/

namespace Locks

def access : Hold → Option Access
  | .none => none
  | .read => some .read
  | .write => some .write

/-- The lock of the world a script means by a name; the others are locked within one step each. -/
def Name.lock : Name → Option LockName
  | .subscriptionTxn => some .subscriptionTxn
  | .reconfiguration => some .reconfiguration
  | .cls name => some (.cls name)
  | .route name => some (.route name)
  | .state => some .state
  | _ => none

def ofLock : LockName → Name
  | .subscriptionTxn => .subscriptionTxn
  | .reconfiguration => .reconfiguration
  | .cls name => .cls name
  | .route name => .route name
  | .state => .state

/-- What thread `i` holds in the world. -/
def held (i : Nat) (w : World) (name : Name) : Option Access := name.lock.bind fun lock => access ((w.locks lock).hold i)

@[simp] theorem lock_ofLock (lock : LockName) : (ofLock lock).lock = some lock := by
  cases lock <;> rfl

theorem lock_eq_some {name : Name} {lock : LockName} : name.lock = some lock ↔ name = ofLock lock := by
  constructor
  · intro h
    cases name <;> cases h <;> rfl
  · rintro rfl
    exact lock_ofLock lock

theorem held_update {i : Nat} {w : World} {name : LockName} {lock : Lock} :
    held i { w with locks := Function.update w.locks name lock } =
      Function.update (held i w) (ofLock name) (access (lock.hold i)) := by
  refine funext fun other => ?_
  by_cases hother : other = ofLock name
  · subst hother
    simp [held]
  · have hlock : other.lock ≠ some name := fun h => hother (lock_eq_some.mp h)
    rw [Function.update_of_ne hother]
    cases hname : other.lock with
    | none => simp [held, hname]
    | some found =>
        have hne : found ≠ name := fun h => hlock (h ▸ hname)
        simp [held, hname, Function.update_of_ne hne]

section

variable {i : Nat} {α β : Type} {name : LockName} {named : Name} {now less last : Name → Option Access} {code late : Code}
  {p : Sup α} {k : α → Sup β}

theorem held_acquire {w : World} {lock : Lock} (h : (w.locks name).acquireWrite i = some lock) :
    held i w (ofLock name) = none ∧ held i { w with locks := Function.update w.locks name lock } =
      Function.update (held i w) (ofLock name) (some .write) := by
  obtain ⟨hfree, rfl⟩ := Lock.acquireWrite_eq h
  exact ⟨by simp [held, hfree, access], by simp [held_update, Lock.hold, access]⟩

theorem held_of_lockfree {s t : World} (h : Lockfree s t) : held i t = held i s :=
  funext fun name => congrArg name.lock.bind (by rw [show t.locks = s.locks from h])

theorem follows_lockfree (h : p.Within Lockfree) (hcode : code.Takes now []) : Follows (held i) now now code p :=
  .still (h.mono fun _ _ => held_of_lockfree) hcode

theorem follows_lockfree_bind (h : p.Within Lockfree) (hk : ∀ a, Follows (held i) now last code (k a)) :
    Follows (held i) now last code (p >>= k) :=
  .still_bind (h.mono fun _ _ => held_of_lockfree) hk

theorem follows_acquireWrite {k : Unit → Sup α} (hname : ofLock name = named) (hk : now named = none →
      Follows (held i) (Function.update now named (some .write)) last code (k ())) :
    Follows (held i) now last (.holding .write named code) (Sup.acquireWrite i name >>= k) := by
  subst hname
  refine .atomic fun o s a t hact hnow => ?_
  obtain ⟨lock, hlock, heq⟩ := Option.map_eq_some_iff.mp hact
  cases heq
  obtain ⟨hfree, hmore⟩ := held_acquire hlock
  rw [hnow] at hfree hmore
  refine ⟨code, by rw [hmore]; exact hk hfree, .inr ⟨.write, _, hfree, hmore, ?_⟩⟩
  rw [hmore]
  exact fun word => .holding

theorem follows_acquireRead {k : Unit → Sup α} (hname : ofLock name = named) (hfree : now named = none)
    (hk : Follows (held i) (Function.update now named (some .read)) last code (k ())) :
    Follows (held i) now last (.holding .read named code) (Sup.acquireRead i name >>= k) := by
  subst hname
  refine .atomic fun o s a t hact hnow => ?_
  obtain ⟨lock, hlock, heq⟩ := Option.map_eq_some_iff.mp hact
  cases heq
  have hmore : held i { s with locks := Function.update s.locks name lock } =
      Function.update now (ofLock name) (some .read) := by
    rw [held_update, Lock.acquireRead_hold hlock, hnow]
    rfl
  refine ⟨code, by rw [hmore]; exact hk, .inr ⟨.read, _, hfree, hmore, ?_⟩⟩
  rw [hmore]
  exact fun word => .holding

theorem follows_acquireWriteBy {k : Bool → Sup α} (hname : ofLock name = named)
    (hlate : Follows (held i) now last late (k false))
    (hk : now named = none → Follows (held i) (Function.update now named (some .write)) last code (k true)) :
    Follows (held i) now last (.holdingBy .write named code late) (Sup.acquireWriteBy i name >>= k) := by
  subst hname
  refine .atomic fun o s a t hact hnow => ?_
  split at hact
  · cases hact
    subst hnow
    exact ⟨late, hlate, .inl ⟨fun _ _ => rfl, fun word => .late⟩⟩
  · obtain ⟨lock, hlock, heq⟩ := Option.map_eq_some_iff.mp hact
    cases heq
    obtain ⟨hfree, hmore⟩ := held_acquire hlock
    rw [hnow] at hfree hmore
    refine ⟨code, by rw [hmore]; exact hk hfree, .inr ⟨.write, _, hfree, hmore, ?_⟩⟩
    rw [hmore]
    exact fun word => .granted

theorem follows_tryAcquireWrite {k : Bool → Sup α} (hname : ofLock name = named)
    (hbusy : Follows (held i) now last late (k false))
    (hk : now named = none → Follows (held i) (Function.update now named (some .write)) last code (k true)) :
    Follows (held i) now last (.trying .write named code late) (Sup.tryAcquireWrite i name >>= k) := by
  subst hname
  refine .atomic fun o s a t hact hnow => ?_
  split at hact
  · rename_i lock hlock
    cases hact
    obtain ⟨hfree, hmore⟩ := held_acquire hlock
    rw [hnow] at hfree hmore
    refine ⟨code, by rw [hmore]; exact hk hfree, .inr ⟨.write, _, hfree, hmore, ?_⟩⟩
    rw [hmore]
    exact fun word => .seized
  · cases hact
    subst hnow
    exact ⟨late, hbusy, .inl ⟨fun _ _ => rfl, fun word => .busy⟩⟩

theorem update_back {access : Access} (hfree : now named = none) :
    Function.update (Function.update now named (some access)) named none = now := by
  rw [Function.update_idem, ← hfree, Function.update_eq_self]

theorem follows_release {k : Unit → Sup α} (hname : ofLock name = named) (hless : Function.update now named none = less)
    (hk : Follows (held i) less last .skip (k ())) : Follows (held i) now last .skip (Sup.release i name >>= k) := by
  subst hname hless
  refine .atomic fun o s a t hact hnow => ?_
  cases hact
  have hdropped : held i { s with locks := Function.update s.locks name ((s.locks name).release i) } =
      Function.update now (ofLock name) none := by
    rw [held_update, Lock.release_hold, hnow]
    rfl
  refine ⟨.skip, by rw [hdropped]; exact hk, .inl ⟨?_, fun word hword => ?_⟩⟩
  · intro other hother
    rw [hdropped] at hother ⊢
    by_cases hname : other = ofLock name
    · simp [hname] at hother
    · exact Function.update_of_ne hname _ _
  · cases hword
    exact .skip

/-- The rest of a scope that holds a lock already taken. -/
theorem follows_releasing {body : Sup α} {access : Access} (hname : ofLock name = named) (hfree : now named = none)
    (h : Follows (held i) (Function.update now named (some access)) (Function.update now named (some access)) code body) :
    Follows (held i) (Function.update now named (some access)) now code (Sup.releasing i name body) :=
  h.ending fun _ => follows_release hname (update_back hfree) (.pure .skip)

theorem follows_withWrite {body : Sup α} (hname : ofLock name = named)
    (h : Follows (held i) (Function.update now named (some .write)) (Function.update now named (some .write)) code body) :
    Follows (held i) now now (.holding .write named code) (Sup.withWrite i name body) :=
  follows_acquireWrite hname fun hfree => follows_releasing hname hfree h

theorem follows_withRead {body : Sup α} (hname : ofLock name = named) (hfree : now named = none)
    (h : Follows (held i) (Function.update now named (some .read)) (Function.update now named (some .read)) code body) :
    Follows (held i) now now (.holding .read named code) (Sup.withRead i name body) :=
  follows_acquireRead hname hfree (follows_releasing hname hfree h)

/-- What takes nothing any more. -/
theorem follows_then (h : Follows (held i) now last code p) (hk : ∀ a, (k a).Within Lockfree) :
    Follows (held i) now last code (p >>= k) :=
  h.ending fun a => follows_lockfree (hk a) .skip

theorem follows_releaseLast {access : Access} (hname : ofLock name = named) (hfree : now named = none) :
    Follows (held i) (Function.update now named (some access)) now .skip (Sup.release i name) := by
  have h : Follows (held i) (Function.update now named (some access)) now .skip (Sup.releasing i name (pure ())) :=
    follows_releasing hname hfree (.pure .skip)
  rwa [Sup.releasing, Prog.pure_bind, Prog.bind_pure] at h

end

/-! ### Codes that may take nothing -/

section

variable {now : Name → Option Access} {code : Code} {codes : List Code}

theorem idle_brief {access : Access} {name : Name} : (brief access name).Takes now [] := .brief .skip

theorem idle_maybe : (maybe code).Takes now [] := .right .skip

theorem idle_steps (h : ∀ code ∈ codes, code.Takes now []) : (steps codes).Takes now [] := by
  induction codes with
  | nil => exact .skip
  | cons code codes ih =>
      obtain ⟨hcode, hcodes⟩ := List.forall_mem_cons.mp h
      exact hcode.seq (ih hcodes)

end

end Locks

end Causeway

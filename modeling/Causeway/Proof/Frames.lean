import Causeway.Proof.StateFile
import Causeway.Proof.Bodies

/-!
# What operations leave alone

Frames of single steps, whatever state each of them is taken from. Most steps are plain: they touch neither the statistics nor the log, begin no subscription mutation and spawn nothing. Most of these are minor: they do not even touch classes and data planes.
-/

namespace Causeway

open Concurrent Prog

/-- What one step does to the recovery of a class: nothing, or it is written down. -/
inductive Paced (cls : String) (s t : World) : Prop where
  | same (hactive : (t.runtime cls).active = (s.runtime cls).active)
      (hbackoff : (t.runtime cls).autoRecovery = (s.runtime cls).autoRecovery)
      (hrecovery : t.trail.recovery cls = s.trail.recovery cls)
  | started (now : Nat) (hready : (s.runtime cls).autoRecovery.isReadyAt now = true)
      (hactive : (t.runtime cls).active = (s.runtime cls).active)
      (hbackoff : (t.runtime cls).autoRecovery = (s.runtime cls).autoRecovery)
      (hrecovery : t.trail.recovery cls = .started now :: s.trail.recovery cls)
  | failed (now : Nat) (hactive : (t.runtime cls).active = (s.runtime cls).active)
      (hbackoff : (t.runtime cls).autoRecovery = (s.runtime cls).autoRecovery.recordFailureAt now)
      (hrecovery : t.trail.recovery cls =
        .failed now (AutoRecoveryBackoff.delay (t.runtime cls).autoRecovery.consecutiveFailures) :: s.trail.recovery cls)
  | installed (hbackoff : (t.runtime cls).autoRecovery = ⟨0, none⟩)
      (hrecovery : t.trail.recovery cls = .installed :: s.trail.recovery cls)

theorem Paced.of_eq {s t : World} (hruntime : t.runtime = s.runtime) (hrecovery : t.trail.recovery = s.trail.recovery)
    (cls : String) : Paced cls s t :=
  .same (by rw [hruntime]) (by rw [hruntime]) (by rw [hrecovery])

theorem Paced.update {cls other : String} {s t : World} {runtime : ClassRuntime} {events : List RecoveryEvent}
    (hruntime : t.runtime = Function.update s.runtime cls runtime)
    (hrecovery : t.trail.recovery = Function.update s.trail.recovery cls events) (h : other ≠ cls) : Paced other s t :=
  .same (by rw [hruntime, Function.update_of_ne h]) (by rw [hruntime, Function.update_of_ne h])
    (by rw [hrecovery, Function.update_of_ne h])

/-- No subscription mutation begins or ends, and nothing is published. -/
structure Mild (s t : World) : Prop where
  mutations : t.subscriptionTxnsInProgress = s.subscriptionTxnsInProgress
  published : t.trail.published = s.trail.published
  paced : ∀ cls, Paced cls s t

theorem Mild.still {s t : World} (hmutations : t.subscriptionTxnsInProgress = s.subscriptionTxnsInProgress)
    (hpublished : t.trail.published = s.trail.published) (hruntime : t.runtime = s.runtime)
    (hrecovery : t.trail.recovery = s.trail.recovery) : Mild s t :=
  ⟨hmutations, hpublished, .of_eq hruntime hrecovery⟩

/-- Nor does anything happen to a round of jobs. -/
structure Calm (s t : World) : Prop extends Mild s t where
  rounds : t.rounds = s.rounds

theorem Calm.still {s t : World} (hmutations : t.subscriptionTxnsInProgress = s.subscriptionTxnsInProgress)
    (hpublished : t.trail.published = s.trail.published) (hruntime : t.runtime = s.runtime)
    (hrecovery : t.trail.recovery = s.trail.recovery) (hrounds : t.rounds = s.rounds) : Calm s t :=
  ⟨.still hmutations hpublished hruntime hrecovery, hrounds⟩

instance : Std.Refl Calm := ⟨fun _ => .still rfl rfl rfl rfl rfl⟩

/-- The statistics and the log stay as well, and no job is new. -/
structure Plain (s t : World) : Prop extends Calm s t where
  nodes : t.state.nodes = s.state.nodes
  log : t.trail.log = s.trail.log
  jobs : ∀ job ∈ t.jobs, job ∈ s.jobs

theorem Plain.of_eq {s t : World} (hcalm : Calm s t) (hnodes : t.state.nodes = s.state.nodes)
    (hlog : t.trail.log = s.trail.log) (hjobs : t.jobs = s.jobs) : Plain s t :=
  ⟨hcalm, hnodes, hlog, hjobs ▸ fun _ h => h⟩

instance : Std.Refl Plain := ⟨fun _ => .of_eq (.still rfl rfl rfl rfl rfl) rfl rfl rfl⟩

/-- Only locks that are not a class's, what a class counts, files, counters and permits differ. -/
structure Minor (s t : World) : Prop where
  same : t = { s with
    locks := t.locks, runtime := t.runtime, traffic := t.traffic, events := t.events
    shutdown := t.shutdown, conns := t.conns, stateDir := t.stateDir, cacheDir := t.cacheDir
    permits := t.permits
    trail := { s.trail with
      hist := t.trail.hist, saves := t.trail.saves, window := t.trail.window, passed := t.trail.passed
      recorded := t.trail.recorded, carried := t.trail.carried } }
  locks : ∀ cls, t.locks (.cls cls) = s.locks (.cls cls)
  active : ∀ cls, (t.runtime cls).active = (s.runtime cls).active
  backoff : ∀ cls, (t.runtime cls).autoRecovery = (s.runtime cls).autoRecovery

theorem Minor.plain {s t : World} (h : Minor s t) : Plain s t := by
  refine .of_eq ⟨⟨?_, ?_, fun cls => .same (h.active cls) (h.backoff cls) ?_⟩, ?_⟩ ?_ ?_ ?_ <;> rw [h.same]
  rfl

instance : Std.Refl Minor := ⟨fun _ => ⟨rfl, fun _ => rfl, fun _ => rfl, fun _ => rfl⟩⟩

/-- A step that leaves locks and classes alone. -/
theorem Minor.of_same {s t : World} (hlocks : t.locks = s.locks) (hruntime : t.runtime = s.runtime)
    (h : t = { s with
      traffic := t.traffic, events := t.events, shutdown := t.shutdown, conns := t.conns
      stateDir := t.stateDir, cacheDir := t.cacheDir, permits := t.permits
      trail := { s.trail with
        hist := t.trail.hist, saves := t.trail.saves, window := t.trail.window, passed := t.trail.passed
        recorded := t.trail.recorded, carried := t.trail.carried } }) : Minor s t := by
  refine ⟨?_, fun _ => by rw [hlocks], fun _ => by rw [hruntime], fun _ => by rw [hruntime]⟩
  rw [hlocks, hruntime]
  exact h

section

variable {α : Type}

theorem plain_of_minor {p : Sup α} (h : p.Within Minor) : p.Within Plain := h.mono fun _ _ => Minor.plain

end

section

variable {env : Env} {me : Nat} {name : LockName} {cls : String} {α : Type}

/-! ### Locks -/

theorem minor_acquireWrite (hname : ∀ cls, LockName.cls cls ≠ name) : (Sup.acquireWrite me name).Within Minor := by
  refine within_atomic fun o s b t heq => ?_
  obtain ⟨lock, _, heq⟩ := Option.map_eq_some_iff.mp heq
  cases heq
  exact ⟨rfl, fun cls => Function.update_of_ne (hname cls) _ _, fun _ => rfl, fun _ => rfl⟩

theorem minor_acquireRead (hname : ∀ cls, LockName.cls cls ≠ name) : (Sup.acquireRead me name).Within Minor := by
  refine within_atomic fun o s b t heq => ?_
  obtain ⟨lock, _, heq⟩ := Option.map_eq_some_iff.mp heq
  cases heq
  exact ⟨rfl, fun cls => Function.update_of_ne (hname cls) _ _, fun _ => rfl, fun _ => rfl⟩

theorem minor_release (hname : ∀ cls, LockName.cls cls ≠ name) : (Sup.release me name).Within Minor :=
  within_modify fun _ => ⟨rfl, fun cls => Function.update_of_ne (hname cls) _ _, fun _ => rfl, fun _ => rfl⟩

theorem plain_acquireWrite : (Sup.acquireWrite me name).Within Plain := by
  refine within_atomic fun o s b t heq => ?_
  obtain ⟨lock, _, heq⟩ := Option.map_eq_some_iff.mp heq
  cases heq
  exact .of_eq (.still rfl rfl rfl rfl rfl) rfl rfl rfl

theorem plain_acquireRead : (Sup.acquireRead me name).Within Plain := by
  refine within_atomic fun o s b t heq => ?_
  obtain ⟨lock, _, heq⟩ := Option.map_eq_some_iff.mp heq
  cases heq
  exact .of_eq (.still rfl rfl rfl rfl rfl) rfl rfl rfl

theorem plain_tryAcquireWrite : (Sup.tryAcquireWrite me name).Within Plain := by
  refine within_atomic fun o s b t heq => ?_
  split at heq <;> cases heq <;> exact .of_eq (.still rfl rfl rfl rfl rfl) rfl rfl rfl

theorem plain_acquireWriteBy : (Sup.acquireWriteBy me name).Within Plain := by
  refine within_atomic fun o s b t heq => ?_
  split at heq
  · cases heq
    exact Std.Refl.refl s
  · obtain ⟨lock, _, heq⟩ := Option.map_eq_some_iff.mp heq
    cases heq
    exact .of_eq (.still rfl rfl rfl rfl rfl) rfl rfl rfl

theorem plain_release : (Sup.release me name).Within Plain :=
  within_modify fun _ => .of_eq (.still rfl rfl rfl rfl rfl) rfl rfl rfl

theorem plain_releaseAll (names : List LockName) : (Sup.releaseAll me names).Within Plain :=
  within_releaseAll fun _ _ => plain_release

/-! ### Data planes, events and rounds -/

theorem minor_pushEvent {f : Outside → Event} : (Sup.pushEvent f).Within Minor :=
  within_act fun _ _ => .of_same rfl rfl rfl

theorem plain_pushEvent {f : Outside → Event} : (Sup.pushEvent f).Within Plain := plain_of_minor minor_pushEvent

theorem plain_stopPlane {id : Nat} : (Sup.stopPlane id).Within Plain :=
  within_modify fun _ => .of_eq (.still rfl rfl rfl rfl rfl) rfl rfl rfl

theorem plain_spawnPlane {spec : Sup.StartSpec} : (Sup.spawnPlane me spec).Within Plain := by
  refine within_act fun o w => ?_
  split <;> exact .of_eq (.still rfl rfl rfl rfl rfl) rfl rfl rfl

theorem plain_startPlane {spec : Sup.StartSpec} : (Sup.startPlane me spec).Within Plain :=
  within_startPlane plain_spawnPlane fun _ => plain_stopPlane

theorem plain_startFused {spec : Sup.StartSpec} {fused : Bool} :
    (Sup.startFused me spec fused).Within Plain :=
  within_startFused plain_spawnPlane fun _ => plain_stopPlane

theorem minor_acquirePermit {request : Nat} : (Sup.acquirePermit request).Within Minor := by
  refine within_atomic fun o s b t heq => ?_
  split at heq <;> cases heq
  exact .of_same rfl rfl rfl

theorem minor_enterProbe {request : Nat} : (Sup.enterProbe request).Within Minor := by
  refine within_atomic fun o s b t heq => ?_
  split at heq <;> cases heq
  exact .of_same rfl rfl rfl

/-! ### Class runtimes and connections -/

theorem plain_replaceActive {newActive : ActiveNode} : (Sup.replaceActive me cls newActive).Within Plain := by
  refine within_act fun _ w => .of_eq ⟨⟨rfl, rfl, fun other => ?_⟩, rfl⟩ rfl rfl rfl
  by_cases hother : other = cls
  · subst hother
    refine .installed ?_ ?_ <;> simp [Trail.noteRecovery]
  · exact .update rfl rfl hother

/-- What a class counts does not change its path. -/
theorem active_counted {w : World} {runtime : ClassRuntime} (h : runtime.active = (w.runtime cls).active)
    (other : String) : (Function.update w.runtime cls runtime other).active = (w.runtime other).active := by
  by_cases hother : other = cls
  · subst hother
    rw [Function.update_self, h]
  · rw [Function.update_of_ne hother]

theorem backoff_counted {w : World} {runtime : ClassRuntime} (h : runtime.autoRecovery = (w.runtime cls).autoRecovery)
    (other : String) : (Function.update w.runtime cls runtime other).autoRecovery = (w.runtime other).autoRecovery := by
  by_cases hother : other = cls
  · subst hother
    rw [Function.update_self, h]
  · rw [Function.update_of_ne hother]

theorem minor_resetClassFailures : (Sup.resetClassFailures cls).Within Minor :=
  within_modify fun _ => ⟨rfl, fun _ => rfl, active_counted rfl, backoff_counted rfl⟩

theorem minor_bookVerdict {ok : Bool} {sampled : Sup.Sampled} : (Sup.bookVerdict cls ok sampled).Within Minor :=
  within_act fun _ _ => ⟨rfl, fun _ => rfl, active_counted rfl, backoff_counted rfl⟩

/-! What happens to the recovery of a class. -/

theorem plain_recoveryAllowed : (Sup.recoveryAllowed env cls).Within Plain := by
  refine within_act fun o w => ?_
  by_cases hallowed : ((!((w.runtime cls).active.isSome && !env.cfg.classAutoSwitch cls)) &&
      (w.runtime cls).autoRecovery.isReadyAt o.instant) = true
  · dsimp only
    rw [if_pos hallowed]
    refine .of_eq ⟨⟨rfl, rfl, fun other => ?_⟩, rfl⟩ rfl rfl rfl
    by_cases hother : other = cls
    · subst hother
      exact .started o.instant (Bool.and_eq_true_iff.mp hallowed).2 rfl rfl (Function.update_self _ _ _)
    · exact .same rfl rfl (Function.update_of_ne hother _ _)
  · dsimp only
    rw [if_neg hallowed]
    exact Std.Refl.refl w

theorem plain_recordRecoveryFailure : (Sup.recordRecoveryFailure cls).Within Plain := by
  refine within_act fun o w => .of_eq ⟨⟨rfl, rfl, fun other => ?_⟩, rfl⟩ rfl rfl rfl
  by_cases hother : other = cls
  · subst hother
    refine .failed o.instant ?_ ?_ ?_ <;> simp [Trail.noteRecovery]
  · exact .update rfl rfl hother

theorem plain_captureRoute {proto : InboundProto} : (Sup.captureRoute me cls proto).Within Plain := by
  refine within_atomic fun o s b t heq => ?_
  split at heq <;> cases heq
  exact .of_eq (.still rfl rfl rfl rfl rfl) rfl rfl rfl

theorem plain_releaseConnection {route : ClassRoute} {proto : InboundProto} :
    (Sup.releaseConnection me route proto).Within Plain :=
  within_modify fun _ => .of_eq (.still rfl rfl rfl rfl rfl) rfl rfl rfl

theorem plain_takeSamples {url : String} {samples : List Passage} {sampledAt : Option Nat} {count : Nat} :
    (Sup.takeSamples me cls url samples sampledAt count).Within Plain :=
  within_takeSamples plain_captureRoute fun _ => plain_releaseConnection

theorem plain_awaitDrain {path : Nat} {timer : DrainTimer} {enough : World → Bool} :
    (Sup.awaitDrain path timer enough).Within Plain := by
  refine within_atomic fun o s b t heq => ?_
  split at heq
  · cases heq
    exact .of_eq (.still rfl rfl rfl rfl rfl) rfl rfl rfl
  · split at heq <;> cases heq
    exact .of_eq (.still rfl rfl rfl rfl rfl) rfl rfl rfl

theorem plain_drainPath {active : ActiveNode} : (Sup.drainPath active).Within Plain :=
  within_drainPath (fun _ _ _ => plain_awaitDrain) fun _ => .of_eq (.still rfl rfl rfl rfl rfl) rfl rfl rfl

theorem minor_addTraffic {route : ClassRoute} {up down capturedAt : Nat} :
    (Sup.addTraffic route up down capturedAt).Within Minor :=
  within_modify fun _ => .of_same rfl rfl rfl

theorem minor_countConns {f : Nat → Nat} : (Sup.countConns f).Within Minor :=
  within_modify fun _ => .of_same rfl rfl rfl

theorem plain_handleConn {proto : InboundProto} : (Sup.handleConn me cls proto).Within Plain :=
  within_handleConn (fun _ => plain_of_minor minor_countConns) plain_captureRoute (fun _ => plain_releaseConnection)
    fun _ _ _ _ => plain_of_minor minor_addTraffic

theorem plain_measureSite {node : Node} {url : String} {now : Int} :
    (Sup.measureSite me node url now).Within Plain :=
  within_measureSite (fun _ => plain_spawnPlane) fun _ => plain_stopPlane

theorem minor_freshVerdict {site node : String} : (Sup.freshVerdict env site node).Within Minor := by
  refine within_atomic fun o s b t heq => ?_
  split at heq <;> cases heq
  exact Std.Refl.refl s

/-! ### Saves -/

theorem minor_saveSteps {kind : SaveKind} {content : Bytes} : (Sup.saveSteps me kind content).Within Minor := by
  refine within_saveSteps (within_act fun o w => ?_) (fun _ _ _ => within_act fun o w => ?_) (within_act fun o w => ?_)
  all_goals split <;> exact .of_same rfl rfl rfl

theorem minor_saveAtomic {kind : SaveKind} {st : StateFile} :
    (Sup.saveAtomic env me kind st).Within Minor :=
  within_saveAtomic (fun _ => within_modify fun _ => .of_same rfl rfl rfl) (fun _ => minor_saveSteps)
    fun _ => within_modify fun _ => .of_same rfl rfl rfl

theorem minor_saveState : (Sup.saveState env me).Within Minor := by
  refine .bind (minor_acquireWrite (by simp)) fun _ => .bind within_look fun _ => ?_
  exact .bind minor_saveAtomic fun _ => minor_release (by simp)

end

end Causeway

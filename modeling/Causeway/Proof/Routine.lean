import Causeway.Proof.Frames

/-!
# What tasks do beside transactions and probe rounds

A task that works for one class probes and installs paths, books what it saw and saves. Whatever it does, no subscription mutation begins or ends, nothing is published, and if the class has a health target of its own, no score changes.
-/

namespace Causeway

open Concurrent History

/-- The shared statistics of a node: all but the displayed failure count. -/
def StateFile.score (st : StateFile) (node : String) : NodeStats :=
  { (st.nodes[node]?).getD default with consecutiveHealthFailures := 0 }

theorem StateFile.score_congr {st other : StateFile} (h : st.nodes = other.nodes) (node : String) :
    st.score node = other.score node := by
  rw [StateFile.score, StateFile.score, h]

/-- An update of the displayed failure count leaves the scores alone. -/
theorem StateFile.score_updateStats {st : StateFile} {name : String} {f : NodeStats → NodeStats}
    (h : ∀ stats, { f stats with consecutiveHealthFailures := 0 } =
      { stats with consecutiveHealthFailures := 0 }) (node : String) :
    (st.updateStats name f).score node = st.score node := by
  unfold StateFile.score StateFile.updateStats
  by_cases hname : name = node
  · subst hname
    simp [h]
  · rw [BTreeMap.getElem?_upsert_of_ne _ _ hname]

theorem StateFile.score_resetHealthFailures {st : StateFile} {name : String} (node : String) :
    (st.resetHealthFailures name).score node = st.score node := by
  unfold StateFile.score StateFile.resetHealthFailures
  rw [BTreeMap.getElem?_adjust]
  split
  · cases st.nodes[node]? <;> rfl
  · rfl

/-- A probe job belongs to the class. -/
def Job.Of (cls : String) : Job → Prop
  | .probe _ _ _ _ other _ _ => other = cls
  | _ => True

/-- One step of a task of the class: the log grows, and only probes of the class are spawned. -/
structure Errand (env : Env) (cls : String) (s t : World) : Prop extends Mild s t where
  scores : (env.cfg.classHealthOverride cls).isSome → ∀ node, t.state.score node = s.state.score node
  log : ∀ obs ∈ s.trail.log, obs ∈ t.trail.log
  jobs : ∀ job ∈ t.jobs, job ∈ s.jobs ∨ job.Of cls

/-- One that is no step of a round of jobs. -/
structure Routine (env : Env) (cls : String) (s t : World) : Prop extends Errand env cls s t where
  rounds : t.rounds = s.rounds

theorem Routine.toCalm {env : Env} {cls : String} {s t : World} (h : Routine env cls s t) : Calm s t :=
  ⟨h.toMild, h.rounds⟩

/-- Only the log and the jobs grow. -/
theorem Routine.of_log {env : Env} {cls : String} {s t : World} (hcalm : Calm s t)
    (hscores : ∀ node, t.state.score node = s.state.score node)
    (hlog : ∀ obs ∈ s.trail.log, obs ∈ t.trail.log) (hjobs : ∀ job ∈ t.jobs, job ∈ s.jobs ∨ job.Of cls) :
    Routine env cls s t :=
  ⟨⟨hcalm.toMild, fun _ => hscores, hlog, hjobs⟩, hcalm.rounds⟩

/-- A step of a round that leaves the state and the log alone. -/
theorem Errand.of_eq {env : Env} {cls : String} {s t : World} (hmild : Mild s t) (hstate : t.state = s.state)
    (hlog : t.trail.log = s.trail.log) (hjobs : ∀ job ∈ t.jobs, job ∈ s.jobs ∨ job.Of cls) : Errand env cls s t :=
  ⟨hmild, fun _ _ => by rw [hstate], fun _ hobs => hlog ▸ hobs, hjobs⟩

theorem Plain.routine {env : Env} {cls : String} {s t : World} (h : Plain s t) : Routine env cls s t :=
  .of_log h.toCalm (StateFile.score_congr h.nodes) (fun _ hobs => h.log ▸ hobs) fun job hjob => .inl (h.jobs job hjob)

section

variable {env : Env} {me : Nat} {cls other site : String} {α : Type}

instance : Std.Refl (Routine env cls) := ⟨fun _ => (Plain.of_eq (.still rfl rfl rfl rfl rfl) rfl rfl rfl).routine⟩

theorem routine_of_plain {p : Sup α} (h : p.Within Plain) : p.Within (Routine env cls) :=
  h.mono fun _ _ => Plain.routine

theorem errand_of_routine {p : Sup α} (h : p.Within (Routine env cls)) : p.Within (Errand env cls) :=
  h.mono fun _ _ => Routine.toErrand

theorem errand_of_plain {p : Sup α} (h : p.Within Plain) : p.Within (Errand env cls) :=
  errand_of_routine (routine_of_plain h)

instance : Std.Refl (Errand env cls) := ⟨fun w => (Std.Refl.refl (r := Routine env cls) w).toErrand⟩

theorem routine_observe {f : World → α × Obs} : (Sup.observe f).Within (Routine env cls) :=
  within_act fun _ _ => .of_log (.still rfl rfl rfl rfl rfl) (fun _ => rfl) (fun _ h => List.mem_cons_of_mem _ h) fun _ h => .inl h

theorem routine_withWrite {name : LockName} {body : Sup α} (h : body.Within (Routine env cls)) :
    (Sup.withWrite me name body).Within (Routine env cls) :=
  .bind (routine_of_plain plain_acquireWrite) fun _ => .bind h fun _ =>
    .bind (routine_of_plain plain_release) fun _ => trivial

theorem routine_withRead {name : LockName} {body : Sup α} (h : body.Within (Routine env cls)) :
    (Sup.withRead me name body).Within (Routine env cls) :=
  .bind (routine_of_plain plain_acquireRead) fun _ => .bind h fun _ =>
    .bind (routine_of_plain plain_release) fun _ => trivial

theorem routine_releasing {name : LockName} {body : Sup α} (h : body.Within (Routine env cls)) :
    (Sup.releasing me name body).Within (Routine env cls) :=
  .bind h fun _ => .bind (routine_of_plain plain_release) fun _ => trivial

/-! An attempt remembers its pre-check, an install resets the displayed failure count. -/

theorem routine_tryActivate {node : Node} {fused : Bool} :
    (Sup.tryActivate env me other node fused).Within (Routine env cls) :=
  within_tryActivate (fun _ => routine_of_plain plain_spawnPlane) (fun _ => routine_of_plain plain_stopPlane)
    fun _ => routine_observe

theorem routine_scheduleDrain {old : ActiveNode} : (Sup.scheduleDrain old).Within (Routine env cls) := by
  refine within_modify fun w => .of_log (.still rfl rfl rfl rfl ?_) (fun _ => rfl) (fun _ h => h) fun job hjob => ?_
  · simp [World.rounds, Job.slot]
  · rcases List.mem_append.mp hjob with h | h
    · exact .inl h
    · exact .inr (by simp [List.mem_singleton.mp h, Job.Of])

theorem routine_installActive {newActive : ActiveNode} {cause : Cause} {chosenAt : Nat} :
    (Sup.installActive env me other newActive cause chosenAt).Within (Routine env cls) := by
  refine .bind within_look fun subscription => .bind (routine_of_plain plain_replaceActive) fun old => ?_
  refine .bind (within_atomic fun o s b t heq => ?_) fun generation => ?_
  · split at heq <;> cases heq
    exact .of_log (.still rfl rfl rfl rfl rfl) (fun _ => rfl) (fun _ h => List.mem_cons_of_mem _ h) fun _ h => .inl h
  refine .bind (within_lockState fun o w => ?_) fun _ => ?_
  · exact .of_log (.still rfl rfl rfl rfl rfl) (fun node => StateFile.score_resetHealthFailures node) (fun _ h => h) fun _ h => .inl h
  refine .bind (routine_of_plain (plain_of_minor minor_resetClassFailures)) fun _ => ?_
  refine .bind (routine_of_plain (plain_of_minor minor_saveState)) fun _ => .bind (routine_of_plain plain_pushEvent) fun _ => ?_
  cases old with
  | none => trivial
  | some old => exact routine_scheduleDrain

/-- A failed candidate leaves no mark if the class has a target of its own. -/
theorem routine_recordFailedCandidate {name : String} :
    (Sup.recordFailedCandidate env cls name).Within (Routine env cls) := by
  unfold Sup.recordFailedCandidate
  split
  · rename_i hshared
    refine within_lockState fun o w => ⟨⟨.still rfl rfl rfl rfl, fun hown => ?_, fun _ h => h, fun _ h => .inl h⟩, rfl⟩
    simp [Option.isNone_iff_eq_none.mp hshared] at hown
  · trivial

theorem routine_tryCandidates {cause : Cause} {chosenAt : Nat} {lastCause : Option String} {candidates : List Node} :
    (Sup.tryCandidates env me cls cause chosenAt lastCause candidates).Within (Routine env cls) := by
  induction candidates generalizing cause lastCause with
  | nil => trivial
  | cons candidate candidates ih =>
      refine .bind within_look fun stopping => ?_
      split
      · trivial
      refine .bind routine_tryActivate fun attempt => ?_
      cases attempt with
      | elapsed => trivial
      | activated active => exact .bind routine_installActive fun _ => trivial
      | failed error =>
          exact .bind routine_recordFailedCandidate fun _ => .bind (routine_of_plain plain_pushEvent) fun _ => ih

/-! Switches, recoveries and rebuilds. -/

theorem routine_switchNodeLocked
    {causeAt : SwitchField → Cause} : (Sup.switchNodeLocked env me cls causeAt).Within (Routine env cls) := by
  refine .bind within_look fun current => .bind within_look fun pool => ?_
  refine .bind within_readState fun field => .bind routine_tryCandidates fun outcome => ?_
  cases outcome with
  | ok installed => trivial
  | error error =>
      refine .bind within_look fun stopping => ?_
      split
      · trivial
      · split
        · trivial
        · refine .bind routine_tryCandidates fun outcome => ?_
          cases outcome <;> trivial

theorem routine_recoverAfterHealthFailure {bookedAt : Nat} :
    (Sup.recoverAfterHealthFailure env me cls bookedAt).Within (Routine env cls) := by
  refine routine_withWrite (.bind (routine_of_plain plain_recoveryAllowed) fun allowed => ?_)
  split
  · trivial
  · refine .bind routine_switchNodeLocked fun switched => ?_
    split
    · trivial
    · exact routine_of_plain plain_recordRecoveryFailure

theorem routine_switchTo {requested : String}
    {requester : Requester} : (Sup.switchTo env me cls requested requester).Within (Routine env cls) := by
  refine routine_withRead (routine_withWrite (.bind within_look fun pool => ?_))
  dsimp only
  split
  · trivial
  refine .bind ?_ fun current => ?_
  · cases requester with
    | operator => exact within_look
    | site nodeBefore site stamp => exact routine_observe
  split
  · trivial
  refine .bind routine_tryCandidates fun outcome => ?_
  cases outcome with
  | ok installed => trivial
  | error error =>
      refine .bind within_readState fun candidates => .bind routine_tryCandidates fun outcome => ?_
      cases outcome with
      | ok installed => trivial
      | error error => exact .bind within_look fun _ => trivial

theorem routine_rebuildCurrentAfterEgressChange :
    (Sup.rebuildCurrentAfterEgressChange env me other).Within (Routine env cls) := by
  have hlocked : (Sup.rebuildLocked env me other).Within (Routine env cls) := by
    refine .bind within_look fun unwanted => ?_
    split
    · trivial
    refine .bind within_look fun active => ?_
    split
    · trivial
    refine .bind routine_tryActivate fun attempt => ?_
    cases attempt with
    | elapsed => trivial
    | failed error => trivial
    | activated replacement =>
        refine .bind within_ask fun current => .bind within_look fun unwanted => ?_
        split
        · exact .bind (routine_of_plain plain_stopPlane) fun _ => trivial
        · exact routine_installActive
  refine .bind within_look fun unwanted => ?_
  split
  · trivial
  refine .bind (routine_of_plain plain_tryAcquireWrite) fun taken => ?_
  split
  · refine routine_releasing (.bind within_look fun unwanted => ?_)
    split
    · trivial
    refine .bind (routine_of_plain plain_tryAcquireWrite) fun taken => ?_
    split
    · refine routine_releasing (.bind (routine_of_plain plain_tryAcquireWrite) fun taken => ?_)
      split
      · exact routine_releasing hlocked
      · trivial
    · trivial
  · trivial

/-! Site requests write verdicts, which are no scores. -/

theorem routine_probeSiteNode {node : Node} {url : String} {takenAt : Nat} :
    (Sup.probeSiteNode me node site url takenAt).Within (Routine env cls) := by
  refine routine_withRead (.bind within_look fun gateAt => .bind within_ask fun now => ?_)
  refine .bind (routine_of_plain plain_measureSite) fun verdict => ?_
  refine .bind (within_atomic fun o s b t heq => ?_) fun _ => trivial
  split at heq <;> cases heq
  exact .of_log (.still rfl rfl rfl rfl rfl) (fun _ => rfl) (fun _ h => List.mem_cons_of_mem _ h) fun _ h => .inl h

/-! Rounds of jobs. -/

theorem errand_openRound {permits : Nat} : (Sup.openRound permits).Within (Errand env cls) :=
  within_act fun _ _ => .of_eq (.still rfl rfl rfl rfl) rfl rfl fun _ h => .inl h

theorem errand_spawn {jobs : List Job} (h : ∀ job ∈ jobs, job.Of cls) :
    (Sup.spawn jobs).Within (Errand env cls) :=
  within_modify fun _ => .of_eq (.still rfl rfl rfl rfl) rfl rfl fun job hjob =>
    (List.mem_append.mp hjob).imp id (h job)

theorem errand_finishJob {request index : Nat} {result : Option ProbeResult} :
    (Sup.finishJob request index result).Within (Errand env cls) :=
  within_modify fun _ => .of_eq (.still rfl rfl rfl rfl) rfl rfl fun _ h => .inl h

theorem errand_joinAll {request count : Nat} {slots : List (Option ProbeResult)} :
    (Sup.joinAll request count slots).Within (Errand env cls) := by
  refine within_joinAll (within_atomic fun o s b t heq => ?_)
  split at heq
  · split at heq <;> cases heq
    exact .of_eq (.still rfl rfl rfl rfl) rfl rfl fun _ h => .inl h
  · cases heq

theorem errand_siteProbeRequest {chosen : Option String} :
    (Sup.siteProbeRequest env me chosen).Within (Errand env cls) := by
  rw [Sup.siteProbeRequest]
  split
  · trivial
  · trivial
  refine .bind within_look fun pool => .bind errand_openRound fun request => ?_
  refine .bind (errand_spawn ?_) fun _ => .bind errand_joinAll fun _ => ?_
  · intro job hjob
    obtain ⟨_, _, hjob⟩ := List.mem_flatMap.mp hjob
    obtain ⟨_, _, rfl⟩ := List.mem_map.mp hjob
    trivial
  refine .bind (errand_of_plain (plain_of_minor minor_saveState)) fun _ => .bind within_readState fun _ => ?_
  exact .bind (errand_of_plain plain_pushEvent) fun _ => .bind within_readState fun _ => trivial

theorem errand_probeNow : (Sup.probeNow env me cls).Within (Errand env cls) := by
  rw [Sup.probeNow]
  split
  · trivial
  have hround : (Sup.probeNowInner cls).Within (Errand env cls) := by
    refine .bind within_look fun pool => .bind within_look fun era => ?_
    refine .bind errand_openRound fun request => .bind (errand_spawn ?_) fun _ => ?_
    · intro job hjob
      obtain ⟨⟨node, index⟩, _, rfl⟩ := List.mem_map.mp hjob
      exact rfl
    · exact .bind errand_joinAll fun _ => trivial
  refine .bind hround fun results => .bind (errand_of_plain (plain_of_minor minor_saveState)) fun _ => ?_
  exact .bind (errand_of_plain plain_pushEvent) fun _ => trivial

/-! Site switches. -/

theorem routine_tryForSite {url : String}
    {nodeBefore : Option String} {tried takenAt : Nat} {candidates : List Node} :
    (Sup.tryForSite env me cls site url nodeBefore tried takenAt candidates).Within (Routine env cls) := by
  induction candidates with
  | nil => exact .bind (routine_of_plain (plain_of_minor minor_saveState)) fun _ => trivial
  | cons candidate candidates ih =>
      refine .bind routine_probeSiteNode fun verdict => ?_
      dsimp only
      split
      · exact ih
      refine .bind routine_observe fun _ => .bind routine_switchTo fun outcome => ?_
      cases outcome with
      | ok installed => exact .bind (routine_of_plain (plain_of_minor minor_saveState)) fun _ => trivial
      | error error => exact ih

theorem routine_switchForSite :
    (Sup.switchForSite env me cls site).Within (Routine env cls) := by
  have hsearch : ∀ {url : String} {nodeBefore : Option String},
      (Sup.searchForSite env me cls site url nodeBefore).Within (Routine env cls) :=
    .bind within_look fun _ => .bind within_readState fun _ => routine_tryForSite
  rw [Sup.switchForSite]
  split
  · trivial
  split
  · trivial
  refine .bind (routine_withWrite within_look) fun nodeBefore => ?_
  cases nodeBefore with
  | none => exact hsearch
  | some current =>
      refine .bind (.bind (routine_of_plain (plain_of_minor minor_freshVerdict)) fun fresh => ?_) fun verdict => ?_
      · split
        · exact .bind routine_observe fun _ => trivial
        refine .bind within_look fun pool => ?_
        dsimp only
        split
        · exact .bind routine_probeSiteNode fun _ => .bind routine_observe fun _ => trivial
        · exact .bind within_ask fun _ => trivial
      · split
        · trivial
        · exact hsearch

/-! Loops. -/

/-- A health verdict moves the displayed failure count only. -/
theorem routine_recordHealthOutcome {ok : Bool} {sampled : Sup.Sampled} :
    (Sup.recordHealthOutcome env other ok sampled).Within (Routine env cls) := by
  refine within_recordHealthOutcome (fun node => within_lockState fun o w => ?_)
    (routine_of_plain (plain_of_minor minor_bookVerdict)) fun _ => routine_of_plain plain_pushEvent
  refine .of_log (.still rfl rfl rfl rfl rfl) ?_ (fun _ h => h) fun _ h => .inl h
  exact StateFile.score_updateStats fun _ => by simp only

theorem routine_healthTick :
    (Sup.healthTick env me cls).Within (Routine env cls) := by
  refine routine_withRead (.bind (routine_of_plain plain_takeSamples) fun sampled => ?_)
  split
  · trivial
  refine .bind within_look fun stopping => ?_
  split
  · trivial
  refine .bind (routine_withWrite routine_recordHealthOutcome) fun booked => ?_
  dsimp only
  split
  · refine .bind within_look fun stopping => ?_
    split
    · exact .bind routine_recoverAfterHealthFailure fun _ => trivial
    · trivial
  · trivial

theorem routine_activateFirst {chosenAt : Nat} {candidates : List Node} :
    (Sup.activateFirst env me other chosenAt candidates).Within (Routine env cls) := by
  induction candidates with
  | nil => trivial
  | cons candidate candidates ih =>
      refine .bind routine_tryActivate fun attempt => ?_
      cases attempt with
      | activated active => exact routine_installActive
      | elapsed => exact ih
      | failed error => exact ih

theorem routine_activateInitial : (Sup.activateInitial env me other).Within (Routine env cls) :=
  routine_withWrite (.bind within_readState fun _ => .bind within_look fun _ =>
    .bind within_readState fun _ => routine_activateFirst)

end

end Causeway

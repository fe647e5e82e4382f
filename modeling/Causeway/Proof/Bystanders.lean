import Causeway.Proof.Chores

/-!
# Bystanders

Probes, site requests, background loops and connections: none of the tasks beside the two subscription mutations does more than chores.
-/

namespace Causeway

open Concurrent Prog

section

variable {env : Env} {i : Nat} {task : Task} {cls site : String} {α : Type}

/-! ### Probes -/

theorem tends_openRound {permits : Nat} : (Sup.openRound permits).Within Tends :=
  within_act fun _ _ => .of_eq rfl rfl rfl rfl rfl rfl rfl

theorem tends_spawn {jobs : List Job} : (Sup.spawn jobs).Within Tends :=
    within_modify fun _ => .of_eq rfl rfl rfl rfl rfl rfl rfl

theorem tends_finishJob {request index : Nat} {result : Option ProbeResult} :
    (Sup.finishJob request index result).Within Tends :=
  within_modify fun _ => .of_eq rfl rfl rfl rfl rfl rfl rfl

theorem tends_joinAll {request count : Nat} {slots : List (Option ProbeResult)} :
    (Sup.joinAll request count slots).Within Tends := by
  refine within_joinAll (within_atomic fun o s b t heq => ?_)
  split at heq
  · split at heq <;> cases heq
    exact .of_eq rfl rfl rfl rfl rfl rfl rfl
  · cases heq

theorem tends_acquirePermit {request : Nat} : (Sup.acquirePermit request).Within Tends := by
  refine within_atomic fun o s b t heq => ?_
  split at heq <;> cases heq
  exact .of_eq rfl rfl rfl rfl rfl rfl rfl

theorem tends_enterProbe {request : Nat} : (Sup.enterProbe request).Within Tends := by
  refine within_atomic fun o s b t heq => ?_
  split at heq <;> cases heq
  exact .of_eq rfl rfl rfl rfl rfl rfl rfl

theorem tends_recordProbeResult {node : Node} {rtt : Option ℚ} {takenAt readAt : Nat} :
    (Sup.recordProbeResult env node rtt takenAt readAt).Within Tends := by
  refine within_atomic fun o s b t heq => ?_
  split at heq <;> cases heq
  exact ⟨⟨rfl, rfl, rfl, rfl, rfl⟩, rfl, rfl⟩

theorem tends_testNode {url : String} {node : Node} {record : Bool} {takenAt readAt : Nat} :
    (Sup.testNode env i url node record takenAt readAt).Within Tends :=
  within_testNode (fun _ => tends_spawnPlane) (fun _ => tends_stopPlane) (fun _ => tends_observe) fun _ => tends_recordProbeResult

theorem tends_measureSite {node : Node} {url : String} {now : Int} : (Sup.measureSite i node url now).Within Tends :=
  within_measureSite (fun _ => tends_spawnPlane) fun _ => tends_stopPlane

theorem minds_probeSiteNode {node : Node} {url : String} {takenAt : Nat} :
    Minds env i task (Sup.probeSiteNode i node site url takenAt) := by
  refine minds_withRead (.tends_bind within_look fun gateAt => .tends_bind within_ask fun now => ?_)
  refine .tends_bind tends_measureSite fun verdict => .tends_bind (within_atomic fun o s b t heq => ?_) fun _ => .pure
  split at heq <;> cases heq
  exact ⟨⟨rfl, rfl, rfl, rfl, rfl⟩, rfl, rfl⟩

theorem minds_probeTask {request : Nat} {node : Node} {era : UInt64} {takenAt readAt : Nat} :
    Minds env i task (Sup.probeTask env i request node era cls takenAt readAt) := by
  refine .tends_bind tends_enterProbe fun panicked => ?_
  cases panicked with
  | true => exact .pure
  | false =>
      refine Minds.bind (minds_withRead (.tends_bind within_look fun current => ?_)) fun _ => .pure
      split
      · exact .pure
      · exact .tends tends_testNode

theorem tends_drainPath {active : ActiveNode} : (Sup.drainPath active).Within Tends := by
  refine within_drainPath (fun path timer enough => within_atomic fun o s b t heq => ?_) fun _ => .of_eq rfl rfl rfl rfl rfl rfl rfl
  split at heq
  · cases heq
    exact .of_eq rfl rfl rfl rfl rfl rfl rfl
  · split at heq <;> cases heq
    exact .of_eq rfl rfl rfl rfl rfl rfl rfl

theorem minds_runJob : Minds env i task (Sup.runJob env i) := by
  refine .tends_bind (within_atomic fun o s b t heq => ?_) fun job => ?_
  · obtain ⟨job, _, heq⟩ := Option.map_eq_some_iff.mp heq
    cases heq
    exact .of_eq rfl rfl rfl rfl rfl rfl rfl
  · cases job with
    | probe request index node era cls takenAt readAt => exact minds_probeTask.bind fun _ => .tends tends_finishJob
    | site request node site url takenAt =>
        exact .tends_bind tends_acquirePermit fun _ => minds_probeSiteNode.bind fun _ => .tends tends_finishJob
    | drain active => exact .tends tends_drainPath

/-! ### Requests -/

theorem minds_probeNow : Minds env i task (Sup.probeNow env i cls) := by
  rw [Sup.probeNow]
  split
  · exact .pure
  have hround : (Sup.probeNowInner cls).Within Tends :=
    .bind within_look fun _ => .bind within_look fun _ => .bind tends_openRound fun _ => .bind tends_spawn fun _ =>
      .bind tends_joinAll fun _ => trivial
  exact .tends_bind hround fun _ => minds_saveState.bind fun _ => .tends_bind tends_pushEvent fun _ => .pure

theorem minds_siteProbeRequest {chosen : Option String} : Minds env i task (Sup.siteProbeRequest env i chosen) := by
  rw [Sup.siteProbeRequest]
  split
  · exact .pure
  · exact .pure
  refine .tends_bind within_look fun _ => .tends_bind tends_openRound fun _ => .tends_bind tends_spawn fun _ => ?_
  refine .tends_bind tends_joinAll fun _ => minds_saveState.bind fun _ => .tends_bind within_readState fun _ => ?_
  exact .tends_bind tends_pushEvent fun _ => .tends_bind within_readState fun _ => .pure

theorem minds_tryForSite {url : String} {nodeBefore : Option String} {tried takenAt : Nat} {candidates : List Node} :
    Minds env i task (Sup.tryForSite env i cls site url nodeBefore tried takenAt candidates) := by
  induction candidates with
  | nil => exact minds_saveState.bind fun _ => .pure
  | cons candidate candidates ih =>
      refine minds_probeSiteNode.bind fun verdict => ?_
      dsimp only
      split
      · exact ih
      refine .tends_bind tends_observe fun _ => minds_switchTo.bind fun outcome => ?_
      cases outcome with
      | ok installed => exact minds_saveState.bind fun _ => .pure
      | error error => exact ih

theorem minds_switchForSite : Minds env i task (Sup.switchForSite env i cls site) := by
  have hsearch : ∀ {url : String} {nodeBefore : Option String},
      Minds env i task (Sup.searchForSite env i cls site url nodeBefore) :=
    .tends_bind within_look fun _ => .tends_bind within_readState fun _ => minds_tryForSite
  rw [Sup.switchForSite]
  split
  · exact .pure
  split
  · exact .pure
  refine (minds_withWrite (.tends within_look)).bind fun nodeBefore => ?_
  cases nodeBefore with
  | none => exact hsearch
  | some current =>
      refine Minds.bind (.tends_bind (within_atomic fun o s b t heq => ?_) fun fresh => ?_) fun verdict => ?_
      · split at heq <;> cases heq
        exact Std.Refl.refl s
      · split
        · exact .tends_bind tends_observe fun _ => .pure
        refine .tends_bind within_look fun pool => ?_
        dsimp only
        split
        · exact minds_probeSiteNode.bind fun _ => .tends_bind tends_observe fun _ => .pure
        · exact .tends_bind within_ask fun _ => .pure
      · split
        · exact .pure
        · exact hsearch

/-! ### Loops -/

theorem minds_rounds {body : Sup Bool} (h : Minds env i task body) (count : Nat) :
    Minds env i task (Sup.rounds body count) := by
  induction count with
  | zero => exact .pure
  | succ count ih =>
      refine h.bind fun again => ?_
      split
      · exact ih
      · exact .pure

theorem minds_forEach {body : α → Sup Unit} (h : ∀ item, Minds env i task (body item)) (items : List α) :
    Minds env i task (Sup.forEach body items) := by
  induction items with
  | nil => exact .pure
  | cons item items ih => exact (h item).bind fun _ => ih

theorem tends_captureRoute {proto : InboundProto} : (Sup.captureRoute i cls proto).Within Tends := by
  refine within_atomic fun o s b t heq => ?_
  split at heq <;> cases heq
  exact .of_eq rfl rfl rfl rfl rfl rfl rfl

theorem tends_releaseConnection {route : ClassRoute} {proto : InboundProto} :
    (Sup.releaseConnection i route proto).Within Tends :=
  within_modify fun _ => .of_eq rfl rfl rfl rfl rfl rfl rfl

theorem tends_takeSamples {url : String} {samples : List Passage} {sampledAt : Option Nat} {count : Nat} :
    (Sup.takeSamples i cls url samples sampledAt count).Within Tends :=
  within_takeSamples tends_captureRoute fun _ => tends_releaseConnection

theorem tends_recordHealthOutcome {ok : Bool} {sampled : Sup.Sampled} :
    (Sup.recordHealthOutcome env cls ok sampled).Within Tends :=
  within_recordHealthOutcome (fun _ => within_lockState fun _ _ => .of_state rfl)
    (within_act fun _ _ => .of_eq rfl rfl rfl rfl rfl rfl rfl) fun _ => tends_pushEvent

theorem minds_healthTick : Minds env i task (Sup.healthTick env i cls) := by
  refine minds_withRead (.tends_bind tends_takeSamples fun sampled => ?_)
  split
  · exact .pure
  refine .tends_bind within_look fun stopping => ?_
  split
  · exact .pure
  refine (minds_withWrite (.tends tends_recordHealthOutcome)).bind fun booked => ?_
  dsimp only
  split
  · refine .tends_bind within_look fun stopping => ?_
    split
    · exact minds_recoverAfterHealthFailure.bind fun _ => .pure
    · exact .pure
  · exact .pure

theorem Tended.updateStats (st : StateFile) {name : String} {f : NodeStats → NodeStats} :
    Tended st (st.updateStats name f) := rfl

theorem tended_updates {f : NodeStats → Node → NodeStats} (st : StateFile) (nodes : List Node) :
    Tended st (nodes.foldl (fun st node => st.updateStats node.name fun stats => f stats node) st) :=
  StateFile.foldl_keeps (X := Tended st) (fun _ _ h => h.trans (.updateStats _)) nodes (.refl st)

theorem minds_probeCycle {source : String} : Minds env i task (Sup.probeCycle env i source) := by
  refine minds_withRead (.tends_bind within_look fun pool => .tends_bind within_ask fun rtts => ?_)
  refine .tends_bind (within_lockState fun o w => .of_state ?_) fun _ => minds_saveState.bind fun _ => .tends tends_pushEvent
  exact Tended.trans (tended_updates w.state _) rfl

theorem minds_hysteresisStep : Minds env i task (Sup.hysteresisStep env i cls) := by
  have hfind : Minds env i task (Sup.findChallenger env i cls) := by
    refine minds_withWrite (.tends_bind within_look fun active => ?_)
    cases active with
    | none => exact .pure
    | some current => exact .tends_bind within_look fun _ => .tends within_readState
  refine hfind.bind fun found => ?_
  rcases found with _ | ⟨current, challenger⟩
  · exact .pure
  · dsimp only
    split
    · refine .tends_bind within_readState fun ⟨won, challenge⟩ => ?_
      cases won with
      | true => exact minds_withRead (minds_withWrite (minds_switchNodeLocked.bind fun _ => .pure))
      | false => exact .pure
    · exact .pure

theorem minds_probeRound : Minds env i task (Sup.probeRound env i) := by
  refine .tends_bind within_look fun stopping => ?_
  split
  · exact .pure
  · exact minds_probeCycle.bind fun _ => (minds_forEach (fun _ => minds_hysteresisStep) env.classes).bind fun _ => .pure

theorem minds_egressRound : Minds env i task (Sup.egressRound env i) := by
  refine .tends_bind within_look fun stopping => ?_
  split
  · exact .pure
  · exact (minds_forEach (fun _ => minds_rebuildCurrentAfterEgressChange) env.classes).bind fun _ => .pure

theorem minds_activateInitial : Minds env i task (Sup.activateInitial env i cls) := by
  have hfirst : ∀ {chosenAt : Nat}
    {candidates : List Node}, Minds env i task (Sup.activateFirst env i cls chosenAt candidates) := by
    intro chosenAt candidates
    induction candidates with
    | nil => exact .pure
    | cons candidate candidates ih =>
        refine .tends_bind tends_tryActivate fun attempt => ?_
        cases attempt with
        | activated active => exact minds_installActive
        | failed error => exact ih
        | elapsed => exact ih
  exact minds_withWrite (.tends_bind within_readState fun _ => .tends_bind within_look fun _ =>
    .tends_bind within_readState fun _ => hfirst)

/-! ### Connections and status -/

theorem TrafficState.add_subscription (state : TrafficState) (subscription node : String) (up down : Nat) :
    (state.add subscription node up down).subscription = state.subscription := by
  rw [TrafficState.add]
  split <;> rfl

theorem tends_handleConn {proto : InboundProto} : (Sup.handleConn i cls proto).Within Tends := by
  refine within_handleConn (fun _ => within_modify fun _ => .of_eq rfl rfl rfl rfl rfl rfl rfl) tends_captureRoute
    (fun _ => tends_releaseConnection) fun route up down capturedAt => within_modify fun w => .of_eq rfl rfl ?_ rfl rfl rfl rfl
  dsimp only
  split
  · exact TrafficState.add_subscription _ _ _ _ _
  · rfl

/-! ### Tasks -/

theorem minds_prog {task : Task} (h : ∀ active, task.target active = none) : Minds env i task (task.prog env i) := by
  have hloop : ∀ {body : Sup Unit}, Minds env i task body → Minds env i task (body >>= fun _ => pure noReply) :=
    fun h => h.bind fun _ => .pure
  cases task with
  | idle => exact .pure
  | switch cls node =>
      rw [Task.prog, Sup.switchRequest]
      split
      · exact .pure
      · refine minds_switchTo.bind fun outcome => ?_
        cases outcome <;> exact .pure
  | switchSubscription name => cases h ""
  | reload => cases h ""
  | probeNow cls => exact minds_probeNow
  | siteProbe site => exact minds_siteProbeRequest
  | switchForSite cls site => exact minds_switchForSite
  | activateInitial cls =>
      rw [Task.prog]
      split
      · exact hloop minds_activateInitial
      · exact .pure
  | healthLoop cls ticks =>
      rw [Task.prog]
      split
      · exact hloop (minds_rounds minds_healthTick ticks)
      · exact .pure
  | probeLoop rounds => exact hloop (minds_rounds minds_probeRound rounds)
  | egressLoop rounds => exact hloop (minds_rounds minds_egressRound rounds)
  | job => exact hloop minds_runJob
  | status cls retries => exact .tends within_status
  | connection cls proto =>
      rw [Task.prog]
      split
      · exact hloop (.tends tends_handleConn)
      · exact .pure
  | signal => exact hloop (.tends (within_modify fun _ => .of_eq rfl rfl rfl rfl rfl rfl rfl))

end

end Causeway

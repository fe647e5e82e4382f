import Causeway.Proof.Scopes

/-!
# The tasks follow their scripts

What a task takes of the long-lived locks, and under which others, is a way through its script. So the rank order of the scripts is the order in which the daemon's threads take their locks, in every run.
-/

namespace Causeway.Locks

open Concurrent Prog Waiting

/-! ### Installing and switching -/

section

variable {env : Env} {i : Nat} {cls : String} {now : Name → Option Access}

theorem follows_saveState : Follows (held i) now now saveState (Sup.saveState env i) :=
  follows_acquireWrite rfl fun hfree => follows_lockfree_bind within_look fun _ =>
    follows_lockfree_bind lockfree_saveAtomic fun _ => follows_releaseLast rfl hfree

theorem follows_installActive {newActive : ActiveNode} {cause : Cause} {chosenAt : Nat} :
    Follows (held i) now now (installActive cls) (Sup.installActive env i cls newActive cause chosenAt) := by
  refine follows_lockfree_bind within_look fun subscription => follows_lockfree_bind (within_act fun _ _ => rfl) fun old => ?_
  refine follows_lockfree_bind (within_atomic fun o s b t heq => ?_) fun generation => ?_
  · split at heq <;> cases heq
    rfl
  refine follows_lockfree_bind lockfree_lockState fun _ => follows_lockfree_bind (within_modify fun _ => rfl) fun _ => ?_
  refine .pass idle_brief (.pass idle_brief (.pass idle_brief (.seq follows_saveState fun _ => ?_)))
  refine follows_lockfree (.bind lockfree_pushEvent fun _ => ?_) (idle_brief.seq (idle_maybe.seq .skip))
  cases old with
  | none => trivial
  | some old => exact within_modify fun _ => rfl

theorem follows_tryCandidates {cause : Cause} {chosenAt : Nat} {lastCause : Option String} {candidates : List Node} :
    Follows (held i) now now (tryCandidates cls) (Sup.tryCandidates env i cls cause chosenAt lastCause candidates) := by
  have hidle : (tryCandidates cls).Takes now [] := .seq .stop (idle_maybe.seq .skip)
  induction candidates generalizing cause lastCause with
  | nil => exact .pure hidle
  | cons candidate candidates ih =>
      refine follows_lockfree_bind within_look fun stopping => ?_
      split
      · exact .pure hidle
      refine follows_lockfree_bind lockfree_tryActivate fun attempt => ?_
      cases attempt with
      | elapsed => exact .pure hidle
      | activated active => exact .pass .stop (.finish .skip (.left (follows_then follows_installActive fun _ => trivial)))
      | failed error =>
          refine follows_lockfree_bind ?_ fun _ => follows_lockfree_bind lockfree_pushEvent fun _ => ih
          rw [Sup.recordFailedCandidate]
          exact within_if lockfree_lockState trivial

theorem follows_switchNodeLocked {causeAt : SwitchField → Cause} :
    Follows (held i) now now (switchNodeLocked cls) (Sup.switchNodeLocked env i cls causeAt) := by
  refine follows_lockfree_bind within_look fun current => follows_lockfree_bind within_look fun pool => ?_
  refine follows_lockfree_bind within_readState fun field => .pass idle_brief (.pass idle_brief ?_)
  refine .seq follows_tryCandidates fun outcome => .finish .skip ?_
  cases outcome with
  | ok installed => exact .pure idle_maybe
  | error error =>
      refine follows_lockfree_bind within_look fun stopping => ?_
      split
      · exact .pure idle_maybe
      split
      · exact .pure idle_maybe
      · refine .left (follows_then follows_tryCandidates fun outcome => ?_)
        cases outcome <;> trivial

theorem follows_recoverAfterHealthFailure {bookedAt : Nat} :
    Follows (held i) now now (recoverAfterHealthFailure cls) (Sup.recoverAfterHealthFailure env i cls bookedAt) := by
  refine follows_withWrite rfl (follows_lockfree_bind lockfree_recoveryAllowed fun allowed => ?_)
  split
  · exact .pure idle_maybe
  · exact .left (follows_then follows_switchNodeLocked fun switched => within_if trivial (within_act fun _ _ => rfl))

theorem follows_switchNode {challenge : Challenge} :
    Follows (held i) nothing nothing (switchNode cls) (Sup.switchNode env i cls challenge) :=
  follows_withRead rfl rfl (follows_withWrite rfl (follows_then follows_switchNodeLocked fun _ => trivial))

theorem follows_switchTo {requested : String} {requester : Requester} :
    Follows (held i) nothing nothing (switchTo cls) (Sup.switchTo env i cls requested requester) := by
  refine follows_withRead rfl rfl (follows_withWrite rfl (follows_lockfree_bind within_look fun pool => .pass idle_brief ?_))
  dsimp only
  split
  · exact .pure (idle_maybe.seq .skip)
  refine follows_lockfree_bind ?_ fun current => ?_
  · cases requester with
    | operator => exact within_look
    | site nodeBefore site stamp => exact lockfree_observe
  split
  · exact .pure (idle_maybe.seq .skip)
  refine .finish .skip (.left (.seq follows_tryCandidates fun outcome => .finish .skip ?_))
  cases outcome with
  | ok installed => exact .pure idle_maybe
  | error error =>
      refine follows_lockfree_bind within_readState fun candidates => .left (.pass idle_brief (.finish .skip ?_))
      refine follows_then follows_tryCandidates fun outcome => ?_
      cases outcome with
      | ok installed => trivial
      | error error => exact .bind within_look fun _ => trivial

end

/-! ### The subscription transaction -/

section

variable {env : Env} {i : Nat} {α : Type} {now last : Name → Option Access} {body : Code} {classes : List String}

theorem follows_lockRoutes {k : Unit → Sup α} (hk : ∀ grown, (∀ cls ∈ classes, now (.route cls) = none) →
      (∀ name, (∀ cls ∈ classes, name ≠ .route cls) → grown name = now name) → Follows (held i) grown last body (k ())) :
    Follows (held i) now last (lockRoutes body classes) (Sup.lockRoutes i classes >>= k) := by
  induction classes generalizing now with
  | nil => exact hk now (by simp) fun _ _ => rfl
  | cons cls classes ih =>
      rw [Sup.lockRoutes, bind_assoc]
      refine follows_acquireWrite rfl fun hfree => ih fun grown hnone hgrown => hk grown ?_ ?_
      · refine List.forall_mem_cons.mpr ⟨hfree, fun other hother => ?_⟩
        by_cases hcls : other = cls
        · exact hcls ▸ hfree
        · have hroute : Name.route other ≠ .route cls := fun h => hcls (Name.route.inj h)
          rw [← hnone other hother, Function.update_of_ne hroute]
      · intro name hname
        obtain ⟨hcls, hclasses⟩ := List.forall_mem_cons.mp hname
        rw [hgrown name hclasses, Function.update_of_ne hcls]

/-- Either branch begins with what was taken so far. -/
theorem follows_lockClasses {k : Bool → Sup α}
    (hk : ∀ grown, (∀ name, (∀ cls ∈ classes, name ≠ .cls cls) → grown name = now name) →
      Follows (held i) grown last body (k true) ∧ Follows (held i) grown last subscriptionFailure (k false)) :
    Follows (held i) now last (lockClasses body classes) (Sup.lockClasses i classes >>= k) := by
  induction classes generalizing now with
  | nil => exact (hk now fun _ _ => rfl).1
  | cons cls classes ih =>
      rw [Sup.lockClasses, bind_assoc]
      refine follows_acquireWriteBy rfl (hk now fun _ _ => rfl).2 fun _ => ih fun grown hgrown => hk grown fun name hname => ?_
      obtain ⟨hcls, hclasses⟩ := List.forall_mem_cons.mp hname
      rw [hgrown name hclasses, Function.update_of_ne hcls]

theorem follows_releaseAll {names : List LockName} (hnone : ∀ name ∈ names, last (ofLock name) = none)
    (hrest : ∀ name, (∀ lock ∈ names, name ≠ ofLock lock) → now name = last name) :
    Follows (held i) now last .skip (Sup.releaseAll i names) := by
  induction names generalizing now with
  | nil =>
      obtain rfl : now = last := funext fun name => hrest name (by simp)
      exact .pure .skip
  | cons lock names ih =>
      obtain ⟨hlock, hnone⟩ := List.forall_mem_cons.mp hnone
      refine follows_release rfl rfl (ih hnone fun name hname => ?_)
      by_cases heq : name = ofLock lock
      · rw [heq, Function.update_self, hlock]
      · rw [Function.update_of_ne heq]
        exact hrest name (List.forall_mem_cons.mpr ⟨heq, hname⟩)

theorem follows_publish {request : Request} {nodes : List Node} {planned : List Planned} {cloned next : StateFile} :
    Follows (held i) now now (publish env.classes) (Sup.publish env i request nodes planned cloned next) := by
  refine follows_lockRoutes fun grown hnone hgrown => follows_acquireWrite rfl fun hfree => ?_
  refine follows_lockfree_bind (within_modify fun _ => rfl) fun _ => ?_
  refine follows_lockfree_bind (within_publishClasses (fun _ => within_act fun _ _ => rfl) planned) fun old => ?_
  refine follows_lockfree_bind (within_modify fun _ => rfl) fun _ => ?_
  refine follows_lockfree_bind (within_modify fun _ => rfl) fun _ => ?_
  refine .pass idle_brief (.pass idle_brief (follows_release rfl (update_back hfree) (follows_then ?_ fun _ => trivial)))
  refine follows_releaseAll (fun name hname => ?_) fun name hname => hgrown name fun cls hcls => ?_
  · obtain ⟨cls, hcls, rfl⟩ := List.mem_map.mp hname
    exact hnone cls hcls
  · exact hname (.route cls) (List.mem_map_of_mem hcls)

theorem follows_transact {request : Request} :
    Follows (held i) now now (commit env.classes) (Sup.transact env i request) := by
  have hfail {message : String} : (Sup.subscriptionFailure request.target message).Within Lockfree := lockfree_subscriptionFailure
  refine follows_lockfree_bind lockfree_stageTransaction fun outcome => .pass idle_brief (.finish .skip ?_)
  rcases outcome with message | ⟨staged, prepared⟩
  · exact .left (follows_lockfree hfail idle_brief)
  refine .right (.pass (idle_steps (by simp [idle_brief])) (.pass idle_brief (.finish .skip ?_)))
  refine follows_lockfree_bind lockfree_saveAtomic fun saved => ?_
  cases saved with
  | none =>
      have hstop := within_stopStaged (fun _ => lockfree_stopPlane) staged
      exact .left (follows_lockfree (.bind hstop fun _ => hfail) idle_brief)
  | some outcome =>
      refine .right (.seq follows_publish fun old => .seq follows_saveState fun _ => ?_)
      refine follows_lockfree ?_ (.seq .stop (.seq .stop .skip))
      refine .bind (within_pushSwitched (fun _ => lockfree_pushEvent) _) fun _ => .bind lockfree_pushEvent fun _ => ?_
      exact .bind (within_drainAll (fun _ => within_modify fun _ => rfl) old) fun _ => trivial

theorem follows_switchSubscriptionLocked {target : String} {catalog : SubscriptionsConfig}
    {allowCachedFallback isReload : Bool} (hnone : ∀ cls, now (.cls cls) = none) :
    Follows (held i) now now (switchSubscriptionLocked env.classes)
      (Sup.switchSubscriptionLocked env i target catalog allowCachedFallback isReload) := by
  refine follows_lockfree_bind lockfree_openTransaction fun opened => ?_
  cases opened with
  | error reply => exact .pure idle_maybe
  | ok request =>
      refine .left (.pass idle_brief (.pass idle_brief (.finish .skip (.right (.pass idle_maybe (.finish .skip (.left ?_)))))))
      refine follows_acquireWriteBy rfl (follows_lockfree lockfree_subscriptionFailure idle_brief) fun hfree => ?_
      refine follows_releasing rfl hfree (follows_lockClasses fun grown hgrown => ?_)
      have hback {reply : Reply} : Follows (held i) grown (Function.update now .reconfiguration (some .write)) .skip (do
          Sup.releaseAll i (env.classes.map .cls)
          return reply) := by
        refine follows_then (follows_releaseAll (fun name hname => ?_) fun name hname => ?_) fun _ => trivial
        · obtain ⟨cls, -, rfl⟩ := List.mem_map.mp hname
          exact (Function.update_of_ne (by simp [ofLock]) _ _).trans (hnone cls)
        · exact hgrown name fun cls hcls => hname (.cls cls) (List.mem_map_of_mem hcls)
      have hend {code : Code} {p : Sup Reply} (h : Follows (held i) grown grown code p) :
          Follows (held i) grown (Function.update now .reconfiguration (some .write)) code (do
            let reply ← p
            Sup.releaseAll i (env.classes.map .cls)
            return reply) := h.ending fun _ => hback
      exact ⟨hend follows_transact, hend (follows_lockfree lockfree_subscriptionFailure idle_brief)⟩

theorem follows_switchSubscription {target : String} :
    Follows (held i) nothing nothing (switchSubscription env.classes) (Sup.switchSubscription env i target) := by
  refine follows_lockfree_bind (within_modify fun _ => rfl) fun _ => follows_then (follows_withWrite rfl ?_) fun _ =>
    .bind (within_modify fun _ => rfl) fun _ => trivial
  refine follows_lockfree_bind within_look fun catalog => .pass idle_brief (.finish .skip ?_)
  exact follows_switchSubscriptionLocked fun cls => by simp [nothing]

theorem follows_reload : Follows (held i) nothing nothing (reload env.classes) (Sup.reload env i) := by
  have hreport {reply : Reply} {f : Outside → Event} : (do
      Sup.pushEvent f
      return reply : Sup Reply).Within Lockfree := .bind lockfree_pushEvent fun _ => trivial
  have hfail {now : Name → Option Access} {p : Sup Reply} {code : Code} (hp : p.Within Lockfree) :
      Follows (held i) now now (.either pushEvent code) p := .left (follows_lockfree hp idle_brief)
  refine follows_lockfree_bind (within_modify fun _ => rfl) fun _ => follows_then (follows_withWrite rfl ?_) fun _ =>
    .bind (within_modify fun _ => rfl) fun _ => trivial
  refine follows_lockfree_bind within_ask fun candidate => ?_
  cases candidate with
  | none => exact hfail hreport
  | some cfg =>
      dsimp only
      split
      · exact hfail hreport
      refine .right (.pass idle_brief (.finish .skip (follows_lockfree_bind within_look fun active => ?_)))
      split
      · exact hfail hreport
      refine .right (.seq (follows_switchSubscriptionLocked fun cls => by simp [nothing]) fun outcome => .finish .skip ?_)
      exact follows_lockfree (within_if hreport hreport) idle_brief

end

/-! ### Probes and site requests -/

section

variable {env : Env} {i : Nat} {cls site : String} {now : Name → Option Access}

theorem follows_probeTask {request : Nat} {node : Node} {era : UInt64} {takenAt readAt : Nat} :
    Follows (held i) nothing nothing (maybe probeNowNode) (Sup.probeTask env i request node era cls takenAt readAt) := by
  refine follows_lockfree_bind (within_atomic fun o s b t heq => ?_) fun panicked => ?_
  · split at heq <;> cases heq
    rfl
  split
  · exact .pure idle_maybe
  refine .left (follows_then (follows_withRead rfl rfl (follows_lockfree_bind within_look fun era => ?_)) fun _ => trivial)
  refine follows_lockfree (within_if trivial lockfree_testNode) (idle_brief.seq (idle_maybe.seq .skip))

theorem follows_probeSiteNode {node : Node} {url : String} {takenAt : Nat} :
    Follows (held i) nothing nothing probeSiteNode (Sup.probeSiteNode i node site url takenAt) := by
  refine follows_withRead rfl rfl (follows_lockfree ?_ idle_brief)
  refine .bind within_look fun gateAt => .bind within_ask fun now => .bind lockfree_measureSite fun verdict => ?_
  refine .bind (within_atomic fun o s b t heq => ?_) fun stamp => trivial
  split at heq <;> cases heq
  rfl

theorem follows_probeNow : Follows (held i) nothing nothing (maybe probeNow) (Sup.probeNow env i cls) := by
  rw [Sup.probeNow]
  split
  · exact .pure idle_maybe
  have hround : (Sup.probeNowInner cls).Within Lockfree :=
    .bind within_look fun _ => .bind within_look fun _ => .bind (within_act fun _ _ => rfl) fun _ =>
      .bind (within_modify fun _ => rfl) fun _ => .bind lockfree_joinAll fun _ => trivial
  refine .left (follows_lockfree_bind hround fun results => .pass idle_brief (.pass idle_brief (.pass .gather ?_)))
  exact .seq follows_saveState fun _ => follows_lockfree (.bind lockfree_pushEvent fun _ => trivial) (idle_brief.seq .skip)

theorem follows_siteProbeRequest {chosen : Option String} :
    Follows (held i) now now siteProbeRequest (Sup.siteProbeRequest env i chosen) := by
  rw [Sup.siteProbeRequest]
  split
  · exact .pure idle_maybe
  · exact .pure idle_maybe
  refine .left (.pass idle_brief (.pass .gather (follows_lockfree_bind within_look fun pool => ?_)))
  refine follows_lockfree_bind (within_act fun _ _ => rfl) fun request => ?_
  refine follows_lockfree_bind (within_modify fun _ => rfl) fun _ => ?_
  refine follows_lockfree_bind lockfree_joinAll fun _ => .seq follows_saveState fun _ => follows_lockfree ?_ ?_
  · exact .bind within_readState fun _ => .bind lockfree_pushEvent fun _ => .bind within_readState fun _ => trivial
  · exact .seq .stop (idle_brief.seq (idle_brief.seq .skip))

theorem follows_tryForSite {url : String} {nodeBefore : Option String} {tried takenAt : Nat} {candidates : List Node} :
    Follows (held i) nothing nothing (steps [.loop (steps [probeSiteNode, maybe (switchTo cls)]), saveState])
      (Sup.tryForSite env i cls site url nodeBefore tried takenAt candidates) := by
  induction candidates with
  | nil => exact .pass .stop (.finish .skip (follows_then follows_saveState fun _ => trivial))
  | cons candidate candidates ih =>
      -- A candidate is one round of the loop, with a switch in it if the candidate serves the site.
      refine .weaken (.seq follows_probeSiteNode fun verdict => ?_) fun word => Code.Takes.roll
      dsimp only
      split
      · exact .pass idle_maybe ih
      refine follows_lockfree_bind lockfree_observe fun _ => .seq (.left follows_switchTo) fun outcome => ?_
      cases outcome with
      | ok installed => exact .pass .stop (.finish .skip (follows_then follows_saveState fun _ => trivial))
      | error error => exact ih

theorem follows_switchForSite : Follows (held i) nothing nothing (switchForSite cls) (Sup.switchForSite env i cls site) := by
  have hsearch {url : String} {nodeBefore : Option String} : Follows (held i) nothing nothing
      (maybe (steps [pool, lockState, .loop (steps [probeSiteNode, maybe (switchTo cls)]), saveState]))
      (Sup.searchForSite env i cls site url nodeBefore) :=
    .left (follows_lockfree_bind within_look fun pool => follows_lockfree_bind within_readState fun candidates =>
      .pass idle_brief (.pass idle_brief follows_tryForSite))
  have hincumbent {url current : String} : Follows (held i) nothing nothing
      (steps [lockState, maybe (steps [pool, maybe probeSiteNode])]) (Sup.incumbentVerdict env i site url current) := by
    refine follows_lockfree_bind (within_atomic fun o s b t heq => ?_) fun fresh => .pass idle_brief (.finish .skip ?_)
    · split at heq <;> cases heq
      rfl
    split
    · exact follows_lockfree (.bind lockfree_observe fun _ => trivial) idle_maybe
    refine .left (follows_lockfree_bind within_look fun pool => .pass idle_brief (.finish .skip ?_))
    dsimp only
    split
    · exact .left (follows_then follows_probeSiteNode fun _ => .bind lockfree_observe fun _ => trivial)
    · exact follows_lockfree (.bind within_ask fun _ => trivial) idle_maybe
  rw [Sup.switchForSite]
  split
  · exact .pure idle_maybe
  split
  · exact .pure idle_maybe
  refine .left (.seq (follows_withWrite rfl (follows_lockfree within_look .skip)) fun nodeBefore => ?_)
  cases nodeBefore with
  | none => exact .pass idle_maybe (.finish .skip hsearch)
  | some current =>
      refine .seq (.left hincumbent) fun verdict => .finish .skip ?_
      split
      · exact .pure idle_maybe
      · exact hsearch

end

/-! ### The loops -/

section

variable {env : Env} {i : Nat} {cls : String} {now : Name → Option Access} {code : Code}

theorem follows_rounds {body : Sup Bool} (h : Follows (held i) now now (maybe code) body) (count : Nat) :
    Follows (held i) now now (.loop code) (Sup.rounds body count) := by
  induction count with
  | zero => exact .pure .stop
  | succ count ih =>
      refine .again h fun again => ?_
      split
      · exact ih
      · exact .pure .stop

theorem follows_forEach {α : Type} {body : α → Sup Unit} {codes : α → Code}
    (h : ∀ item, Follows (held i) now now (codes item) (body item)) (items : List α) :
    Follows (held i) now now (steps (items.map codes)) (Sup.forEach body items) := by
  induction items with
  | nil => exact .pure .skip
  | cons item items ih => exact .seq (h item) fun _ => ih

theorem follows_healthTick : Follows (held i) nothing nothing (healthTick cls) (Sup.healthTick env i cls) := by
  refine follows_withRead rfl rfl (follows_lockfree_bind lockfree_takeSamples fun sampled => ?_)
  split
  · exact .pure idle_maybe
  refine follows_lockfree_bind within_look fun stopping => ?_
  split
  · exact .pure idle_maybe
  refine .left (.seq (follows_withWrite rfl (follows_lockfree lockfree_recordHealthOutcome idle_maybe)) fun booked =>
    .finish .skip ?_)
  dsimp only
  split
  · refine follows_lockfree_bind within_look fun stopping => ?_
    split
    · exact .left (follows_then follows_recoverAfterHealthFailure fun _ => trivial)
    · exact .pure idle_maybe
  · exact .pure idle_maybe

theorem follows_probeCycle {source : String} :
    Follows (held i) nothing nothing probeCycle (Sup.probeCycle env i source) := by
  refine follows_withRead rfl rfl (follows_lockfree_bind within_look fun pool => follows_lockfree_bind within_ask fun rtts => ?_)
  refine follows_lockfree_bind lockfree_lockState fun _ => .pass idle_brief (.pass .gather (.pass idle_brief ?_))
  exact .seq follows_saveState fun _ => follows_lockfree lockfree_pushEvent (idle_brief.seq .skip)

theorem follows_hysteresisStep : Follows (held i) nothing nothing (challenge cls) (Sup.hysteresisStep env i cls) := by
  refine .seq (follows_withWrite rfl (follows_lockfree (.bind within_look fun active => ?_) idle_maybe)) fun found =>
    .finish .skip ?_
  · cases active with
    | none => trivial
    | some current => exact .bind within_look fun _ => within_readState
  rcases found with _ | ⟨current, challenger⟩
  · exact .pure idle_maybe
  dsimp only
  split
  · refine .left (follows_lockfree_bind within_readState fun verdict => .pass idle_brief (.finish .skip ?_))
    obtain ⟨won, challenge⟩ := verdict
    cases won with
    | true => exact .left follows_switchNode
    | false => exact .pure idle_maybe
  · exact .pure idle_maybe

theorem follows_probeRound :
    Follows (held i) nothing nothing (maybe (steps [probeCycle, steps (env.classes.map challenge)])) (Sup.probeRound env i) := by
  refine follows_lockfree_bind within_look fun stopping => ?_
  split
  · exact .pure idle_maybe
  refine .left (.seq follows_probeCycle fun _ => .finish .skip ?_)
  exact follows_then (follows_forEach (fun _ => follows_hysteresisStep) _) fun _ => trivial

theorem follows_rebuildCurrentAfterEgressChange :
    Follows (held i) now now (rebuildCurrentAfterEgressChange cls) (Sup.rebuildCurrentAfterEgressChange env i cls) := by
  have hlocked {now : Name → Option Access} :
      Follows (held i) now now (maybe (installActive cls)) (Sup.rebuildLocked env i cls) := by
    refine follows_lockfree_bind within_look fun unwanted => ?_
    split
    · exact .pure idle_maybe
    refine follows_lockfree_bind within_look fun active => ?_
    split
    · exact .pure idle_maybe
    refine follows_lockfree_bind lockfree_tryActivate fun attempt => ?_
    cases attempt with
    | elapsed => exact .pure idle_maybe
    | failed error => exact .pure idle_maybe
    | activated replacement =>
        refine follows_lockfree_bind within_ask fun current => follows_lockfree_bind within_look fun unwanted => ?_
        split
        · exact follows_lockfree (.bind lockfree_stopPlane fun _ => trivial) idle_maybe
        · exact .left follows_installActive
  refine follows_lockfree_bind within_look fun unwanted => ?_
  split
  · exact .pure idle_maybe
  refine .left (follows_tryAcquireWrite rfl (.pure .skip) fun hfree => follows_releasing rfl hfree ?_)
  refine follows_lockfree_bind within_look fun unwanted => ?_
  split
  · exact .pure idle_maybe
  refine .left (follows_tryAcquireWrite rfl (.pure .skip) fun hfree => follows_releasing rfl hfree ?_)
  exact follows_tryAcquireWrite rfl (.pure .skip) fun hfree => follows_releasing rfl hfree hlocked

theorem follows_egressRound :
    Follows (held i) now now (maybe (steps (env.classes.map rebuildCurrentAfterEgressChange))) (Sup.egressRound env i) := by
  refine follows_lockfree_bind within_look fun stopping => ?_
  split
  · exact .pure idle_maybe
  · exact .left (follows_then (follows_forEach (fun _ => follows_rebuildCurrentAfterEgressChange) _) fun _ => trivial)

theorem follows_activateInitial : Follows (held i) now now (activateInitial cls) (Sup.activateInitial env i cls) := by
  have hfirst {now : Name → Option Access} {chosenAt : Nat} {candidates : List Node} :
      Follows (held i) now now (maybe (installActive cls)) (Sup.activateFirst env i cls chosenAt candidates) := by
    induction candidates with
    | nil => exact .pure idle_maybe
    | cons candidate candidates ih =>
        refine follows_lockfree_bind lockfree_tryActivate fun attempt => ?_
        cases attempt with
        | activated active => exact .left follows_installActive
        | failed error => exact ih
        | elapsed => exact ih
  refine follows_withWrite rfl (follows_lockfree_bind within_readState fun preferred => ?_)
  refine follows_lockfree_bind within_look fun pool => follows_lockfree_bind within_readState fun candidates => ?_
  exact .pass idle_brief (.pass idle_brief (.pass idle_brief (.finish .skip hfirst)))

end

/-! ### The tasks -/

/-- The script of a task. A job is one of those a gathering waits for, or a drain. -/
def script (classes : List String) : Task → Code
  | .idle | .signal => .skip
  | .switch cls _ => maybe (Operation.code classes (.switch cls))
  | .switchSubscription _ => Operation.code classes .switchSubscription
  | .reload => Operation.code classes .reload
  | .probeNow _ => maybe (Operation.code classes .probeNow)
  | .siteProbe _ => Operation.code classes .siteProbe
  | .switchForSite cls _ => Operation.code classes (.switchForSite cls)
  | .activateInitial cls => maybe (Operation.code classes (.activateInitial cls))
  | .healthLoop cls _ => maybe (Operation.code classes (.healthLoop cls))
  | .probeLoop _ => Operation.code classes .probeLoop
  | .egressLoop _ => Operation.code classes .egressObserverLoop
  | .job => .either (maybe probeNowNode) (maybe probeSiteNode)
  | .status _ _ => Operation.code classes .status
  | .connection cls _ => maybe (Operation.code classes (.connection cls))

theorem script_ordered {classes : List String} (task : Task) (hsorted : classes.Pairwise (· < ·)) :
    Ordered ⊥ (script classes task) := by
  have hmaybe (operation : Operation) : Ordered ⊥ (maybe (operation.code classes)) :=
    maybe_ordered.mpr (operation_ordered operation hsorted)
  cases task with
  | idle | signal => trivial
  | switch cls node => exact hmaybe (.switch cls)
  | switchSubscription name => exact operation_ordered .switchSubscription hsorted
  | reload => exact operation_ordered .reload hsorted
  | probeNow cls => exact hmaybe .probeNow
  | siteProbe site => exact operation_ordered .siteProbe hsorted
  | switchForSite cls site => exact operation_ordered (.switchForSite cls) hsorted
  | activateInitial cls => exact hmaybe (.activateInitial cls)
  | healthLoop cls ticks => exact hmaybe (.healthLoop cls)
  | probeLoop rounds => exact operation_ordered .probeLoop hsorted
  | egressLoop rounds => exact operation_ordered .egressObserverLoop hsorted
  | job => exact ⟨maybe_ordered.mpr probeNowNode_ordered, maybe_ordered.mpr probeSiteNode_ordered⟩
  | status cls retries => exact operation_ordered .status hsorted
  | connection cls proto => exact hmaybe (.connection cls)

section

variable {env : Env} {w : World} {tasks : Nat → Task} {moves : List (Move World)} {stop : Pool World Outside Reply}

/-- Whatever a task does, it follows its script, and it ends with nothing in its hands. -/
theorem follows_task (i : Nat) (task : Task) :
    Follows (held i) nothing nothing (script env.classes task) (task.prog env i) := by
  have hclass {cls : String} {code : Code} {p : Sup Unit} (h : Follows (held i) nothing nothing code p) :
      Follows (held i) nothing nothing (maybe code) (do
        if cls ∈ env.classes then p
        return noReply : Sup Reply) := by
    split
    · exact .left (follows_then h fun _ => trivial)
    · exact .pure idle_maybe
  cases task with
  | idle => exact .pure .skip
  | switch cls node =>
      rw [Task.prog, Sup.switchRequest]
      split
      · exact .pure idle_maybe
      · refine .left (follows_then follows_switchTo fun outcome => ?_)
        cases outcome <;> trivial
  | switchSubscription name => exact follows_switchSubscription
  | reload => exact follows_reload
  | probeNow cls => exact follows_probeNow
  | siteProbe site => exact follows_siteProbeRequest
  | switchForSite cls site => exact follows_switchForSite
  | activateInitial cls => exact hclass follows_activateInitial
  | healthLoop cls ticks =>
      exact hclass (.pass idle_brief (.finish .skip (follows_rounds (.left follows_healthTick) ticks)))
  | probeLoop rounds => exact follows_then (follows_rounds follows_probeRound rounds) fun _ => trivial
  | egressLoop rounds => exact follows_then (follows_rounds follows_egressRound rounds) fun _ => trivial
  | job =>
      refine follows_then (follows_lockfree_bind (within_atomic fun o s b t heq => ?_) fun job => ?_) fun _ => trivial
      · obtain ⟨job, _, heq⟩ := Option.map_eq_some_iff.mp heq
        cases heq
        rfl
      cases job with
      | probe request index node era cls takenAt readAt =>
          exact .left (follows_then follows_probeTask fun _ => within_modify fun _ => rfl)
      | site request node site url takenAt =>
          refine .right (.left (follows_lockfree_bind (within_atomic fun o s b t heq => ?_) fun _ => ?_))
          · split at heq <;> cases heq
            rfl
          · exact follows_then follows_probeSiteNode fun _ => within_modify fun _ => rfl
      | drain active => exact follows_lockfree lockfree_drainPath (.left idle_maybe)
  | status cls retries => exact follows_lockfree within_status (idle_steps (by simp [idle_maybe, Code.Takes.stop]))
  | connection cls proto => exact hclass (follows_lockfree lockfree_handleConn (idle_brief.seq (idle_maybe.seq .skip)))
  | signal => exact follows_lockfree (.bind (within_modify fun _ => rfl) fun _ => trivial) .skip

theorem held_of_hold {i : Nat} {s t : World} (h : ∀ name, t.core.hold i name = s.core.hold i name) : held i t = held i s :=
  funext fun name => congrArg name.lock.bind (funext fun lock => congrArg access (h lock))

theorem held_started (h : Started env w) (i : Nat) : held i w = nothing := by
  refine funext fun name => ?_
  have hnone : held i w name = name.lock.bind fun _ => none :=
    congrArg name.lock.bind (funext fun lock => congrArg access ((h.fresh i).none lock))
  exact hnone.trans (Option.bind_fun_none name.lock)

/-- Between the steps of a thread, what it holds stays as it is. -/
theorem chained_of_run (h : Started env w) (run : (daemon env tasks w).Run moves stop) (i : Nat) :
    Chained (held i) nothing (Pool.own i moves) ∧ heldAfter (held i) nothing (Pool.own i moves) = held i stop.shared := by
  have hothers : ∀ m ∈ moves, m.thread ≠ i → held i m.after = held i m.before := fun m hm hne =>
    held_of_hold (((reachable_moves h run m hm).2.2.others i (Ne.symm hne)).hold)
  have hstart : held i (daemon env tasks w).shared = nothing := held_started h i
  rw [← hstart]
  exact chained_own i run hothers

/-- In every run, what a thread has taken so far is the beginning of a way through its task's script. -/
theorem run_follows (h : Started env w) (run : (daemon env tasks w).Run moves stop) (i : Nat) :
    ∃ word rest, Taking (held i) nothing (Pool.own i moves) word ∧
      (script env.classes (tasks i)).Takes nothing (word ++ rest) ∧ Chained (held i) nothing (Pool.own i moves) := by
  have hchain := chained_of_run h run i
  obtain ⟨word, rest, htaking, hword⟩ := (follows_task i (tasks i)).begun _ _ (run.path i) hchain.1
  exact ⟨word, rest, htaking, hword, hchain.1⟩

/-- In every run, a lock that a thread takes ranks above all that it holds. -/
theorem locks_climb (h : Started env w) (run : (daemon env tasks w).Run moves stop) {m : Move World} (hm : m ∈ moves)
    {name other : Name} (hfree : held m.thread m.before name = none) (htaken : held m.thread m.after name ≠ none)
    (hother : held m.thread m.before other ≠ none) : other.rank < name.rank := by
  obtain ⟨word, rest, htaking, hword, hchain⟩ := run_follows h run m.thread
  obtain ⟨take, hmem, hheld, rfl⟩ := htaking.take_of_new hchain (Pool.mem_own hm) hfree htaken
  have hclimbs := hword.climbs (script_ordered (tasks m.thread) (classes_sorted env)) (by simp [nothing])
  exact hclimbs take (List.mem_append_left _ hmem) other (hheld ▸ hother)

/-- A thread that has ended holds nothing. -/
theorem held_ended (h : Started env w) (run : (daemon env tasks w).Run moves stop) {i : Nat} {reply : Reply}
    (hdone : stop.thread i = .done reply) : held i stop.shared = nothing := by
  have hchain := chained_of_run h run i
  obtain ⟨word, _, hafter, _⟩ := (follows_task i (tasks i)).ended _ reply (hdone ▸ run.path i) hchain.1
  exact hchain.2.symm.trans hafter

end

end Causeway.Locks

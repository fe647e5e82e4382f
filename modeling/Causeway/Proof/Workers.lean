import Causeway.Proof.Turnover

/-!
# The daemon's tasks keep the accounts

Probes stop what they start, connections count themselves on paths that are routed, and a drain stops its plane when that is due. Whatever a task does, it owns nothing before and after.
-/

namespace Causeway

open Concurrent Prog

section

variable {pre : Fleet → Prop} {env : Env} {i : Nat} {cls : String}

/-! ### Probes and sites -/

theorem still_openRound {permits : Nat} : (Sup.openRound permits).Within Still := within_act fun _ _ => rfl

theorem still_spawn {jobs : List Job} (h : ∀ job ∈ jobs, job.drained = none) : (Sup.spawn jobs).Within Still :=
  within_modify fun w => by
    show World.fleet _ = w.fleet
    rw [World.fleet, List.filterMap_append, List.filterMap_eq_nil_iff.mpr h, List.append_nil]
    rfl

theorem still_finishJob {request index : Nat} {result : Option ProbeResult} :
    (Sup.finishJob request index result).Within Still :=
  within_modify fun _ => rfl

theorem still_joinAll {request count : Nat} {slots : List (Option ProbeResult)} :
    (Sup.joinAll request count slots).Within Still := by
  refine within_joinAll (within_atomic fun o s b t heq => ?_)
  split at heq
  · split at heq <;> cases heq
    rfl
  · cases heq

theorem returns_probeJob {request index : Nat} {node : Node} {era : UInt64} {takenAt readAt : Nat} :
    Returns pre i (Sup.probeJob env i request index node era cls takenAt readAt) := by
  refine .bind (.minor_bind minor_enterProbe fun panicked => ?_) fun result => .of_still still_finishJob
  split
  · exact .pure _
  refine .bind (returns_withRead (by simp) (.still_bind within_look fun generation => ?_)) fun result => .pure _
  split
  · exact .pure _
  · exact returns_testNode

theorem still_probeNow : (Sup.probeNow env i cls).Within Still := by
  rw [Sup.probeNow]
  split
  · trivial
  have hround : (Sup.probeNowInner cls).Within Still := by
    refine .bind within_look fun pool => .bind within_look fun era => .bind still_openRound fun request => ?_
    refine .bind (still_spawn ?_) fun _ => .bind still_joinAll fun _ => trivial
    intro job hjob
    obtain ⟨⟨node, index⟩, _, rfl⟩ := List.mem_map.mp hjob
    rfl
  exact .bind hround fun results => .bind still_saveState fun _ => .bind still_pushEvent fun _ => trivial

theorem returns_probeSiteNode {node : Node} {site url : String} {takenAt : Nat} :
    Returns pre i (Sup.probeSiteNode i node site url takenAt) := by
  refine returns_withRead (by simp) (.still_bind within_look fun gateAt => .still_bind within_ask fun now => ?_)
  refine returns_measureSite.bind fun verdict => .still_bind (within_atomic fun o s b t heq => ?_) fun stamp => .pure _
  split at heq <;> cases heq
  rfl

theorem returns_siteJob {request : Nat} {node : Node} {site url : String} {takenAt : Nat} :
    Returns pre i (Sup.siteJob i request node site url takenAt) :=
  .minor_bind minor_acquirePermit fun _ => returns_probeSiteNode.bind fun _ => .of_still still_finishJob

theorem still_siteProbeRequest {chosen : Option String} : (Sup.siteProbeRequest env i chosen).Within Still := by
  rw [Sup.siteProbeRequest]
  split
  · trivial
  · trivial
  refine .bind within_look fun pool => .bind still_openRound fun request => .bind (still_spawn ?_) fun _ => ?_
  · intro job hjob
    obtain ⟨_, _, hjob⟩ := List.mem_flatMap.mp hjob
    obtain ⟨_, _, rfl⟩ := List.mem_map.mp hjob
    rfl
  refine .bind still_joinAll fun _ => .bind still_saveState fun _ => .bind within_readState fun _ => ?_
  exact .bind still_pushEvent fun _ => .bind within_readState fun _ => trivial

theorem returns_tryForSite {site url : String} {nodeBefore : Option String} {tried takenAt : Nat}
    {candidates : List Node} :
    Returns pre i (Sup.tryForSite env i cls site url nodeBefore tried takenAt candidates) := by
  induction candidates with
  | nil => exact .still_bind still_saveState fun _ => .pure _
  | cons candidate candidates ih =>
      refine returns_probeSiteNode.bind fun verdict => ?_
      dsimp only
      split
      · exact ih
      refine .still_bind still_observe fun _ => returns_switchTo.bind fun outcome => ?_
      cases outcome with
      | ok installed => exact .still_bind still_saveState fun _ => .pure _
      | error error => exact ih

theorem returns_switchForSite {site : String} : Returns pre i (Sup.switchForSite env i cls site) := by
  have hsearch : ∀ {url : String} {nodeBefore : Option String},
      Returns pre i (Sup.searchForSite env i cls site url nodeBefore) :=
    .still_bind within_look fun _ => .still_bind within_readState fun _ => returns_tryForSite
  rw [Sup.switchForSite]
  split
  · exact .pure _
  split
  · exact .pure _
  refine .bind (returns_withClass (.of_still within_look)) fun nodeBefore => ?_
  cases nodeBefore with
  | none => exact hsearch
  | some current =>
      refine .bind (.minor_bind minor_freshVerdict fun fresh => ?_) fun verdict => ?_
      · split
        · exact .still_bind still_observe fun _ => .pure _
        refine .still_bind within_look fun pool => ?_
        dsimp only
        split
        · exact returns_probeSiteNode.bind fun _ => .still_bind still_observe fun _ => .pure _
        · exact .still_bind within_ask fun _ => .pure _
      · split
        · exact .pure _
        · exact hsearch

/-! ### Connections -/

variable {α : Type} {mine : List Nat} {base : Fleet} {w : World} {post : α → Fleet → Prop} {proto : InboundProto}

/-- The thread has a connection open on the path, if there is one. -/
def Leased (i : Nat) (path : Option Nat) (c : Fleet) : Prop := ∀ id, path = some id → (i, id) ∈ c.leases

theorem Keeps.capture {k : ClassRoute × Nat × Nat → Sup α} (halive : Alive i base) (hkept : Kept i mine base w.fleet)
    (hk : ∀ (captured : ClassRoute × Nat × Nat) (u : World), u.fleet.Sound → Kept i mine base u.fleet →
      Leased i (captured.1.leased proto) u.fleet → Keeps i post (k captured) u) :
    Keeps i post (Sup.captureRoute i cls proto >>= k) w := by
  refine .step fun o t u a hact ht hst => ?_
  have hnow := hkept.spared hst
  split at hact
  · cases hact
  · cases hact
    cases hleased : (t.route cls).leased proto with
    | none =>
        refine ⟨ht, .refl, fun hu => hk _ _ hu hnow fun id h => ?_⟩
        simp [hleased] at h
    | some id =>
        have hpath : t.fleet.path cls = some id := by
          obtain ⟨upstream, _, hpath⟩ := Option.bind_eq_some_iff.mp hleased
          exact hpath
        obtain ⟨hu, hconducts, hspares⟩ := lease_step ht hpath (hnow.entered.mpr halive) rfl
        refine ⟨hu, hconducts, fun hu => hk _ _ hu (hnow.spared hspares) fun other h => ?_⟩
        obtain rfl : id = other := Option.some.inj (hleased.symm.trans h)
        exact List.mem_cons_self

theorem Keeps.uncapture {route : ClassRoute} {k : Unit → Sup α} (hkept : Kept i mine base w.fleet)
    (hleased : Leased i (route.leased proto) w.fleet)
    (hk : ∀ u : World, u.fleet.Sound → Kept i mine base u.fleet → Keeps i post (k ()) u) :
    Keeps i post (Sup.releaseConnection i route proto >>= k) w := by
  refine .step fun o t u a hact ht hst => ?_
  have hnow := hkept.spared hst
  cases hpath : route.leased proto with
  | none =>
      have hfleet : u.fleet = t.fleet := by
        cases hact
        simp only [World.fleet, hpath, countConnection, Option.map_none, Option.toList_none, List.diff_nil]
      rw [hfleet]
      exact ⟨ht, .refl, fun hu => hk u (hfleet ▸ ht) (hfleet ▸ hnow)⟩
  | some id =>
      have hfleet : u.fleet = { t.fleet with
          connections := Function.update t.fleet.connections id (t.fleet.connections id - 1)
          leases := t.fleet.leases.erase (i, id) } := by
        cases hact
        simp only [World.fleet, hpath, countConnection, Option.map_some, Option.toList_some, List.diff_cons,
          List.diff_nil]
      obtain ⟨hu, hconducts⟩ := unlease_step ht (hst.leases id (hleased id hpath)) hfleet
      refine ⟨hu, hconducts, fun hu => hk u hu ?_⟩
      rw [hfleet]
      exact ⟨⟨⟨hnow.drains, hnow.hold, hnow.entered, hnow.ended⟩, hnow.owed, hnow.once⟩, hnow.unrouted⟩

theorem returns_takeSamples {url : String} {samples : List Passage} {sampledAt : Option Nat} {count : Nat} :
    Returns (Alive i) i (Sup.takeSamples i cls url samples sampledAt count) := by
  induction count generalizing samples sampledAt with
  | zero => exact .pure _
  | succ count ih =>
      refine .still_bind within_look fun stopping => ?_
      split
      · exact .pure _
      refine .still_bind within_ask fun reached => ?_
      split
      · intro mine base w halive hw hkept
        refine .capture halive hkept fun captured u hu hkept hleased => .still within_ask fun checked => ?_
        refine .uncapture hkept hleased fun v hv hkept => ?_
        rcases checked with error | ⟨code, rtt⟩
        · exact .pure fun c hst => hkept.spared hst
        · dsimp only
          split
          · exact ih mine base v halive hv hkept
          · exact .pure fun c hst => hkept.spared hst
      · exact .still_bind within_look fun _ => .pure _

theorem returns_handleConn : Returns (Alive i) i (Sup.handleConn i cls proto) := by
  have hcount : ∀ {f : Nat → Nat}, (Sup.countConns f).Within Still := still_of_minor minor_countConns
  refine .still_bind hcount fun _ => .still_bind within_ask fun known => ?_
  split
  · intro mine base w halive hw hkept
    refine .capture halive hkept fun ⟨route, _, capturedAt⟩ u hu hkept hleased => ?_
    have hend : ∀ v : World, v.fleet.Sound → Kept i mine base v.fleet →
        Keeps i (fun _ c => Kept i mine base c) (Sup.countConns (· - 1)) v := fun v hv hkept =>
      @Returns.of_still i _ Anytime _ hcount mine base v trivial hv hkept
    dsimp only
    split
    · refine .still within_ask fun connected => ?_
      split
      · refine .still within_ask fun relayed => .still (still_of_minor minor_addTraffic) fun _ => ?_
        exact .uncapture hkept hleased hend
      · exact .uncapture hkept hleased hend
    · exact hend u hu hkept
  · exact .of_still hcount

/-! ### Loops -/

theorem still_recordHealthOutcome {ok : Bool} {sampled : Sup.Sampled} :
    (Sup.recordHealthOutcome env cls ok sampled).Within Still := by
  refine .bind within_look fun active => ?_
  cases active with
  | none => exact .bind within_look fun _ => trivial
  | some node =>
      refine .bind still_lockState fun _ => .bind (still_of_minor minor_bookVerdict) fun booked => ?_
      dsimp only
      split
      · exact .bind still_pushEvent fun _ => trivial
      · trivial

theorem returns_healthTick : Returns (Alive i) i (Sup.healthTick env i cls) := by
  refine returns_withRead (by simp) (returns_takeSamples.bind fun sampled => ?_)
  split
  · exact .pure _
  refine .still_bind within_look fun stopping => ?_
  split
  · exact .pure _
  refine .bind (returns_withClass (.of_still still_recordHealthOutcome)) fun booked => ?_
  dsimp only
  split
  · refine .still_bind within_look fun stopping => ?_
    split
    · exact returns_recoverAfterHealthFailure.bind fun _ => .pure _
    · exact .pure _
  · exact .pure _

theorem returns_rounds {body : Sup Bool} (h : Returns pre i body) (count : Nat) :
    Returns pre i (Sup.rounds body count) := by
  induction count with
  | zero => exact .pure _
  | succ count ih =>
      refine h.bind fun again => ?_
      split
      · exact ih
      · exact .pure _

theorem returns_forEach {β : Type} {body : β → Sup Unit} (h : ∀ item, Returns pre i (body item)) (items : List β) :
    Returns pre i (Sup.forEach body items) := by
  induction items with
  | nil => exact .pure _
  | cons item items ih => exact (h item).bind fun _ => ih

theorem returns_probeCycle {source : String} : Returns pre i (Sup.probeCycle env i source) :=
  returns_withRead (by simp) (.still_bind within_look fun pool => .still_bind within_ask fun rtts =>
    .still_bind still_lockState fun _ => .still_bind still_saveState fun _ => .of_still still_pushEvent)

theorem returns_hysteresisStep : Returns pre i (Sup.hysteresisStep env i cls) := by
  have hfind : Returns pre i (Sup.findChallenger env i cls) := by
    refine returns_withClass (.still_bind within_look fun active => ?_)
    cases active with
    | none => exact .pure _
    | some current => exact .still_bind within_look fun pool => .of_still within_readState
  refine hfind.bind fun found => ?_
  rcases found with _ | ⟨current, challenger⟩
  · exact .pure _
  · dsimp only
    split
    · refine .still_bind within_readState fun ⟨won, challenge⟩ => ?_
      dsimp only
      split
      · exact returns_switchNode
      · exact .pure _
    · exact .pure _

theorem returns_probeRound : Returns pre i (Sup.probeRound env i) := by
  refine .still_bind within_look fun stopping => ?_
  split
  · exact .pure _
  · exact returns_probeCycle.bind fun _ => (returns_forEach (fun _ => returns_hysteresisStep) _).bind fun _ => .pure _

theorem returns_egressRound : Returns pre i (Sup.egressRound env i) := by
  refine .still_bind within_look fun stopping => ?_
  split
  · exact .pure _
  · exact (returns_forEach (fun _ => returns_rebuildCurrentAfterEgressChange) _).bind fun _ => .pure _

/-! ### Drains -/

/-- A drain waits: for shutdown, for its timer, or for what else is enough. -/
theorem Keeps.await {path : Nat} {timer : DrainTimer} {enough : World → Bool} {k : Unit → Sup α}
    (hk : ∀ u : World, u.fleet.Sound → Spares i w.fleet u.fleet →
      (u.drainShutdown = true ∨ (path, timer) ∈ u.trail.timers ∨ enough u = true) → Keeps i post (k ()) u) :
    Keeps i post (Sup.awaitDrain path timer enough >>= k) w := by
  refine .step fun o t u a hact ht hst => ?_
  split at hact
  · rename_i hdone
    cases hact
    refine ⟨ht, .refl, fun hu => hk t hu hst ?_⟩
    exact (Bool.or_eq_true_iff.mp hdone).imp_right .inr
  · split at hact
    · cases hact
      obtain ⟨hu, hconducts, hspares⟩ := @stage_step i _ _ ((path, timer) :: t.fleet.timers) _ _ ht
        (fun _ h => List.mem_cons_of_mem _ h) id id rfl
      exact ⟨hu, hconducts, fun hu => hk _ hu (hst.trans hspares) (.inr (.inl List.mem_cons_self))⟩
    · cases hact

/-- With the drain of the plane run by thread `i`. -/
def Fleet.draining (c : Fleet) (i id : Nat) : Fleet :=
  { c with planes := Function.update c.planes id (some (.draining (some i))) }

/-- The drain of the plane is begun. -/
theorem Kept.took {id : Nat} {s t : Fleet} (hkept : Kept i mine base s) (hqueued : s.planes id = some (.draining none))
    (ht : t = { s with planes := Function.update s.planes id (some (.draining (some i))), drains := t.drains }) :
    Kept i mine (base.draining i id) t := by
  rw [ht]
  refine ⟨⟨⟨fun other => ?_, hkept.hold, hkept.entered, hkept.ended⟩, fun other => ?_, hkept.once⟩, hkept.unrouted⟩
  · by_cases hother : other = id
    · subst hother
      simp [Fleet.draining]
    · simpa [Fleet.draining, Function.update_of_ne hother] using hkept.drains other
  · by_cases hother : other = id
    · subst hother
      simpa [hqueued] using hkept.owed other
    · simpa [Function.update_of_ne hother] using hkept.owed other

/-- The plane has been stopped by its drain. -/
theorem Kept.drained {id : Nat} {s t : Fleet} (hkept : Kept i mine (base.draining i id) s)
    (hbase : base.planes id ≠ some (.draining (some i)))
    (ht : t = { s with planes := Function.update s.planes id none }) :
    Kept i mine base t := by
  have hown : s.planes id = some (.draining (some i)) := (hkept.drains id).mpr (by simp [Fleet.draining])
  subst ht
  refine ⟨⟨⟨fun other => ?_, hkept.hold, hkept.entered, hkept.ended⟩, fun other => ?_, hkept.once⟩, hkept.unrouted⟩
  · by_cases hother : other = id
    · subst hother
      simp [hbase]
    · have hdrains := hkept.drains other
      simpa [Fleet.draining, Function.update_of_ne hother] using hdrains
  · by_cases hother : other = id
    · subst hother
      simpa [hown] using hkept.owed other
    · simpa [Function.update_of_ne hother] using hkept.owed other

theorem keeps_drainPath {active : ActiveNode} (hpath : active.pathConnections = active.handle.id)
    (hbase : base.planes active.handle.id ≠ some (.draining (some i)))
    (hkept : Kept i mine (base.draining i active.handle.id) w.fleet) :
    Keeps i (fun _ c => Kept i mine base c) (Sup.drainPath active) w := by
  rw [Sup.drainPath, hpath]
  refine .await fun u hu hwu hgrace => .await fun v hv huv hcap => ?_
  rw [← Prog.bind_pure (Sup.modify _)]
  refine .step fun o t x a hact ht hst => ?_
  have hnow := ((hkept.spared hwu).spared huv).spared hst
  have howner : ∀ {c : Fleet}, Kept i mine (base.draining i active.handle.id) c →
      c.planes active.handle.id = some (.draining (some i)) := fun hkept =>
    (hkept.drains _).mpr (by simp [Fleet.draining])
  have hdue : t.fleet.Due active.handle.id := by
    rcases hcap with hshutdown | htimer | hnone
    · exact .inl (hst.shutdown hshutdown)
    · exact .inr (.inl (hst.timers _ htimer))
    · rcases hgrace with hshutdown | htimer | hfalse
      · exact .inl (hst.shutdown (huv.shutdown hshutdown))
      · refine .inr (.inr ⟨hst.timers _ (huv.timers _ htimer), fun lease hmem heq => ?_⟩)
        have hzero : t.fleet.connections active.handle.id = 0 := by
          have hle := hst.connections _ (howner ((hkept.spared hwu).spared huv))
          have hv0 : v.fleet.connections active.handle.id = 0 := of_decide_eq_true hnone
          omega
        rw [ht.counted, List.countP_eq_zero] at hzero
        exact hzero lease hmem (by simp [heq])
      · cases hfalse
  have hfleet : x.fleet = { t.fleet with planes := Function.update t.fleet.planes active.handle.id none } := by
    cases hact
    rfl
  obtain ⟨hx, hconducts⟩ := drain_step ht (howner hnow) hdue hfleet
  exact ⟨hx, hconducts, fun _ => .pure fun c hst => (hnow.drained hbase hfleet).spared hst⟩

theorem filterMap_eraseIdx {jobs : List Job} {index : Nat} {job : Job} (h : jobs[index]? = some job) :
    ∃ before after, jobs.filterMap Job.drained = before ++ job.drained.toList ++ after ∧
      (jobs.eraseIdx index).filterMap Job.drained = before ++ after := by
  obtain ⟨hlt, rfl⟩ := List.getElem?_eq_some_iff.mp h
  refine ⟨(jobs.take index).filterMap Job.drained, (jobs.drop (index + 1)).filterMap Job.drained, ?_, ?_⟩
  · conv_lhs => rw [← List.take_append_drop index jobs, List.drop_eq_getElem_cons hlt, List.filterMap_append]
    rw [List.append_assoc, List.filterMap_cons]
    cases (jobs[index]).drained <;> rfl
  · rw [List.eraseIdx_eq_take_drop_succ, List.filterMap_append]

theorem returns_runJob : Returns pre i (Sup.runJob env i) := by
  intro mine base w hpre hw hkept
  refine .step fun o t u a hact ht hst => ?_
  have hnow := hkept.spared hst
  obtain ⟨job, hjob, heq⟩ := Option.map_eq_some_iff.mp hact
  obtain ⟨rfl, rfl⟩ := Prod.mk.inj heq
  obtain ⟨before, after, hbefore, hafter⟩ := filterMap_eraseIdx hjob
  have hsame : job.drained = none → (∀ planes, job.run i planes = planes) →
      ({ t with jobs := t.jobs.eraseIdx o.choice, planes := job.run i t.planes } : World).fleet = t.fleet := by
    intro hnone hrun
    rw [hnone, Option.toList_none, List.append_nil, ← hafter] at hbefore
    rw [World.fleet, hrun, ← hbefore]
    rfl
  cases job with
  | probe request index node era other takenAt readAt =>
      have hfleet := hsame rfl fun _ => rfl
      exact ⟨hfleet ▸ ht, hfleet ▸ .refl, fun hu => returns_probeJob mine base _ hpre hu (hfleet ▸ hnow)⟩
  | site request node site url takenAt =>
      have hfleet := hsame rfl fun _ => rfl
      exact ⟨hfleet ▸ ht, hfleet ▸ .refl, fun hu => returns_siteJob mine base _ hpre hu (hfleet ▸ hnow)⟩
  | drain active =>
      have hdrains : t.fleet.drains = before ++ active :: after := by
        rw [List.append_assoc] at hbefore
        exact hbefore
      obtain ⟨hqueued, hpath⟩ := ht.queued active (by simp [hdrains])
      have hfleet : ({ t with
          jobs := t.jobs.eraseIdx o.choice, planes := (Job.drain active).run i t.planes } : World).fleet =
          { t.fleet with
            planes := Function.update t.fleet.planes active.handle.id (some (.draining (some i)))
            drains := before ++ after } := by
        rw [World.fleet, hafter]
        rfl
      obtain ⟨hu, hconducts⟩ := take_step ht hdrains hfleet
      have hbase : base.planes active.handle.id ≠ some (.draining (some i)) := fun hown => by
        simp [(hnow.drains active.handle.id).mpr hown] at hqueued
      exact ⟨hu, hconducts, fun _ => keeps_drainPath hpath hbase (hnow.took hqueued (by rw [hfleet]))⟩

end

end Causeway

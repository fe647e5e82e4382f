import Causeway.Proof.Routine

/-!
# Subscription mutations in progress

The counter that status requests look at is the number of threads that run a subscription mutation. A thread publishes only while it counts, and at most one thing at a step, so a thread that has begun has published all it ever will when the counter is seen at zero.
-/

namespace Causeway

open Concurrent Prog

/-- One step of a mutation in progress: it publishes at most once. -/
structure Mutating (s t : World) : Prop where
  mutations : t.subscriptionTxnsInProgress = s.subscriptionTxnsInProgress
  published : t.trail.published = s.trail.published ∨ t.trail.published = s.trail.published + 1
  paced : ∀ cls, Paced cls s t
  rounds : t.rounds = s.rounds

theorem Calm.mutating {s t : World} (h : Calm s t) : Mutating s t := ⟨h.mutations, .inl h.published, h.paced, h.rounds⟩

instance : Std.Refl Mutating := ⟨fun _ => ⟨rfl, .inl rfl, .of_eq rfl rfl, rfl⟩⟩

section

variable {env : Env} {me : Nat} {cls : String} {α β : Type}

/-! ### Tasks that are no mutation -/

theorem calm_of_plain {p : Sup α} (h : p.Within Plain) : p.Within Calm := h.mono fun _ _ => Plain.toCalm

theorem calm_of_minor {p : Sup α} (h : p.Within Minor) : p.Within Calm := calm_of_plain (plain_of_minor h)

theorem calm_of_routine {p : Sup α} (h : p.Within (Routine env cls)) : p.Within Calm := h.mono fun _ _ => Routine.toCalm

theorem calm_withWrite {name : LockName} {body : Sup α} (h : body.Within Calm) : (Sup.withWrite me name body).Within Calm :=
  .bind (calm_of_plain plain_acquireWrite) fun _ => .bind h fun _ => .bind (calm_of_plain plain_release) fun _ => trivial

theorem calm_withRead {name : LockName} {body : Sup α} (h : body.Within Calm) : (Sup.withRead me name body).Within Calm :=
  .bind (calm_of_plain plain_acquireRead) fun _ => .bind h fun _ => .bind (calm_of_plain plain_release) fun _ => trivial

theorem calm_recordProbeResult {node : Node} {rtt : Option ℚ} {takenAt readAt : Nat} :
    (Sup.recordProbeResult env node rtt takenAt readAt).Within Calm := by
  refine within_atomic fun o s b t heq => ?_
  split at heq <;> cases heq
  exact .still rfl rfl rfl rfl rfl

theorem calm_testNode {url : String} {node : Node} {record : Bool} {takenAt readAt : Nat} :
    (Sup.testNode env me url node record takenAt readAt).Within Calm :=
  within_testNode (fun _ => calm_of_plain plain_spawnPlane) (fun _ => calm_of_plain plain_stopPlane)
    (fun _ => within_act fun _ _ => .still rfl rfl rfl rfl rfl) fun _ => calm_recordProbeResult

/-! Jobs and rounds. -/

theorem mild_of_calm {p : Sup α} (h : p.Within Calm) : p.Within Mild := h.mono fun _ _ => Calm.toMild

theorem mild_of_errand {p : Sup α} (h : p.Within (Errand env cls)) : p.Within Mild := h.mono fun _ _ => Errand.toMild

theorem calm_probeNowNode {node : Node} {era : UInt64} {url : String} {record : Bool} {takenAt readAt : Nat} :
    (Sup.probeNowNode env me node era url record takenAt readAt).Within Calm := by
  refine calm_withRead (.bind within_look fun current => ?_)
  split
  · trivial
  · exact calm_testNode

theorem calm_probeTask {request : Nat} {node : Node} {era : UInt64} {takenAt readAt : Nat} :
    (Sup.probeTask env me request node era cls takenAt readAt).Within Calm := by
  refine .bind (calm_of_minor minor_enterProbe) fun panicked => ?_
  cases panicked with
  | true => trivial
  | false => exact .bind calm_probeNowNode fun _ => trivial

theorem mild_runJob : (Sup.runJob env me).Within Mild := by
  refine .bind (within_atomic fun o s b t heq => ?_) fun job => ?_
  · obtain ⟨job, _, heq⟩ := Option.map_eq_some_iff.mp heq
    cases heq
    exact .still rfl rfl rfl rfl
  · cases job with
    | probe request index node era cls takenAt readAt =>
        exact .bind (mild_of_calm calm_probeTask) fun _ => mild_of_errand (@errand_finishJob env cls _ _ _)
    | site request node site url takenAt =>
        refine .bind (mild_of_calm (calm_of_minor minor_acquirePermit)) fun _ => ?_
        refine .bind (mild_of_calm (calm_of_routine (@routine_probeSiteNode env me "" site node url takenAt))) fun _ => ?_
        exact mild_of_errand (@errand_finishJob env "" request 0 none)
    | drain active => exact mild_of_calm (calm_of_plain plain_drainPath)

theorem calm_probeCycle {source : String} : (Sup.probeCycle env me source).Within Calm :=
  calm_withRead (.bind within_look fun _ => .bind within_ask fun _ => .bind (within_lockState fun _ _ => .still rfl rfl rfl rfl rfl) fun _ =>
    .bind (calm_of_minor minor_saveState) fun _ => calm_of_minor minor_pushEvent)

theorem calm_hysteresisStep : (Sup.hysteresisStep env me cls).Within Calm := by
  have hfind : (Sup.findChallenger env me cls).Within Calm := by
    refine calm_withWrite (.bind within_look fun active => ?_)
    cases active with
    | none => trivial
    | some current => exact .bind within_look fun _ => within_readState
  refine .bind hfind fun found => ?_
  rcases found with _ | ⟨current, challenger⟩
  · trivial
  · dsimp only
    split
    · refine .bind within_readState fun ⟨won, challenge⟩ => ?_
      cases won with
      | true =>
          exact calm_withRead (calm_withWrite (.bind (calm_of_routine routine_switchNodeLocked) fun _ => trivial))
      | false => trivial
    · trivial

theorem calm_probeRound : (Sup.probeRound env me).Within Calm := by
  have hsteps : (Sup.forEach (Sup.hysteresisStep env me) env.classes).Within Calm :=
    within_forEach (fun _ => calm_hysteresisStep) env.classes
  refine .bind within_look fun stopping => ?_
  split
  · trivial
  · exact .bind calm_probeCycle fun _ => .bind hsteps fun _ => trivial

/-! ### Transactions -/

theorem mutating_of_calm {p : Sup α} (h : p.Within Calm) : p.Within Mutating := h.mono fun _ _ => Calm.mutating

theorem mutating_of_plain {p : Sup α} (h : p.Within Plain) : p.Within Mutating := mutating_of_calm (calm_of_plain h)

theorem mutating_of_minor {p : Sup α} (h : p.Within Minor) : p.Within Mutating := mutating_of_calm (calm_of_minor h)

theorem calm_subscriptionFailure {profile message : String} : (Sup.subscriptionFailure profile message).Within Calm :=
  within_subscriptionFailure fun _ => calm_of_minor minor_pushEvent

theorem calm_openTransaction {target : String} {catalog : SubscriptionsConfig} {cached isReload : Bool} :
    (Sup.openTransaction env target catalog cached isReload).Within Calm :=
  within_openTransaction (fun _ => calm_of_minor minor_pushEvent) fun _ => .still rfl rfl rfl rfl rfl

theorem calm_stopStaged {staged : List ActiveNode} : (Sup.stopStaged staged).Within Calm :=
  within_stopStaged (fun _ => calm_of_plain plain_stopPlane) staged

theorem calm_commitPreparedCache {prepared : PreparedSubscription} {slot : Option String} :
    (Sup.commitPreparedCache prepared slot).Within Calm := by
  refine within_commitPreparedCache (within_act fun o w => ?_) (fun _ _ _ => within_act fun o w => ?_)
    fun _ _ => within_act fun o w => ?_
  all_goals split <;> exact .still rfl rfl rfl rfl rfl

theorem calm_stageTransaction {request : Request} : (Sup.stageTransaction env me request).Within Calm :=
  within_stageTransaction (fun cls candidate => calm_of_routine (@routine_tryActivate env me "" cls candidate true))
    (fun _ => calm_of_plain plain_stopPlane) fun _ _ => calm_commitPreparedCache

/-- A published class gets its new path, and its recovery starts anew. -/
theorem mutating_publishClass {target : String} {refreshed : Bool} {planned : Planned} :
    (Sup.publishClass me target refreshed planned).Within Mutating := by
  refine within_act fun _ w => ⟨rfl, .inl rfl, fun other => ?_, rfl⟩
  by_cases hother : other = planned.cls
  · subst hother
    refine .installed ?_ ?_ <;> simp [Trail.noteRecovery, Trail.note]
  · exact .update rfl rfl hother

theorem mutating_publish {request : Request} {nodes : List Node} {planned : List Planned} {cloned next : StateFile} :
    (Sup.publish env me request nodes planned cloned next).Within Mutating := by
  have hroutes : (Sup.lockRoutes me env.classes).Within Mutating :=
    within_lockRoutes (fun _ => mutating_of_plain plain_acquireWrite) env.classes
  have hclasses : (Sup.publishClasses me request.target request.refreshed planned).Within Mutating :=
    within_publishClasses (fun _ => mutating_publishClass) planned
  refine .bind hroutes fun _ => .bind (mutating_of_plain plain_acquireWrite) fun _ => ?_
  refine .bind (within_modify fun _ => ⟨rfl, .inl rfl, .of_eq rfl rfl, rfl⟩) fun _ => .bind hclasses fun old => ?_
  refine .bind (within_modify fun _ => ⟨rfl, .inr rfl, .of_eq rfl rfl, rfl⟩) fun _ => .bind (within_modify fun _ => ⟨rfl, .inl rfl, .of_eq rfl rfl, rfl⟩) fun _ => ?_
  exact .bind (mutating_of_plain plain_release) fun _ => .bind (mutating_of_plain (plain_releaseAll _)) fun _ => trivial

theorem mutating_finishTransaction {request : Request} {nodes : List Node} {planned : List Planned}
    {cloned next : StateFile} {now : Int} :
    (Sup.finishTransaction env me request nodes planned cloned next now).Within Mutating := by
  have hpush : (Sup.pushSwitched now request.refreshed planned).Within Mutating :=
    within_pushSwitched (fun _ => mutating_of_minor minor_pushEvent) planned
  have hdrain : ∀ old : List ActiveNode, (Sup.drainAll old).Within Mutating := by
    refine within_drainAll fun active => within_modify fun _ => ⟨rfl, .inl rfl, .of_eq rfl rfl, ?_⟩
    simp [World.rounds, Job.slot]
  refine .bind mutating_publish fun old => .bind (mutating_of_minor minor_saveState) fun _ => .bind hpush fun _ => ?_
  exact .bind (mutating_of_minor minor_pushEvent) fun _ => .bind (hdrain old) fun _ => trivial

theorem mutating_transact {request : Request} : (Sup.transact env me request).Within Mutating := by
  refine .bind (mutating_of_calm calm_stageTransaction) fun result => ?_
  rcases result with message | ⟨staged, prepared⟩
  · exact mutating_of_calm calm_subscriptionFailure
  · refine .bind (mutating_of_minor minor_saveAtomic) fun saved => ?_
    cases saved with
    | none => exact .bind (mutating_of_calm calm_stopStaged) fun _ => mutating_of_calm calm_subscriptionFailure
    | some outcome => exact mutating_finishTransaction

theorem mutating_switchSubscriptionLocked {target : String} {catalog : SubscriptionsConfig} {cached isReload : Bool} :
    (Sup.switchSubscriptionLocked env me target catalog cached isReload).Within Mutating := by
  have hfail : ∀ {message : String}, (Sup.subscriptionFailure target message).Within Mutating :=
    mutating_of_calm calm_subscriptionFailure
  have hlock : (Sup.lockClasses me env.classes).Within Mutating :=
    within_lockClasses (fun _ => mutating_of_plain plain_acquireWriteBy) env.classes
  refine .bind (mutating_of_calm calm_openTransaction) fun opened => ?_
  cases opened with
  | error reply => trivial
  | ok request =>
      refine .bind (mutating_of_plain plain_acquireWriteBy) fun taken => ?_
      cases taken with
      | false => exact hfail
      | true =>
          refine .bind (.bind hlock fun held => ?_) fun reply => .bind (mutating_of_plain plain_release) fun _ => trivial
          cases held with
          | true => exact .bind mutating_transact fun _ => .bind (mutating_of_plain (plain_releaseAll _)) fun _ => trivial
          | false => exact .bind hfail fun _ => .bind (mutating_of_plain (plain_releaseAll _)) fun _ => trivial

theorem mutating_reloadLocked : (Sup.reloadLocked env me).Within Mutating := by
  have hfail : ∀ {detail : String}, (Sup.reloadFailed detail).Within Mutating :=
    .bind (mutating_of_minor minor_pushEvent) fun _ => trivial
  refine .bind within_ask fun candidate => ?_
  cases candidate with
  | none => exact hfail
  | some cfg =>
      dsimp only
      split
      · exact hfail
      · refine .bind within_look fun active => ?_
        split
        · exact hfail
        · refine .bind mutating_switchSubscriptionLocked fun outcome => ?_
          split
          · exact hfail
          · exact .bind (mutating_of_minor minor_pushEvent) fun _ => trivial

end

/-! ### A thread's part of the counter -/

/-- A mutation in progress, which ends once and for all. -/
def Ending {α : Type} : Sup α → Prop
  | .done _ => False
  | .step act next => ∀ o s b t, act o s = some (b, t) →
      Mutating s t ∧ Ending (next b) ∨
      t.subscriptionTxnsInProgress = s.subscriptionTxnsInProgress - 1 ∧ t.trail.published = s.trail.published ∧
        (next b).Within Calm

def Begins {α : Type} : Sup α → Prop
  | .done _ => False
  | .step act next => ∀ o s b t, act o s = some (b, t) →
      t.subscriptionTxnsInProgress = s.subscriptionTxnsInProgress + 1 ∧ t.trail.published = s.trail.published ∧
        Ending (next b)

section

variable {env : Env} {me : Nat} {α β : Type}

theorem ending_bind {p : Sup α} {k : α → Sup β} (hp : p.Within Mutating) (hk : ∀ a, Ending (k a)) : Ending (p >>= k) := by
  induction p with
  | done a => exact hk a
  | step act next ih => exact fun o s b t h => .inl ⟨hp.1 o s b t h, ih b (hp.2 b)⟩

/-- A mutation counts itself around its body. -/
def counting (body : Sup Reply) : Sup Reply := do
  Sup.countTransaction (· + 1)
  let reply ← body
  Sup.countTransaction (· - 1)
  return reply

theorem begins_counted {body : Sup Reply} (h : body.Within Mutating) : Begins (counting body) := by
  intro o s b t hact
  obtain ⟨rfl, rfl⟩ := Prod.mk.inj (Option.some.inj hact)
  refine ⟨rfl, rfl, @ending_bind Reply Reply body _ h fun reply => ?_⟩
  intro o s b t hact
  obtain ⟨rfl, rfl⟩ := Prod.mk.inj (Option.some.inj hact)
  exact .inr ⟨rfl, rfl, trivial⟩

theorem mutating_withWrite {name : LockName} {body : Sup α} (h : body.Within Mutating) :
    (Sup.withWrite me name body).Within Mutating :=
  .bind (mutating_of_plain plain_acquireWrite) fun _ => .bind h fun _ =>
    .bind (mutating_of_plain plain_release) fun _ => trivial

/-- The tasks that open rounds of jobs, and those that run the jobs. -/
def Task.inRounds : Task → Bool
  | .probeNow _ | .siteProbe _ | .job => true
  | _ => false

/-- A task is a mutation, or works in rounds of jobs, or has nothing to do with either. -/
theorem counted_or_calm (task : Task) :
    (∃ body : Sup Reply, body.Within Mutating ∧ task.prog env me = counting body) ∨
      (task.inRounds = true ∧ (task.prog env me).Within Mild) ∨ (task.prog env me).Within Calm := by
  have hloop : ∀ {body : Sup Unit}, body.Within Calm → (body >>= fun _ => pure noReply : Sup Reply).Within Calm :=
    fun h => .bind h fun _ => trivial
  cases task with
  | idle => exact .inr (.inr trivial)
  | switch cls node =>
      refine .inr (.inr ?_)
      rw [Task.prog, Sup.switchRequest]
      split
      · trivial
      · refine .bind (calm_of_routine routine_switchTo) fun outcome => ?_
        cases outcome <;> trivial
  | switchSubscription name =>
      exact .inl ⟨_, mutating_withWrite (.bind within_look fun _ => mutating_switchSubscriptionLocked), rfl⟩
  | reload => exact .inl ⟨_, mutating_withWrite mutating_reloadLocked, rfl⟩
  | probeNow cls => exact .inr (.inl ⟨rfl, mild_of_errand errand_probeNow⟩)
  | siteProbe site => exact .inr (.inl ⟨rfl, mild_of_errand (@errand_siteProbeRequest env me "" site)⟩)
  | switchForSite cls site => exact .inr (.inr (calm_of_routine routine_switchForSite))
  | activateInitial cls =>
      refine .inr (.inr ?_)
      rw [Task.prog]
      split
      · exact hloop (calm_of_routine (@routine_activateInitial env me "" cls))
      · trivial
  | healthLoop cls ticks =>
      refine .inr (.inr ?_)
      rw [Task.prog]
      split
      · exact hloop (calm_of_routine (within_rounds routine_healthTick ticks))
      · trivial
  | probeLoop rounds => exact .inr (.inr (hloop (within_rounds calm_probeRound rounds)))
  | egressLoop rounds =>
      have hround : (Sup.egressRound env me).Within Calm := by
        have hrebuild : ∀ other, (Sup.rebuildCurrentAfterEgressChange env me other).Within (Routine env "") := fun _ =>
          routine_rebuildCurrentAfterEgressChange
        refine .bind within_look fun stopping => ?_
        split
        · trivial
        · exact .bind (calm_of_routine (within_forEach hrebuild env.classes)) fun _ => trivial
      exact .inr (.inr (hloop (within_rounds hround rounds)))
  | job => exact .inr (.inl ⟨rfl, .bind mild_runJob fun _ => trivial⟩)
  | status cls retries => exact .inr (.inr within_status)
  | connection cls proto =>
      refine .inr (.inr ?_)
      rw [Task.prog]
      split
      · exact hloop (calm_of_plain plain_handleConn)
      · trivial
  | signal => exact .inr (.inr (.bind (within_modify fun _ => .still rfl rfl rfl rfl rfl) fun _ => trivial))

theorem counted_or_mild (task : Task) :
    (∃ body : Sup Reply, body.Within Mutating ∧ task.prog env me = counting body) ∨ (task.prog env me).Within Mild := by
  rcases @counted_or_calm env me task with hcounted | ⟨_, hmild⟩ | hcalm
  · exact .inl hcounted
  · exact .inr hmild
  · exact .inr (mild_of_calm hcalm)

theorem begins_or_mild (task : Task) : Begins (task.prog env me) ∨ (task.prog env me).Within Mild := by
  rcases @counted_or_mild env me task with ⟨body, hbody, heq⟩ | hmild
  · rw [heq]
    exact .inl (begins_counted hbody)
  · exact .inr hmild

end

/-! ### The counter of a run -/

/-- The listed threads run a mutation and no other does; only a thread that has taken no step may yet begin one. -/
structure Tallied (moves : List (Move World)) (pool : Pool World Outside Reply) (running : List Nat) : Prop where
  count : pool.shared.subscriptionTxnsInProgress = running.length
  nodup : running.Nodup
  inside : ∀ i ∈ running, Ending (pool.thread i)
  outside : ∀ i, i ∉ running → (pool.thread i).Within Mild ∨ Pool.own i moves = [] ∧ Begins (pool.thread i)

def publishes (m : Move World) : Bool := m.after.trail.published ≠ m.before.trail.published

/-- How often something is published in these moves. -/
def publications (moves : List (Move World)) : Nat := moves.countP publishes

section

variable {moves others : List (Move World)} {pool last : Pool World Outside Reply} {running : List Nat} {i : Nat}

theorem own_snoc_of_ne {j : Nat} {s t : World} (hj : j ≠ i) : Pool.own j (moves ++ [⟨i, s, t⟩]) = Pool.own j moves := by
  simp [Pool.own, Ne.symm hj]

theorem Tallied.step (h : Tallied moves pool running) {e : Outside} {t : World} (step : pool.Step i e t last) :
    (∃ running, Tallied (moves ++ [⟨i, pool.shared, t⟩]) last running) ∧
      (t.trail.published = pool.shared.trail.published ∨ t.trail.published = pool.shared.trail.published + 1) := by
  obtain ⟨thread, taken⟩ := step
  rename_i act next b
  -- The other threads stay where they are.
  generalize hlast : (⟨t, Function.update pool.thread i (next b)⟩ : Pool World Outside Reply) = last
  have hshared : last.shared = t := hlast ▸ rfl
  have hself : last.thread i = next b := hlast ▸ Function.update_self _ _ _
  have hothers : ∀ {j : Nat}, j ≠ i → last.thread j = pool.thread j := fun hj => hlast ▸ Function.update_of_ne hj _ _
  have houtside : ∀ {j : Nat}, j ≠ i → j ∉ running → (last.thread j).Within Mild ∨
      Pool.own j (moves ++ [⟨i, pool.shared, t⟩]) = [] ∧ Begins (last.thread j) := by
    intro j hj hout
    rw [hothers hj, own_snoc_of_ne hj]
    exact h.outside j hout
  by_cases hi : i ∈ running
  · have hending := h.inside i hi
    rw [thread] at hending
    rcases hending _ _ _ _ taken with ⟨hmutating, hrest⟩ | ⟨hcount, hpublished, hrest⟩
    · refine ⟨⟨running, ⟨hshared ▸ hmutating.mutations.trans h.count, h.nodup, fun j hj => ?_, fun j hj => ?_⟩⟩, hmutating.published⟩
      · by_cases hji : j = i
        · subst hji
          exact hself ▸ hrest
        · rw [hothers hji]
          exact h.inside j hj
      · exact houtside (fun hji => hj (hji ▸ hi)) hj
    · refine ⟨⟨running.erase i, ⟨?_, h.nodup.erase i, fun j hj => ?_, fun j hj => ?_⟩⟩, .inl hpublished⟩
      · rw [List.length_erase_of_mem hi, ← h.count, hshared]
        exact hcount
      · obtain ⟨hji, hj⟩ := (h.nodup.mem_erase_iff).mp hj
        rw [hothers hji]
        exact h.inside j hj
      · by_cases hji : j = i
        · subst hji
          exact .inl (hself ▸ mild_of_calm hrest)
        · exact houtside hji fun hmem => hj ((h.nodup.mem_erase_iff).mpr ⟨hji, hmem⟩)
  · rcases h.outside i hi with hmild | ⟨_, hbegins⟩
    · rw [thread] at hmild
      have hstep := hmild.1 _ _ _ _ taken
      refine ⟨⟨running, ⟨hshared ▸ hstep.mutations.trans h.count, h.nodup, fun j hj => ?_, fun j hj => ?_⟩⟩, .inl hstep.published⟩
      · rw [hothers fun hji => hi (hji ▸ hj)]
        exact h.inside j hj
      · by_cases hji : j = i
        · subst hji
          exact .inl (hself ▸ hmild.2 b)
        · exact houtside hji hj
    · rw [thread] at hbegins
      obtain ⟨hcount, hpublished, hrest⟩ := hbegins _ _ _ _ taken
      refine ⟨⟨i :: running, ⟨?_, List.nodup_cons.mpr ⟨hi, h.nodup⟩, fun j hj => ?_, fun j hj => ?_⟩⟩, .inl hpublished⟩
      · rw [List.length_cons, ← h.count, hshared]
        exact hcount
      · rcases List.mem_cons.mp hj with rfl | hj
        · exact hself ▸ hrest
        · rw [hothers fun hji => hi (hji ▸ hj)]
          exact h.inside j hj
      · obtain ⟨hji, hj⟩ := not_or.mp (fun hmem => hj (List.mem_cons.mpr hmem))
        exact houtside hji hj

/-- In every run the counter is that of the threads that run a mutation. -/
theorem tallied_run {env : Env} {w : World} (hcount : w.subscriptionTxnsInProgress = 0) {tasks : Nat → Task}
    (run : (daemon env tasks w).Run moves last) :
    (∃ running, Tallied moves last running) ∧ ∀ m ∈ moves,
      m.after.trail.published = m.before.trail.published ∨ m.after.trail.published = m.before.trail.published + 1 := by
  generalize hfirst : daemon env tasks w = first at run
  induction run with
  | refl =>
      subst hfirst
      refine ⟨⟨[], ⟨hcount, List.nodup_nil, by simp, fun i _ => ?_⟩⟩, by simp⟩
      exact (begins_or_mild (tasks i)).symm.imp_right fun h => ⟨rfl, h⟩
  | snoc run step ih =>
      obtain ⟨⟨running, htallied⟩, hmoves⟩ := ih
      obtain ⟨hnext, hpublished⟩ := htallied.step step
      exact ⟨hnext, List.forall_mem_append.mpr ⟨hmoves, by simpa using hpublished⟩⟩

theorem Started.mutations {env : Env} {w : World} (h : Started env w) : w.subscriptionTxnsInProgress = 0 := by
  obtain ⟨_, _, _, _, _, _, _, _⟩ := h
  rfl

/-- The publications of a stretch of a run are those that come between its ends. -/
theorem published_run (run : pool.Run moves last) (hmoves : ∀ m ∈ moves,
    m.after.trail.published = m.before.trail.published ∨ m.after.trail.published = m.before.trail.published + 1) :
    last.shared.trail.published = pool.shared.trail.published + publications moves := by
  induction run with
  | refl => rfl
  | @snoc mid last moves i e t run step ih =>
      have hmid := ih fun m hm => hmoves m (List.mem_append_left _ hm)
      have hstep : t.trail.published = mid.shared.trail.published ∨ t.trail.published = mid.shared.trail.published + 1 :=
        hmoves ⟨i, mid.shared, t⟩ (by simp)
      have hlast : last.shared = t := by
        obtain ⟨running, taken⟩ := step
        rfl
      have hcount : publications (moves ++ [⟨i, mid.shared, t⟩]) =
          publications moves + if t.trail.published = mid.shared.trail.published then 0 else 1 := by
        simp [publications, publishes, List.countP_append]
      rw [hlast, hcount]
      rcases hstep with hsame | hmore
      · rw [if_pos hsame, hsame, hmid, Nat.add_zero]
      · rw [if_neg (by omega), hmore, hmid, Nat.add_assoc]

theorem quiet_after_zero {env : Env} {w : World} (hstart : Started env w) {tasks : Nat → Task}
    (run : (daemon env tasks w).Run moves pool) (hbegun : Pool.own i moves ≠ [])
    (hzero : pool.shared.subscriptionTxnsInProgress = 0) (later : pool.Run others last) :
    ∀ m ∈ others, m.thread = i → publishes m = false := by
  obtain ⟨⟨running, htallied⟩, _⟩ := tallied_run hstart.mutations run
  obtain rfl : running = [] := List.length_eq_zero_iff.mp (htallied.count.symm.trans hzero)
  have hmild : (pool.thread i).Within Mild := (htallied.outside i (by simp)).resolve_right fun h => hbegun h.1
  intro m hm hi
  have hown := Pool.mem_own hm
  rw [hi] at hown
  have hsame : m.after.trail.published = m.before.trail.published := ((hmild.path (later.path i)).1 _ hown).published
  simp [publishes, hsame]

end

end Causeway

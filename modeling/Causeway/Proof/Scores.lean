import Causeway.Proof.Routine

/-!
# Probe results and the shared scores

A probe records under the gate, in the era it was spawned in. What remains is the gap between taking the pool and reading the era, and the arm of the test that records without being asked to.
-/

namespace Causeway

open Concurrent History

/-! ### Eras -/

/-- Every recorded probe was measured through a node of the pool published at its recording. -/
def ProbesCurrent (w : World) : Prop :=
  ∀ node readAt stamp, .probeRecorded node readAt stamp ∈ w.trail.log → stamp.takenAt = stamp.recordedAt

theorem era_inj {earlier later : Nat} (hle : earlier ≤ later) (hnear : later - earlier < 2 ^ 64)
    (h : UInt64.ofNat earlier = UInt64.ofNat later) : earlier = later := by
  have hmod : earlier % 2 ^ 64 = later % 2 ^ 64 := by
    rw [← UInt64.toNat_ofNat', ← UInt64.toNat_ofNat', h]
  omega

/-- In every run a recorded probe belongs to the current pool exactly if no publication came between taking its pool and reading its era, and the era had not wrapped around since. -/
theorem probe_current_iff {env : Env} {w : World} (hstart : Started env w) {tasks : Nat → Task}
    {moves : List (Move World)} {last : Pool World Outside Reply} (run : (daemon env tasks w).Run moves last)
    {node : String} {readAt : Nat} {stamp : Stamp}
    (hrecorded : .probeRecorded node readAt stamp ∈ last.shared.trail.log) :
    stamp.takenAt = stamp.recordedAt ↔ stamp.takenAt = readAt ∧ stamp.recordedAt - readAt < 2 ^ 64 := by
  obtain ⟨htaken, hread, hera⟩ := (reachable_inv hstart run).log _ hrecorded
  constructor
  · intro h
    omega
  · rintro ⟨rfl, hnear⟩
    exact era_inj hread hnear hera

/-- A transaction between the two: the request reads the new era for nodes of the old pool. -/
def Sample.staleSchedule : List (Nat × Outside) :=
  Sample.steps 1 1 Sample.fine ++ Sample.steps 0 55 Sample.fine ++ Sample.steps 1 3 Sample.fine ++
    Sample.steps 2 12 Sample.fine

/-- A result of an old node lands in the statistics of the new profile. -/
theorem probe_stale : ∃ moves last,
    (daemon (Sample.env Sample.web) (Sample.assign [.switchSubscription "work", .probeNow "web", .job])
      (Sample.world Sample.web)).Run moves last ∧ ¬ ProbesCurrent last.shared := by
  obtain ⟨moves, last, run, _, hlast⟩ := Pool.exec_reaches Sample.staleSchedule
    (daemon (Sample.env Sample.web)
      (Sample.assign [.switchSubscription "work", .probeNow "web", .job]) (Sample.world Sample.web))
    (fun pool => pool.shared.trail.log.contains (.probeRecorded "A" 1 ⟨0, 1, 1⟩)) (by decide +kernel)
  refine ⟨moves, last, run, fun hcurrent => ?_⟩
  exact absurd (hcurrent "A" 1 ⟨0, 1, 1⟩ (by simpa using hlast)) (by decide)

/-- A request that no publication disturbs. -/
theorem probe_current_undisturbed : ∃ moves last,
    (daemon (Sample.env Sample.web) (Sample.assign [.idle, .probeNow "web", .job]) (Sample.world Sample.web)).Run
      moves last ∧
    .probeRecorded "A" 0 ⟨0, 0, 0⟩ ∈ last.shared.trail.log ∧ (⟨0, 0, 0⟩ : Stamp).takenAt = 0 := by
  obtain ⟨moves, last, run, _, hlast⟩ := Pool.exec_reaches
    (Sample.steps 1 4 Sample.fine ++ Sample.steps 2 12 Sample.fine)
    (daemon (Sample.env Sample.web) (Sample.assign [.idle, .probeNow "web", .job])
      (Sample.world Sample.web))
    (fun pool => pool.shared.trail.log.contains (.probeRecorded "A" 0 ⟨0, 0, 0⟩)) (by decide +kernel)
  have hrecorded : .probeRecorded "A" 0 ⟨0, 0, 0⟩ ∈ last.shared.trail.log := by simpa using hlast
  exact ⟨moves, last, run, hrecorded,
    (probe_current_iff (Sample.started Sample.web) run hrecorded).mpr ⟨rfl, by decide⟩⟩

/-! ### Scores of a class with a target of its own -/

/-- A measurement of a probe round ended in an error after its plane had started. -/
def Erred (w : World) : Prop := ∃ node, .probeErred node ∈ w.trail.log

/-- What tasks of one class keep: once a measurement has ended in an error, nothing more is promised. -/
def scoreDiscipline (cls : String) : Discipline World where
  inv w := ∀ job ∈ w.jobs, job.Of cls
  guar _ s t := (Erred s → Erred t) ∧ (Erred t ∨ ∀ node, t.state.score node = s.state.score node)
  rely _ s t := Erred s → Erred t
  refl _ _ := id
  trans h g := g ∘ h
  compat _ _ _ h := h.1

/-- A task that works for this class only, or for no class's scores at all. -/
def Task.Of (cls : String) : Task → Prop
  | .switch other _ | .probeNow other | .switchForSite other _ | .activateInitial other
  | .healthLoop other _ => other = cls
  | .switchSubscription _ | .reload | .probeLoop _ => False
  | .idle | .siteProbe _ | .egressLoop _ | .job | .status _ _ | .connection _ _ | .signal => True

section

variable {env : Env} {me : Nat} {cls : String} {α : Type} {w : World}

theorem safe_errand (hown : (env.cfg.classHealthOverride cls).isSome) {p : Sup α} (h : p.Within (Errand env cls)) :
    (scoreDiscipline cls).Safe me (fun _ _ => True) p w :=
  Discipline.Safe.of_within h fun _ _ ht htu =>
    ⟨fun job hjob => (htu.jobs job hjob).elim (ht job) id, fun ⟨node, herred⟩ => ⟨node, htu.log _ herred⟩,
      .inr (htu.scores hown)⟩

theorem safe_routine (hown : (env.cfg.classHealthOverride cls).isSome) {p : Sup α} (h : p.Within (Routine env cls)) :
    (scoreDiscipline cls).Safe me (fun _ _ => True) p w :=
  safe_errand hown (errand_of_routine h)

theorem safe_routine_bind (hown : (env.cfg.classHealthOverride cls).isSome) {β : Type} {p : Sup α} {k : α → Sup β}
    (hw : ∀ job ∈ w.jobs, job.Of cls) (h : p.Within (Routine env cls))
    (hk : ∀ a (u : World), (∀ job ∈ u.jobs, job.Of cls) →
      (scoreDiscipline cls).Safe me (fun _ _ => True) (k a) u) :
    (scoreDiscipline cls).Safe me (fun _ _ => True) (p >>= k) w :=
  (safe_routine hown h).bind hw fun a u hu _ => hk a u hu

theorem safe_scores_testNode (hown : (env.cfg.classHealthOverride cls).isSome) (hw : ∀ job ∈ w.jobs, job.Of cls) {url : String} {node : Node}
    {takenAt readAt : Nat} :
    (scoreDiscipline cls).Safe me (fun _ _ => True) (Sup.testNode env me url node false takenAt readAt) w := by
  rw [Sup.testNode]
  refine safe_routine_bind hown hw within_ask fun reserved u hu => ?_
  cases reserved with
  | error error => exact fun _ _ _ => trivial
  | ok spec =>
      refine safe_routine_bind hown hu (routine_of_plain plain_startPlane) fun started v hv => ?_
      cases started with
      | error error => exact safe_routine hown trivial
      | ok handle =>
          refine safe_routine_bind hown hv within_ask fun checked x hx => ?_
          refine safe_routine_bind hown hx (routine_of_plain plain_stopPlane) fun _ y hy => ?_
          rcases checked with error | ⟨code, rtt⟩
          · refine Discipline.Safe.atomic fun t ht _ o b z hz => ?_
            obtain ⟨rfl, rfl⟩ := Prod.mk.inj (Option.some.inj hz)
            have herred : Erred { t with trail := t.trail.note (.probeErred node.name) } :=
              ⟨node.name, List.mem_cons_self⟩
            refine ⟨ht, ⟨fun _ => herred, .inl herred⟩, ?_⟩
            refine Discipline.Safe.atomic fun t' ht' hrely o b z hz => ?_
            split at hz
            · obtain ⟨rfl, rfl⟩ := Prod.mk.inj (Option.some.inj hz)
              obtain ⟨name, hname⟩ := hrely herred
              have hlater := List.mem_cons_of_mem
                (Obs.probeRecorded node.name readAt ⟨takenAt, readAt, t'.trail.published⟩) hname
              exact ⟨ht', ⟨fun _ => ⟨name, hlater⟩, .inl ⟨name, hlater⟩⟩, fun _ _ _ => trivial⟩
            · cases hz
          · dsimp only
            split
            · exact safe_routine hown trivial
            · exact safe_routine hown trivial

theorem safe_scores_probeJob (hown : (env.cfg.classHealthOverride cls).isSome)
    (hw : ∀ job ∈ w.jobs, job.Of cls) {request index : Nat} {node : Node} {era : UInt64} {takenAt readAt : Nat} :
    (scoreDiscipline cls).Safe me (fun _ _ => True)
      (Sup.probeJob env me request index node era cls takenAt readAt) w := by
  have hrecord : (env.cfg.classHealthOverride cls).isNone = false := by
    rw [Option.isNone_eq_false_iff]
    exact hown
  rw [Sup.probeJob, Sup.probeTask, bind_assoc, hrecord]
  refine safe_routine_bind hown hw (routine_of_plain (plain_of_minor minor_enterProbe)) fun panicked u hu => ?_
  cases panicked with
  | true => exact safe_errand hown errand_finishJob
  | false =>
      simp only [Bool.false_eq_true, if_false, Sup.probeNowNode, Sup.withRead, bind_assoc]
      refine safe_routine_bind hown hu (routine_of_plain plain_acquireRead) fun _ v hv => ?_
      refine safe_routine_bind hown hv within_look fun generation x hx => ?_
      have hend : ∀ (result : ProbeResult) (y : World), (∀ job ∈ y.jobs, job.Of cls) →
          (scoreDiscipline cls).Safe me (fun _ _ => True) (do
            Sup.release me .reconfiguration
            let result ← pure result
            let result ← pure (some result)
            Sup.finishJob request index result : Sup Unit) y := fun result y _ =>
        safe_errand hown (.bind (errand_of_plain plain_release) fun _ => errand_finishJob)
      split
      · exact hend _ x hx
      · exact (safe_scores_testNode hown hx).bind hx fun result y hy _ => hend result y hy

theorem safe_scores_runJob (hown : (env.cfg.classHealthOverride cls).isSome)
    (hw : ∀ job ∈ w.jobs, job.Of cls) :
    (scoreDiscipline cls).Safe me (fun _ _ => True) (Sup.runJob env me) w := by
  rw [Sup.runJob, Sup.takeJob]
  refine Discipline.Safe.atomic fun t ht _ o job u htake => ?_
  obtain ⟨taken, htaken, heq⟩ := Option.map_eq_some_iff.mp htake
  obtain ⟨rfl, rfl⟩ := Prod.mk.inj heq
  have hu : ∀ job ∈ t.jobs.eraseIdx o.choice, job.Of cls := fun job hjob => ht job (List.mem_of_mem_eraseIdx hjob)
  refine ⟨hu, ⟨id, .inr fun _ => rfl⟩, ?_⟩
  cases taken with
  | probe request index node era other takenAt readAt =>
      obtain rfl : other = cls := ht _ (List.mem_of_getElem? htaken)
      exact safe_scores_probeJob hown hu
  | site request node site url takenAt =>
      refine safe_errand hown (.bind (errand_of_plain (plain_of_minor minor_acquirePermit)) fun _ => ?_)
      exact .bind (errand_of_routine routine_probeSiteNode) fun _ => errand_finishJob
  | drain active => exact safe_routine hown (routine_of_plain plain_drainPath)

theorem safe_scores_task (hown : (env.cfg.classHealthOverride cls).isSome)
    (hw : ∀ job ∈ w.jobs, job.Of cls) {task : Task} (htask : task.Of cls) :
    (scoreDiscipline cls).Safe me (fun _ _ => True) (task.prog env me) w := by
  have hloop : ∀ {body : Sup Unit}, body.Within (Routine env cls) →
      (scoreDiscipline cls).Safe me (fun _ _ => True) (body >>= fun _ => pure noReply) w :=
    fun h => safe_routine hown (.bind h fun _ => trivial)
  cases task with
  | idle => exact safe_routine hown trivial
  | switch other node =>
      obtain rfl : other = cls := htask
      rw [Task.prog, Sup.switchRequest]
      split
      · exact safe_routine hown trivial
      · refine safe_routine hown (.bind routine_switchTo fun outcome => ?_)
        cases outcome <;> trivial
  | switchSubscription name => exact htask.elim
  | reload => exact htask.elim
  | probeNow other =>
      obtain rfl : other = cls := htask
      exact safe_errand hown errand_probeNow
  | siteProbe site => exact safe_errand hown errand_siteProbeRequest
  | switchForSite other site =>
      obtain rfl : other = cls := htask
      exact safe_routine hown routine_switchForSite
  | activateInitial other =>
      rw [Task.prog]
      split
      · exact hloop routine_activateInitial
      · exact safe_routine hown trivial
  | healthLoop other ticks =>
      obtain rfl : other = cls := htask
      rw [Task.prog]
      split
      · exact hloop (within_rounds routine_healthTick ticks)
      · exact safe_routine hown trivial
  | probeLoop rounds => exact htask.elim
  | egressLoop rounds =>
      refine hloop (within_rounds (.bind within_look fun stopping => ?_) rounds)
      split
      · trivial
      · exact .bind (within_forEach (fun _ => routine_rebuildCurrentAfterEgressChange) _) fun _ => trivial
  | job => exact (safe_scores_runJob hown hw).bind hw fun _ _ _ _ => safe_routine hown trivial
  | status other retries => exact safe_routine hown within_status
  | connection other proto =>
      rw [Task.prog]
      split
      · exact hloop (routine_of_plain plain_handleConn)
      · exact safe_routine hown trivial
  | signal => exact safe_routine hown (routine_of_plain
      (.bind (within_modify fun _ => .of_eq (.still rfl rfl rfl rfl rfl) rfl rfl rfl) fun _ => trivial))

end

/-- Whatever runs for a class with a target of its own leaves every node's scores as they were, unless a measurement of a probe round has ended in an error. -/
theorem class_target_scores_kept {env : Env} {w : World} (hstart : Started env w) {cls : String}
    (hown : (env.cfg.classHealthOverride cls).isSome) {tasks : Nat → Task} (htasks : ∀ i, (tasks i).Of cls)
    {moves : List (Move World)} {last : Pool World Outside Reply} (run : (daemon env tasks w).Run moves last)
    (hanswered : ∀ node, .probeErred node ∉ last.shared.trail.log) (node : String) :
    last.shared.state.score node = w.state.score node := by
  have hjobs : ∀ job ∈ w.jobs, job.Of cls := by
    obtain ⟨_, _, _, _, _, _, _, _⟩ := hstart
    exact fun _ h => nomatch h
  have hholds : (scoreDiscipline cls).Holds (fun _ _ _ => True) (daemon env tasks w) :=
    ⟨hjobs, fun i => safe_scores_task hown hjobs (htasks i)⟩
  have hkept := hholds.preserves run (X := fun u => Erred u ∨ ∀ node, u.state.score node = w.state.score node)
    (fun i s t _ _ hguar hs => by
      rcases hguar.2 with ht | hsame
      · exact .inl ht
      · exact hs.imp hguar.1 fun h node => (hsame node).trans (h node))
    (.inr fun _ => rfl)
  rcases hkept with ⟨erred, h⟩ | h
  · exact absurd h (hanswered erred)
  · exact h node

def Sample.video : List (String × ClassConfig) := [("video", ⟨"127.0.0.1:1081", none, some ⟨some "video", none⟩⟩)]

/-- A request and one of its jobs. -/
def Sample.probeVideo : List Task := [.probeNow "video", .job]

/-- A request spawns its jobs and one of them measures a node. -/
def Sample.probeSchedule (outside : Outside) : List (Nat × Outside) :=
  Sample.steps 0 4 Sample.fine ++ Sample.steps 1 11 outside

/-- A measurement that gets an answer, even a failing one, leaves no mark. -/
theorem class_target_scores_kept_answered : ∃ moves last,
    (daemon (Sample.env Sample.video) (Sample.assign Sample.probeVideo) (Sample.world Sample.video)).Run
      moves last ∧ last.shared.finished ≠ [] ∧ last.shared.state.score "A" = Sample.state.score "A" := by
  obtain ⟨moves, last, run, _, hlast⟩ := Pool.exec_reaches
    (Sample.probeSchedule { Sample.fine with status := fun _ => some 503 })
    (daemon (Sample.env Sample.video) (Sample.assign Sample.probeVideo) (Sample.world Sample.video))
    (fun pool => pool.shared.trail.log = [] && pool.shared.finished ≠ []) (by decide +kernel)
  simp only [Bool.and_eq_true, decide_eq_true_eq] at hlast
  have htasks : ∀ i, ((Sample.assign Sample.probeVideo) i).Of "video" := by
    intro i
    rcases i with _ | _ | i
    · rfl
    · trivial
    · trivial
  refine ⟨moves, last, run, hlast.2, ?_⟩
  exact class_target_scores_kept (Sample.started Sample.video) (by decide +kernel) htasks run
    (by simp [hlast.1]) "A"

/-- A measurement that ends in an error after its plane started is recorded in the shared scores. -/
theorem class_target_scores_poisoned : ∃ moves last,
    (daemon (Sample.env Sample.video) (Sample.assign Sample.probeVideo) (Sample.world Sample.video)).Run
      moves last ∧ last.shared.state.score "A" ≠ Sample.state.score "A" := by
  obtain ⟨moves, last, run, _, hlast⟩ := Pool.exec_reaches
    (Sample.probeSchedule { Sample.fine with status := fun _ => none })
    (daemon (Sample.env Sample.video) (Sample.assign Sample.probeVideo) (Sample.world Sample.video))
    (fun pool => pool.shared.state.score "A" ≠ Sample.state.score "A") (by decide +kernel)
  exact ⟨moves, last, run, by simpa using hlast⟩

end Causeway

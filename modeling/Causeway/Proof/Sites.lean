import Causeway.Proof.Selection

/-!
# Site requests

What a site request goes by. A verdict is stamped with the publications its node was taken and recorded under, so whether it belongs to the pool it is used for is a question about the stamp; whether the class has moved in the meantime is read off the install.
-/

namespace Causeway

open Concurrent Prog History

/-! ### Verdicts and pools -/

/-- The verdict was measured through a node of this publication's pool. -/
def MeasuredIn (stamp : Option Stamp) (publication : Nat) : Prop :=
  ∃ st, stamp = some st ∧ st.takenAt = publication

/-- Nothing was published between the taking of the verdict's node and the gate of its measurement, nor since it was recorded. -/
def Undisturbed (stamp : Option Stamp) (publication : Nat) : Prop :=
  ∃ st, stamp = some st ∧ st.takenAt = st.gateAt ∧ st.recordedAt = publication

theorem measuredIn_iff {stamp : Option Stamp} {publication : Nat}
    (h : ∀ st, stamp = some st → st.Fact publication) :
    MeasuredIn stamp publication ↔ Undisturbed stamp publication := by
  constructor
  · rintro ⟨st, rfl, htaken⟩
    obtain ⟨hle, hgate, hrecorded⟩ := h st rfl
    exact ⟨st, rfl, by omega, by omega⟩
  · rintro ⟨st, rfl, htaken, hrecorded⟩
    obtain ⟨_, hgate, _⟩ := h st rfl
    exact ⟨st, rfl, by omega⟩

/-- In every run, a recorded verdict is one of the pool published at its recording exactly if nothing was published between the taking of its node and the gate of its measurement; a verdict that a request goes by, or switches for, is one of the pool published then exactly if nothing was published since its recording either. -/
theorem site_verdict_iff {env : Env} {w : World} (hstart : Started env w) {tasks : Nat → Task}
    {moves : List (Move World)} {last : Pool World Outside Reply} (run : (daemon env tasks w).Run moves last) :
    (∀ site node stamp, .siteRecorded site node stamp ∈ last.shared.trail.log →
      (stamp.takenAt = stamp.recordedAt ↔ stamp.takenAt = stamp.gateAt)) ∧
    (∀ thread site node status stamp now, .siteVerdict thread site node status stamp now ∈ last.shared.trail.log →
      (MeasuredIn stamp now ↔ Undisturbed stamp now)) ∧
    ∀ thread site node stamp now, .siteSwitch thread site node stamp now ∈ last.shared.trail.log →
      (MeasuredIn stamp now ↔ Undisturbed stamp now) := by
  have hlog := (reachable_inv hstart run).log
  refine ⟨fun site node stamp hobs => ?_, fun _ _ _ _ _ _ hobs => measuredIn_iff (hlog _ hobs),
    fun _ _ _ _ _ hobs => measuredIn_iff (hlog _ hobs)⟩
  have hgate : stamp.gateAt = stamp.recordedAt := (hlog _ hobs).gate
  rw [hgate]

/-- Thread `i` is done, and its reply has this property. -/
def Sample.answered (i : Nat) (f : Reply → Bool) (pool : Pool World Outside Reply) : Bool :=
  match pool.thread i with
  | .done reply => f reply
  | .step _ _ => false

theorem Sample.of_answered {i : Nat} {f : Reply → Bool} {pool : Pool World Outside Reply}
    (h : Sample.answered i f pool = true) : ∃ reply, pool.thread i = .done reply ∧ f reply = true := by
  unfold Sample.answered at h
  split at h
  · exact ⟨_, ‹_›, h⟩
  · cases h

/-- Probe the sites, change the subscription, then ask for a site switch. -/
def Sample.siteTasks : List Task :=
  [.activateInitial "web", .siteProbe (some "site"), .job, .switchSubscription "work",
    .switchForSite "web" "site"]

/-- Without a publication in between, the request goes by a verdict of its own pool. -/
theorem site_verdict_current : ∃ moves last,
    (daemon (Sample.env Sample.web) (Sample.assign Sample.siteTasks) (Sample.world Sample.web)).Run moves last ∧
    .siteVerdict 4 "site" "A" .ok (some ⟨0, 0, 0⟩) 0 ∈ last.shared.trail.log ∧
    MeasuredIn (some ⟨0, 0, 0⟩) 0 := by
  obtain ⟨moves, last, run, _, hlast⟩ := Pool.exec_reaches
    (Sample.steps 0 28 Sample.fine ++ Sample.steps 1 3 Sample.fine ++ Sample.steps 2 13 Sample.fine ++
      Sample.steps 4 5 Sample.fine)
    (daemon (Sample.env Sample.web) (Sample.assign Sample.siteTasks) (Sample.world Sample.web))
    (fun pool => pool.shared.trail.log.contains (.siteVerdict 4 "site" "A" .ok (some ⟨0, 0, 0⟩) 0))
    (by decide +kernel)
  have hused : .siteVerdict 4 "site" "A" .ok (some ⟨0, 0, 0⟩) 0 ∈ last.shared.trail.log := by simpa using hlast
  exact ⟨moves, last, run, hused,
    ((site_verdict_iff (Sample.started Sample.web) run).2.1 _ _ _ _ _ _ hused).mpr ⟨_, rfl, rfl, rfl⟩⟩

/-- The request keeps its node by a verdict of the pool before. -/
theorem site_verdict_stale : ∃ moves last reply,
    (daemon (Sample.env Sample.web) (Sample.assign Sample.siteTasks) (Sample.world Sample.web)).Run moves last ∧
    last.thread 4 = .done reply ∧ reply.siteSwitch.map (·.action) = some "kept" ∧
    .siteVerdict 4 "site" "A" .ok (some ⟨0, 0, 0⟩) 1 ∈ last.shared.trail.log ∧
    ¬ MeasuredIn (some ⟨0, 0, 0⟩) 1 := by
  obtain ⟨moves, last, run, _, hlast⟩ := Pool.exec_reaches
    (Sample.steps 0 28 Sample.fine ++ Sample.steps 1 3 Sample.fine ++ Sample.steps 2 13 Sample.fine ++
      Sample.steps 3 56 Sample.fine ++ Sample.steps 4 5 Sample.fine)
    (daemon (Sample.env Sample.web) (Sample.assign Sample.siteTasks) (Sample.world Sample.web))
    (fun pool => pool.shared.trail.log.contains (.siteVerdict 4 "site" "A" .ok (some ⟨0, 0, 0⟩) 1) &&
      Sample.answered 4 (fun reply => reply.siteSwitch.map (·.action) = some "kept") pool) (by decide +kernel)
  rw [Bool.and_eq_true] at hlast
  obtain ⟨reply, hdone, hreply⟩ := Sample.of_answered hlast.2
  refine ⟨moves, last, reply, run, hdone, by simpa using hreply, by simpa using hlast.1, ?_⟩
  rintro ⟨st, ⟨⟩, htaken⟩
  exact absurd htaken (by decide)

/-! ### The class in the meantime -/

/-- Every install that a site request makes replaces the node the request meant to leave exactly if that node was still active when the request took the class. -/
theorem site_replaces_iff {env : Env} {w : World} (hstart : Started env w) {tasks : Nat → Task}
    {moves : List (Move World)} {last : Pool World Outside Reply} (run : (daemon env tasks w).Run moves last)
    {cls : String} (hcls : cls ∈ env.classes) {new : ActiveNode} {old : Option ActiveNode}
    {nodeBefore activeAtLock : Option String} {newer older : History}
    (hhist : last.shared.trail.hist cls = newer ++ .installed new old (.site nodeBefore activeAtLock) :: older) :
    (lastActive older).map (·.node.name) = nodeBefore ↔ activeAtLock = nodeBefore := by
  obtain ⟨hold, hactive⟩ := reachable_install hstart run hcls hhist
  have hactive : old.map (·.node.name) = activeAtLock := hactive
  rw [← hold, hactive]

/-- A site that no node serves, on paths that are fine. -/
def Sample.frozen : Outside :=
  { Sample.fine with status := fun url => if url = "site" then some 403 else some 204 }

def Sample.leaveTasks : List Task := [.activateInitial "web", .switchForSite "web" "site", .switch "web" "C"]

/-- The class is on A, which the site blocks; the request has found that the site serves B. -/
def Sample.leaveSchedule : List (Nat × Outside) :=
  Sample.steps 0 28 Sample.fine ++ Sample.steps 1 16 Sample.frozen ++ Sample.steps 1 13 Sample.fine

theorem site_replaces_incumbent : ∃ moves last new old older,
    (daemon (Sample.env Sample.web) (Sample.assign Sample.leaveTasks) (Sample.wideWorld Sample.web)).Run
      moves last ∧
    last.shared.trail.hist "web" = [] ++ .installed new old (.site (some "A") (some "A")) :: older ∧
    (lastActive older).map (·.node.name) = some "A" := by
  obtain ⟨moves, last, run, _, hlast⟩ := Pool.exec_reaches
    (Sample.leaveSchedule ++ Sample.steps 1 13 Sample.fine)
    (daemon (Sample.env Sample.web) (Sample.assign Sample.leaveTasks) (Sample.wideWorld Sample.web))
    (fun pool => Sample.newest (fun _ _ cause => cause = .site (some "A") (some "A"))
      (pool.shared.trail.hist "web")) (by decide +kernel)
  obtain ⟨new, old, cause, older, hhist, hcause⟩ := Sample.of_newest hlast
  rw [decide_eq_true_eq] at hcause
  subst hcause
  have hmem : "web" ∈ (Sample.env Sample.web).classes := by decide +kernel
  exact ⟨moves, last, new, old, older, run, hhist,
    (site_replaces_iff (Sample.wide_started Sample.web) run hmem hhist).mpr rfl⟩

/-- An operator switches to C before the request takes the class, and the request replaces C. -/
theorem site_replaces_operator : ∃ moves last new old older,
    (daemon (Sample.env Sample.web) (Sample.assign Sample.leaveTasks) (Sample.wideWorld Sample.web)).Run
      moves last ∧
    last.shared.trail.hist "web" = [] ++ .installed new (some old) (.site (some "A") (some "C")) :: older ∧
    old.node.name = "C" ∧ new.node.name = "B" := by
  obtain ⟨moves, last, run, _, hlast⟩ := Pool.exec_reaches
    (Sample.leaveSchedule ++ Sample.steps 2 31 Sample.fine ++ Sample.steps 1 13 Sample.fine)
    (daemon (Sample.env Sample.web) (Sample.assign Sample.leaveTasks) (Sample.wideWorld Sample.web))
    (fun pool => Sample.newest (fun new old cause => new.node.name = "B" &&
      old.map (·.node.name) = some "C" && cause = .site (some "A") (some "C"))
      (pool.shared.trail.hist "web")) (by decide +kernel)
  obtain ⟨new, old, cause, older, hhist, hevent⟩ := Sample.of_newest hlast
  simp only [Bool.and_eq_true, decide_eq_true_eq] at hevent
  obtain ⟨⟨hnew, hold⟩, rfl⟩ := hevent
  obtain ⟨path, rfl, hname⟩ := Option.map_eq_some_iff.mp hold
  exact ⟨moves, last, new, path, older, run, hhist, hname, hnew⟩

end Causeway

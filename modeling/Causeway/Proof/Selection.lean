import Causeway.Proof.Daemon

/-!
# Which node an install may put on a class

Every install of every run has a cause, and the history of its class says which node was active before it. What the hysteresis step compared, whether the class is pinned and which regions it allows are all read off one event.
-/

namespace Causeway

open Concurrent History

section

variable {env : Env} {w : World} {tasks : Nat → Task} {moves later : List (Move World)}
  {mid last : Pool World Outside Reply} {cls : String} {new : ActiveNode} {old : Option ActiveNode}
  {cause : Cause} {newer older : History}

/-- Every install in the history of a class replaced the path before it, and was chosen for its cause. -/
theorem reachable_install (hstart : Started env w) (run : (daemon env tasks w).Run moves last)
    (hcls : cls ∈ env.classes)
    (hhist : last.shared.trail.hist cls = newer ++ .installed new old cause :: older) :
    old = lastActive older ∧ Chosen env cls new.node old cause := by
  have hfact : History.Fact (env.law cls) (last.shared.trail.hist cls) := (reachable_inv hstart run).history cls hcls
  rw [hhist] at hfact
  exact ⟨hfact.event.1, hfact.event.2.1⟩

/-- A class that nobody holds is on the path that was installed last. -/
theorem reachable_last (hstart : Started env w) (run : (daemon env tasks w).Run moves last)
    (hcls : cls ∈ env.classes) (hfree : last.shared.locks (.cls cls) = .free) :
    (last.shared.runtime cls).active = lastActive (last.shared.trail.hist cls) :=
  ((reachable_inv hstart run).settled cls hcls (World.free hfree)).last

theorem reachable_hist (hstart : Started env w) (run : (daemon env tasks w).Run moves mid)
    (rest : mid.Run later last) (cls : String) : mid.shared.trail.hist cls <:+ last.shared.trail.hist cls := by
  refine ((daemon_holds hstart tasks).run run).preserves rest
    (X := fun u => mid.shared.trail.hist cls <:+ u.trail.hist cls) ?_ List.suffix_rfl
  intro i s t _ _ hguar hs
  exact hs.trans (hguar.sees.hist cls)

end

/-! ### The hysteresis step -/

/-- What the hysteresis step behind an install compared, what it found under the class lock, and the candidates that have failed. -/
def Cause.hysteresis : Cause → Option (Challenge × SwitchField × List String)
  | .challengerWins challenge field failed => some (challenge, field, failed)
  | .pathRecovery cause => cause.hysteresis
  | _ => none

/-- The challenger beats the incumbent on the statistics that were read; a missing entry counts as never probed. -/
def Challenge.Beaten (challenge : Challenge) (hysteresis : ℚ) : Prop :=
  challengerWins (challenge.challengerStats.getD default) (challenge.currentStats.getD default) hysteresis

/-- The node that was compared replaces the node it was compared with and has beaten. -/
structure Challenge.Lawful (challenge : Challenge) (env : Env) (new : ActiveNode) (old : Option ActiveNode) :
    Prop where
  incumbent : old.map (·.node.name) = some challenge.current
  challenger : new.node.name = challenge.challenger
  beaten : challenge.Beaten env.cfg.selection.hysteresis

theorem challengerWins_default (stats : NodeStats) (hysteresis : ℚ) :
    challengerWins stats default hysteresis = stats.isProbed := by
  have hnew : (default : NodeStats).isProbed = false := rfl
  unfold challengerWins
  cases stats.isProbed with
  | true => simp [hnew]
  | false => simp

theorem Challenge.beaten_iff {challenge : Challenge} {hysteresis : ℚ} (hwon : challenge.won hysteresis) :
    challenge.Beaten hysteresis ↔
      challenge.currentStats.isSome ∨ (challenge.challengerStats.getD default).isProbed := by
  unfold Challenge.Beaten
  unfold Challenge.won at hwon
  rcases challenge with ⟨current, challenger, incumbent, stats⟩
  cases incumbent with
  | none => simp [challengerWins_default]
  | some incumbent =>
      cases stats with
      | none => cases hwon
      | some stats => simpa using hwon

/-- An install of the hysteresis step that moves the class is lawful exactly if the incumbent it compared was still active under the lock, its challenger is ranked there right after the candidates that have failed, and a challenger of an incumbent without statistics has been probed. -/
theorem challenger_law_iff {env : Env} {w : World} (hstart : Started env w) {tasks : Nat → Task}
    {moves : List (Move World)} {last : Pool World Outside Reply} (run : (daemon env tasks w).Run moves last)
    {cls : String} (hcls : cls ∈ env.classes) {new : ActiveNode} {old : Option ActiveNode} {cause : Cause}
    {newer older : History} (hhist : last.shared.trail.hist cls = newer ++ .installed new old cause :: older)
    {challenge : Challenge} {field : SwitchField} {failed : List String}
    (hstep : cause.hysteresis = some (challenge, field, failed))
    (hmoved : old.map (·.node.name) ≠ some new.node.name) :
    challenge.Lawful env new old ↔
      field.active = some challenge.current ∧ failed ++ [challenge.challenger] <+: field.ranking env cls ∧
        (challenge.currentStats.isSome ∨ (challenge.challengerStats.getD default).isProbed) := by
  have hchosen := (reachable_install hstart run hcls hhist).2
  cases cause with
  | challengerWins seen found names =>
      obtain ⟨_, _, hwon, hactive, hnext⟩ := hchosen
      cases hstep
      constructor
      · rintro ⟨hincumbent, hchallenger, hbeaten⟩
        exact ⟨hactive.symm.trans hincumbent, hchallenger ▸ hnext, (Challenge.beaten_iff hwon).mp hbeaten⟩
      · rintro ⟨hincumbent, hranked, hprobed⟩
        refine ⟨hactive.trans hincumbent, ?_, (Challenge.beaten_iff hwon).mpr hprobed⟩
        -- The candidate tried after the failed ones is the one ranked after them.
        have hsame := List.prefix_of_prefix_length_le hnext hranked (by simp)
        simpa using hsame.eq_of_length (by simp)
  | pathRecovery inner => exact absurd hchosen hmoved
  | initial => cases hstep
  | manual => cases hstep
  | healthFailures bookedAt => cases hstep
  | egressChange => cases hstep
  | subscriptionChange refreshed => cases hstep
  | site nodeBefore active => cases hstep

/-- The newest event is an install with this property. -/
def Sample.newest (f : ActiveNode → Option ActiveNode → Cause → Bool) : History → Bool
  | .installed new old cause :: _ => f new old cause
  | _ => false

theorem Sample.of_newest {f : ActiveNode → Option ActiveNode → Cause → Bool} {hist : History}
    (h : Sample.newest f hist = true) : ∃ new old cause older,
      hist = [] ++ .installed new old cause :: older ∧ f new old cause = true := by
  unfold Sample.newest at h
  split at h
  · exact ⟨_, _, _, _, rfl, h⟩
  · cases h

/-- An outside in which only node B is fast. -/
def Sample.slow : Outside := { Sample.fine with rtts := fun node => some (if node = "B" then 1 else 100) }

def Sample.challengerTasks : List Task := [.activateInitial "web", .probeLoop 1]

/-- The class starts on A, and a probe round moves it to the faster B. -/
theorem challenger_law_moved : ∃ moves last new old, ∃ challenge : Challenge,
    (daemon (Sample.env Sample.web) (Sample.assign Sample.challengerTasks) (Sample.wideWorld Sample.web)).Run
      moves last ∧ (last.shared.runtime "web").active = some new ∧
    new.node.name = "B" ∧ challenge.Lawful (Sample.env Sample.web) new old := by
  obtain ⟨moves, last, run, _, hlast⟩ := Pool.exec_reaches
    (Sample.steps 0 28 Sample.fine ++ Sample.steps 1 56 Sample.slow)
    (daemon (Sample.env Sample.web) (Sample.assign Sample.challengerTasks) (Sample.wideWorld Sample.web))
    (fun pool => Sample.newest (fun new old cause => (pool.shared.runtime "web").active = some new &&
      new.node.name = "B" && old.map (·.node.name) = some "A" && cause.hysteresis.any fun step =>
        step.2.1.active = some step.1.current && step.1.currentStats.isSome &&
          step.2.2 ++ [step.1.challenger] <+: step.2.1.ranking (Sample.env Sample.web) "web")
      (pool.shared.trail.hist "web")) (by decide +kernel)
  obtain ⟨new, old, cause, older, hhist, hevent⟩ := Sample.of_newest hlast
  simp only [Bool.and_eq_true, decide_eq_true_eq, Option.any_eq_true] at hevent
  obtain ⟨⟨⟨hactive, hnew⟩, hold⟩, ⟨challenge, field, failed⟩, hstep, ⟨hincumbent, hknown⟩, hranked⟩ := hevent
  refine ⟨moves, last, new, old, challenge, run, hactive, hnew, ?_⟩
  have hmem : "web" ∈ (Sample.env Sample.web).classes := by decide +kernel
  exact (challenger_law_iff (Sample.wide_started Sample.web) run hmem hhist hstep (by simp [hnew, hold])).mpr
    ⟨hincumbent, hranked, .inl hknown⟩

/-- The challenger fails its pre-check and a node that did not beat the incumbent is installed. -/
theorem challenger_law_broken : ∃ moves last new old cause older, ∃ challenge : Challenge, ∃ field failed,
    (daemon (Sample.env Sample.web) (Sample.assign Sample.challengerTasks) (Sample.wideWorld Sample.web)).Run
      moves last ∧
    last.shared.trail.hist "web" = [] ++ .installed new old cause :: older ∧
    cause.hysteresis = some (challenge, field, failed) ∧
    old.map (·.node.name) ≠ some new.node.name ∧ ¬ challenge.Lawful (Sample.env Sample.web) new old := by
  obtain ⟨moves, last, run, _, hlast⟩ := Pool.exec_reaches
    (Sample.steps 0 28 Sample.fine ++ Sample.steps 1 34 Sample.slow ++
      Sample.steps 1 1 { Sample.slow with status := fun _ => none } ++ Sample.steps 1 15 Sample.slow)
    (daemon (Sample.env Sample.web) (Sample.assign Sample.challengerTasks) (Sample.wideWorld Sample.web))
    (fun pool => Sample.newest (fun new old cause => new.node.name = "C" && old.map (·.node.name) = some "A" &&
      cause.hysteresis.any fun step => step.1.challenger = "B") (pool.shared.trail.hist "web")) (by decide +kernel)
  obtain ⟨new, old, cause, older, hhist, hevent⟩ := Sample.of_newest hlast
  simp only [Bool.and_eq_true, decide_eq_true_eq, Option.any_eq_true] at hevent
  obtain ⟨⟨hnew, hold⟩, ⟨challenge, field, failed⟩, hstep, hchallenger⟩ := hevent
  refine ⟨moves, last, new, old, cause, older, challenge, field, failed, run, hhist, hstep,
    by simp [hnew, hold], ?_⟩
  intro hlawful
  have hname := hlawful.challenger
  rw [hnew, hchallenger] at hname
  exact absurd hname (by decide)

/-! ### Pinned classes -/

/-- Startup or an operator asked for the install. -/
def Cause.requested : Cause → Bool
  | .initial | .manual | .subscriptionChange _ | .site _ _ => true
  | .healthFailures _ | .challengerWins _ _ _ | .egressChange | .pathRecovery _ => false

/-- Health, probes and egress changes leave a pinned class on the node it is on. -/
theorem Chosen.pinned {env : Env} {cls : String} {new : Node} {old : ActiveNode} {cause : Cause}
    (h : Chosen env cls new (some old) cause) (hpinned : env.cfg.classAutoSwitch cls = false)
    (hcause : cause.requested = false) : new.name = old.node.name := by
  have hmoving : ¬ env.cfg.classAutoSwitch cls := by simp [hpinned]
  cases cause with
  | healthFailures bookedAt => exact absurd (h.2 rfl) hmoving
  | challengerWins challenge field failed => exact absurd h.2.1 hmoving
  | egressChange => exact congrArg Node.name (Option.some.inj h).symm
  | pathRecovery cause => exact (Option.some.inj h).symm
  | initial => cases hcause
  | manual => cases hcause
  | subscriptionChange refreshed => cases hcause
  | site nodeBefore activeAtLock => cases hcause

/-- Between two moments of a run at which nobody holds the class, a pinned class with an active node keeps the node's name, unless startup or an operator has asked for an install. -/
theorem pinned_node_kept {env : Env} {w : World} (hstart : Started env w) {tasks : Nat → Task}
    {before after : List (Move World)} {mid last : Pool World Outside Reply}
    (run : (daemon env tasks w).Run before mid) (rest : mid.Run after last) {cls : String}
    (hcls : cls ∈ env.classes) (hpinned : env.cfg.classAutoSwitch cls = false)
    (hmid : mid.shared.locks (.cls cls) = .free) (hlast : last.shared.locks (.cls cls) = .free)
    {active : ActiveNode} (hactive : (mid.shared.runtime cls).active = some active)
    (hunasked : ∀ newer, last.shared.trail.hist cls = newer ++ mid.shared.trail.hist cls →
      ∀ new old cause, .installed new old cause ∈ newer → cause.requested = false) :
    ∃ active', (last.shared.runtime cls).active = some active' ∧ active'.node.name = active.node.name := by
  obtain ⟨newer, hnewer⟩ := reachable_hist hstart run rest cls
  have hfact : History.Fact (env.law cls) (last.shared.trail.hist cls) :=
    (reachable_inv hstart (run.append rest)).history cls hcls
  rw [reachable_last hstart (run.append rest) hcls hlast]
  rw [reachable_last hstart run hcls hmid] at hactive
  rw [← hnewer] at hfact ⊢
  refine hfact.lastActive_keeps (X := fun path => path.node.name = active.node.name) ⟨active, hactive, rfl⟩ ?_
  intro new old cause hmem hchosen hold
  have hkept : Chosen env cls new.node (some old) cause := hchosen
  exact (hkept.pinned hpinned (hunasked newer hnewer.symm new old cause hmem)).trans hold

def Sample.pinned : List (String × ClassConfig) := [("web", ⟨"127.0.0.1:1080", some ⟨none, some false⟩, none⟩)]

/-- An egress change rebuilds the path of a pinned class on its node. -/
theorem pinned_node_rebuilt : ∃ before mid after last active active',
    (daemon (Sample.env Sample.pinned) (Sample.assign [.activateInitial "web", .egressLoop 1])
      (Sample.world Sample.pinned)).Run before mid ∧ mid.Run after last ∧
    (mid.shared.runtime "web").active = some active ∧ (last.shared.runtime "web").active = some active' ∧
    active' ≠ active ∧ active'.node.name = active.node.name := by
  obtain ⟨before, mid, after, last, run, rest, hends⟩ := Pool.exec_reaches_mid
    (Sample.steps 0 28 Sample.fine) (Sample.steps 1 37 Sample.fine)
    (daemon (Sample.env Sample.pinned) (Sample.assign [.activateInitial "web", .egressLoop 1])
      (Sample.world Sample.pinned))
    (fun mid last => mid.shared.locks (.cls "web") = .free && last.shared.locks (.cls "web") = .free &&
      (mid.shared.runtime "web").active.isSome &&
      (last.shared.runtime "web").active ≠ (mid.shared.runtime "web").active &&
      (last.shared.trail.hist "web").length = (mid.shared.trail.hist "web").length + 1 &&
      Sample.newest (fun _ _ cause => !cause.requested) (last.shared.trail.hist "web")) (by decide +kernel)
  simp only [Bool.and_eq_true, decide_eq_true_eq] at hends
  obtain ⟨⟨⟨⟨⟨hmid, hlast⟩, hsome⟩, hmoved⟩, hlength⟩, hhead⟩ := hends
  obtain ⟨_, _, cause, older, hhist, hunasked⟩ := Sample.of_newest hhead
  obtain ⟨active, hactive⟩ := Option.isSome_iff_exists.mp hsome
  have hmem : "web" ∈ (Sample.env Sample.pinned).classes := by decide +kernel
  have hpinned : (Sample.env Sample.pinned).cfg.classAutoSwitch "web" = false :=
    Config.classAutoSwitch_eq_iff.mpr (.inl ⟨⟨"127.0.0.1:1080", some ⟨none, some false⟩, none⟩, _, by decide +kernel, rfl, rfl⟩)
  obtain ⟨active', hactive', hname⟩ := pinned_node_kept (Sample.started Sample.pinned) run rest hmem
    hpinned hmid hlast hactive fun newer hnewer new old cause hmem => by
      -- One event is new, and it is the head.
      rw [hnewer, List.length_append] at hlength
      obtain ⟨event, rfl⟩ := List.length_eq_one_iff.mp (show newer.length = 1 by omega)
      rw [hnewer] at hhist
      cases List.mem_singleton.mp hmem
      cases (List.cons.inj hhist).1
      simpa using hunasked
  refine ⟨before, mid, after, last, active, active', run, rest, hactive, hactive', ?_, hname⟩
  rintro rfl
  exact hmoved (hactive'.trans hactive.symm)

/-! ### Regions -/

/-- Nobody named the node: startup, health, probes, an egress change, or a refresh of the active subscription chose it. -/
def Cause.automatic : Cause → Bool
  | .initial | .healthFailures _ | .challengerWins _ _ _ | .egressChange | .pathRecovery _ => true
  | .subscriptionChange refreshed => refreshed
  | .manual | .site _ _ => false

/-- The last resort of a recovery or of the hysteresis step, and an egress change, rebuild the active node. -/
def Cause.rebuilds : Cause → Bool
  | .egressChange | .pathRecovery _ => true
  | _ => false

/-- Every automatic install of every run puts a node of the class's regions in its route, or rebuilds the node that was active. -/
theorem region_law {env : Env} {w : World} (hstart : Started env w) {tasks : Nat → Task}
    {moves : List (Move World)} {last : Pool World Outside Reply} (run : (daemon env tasks w).Run moves last)
    {cls : String} (hcls : cls ∈ env.classes) (hregions : env.cfg.classRegions cls ≠ [])
    {new : ActiveNode} {old : Option ActiveNode} {cause : Cause} {newer older : History}
    (hhist : last.shared.trail.hist cls = newer ++ .installed new old cause :: older)
    (hauto : cause.automatic = true) :
    (∃ region ∈ env.cfg.classRegions cls, contains new.node.name region) ∨
      cause.rebuilds = true ∧ lastActive older = old ∧ old.map (·.node.name) = some new.node.name := by
  have heligible : Eligible env cls new.node →
      ∃ region ∈ env.cfg.classRegions cls, contains new.node.name region := by
    rintro (hempty | hmatch)
    · exact absurd (List.isEmpty_iff.mp hempty) hregions
    · exact List.any_eq_true.mp hmatch
  obtain ⟨hold, hchosen⟩ := reachable_install hstart run hcls hhist
  cases cause with
  | initial => exact .inl (heligible hchosen)
  | healthFailures bookedAt => exact .inl (heligible hchosen.1)
  | challengerWins challenge field failed => exact .inl (heligible hchosen.1)
  | subscriptionChange refreshed => exact .inl (heligible (hchosen hauto))
  | egressChange =>
      refine .inr ⟨rfl, hold.symm, ?_⟩
      have hname := congrArg (Option.map Node.name) (show old.map (·.node) = some new.node from hchosen)
      simpa using hname
  | pathRecovery cause => exact .inr ⟨rfl, hold.symm, hchosen⟩
  | manual => cases hauto
  | site nodeBefore activeAtLock => cases hauto

/-- One class that allows only the second node. -/
def Sample.regional : List (String × ClassConfig) :=
  [("web", ⟨"127.0.0.1:1080", some ⟨some ["B"], none⟩, none⟩)]

/-- An initial activation passes over the first node of the pool. -/
theorem region_law_initial : ∃ moves last new old cause older,
    (daemon (Sample.env Sample.regional) (Sample.assign [.activateInitial "web"])
      (Sample.world Sample.regional)).Run moves last ∧
    last.shared.trail.hist "web" = [] ++ .installed new old cause :: older ∧ cause = .initial ∧
    contains new.node.name "B" := by
  obtain ⟨moves, last, run, _, hlast⟩ := Pool.exec_reaches (Sample.steps 0 28 Sample.fine)
    (daemon (Sample.env Sample.regional) (Sample.assign [.activateInitial "web"]) (Sample.world Sample.regional))
    (fun pool => Sample.newest (fun _ _ cause => cause = .initial) (pool.shared.trail.hist "web"))
    (by decide +kernel)
  obtain ⟨new, old, cause, older, hhist, hcause⟩ := Sample.of_newest hlast
  rw [decide_eq_true_eq] at hcause
  refine ⟨moves, last, new, old, cause, older, run, hhist, hcause, ?_⟩
  have hmem : "web" ∈ (Sample.env Sample.regional).classes := by decide +kernel
  have hregions : (Sample.env Sample.regional).cfg.classRegions "web" = ["B"] :=
    Config.classRegions_eq_iff.mpr (.inl ⟨⟨"127.0.0.1:1080", some ⟨some ["B"], none⟩, none⟩, _, by decide +kernel, rfl, rfl⟩)
  rcases region_law (Sample.started Sample.regional) run hmem (by simp [hregions]) hhist (by simp [hcause, Cause.automatic])
    with h | h
  · simpa [hregions] using h
  · simp [hcause, Cause.rebuilds] at h

end Causeway

import Causeway.Proof.Selection

/-!
# What a recovery rests on

A recovery acts on the streak of failing verdicts that a booking has found. A verdict is sampled before the class is taken for its booking, and the class is taken again for the recovery, so the streak says something about the active path only if nothing was installed in between.
-/

namespace Causeway

open Concurrent History

namespace History

def sinceInstall : History → History
  | [] => []
  | .installed _ _ _ :: _ => []
  | .booked samples sampledAt ok :: older => .booked samples sampledAt ok :: sinceInstall older

/-- How many events there were once the last install had happened. -/
def installedAt (hist : History) : Nat := hist.length - (sinceInstall hist).length

/-- A failing verdict all of whose samples went through this path, the first of them after this many events. -/
def FailedThrough (path : ActiveNode) (since : Nat) (event : ClassEvent) : Prop :=
  ∃ samples sampledAt, event = .booked samples sampledAt false ∧ since ≤ sampledAt ∧ samples ≠ [] ∧
    ∀ sample ∈ samples, sample = .through (some path.pathConnections)

/-- That many verdicts in a row, all of them failing and measured through this path after it was installed. -/
def Evidence (threshold : Nat) (path : ActiveNode) (hist : History) : Prop :=
  lastActive hist = some path ∧
    ∃ newer verdicts rest, sinceInstall hist = newer ++ verdicts ++ rest ∧ threshold ≤ verdicts.length ∧
      ∀ event ∈ verdicts, FailedThrough path (installedAt hist) event

/-- Every sample of a verdict came to the route, and nothing was installed between the first of them and the booking. -/
def Measured (older : History) (samples : List Passage) (sampledAt : Nat) : Prop :=
  .unreached ∉ samples ∧ QuietSince older sampledAt

instance (older : History) (samples : List Passage) (sampledAt : Nat) : Decidable (Measured older samples sampledAt) :=
  inferInstanceAs (Decidable (_ ∧ _))

/-- Every failing verdict since the last install was measured. -/
def Prompt : History → Prop
  | [] => True
  | .installed _ _ _ :: _ => True
  | .booked samples sampledAt ok :: older => (ok = false → Measured older samples sampledAt) ∧ Prompt older

instance decidablePrompt : (hist : History) → Decidable (Prompt hist)
  | [] => .isTrue trivial
  | .installed _ _ _ :: _ => .isTrue trivial
  | .booked samples sampledAt ok :: older =>
      have := decidablePrompt older
      inferInstanceAs (Decidable ((ok = false → Measured older samples sampledAt) ∧ Prompt older))

variable {hist older newer : History} {threshold : Nat}

theorem sinceInstall_append (h : installs newer = 0) : sinceInstall (newer ++ older) = newer ++ sinceInstall older := by
  induction newer with
  | nil => rfl
  | cons event newer ih =>
      cases event with
      | installed new old cause => simp [installs] at h
      | booked samples sampledAt ok => simp [sinceInstall, ih h]

theorem Prompt.verdict {samples : List Passage} {sampledAt : Nat} (hnone : installs newer = 0)
    (h : Prompt (newer ++ .booked samples sampledAt false :: older)) : Measured older samples sampledAt := by
  induction newer with
  | nil => exact h.1 rfl
  | cons event newer ih =>
      cases event with
      | installed new old cause => simp [installs] at hnone
      | booked samples sampledAt ok => exact ih hnone h.2

theorem installedAt_append (h : installs newer = 0) : installedAt (newer ++ older) = installedAt older := by
  simp only [installedAt, sinceInstall_append h, List.length_append]
  omega

/-- Without an install since then, the last install had happened by then. -/
theorem installedAt_le_of_quiet {count : Nat} (hquiet : QuietSince hist count) : installedAt hist ≤ count := by
  obtain ⟨newer, hnewer⟩ := atCount_suffix hist count
  have hnone : installs newer = 0 := by
    have hcount : installs hist = installs (atCount hist count) := hquiet
    rw [← hnewer, installs_append] at hcount
    simp only [hnewer] at hcount
    omega
  have hlength : (atCount hist count).length ≤ count := by
    rw [atCount, List.length_drop]
    omega
  rw [← hnewer, installedAt_append hnone, installedAt]
  omega

/-- Every sample of a measured verdict went through the path that is in the route at its booking. -/
theorem EventFact.through {law : Law} {samples : List Passage} {sampledAt : Nat} {ok : Bool}
    (h : EventFact law older (.booked samples sampledAt ok)) (hmeasured : Measured older samples sampledAt) :
    ∀ sample ∈ samples, sample = .through (lastInstalled older) := by
  intro sample hsample
  cases sample with
  | unreached => exact absurd hsample hmeasured.1
  | through path =>
      obtain ⟨seen, hseen, hcount, rfl⟩ := h.2 path hsample
      congr 1
      refine (lastInstalled_of_suffix hseen (le_antisymm ?_ (installs_le_of_suffix hseen))).symm
      have hatCount : installs older = installs (atCount older sampledAt) := hmeasured.2
      rw [hatCount, atCount_of_le hseen hcount]
      exact installs_le_of_suffix (atCount_suffix seen sampledAt)

/-- The streak is a row of failing verdicts since the last install. -/
theorem streak_verdicts (hist : History) : ∃ verdicts rest, hist = verdicts ++ rest ∧
    verdicts.length = streak hist ∧ installs verdicts = 0 ∧
    ∀ event ∈ verdicts, ∃ samples sampledAt, event = .booked samples sampledAt false := by
  induction hist with
  | nil => exact ⟨[], [], rfl, rfl, rfl, by simp⟩
  | cons event hist ih =>
      cases event with
      | installed new old cause => exact ⟨[], _, rfl, rfl, rfl, by simp⟩
      | booked samples sampledAt ok =>
          cases ok with
          | true => exact ⟨[], _, rfl, rfl, rfl, by simp⟩
          | false =>
              obtain ⟨verdicts, rest, hsplit, hlength, hnone, hfail⟩ := ih
              refine ⟨.booked samples sampledAt false :: verdicts, rest, by rw [hsplit]; rfl, ?_, hnone, ?_⟩
              · simp [streak, hlength]
              · exact List.forall_mem_cons.mpr ⟨⟨samples, sampledAt, rfl⟩, hfail⟩

/-- A streak of prompt verdicts is evidence against the path that is still active. -/
theorem evidence_of_justified {law : Law} {path : ActiveNode} {bookedAt : Nat} (hfact : Fact law hist)
    (hactive : lastActive hist = some path) (hjustified : Justified threshold hist bookedAt)
    (hdecided : QuietSince hist bookedAt) (hprompt : Prompt hist) : Evidence threshold path hist := by
  obtain ⟨newer, hnewer⟩ := atCount_suffix hist bookedAt
  obtain ⟨verdicts, rest, hsplit, hlength, hnone, hfail⟩ := streak_verdicts (atCount hist bookedAt)
  have hquiet : installs newer = 0 := by
    have hcount : installs hist = installs (atCount hist bookedAt) := hdecided
    rw [← hnewer, installs_append] at hcount
    simp only [hnewer] at hcount
    omega
  have hthen : lastActive (atCount hist bookedAt) = some path := by
    rw [← lastActive_of_suffix (atCount_suffix hist bookedAt) hdecided]
    exact hactive
  have hreason : threshold ≤ streak (atCount hist bookedAt) := by
    refine hjustified.2.resolve_left ?_
    simp [lastInstalled, hthen]
  have hall : hist = (newer ++ verdicts) ++ rest := by
    rw [List.append_assoc, ← hsplit, hnewer]
  refine ⟨hactive, newer, verdicts, sinceInstall rest, ?_, hlength ▸ hreason, fun event hevent => ?_⟩
  · conv_lhs => rw [hall]
    exact sinceInstall_append (by rw [installs_append, hquiet, hnone])
  · -- Between the verdict and the recovery there are only further verdicts.
    obtain ⟨samples, sampledAt, rfl⟩ := hfail event hevent
    obtain ⟨front, back, rfl⟩ := List.append_of_mem hevent
    have hat : hist = (newer ++ front) ++ .booked samples sampledAt false :: (back ++ rest) := by
      rw [hall]
      simp
    have hfront : installs (newer ++ front) = 0 := by
      rw [installs_append] at hnone ⊢
      omega
    have hmeasured : Measured (back ++ rest) samples sampledAt := (hat ▸ hprompt).verdict hfront
    have hbooked : EventFact law (back ++ rest) (.booked samples sampledAt false) := (hat ▸ hfact).event
    have hsame : installs ((newer ++ front) ++ [.booked samples sampledAt false]) = 0 := by
      rw [installs_append, hfront]
      rfl
    have hlast : hist = ((newer ++ front) ++ [.booked samples sampledAt false]) ++ (back ++ rest) := by
      rw [hat]
      simp
    refine ⟨samples, sampledAt, rfl, ?_, hbooked.1, fun sample hsample => ?_⟩
    · rw [hlast, installedAt_append hsame]
      exact installedAt_le_of_quiet hmeasured.2
    · rw [hbooked.through hmeasured sample hsample, lastInstalled]
      have hback : lastActive (back ++ rest) = some path := by
        rw [← hactive, hlast]
        refine (lastActive_of_suffix (List.suffix_append _ _) ?_).symm
        rw [installs_append, hsame, Nat.zero_add]
      rw [hback]
      rfl

end History

/-- In every run a failing verdict is counted against the path it was sampled through, and a recovery replaces a path only on enough of them in a row, provided that every sample of a verdict comes to the route and that nothing is installed on the class between the first of them, the booking and the recovery. -/
theorem recovery_evidence {env : Env} {w : World} (hstart : Started env w) {tasks : Nat → Task}
    {moves : List (Move World)} {last : Pool World Outside Reply} (run : (daemon env tasks w).Run moves last)
    {cls : String} (hcls : cls ∈ env.classes) :
    (∀ newer samples sampledAt older, last.shared.trail.hist cls = newer ++ .booked samples sampledAt false :: older →
      Measured older samples sampledAt → ∀ sample ∈ samples, sample = .through (lastInstalled older)) ∧
    ∀ newer new old cause older bookedAt, last.shared.trail.hist cls = newer ++ .installed new (some old) cause :: older →
      cause.recovery = some bookedAt → QuietSince older bookedAt → Prompt older →
      lastActive (atCount older bookedAt) = some old ∧ Evidence env.cfg.health.failThreshold old older := by
  have hfact : History.Fact (env.law cls) (last.shared.trail.hist cls) := (reachable_inv hstart run).history cls hcls
  constructor
  · intro newer samples sampledAt older hhist hmeasured
    exact (hhist ▸ hfact).event.through hmeasured
  · intro newer new old cause older bookedAt hhist hcause hdecided hprompt
    rw [hhist] at hfact
    have hevent : EventFact (env.law cls) older (.installed new (some old) cause) := hfact.event
    have holder : History.Fact (env.law cls) older := (hfact.of_suffix (List.suffix_append newer _)).2
    have hactive : lastActive older = some old := hevent.1.symm
    refine ⟨?_, evidence_of_justified holder hactive (hevent.2.2 bookedAt hcause) hdecided hprompt⟩
    rw [← lastActive_of_suffix (atCount_suffix older bookedAt) hdecided]
    exact hactive

def Sample.healthTasks : List Task := [.activateInitial "web", .healthLoop "web" 2, .switch "web" "B"]

/-- A path on which every check fails. -/
def Sample.failing : Outside := { Sample.fine with status := fun _ => none }

/-- Two failing ticks on A, up to the decision to recover. -/
def Sample.decidedSchedule : List (Nat × Outside) := Sample.steps 0 28 Sample.fine ++ Sample.steps 1 28 Sample.failing

/-- Two failing verdicts on A, and then the recovery that replaces it. -/
theorem recovery_evidence_streak : ∃ moves last new old cause older,
    (daemon (Sample.env Sample.web) (Sample.assign Sample.healthTasks) (Sample.wideWorld Sample.web)).Run
      moves last ∧
    last.shared.trail.hist "web" = [] ++ .installed new (some old) cause :: older ∧
    cause.recovery = some 3 ∧ Evidence 2 old older := by
  obtain ⟨moves, last, run, _, hlast⟩ := Pool.exec_reaches
    (Sample.decidedSchedule ++ Sample.steps 1 20 Sample.fine)
    (daemon (Sample.env Sample.web) (Sample.assign Sample.healthTasks) (Sample.wideWorld Sample.web))
    (fun pool => Sample.newest (fun _ old cause => old.isSome && cause.recovery = some 3)
      (pool.shared.trail.hist "web") && QuietSince (pool.shared.trail.hist "web").tail 3 &&
      Prompt (pool.shared.trail.hist "web").tail) (by decide +kernel)
  simp only [Bool.and_eq_true, decide_eq_true_eq] at hlast
  obtain ⟨⟨hnewest, hquiet⟩, hprompt⟩ := hlast
  obtain ⟨new, old, cause, older, hhist, hevent⟩ := Sample.of_newest hnewest
  simp only [Bool.and_eq_true, decide_eq_true_eq] at hevent
  obtain ⟨hold, hcause⟩ := hevent
  obtain ⟨path, rfl⟩ := Option.isSome_iff_exists.mp hold
  rw [hhist] at hquiet hprompt
  have hmem : "web" ∈ (Sample.env Sample.web).classes := by decide +kernel
  exact ⟨moves, last, new, path, cause, older, run, hhist, hcause,
    ((recovery_evidence (Sample.wide_started Sample.web) run hmem).2 _ _ _ _ _ _ hhist hcause hquiet hprompt).2⟩

/-- An operator switches to B between the decision and the recovery, which replaces B without a single verdict on it. -/
theorem recovery_without_evidence : ∃ moves last new old cause older,
    (daemon (Sample.env Sample.web) (Sample.assign Sample.healthTasks) (Sample.wideWorld Sample.web)).Run
      moves last ∧
    last.shared.trail.hist "web" = [] ++ .installed new (some old) cause :: older ∧
    old.node.name = "B" ∧ cause.recovery = some 3 ∧ ¬ Evidence 2 old older := by
  obtain ⟨moves, last, run, _, hlast⟩ := Pool.exec_reaches
    (Sample.decidedSchedule ++ Sample.steps 2 31 Sample.fine ++ Sample.steps 1 20 Sample.fine)
    (daemon (Sample.env Sample.web) (Sample.assign Sample.healthTasks) (Sample.wideWorld Sample.web))
    (fun pool => Sample.newest (fun _ old cause => old.map (·.node.name) = some "B" && cause.recovery = some 3)
      (pool.shared.trail.hist "web") && sinceInstall (pool.shared.trail.hist "web").tail = []) (by decide +kernel)
  simp only [Bool.and_eq_true, decide_eq_true_eq] at hlast
  obtain ⟨hnewest, hnone⟩ := hlast
  obtain ⟨new, old, cause, older, hhist, hevent⟩ := Sample.of_newest hnewest
  simp only [Bool.and_eq_true, decide_eq_true_eq] at hevent
  obtain ⟨hold, hcause⟩ := hevent
  obtain ⟨path, rfl, hname⟩ := Option.map_eq_some_iff.mp hold
  refine ⟨moves, last, new, path, cause, older, run, hhist, hname, hcause, ?_⟩
  rintro ⟨_, front, verdicts, rest, hsplit, hlength, _⟩
  rw [hhist] at hnone
  have hempty : front ++ verdicts ++ rest = [] := hsplit.symm.trans hnone
  simp only [List.append_eq_nil_iff] at hempty
  simp [hempty.1.2] at hlength

end Causeway

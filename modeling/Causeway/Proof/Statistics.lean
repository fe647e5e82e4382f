import Causeway.Proof.Profiles

/-!
# Statistics of different profiles

The active profile's statistics live in the flat view and the others' in the inactive map. Whatever order profiles are activated, probed, invalidated and removed in, each keeps its own, and there is one copy of each.
-/

namespace Causeway

/-- The operations that move or change statistics. -/
inductive StatsOp where
  | activate (name : String)
  /-- Anything done to the flat view. -/
  | flat (f : BTreeMap NodeStats → BTreeMap NodeStats)
  | invalidate (name identity : String)
  | remove (name : String)

namespace StatsOp

/-- `record_probe` on the flat view. -/
def recordProbe (node : String) (rtt : Option ℚ) (alpha : ℚ) (now : Int) : StatsOp :=
  .flat fun nodes => nodes.upsert node fun stats => stats.recordProbe rtt alpha now

def run (st : StateFile) : StatsOp → StateFile
  | .activate name => (st.activateSubscription name).2
  | .flat f => { st with nodes := f st.nodes }
  | .invalidate name identity => st.invalidateSubscriptionSource name identity
  | .remove name => st.removeSubscription name

/-- The operation is none on the flat view of this profile, and does not invalidate or remove it. -/
def Spares (name : String) (st : StateFile) : StatsOp → Prop
  | .activate _ => True
  | .flat _ => st.activeSubscription ≠ some name
  | .invalidate other _ | .remove other => other ≠ name

/-- Each operation of a sequence spares the profile when its turn comes. -/
def AllSpare (name : String) : StateFile → List StatsOp → Prop
  | _, [] => True
  | st, op :: ops => op.Spares name st ∧ AllSpare name (op.run st) ops

end StatsOp

/-- A state that a daemon may begin with: the default one, or one that a file was loaded into. -/
def StateFile.Initial (st : StateFile) : Prop := st = default ∨ ∃ wire : StateWire, wire.load = .ok st

namespace StateFile

variable {st : StateFile} {name other : String}

theorem Tidy.default : (default : StateFile).Tidy :=
  ⟨fun _ h => (nomatch h), fun h => absurd h (by decide)⟩

theorem Tidy.load {wire : StateWire} (h : wire.load = .ok st) : st.Tidy := by
  cases wire with
  | v1 wire =>
      simp only [StateWire.load] at h
      split at h
      · cases h
        exact ⟨fun _ h => (nomatch h), fun _ => ⟨rfl, rfl⟩⟩
      · cases h
  | v2 wire =>
      simp only [StateWire.load] at h
      split at h
      · cases h
      rename_i hversion
      have hcurrent : wire.version ≠ legacyStateVersion := by
        rw [not_not.mp hversion]
        decide
      split at h
      · cases h
      split at h
      · split at h
        · cases h
          refine ⟨fun active hactive => ?_, fun hlegacy => absurd hlegacy hcurrent⟩
          rename_i hsome _ _ _
          rw [hsome] at hactive
          cases hactive
          simp
        · cases h
      · cases h
        rename_i hnone
        exact ⟨fun active hactive => by simp [hnone] at hactive, fun hlegacy => absurd hlegacy hcurrent⟩

theorem Initial.tidy (h : st.Initial) : st.Tidy := by
  rcases h with rfl | ⟨wire, hload⟩
  · exact .default
  · exact .load hload

theorem Tidy.flat (h : st.Tidy) (f : BTreeMap NodeStats → BTreeMap NodeStats) :
    ({ st with nodes := f st.nodes } : StateFile).Tidy := ⟨h.single, h.unmigrated⟩

theorem Tidy.run (h : st.Tidy) (op : StatsOp) : (op.run st).Tidy := by
  cases op with
  | activate name => exact h.activate
  | flat f => exact h.flat f
  | invalidate name identity => exact h.invalidate
  | remove name => exact h.remove

theorem Tidy.foldl (h : st.Tidy) (ops : List StatsOp) : (ops.foldl StatsOp.run st).Tidy := by
  induction ops generalizing st with
  | nil => exact h
  | cons op ops ih => exact ih (h.run op)

/-- What is done to the flat view is done to no other profile. -/
theorem nodes_flat_of_ne (f : BTreeMap NodeStats → BTreeMap NodeStats) (h : st.activeSubscription ≠ some other) :
    ({ st with nodes := f st.nodes } : StateFile).nodesForSubscription other = st.nodesForSubscription other := by
  simp [nodesForSubscription, h]

/-- The flat view of an active profile has that profile's statistics. -/
theorem stats_of_active (h : st.activeSubscription = some name) : (st.profile name).stats = st.nodes := by
  simp [profile, Profile.stats, nodesForSubscription, h]

/-- One operation that spares a profile leaves it the statistics it has. -/
theorem stats_run (htidy : st.Tidy) {op : StatsOp} (h : op.Spares name st)
    (hversion : st.version ≠ legacyStateVersion) :
    ((op.run st).profile name).stats = (st.profile name).stats ∧ (op.run st).version ≠ legacyStateVersion := by
  cases op with
  | activate other =>
      refine ⟨?_, activate_version⟩
      by_cases heq : name = other
      · subst heq
        exact (congrArg Profile.stats (profile_activate_self hversion)).trans rfl
      · exact congrArg Profile.stats (profile_activate_of_ne htidy.unmigrated heq)
  | flat f => exact ⟨congrArg (·.getD ∅) (nodes_flat_of_ne f h), hversion⟩
  | invalidate other identity => exact ⟨congrArg Profile.stats (profile_invalidate_of_ne (Ne.symm h)), hversion⟩
  | remove other => exact ⟨congrArg Profile.stats (profile_remove_of_ne (Ne.symm h)), hversion⟩

theorem stats_foldl (htidy : st.Tidy) {ops : List StatsOp} (h : StatsOp.AllSpare name st ops)
    (hversion : st.version ≠ legacyStateVersion) :
    ((ops.foldl StatsOp.run st).profile name).stats = (st.profile name).stats ∧
      (ops.foldl StatsOp.run st).version ≠ legacyStateVersion := by
  induction ops generalizing st with
  | nil => exact ⟨rfl, hversion⟩
  | cons op ops ih =>
      obtain ⟨hop, hrest⟩ := h
      obtain ⟨hstats, hversion⟩ := stats_run htidy hop hversion
      obtain ⟨hrest, hlast⟩ := ih (htidy.run op) hrest hversion
      exact ⟨hrest.trans hstats, hlast⟩

end StateFile

/-- In every state that a sequence of operations leads to: the active profile has one copy; what is done to the flat view, and an activation or an invalidation, leave every other profile its statistics; and a profile that is active now has exactly its statistics back when it is activated again after operations that spare it. -/
theorem statistics_isolated {initial st : StateFile} (hinitial : initial.Initial) {ops : List StatsOp}
    (hst : ops.foldl StatsOp.run initial = st) :
    (∀ name, st.activeSubscription = some name → st.subscriptionNodes[name]? = none) ∧
    (∀ f other, st.activeSubscription ≠ some other →
      ((StatsOp.flat f).run st).nodesForSubscription other = st.nodesForSubscription other) ∧
    (∀ name other, other ≠ name →
      ((StatsOp.activate name).run st).nodesForSubscription other = st.nodesForSubscription other ∧
      ∀ identity, ((StatsOp.invalidate name identity).run st).nodesForSubscription other =
        st.nodesForSubscription other) ∧
    ∀ name later, st.activeSubscription = some name → StatsOp.AllSpare name st later →
      ((later ++ [StatsOp.activate name]).foldl StatsOp.run st).activeSubscription = some name ∧
        ((later ++ [StatsOp.activate name]).foldl StatsOp.run st).nodes = st.nodes := by
  have htidy : st.Tidy := hst ▸ hinitial.tidy.foldl ops
  refine ⟨htidy.single, fun f other => StateFile.nodes_flat_of_ne f, fun name other hne => ⟨?_, fun identity => ?_⟩, ?_⟩
  · exact congrArg Profile.nodes (StateFile.profile_activate_of_ne htidy.unmigrated hne)
  · exact congrArg Profile.nodes (StateFile.profile_invalidate_of_ne hne)
  · intro name later hactive hspare
    have hversion : st.version ≠ legacyStateVersion := by
      intro hlegacy
      rw [(htidy.unmigrated hlegacy).1] at hactive
      cases hactive
    obtain ⟨hstats, hlast⟩ := StateFile.stats_foldl htidy hspare hversion
    rw [List.foldl_append]
    refine ⟨StateFile.activate_activeSubscription, ?_⟩
    exact (StateFile.activate_nodes hlast).trans (hstats.trans (StateFile.stats_of_active hactive))

/-- Two profiles with a node of one name: probes of the second leave the first its history. -/
theorem statistics_isolated_twice :
    let st := [StatsOp.activate "home", .recordProbe "A" (some 1) 1 0].foldl StatsOp.run default
    st.nodes["A"]? = some ((default : NodeStats).recordProbe (some 1) 1 0) ∧
      (([StatsOp.activate "work", .recordProbe "A" none 1 0] ++ [StatsOp.activate "home"]).foldl StatsOp.run st).nodes =
        st.nodes := by
  intro st
  have hspare : StatsOp.AllSpare "home" st [.activate "work", .recordProbe "A" none 1 0] := by
    refine ⟨trivial, ?_, trivial⟩
    show (StatsOp.run st (.activate "work")).activeSubscription ≠ some "home"
    rw [StatsOp.run, StateFile.activate_activeSubscription]
    decide
  refine ⟨by decide +kernel, ?_⟩
  exact ((statistics_isolated (.inl rfl) rfl).2.2.2 "home" _ (by decide +kernel) hspare).2

end Causeway

import Causeway.Proof.Trust

/-!
# Updates across a transaction

A transaction clones the state, saves the modified clone and replaces the state by it. It holds every lock an update rests on all the while, so what it replaces is what it cloned; and what it does to the clone drops nothing but what belongs to a changed source.
-/

namespace Causeway

open Concurrent

namespace StateFile

variable {st mid : StateFile} {name identity : String} {previous next : BTreeMap String}
  {freshlyTrusted : Option String}

/-- Beside the profiles, an operation on sources changes nothing. -/
structure SameBeside (st other : StateFile) : Prop where
  version : other.version = st.version
  classes : other.classes = st.classes
  verdicts : other.siteVerdicts = st.siteVerdicts

theorem SameBeside.trans {other last : StateFile} (h : SameBeside st other) (g : SameBeside other last) :
    SameBeside st last :=
  ⟨g.version.trans h.version, g.classes.trans h.classes, g.verdicts.trans h.verdicts⟩

theorem sameBeside_applyEntry {entry : String × String} :
    SameBeside st (applyEntry previous freshlyTrusted st entry) := by
  unfold applyEntry
  dsimp only
  split <;> split <;> exact ⟨rfl, rfl, rfl⟩

theorem sameBeside_catalog : SameBeside st (st.applySubscriptionCatalog previous next freshlyTrusted) := by
  have hremove : SameBeside st (st.removeUnknown next) :=
    foldl_keeps (fun _ _ h => h.trans ⟨rfl, rfl, rfl⟩) _ ⟨rfl, rfl, rfl⟩
  exact foldl_keeps (fun _ _ h => h.trans sameBeside_applyEntry) _ hremove

theorem activate_classes : (st.activateSubscription name).2.classes = st.classes ∧
    (st.activateSubscription name).2.siteVerdicts = st.siteVerdicts := by
  by_cases hversion : st.version = legacyStateVersion
  · rw [activate_legacy hversion]
    exact ⟨rfl, rfl⟩
  · by_cases hactive : st.activeSubscription = some name
    · rw [activate_same hversion hactive]
      exact ⟨rfl, rfl⟩
    · rw [activate_new hversion hactive]
      exact ⟨rfl, rfl⟩

theorem sourceMismatch_congr (h : mid.profile name = st.profile name) :
    mid.sourceMismatch name identity = st.sourceMismatch name identity := by
  have hidentity : mid.subscriptionSourceIdentities[name]? = st.subscriptionSourceIdentities[name]? :=
    congrArg Profile.identity h
  have hpending : mid.pendingSubscriptionSources[name]? = st.pendingSubscriptionSources[name]? :=
    congrArg Profile.pending h
  rw [sourceMismatch, sourceMismatch, hidentity, hpending]

/-- A source that did not change keeps its statistics. -/
theorem nodes_catalog (hnext : next[name]? = some identity) (hlisted : previous[name]? = some identity)
    (hmatch : st.sourceMismatch name identity = false) :
    ((st.applySubscriptionCatalog previous next freshlyTrusted).profile name).nodes = (st.profile name).nodes := by
  obtain ⟨mid, hmid, hfold⟩ := @profile_catalog st name identity previous next freshlyTrusted hnext
  have hsame : mid.sourceMismatch name identity = false := (sourceMismatch_congr hmid).trans hmatch
  rw [hfold, ← hmid]
  simp only [applyEntry, hlisted, hsame, ne_eq, not_true_eq_false, decide_false, Bool.or_self, Bool.false_eq_true,
    if_false]
  split
  · rw [profile_trust_self]
  · rfl

/-- `get_mut` of each planned node, with its displayed failures reset. -/
def resetPlanned (planned : List Planned) (nodes : BTreeMap NodeStats) : BTreeMap NodeStats :=
  planned.foldl (fun nodes p => nodes.adjust p.active.node.name fun stats =>
    { stats with consecutiveHealthFailures := 0 }) nodes

theorem nodes_foldl_planState (planned : List Planned) (st : StateFile) :
    (planned.foldl planState st).nodes = resetPlanned planned st.nodes := by
  induction planned generalizing st with
  | nil => rfl
  | cons p planned ih => exact ih (planState st p)

theorem classes_foldl_planState {planned : List Planned} {cls : String} (h : cls ∉ planned.map (·.cls))
    (st : StateFile) : (planned.foldl planState st).classes[cls]? = st.classes[cls]? := by
  induction planned generalizing st with
  | nil => rfl
  | cons p planned ih =>
      rw [List.map_cons, List.mem_cons, not_or] at h
      rw [List.foldl_cons, ih h.2]
      exact BTreeMap.getElem?_upsert_of_ne _ _ (Ne.symm h.1)

/-- What a transaction leaves as it was: the verdicts, the classes outside its plan, and the statistics of every source that did not change, up to the move of the target into the flat view. -/
structure Kept (previous next : BTreeMap String) (target : String) (planned : List Planned)
    (st last : StateFile) : Prop where
  verdicts : last.siteVerdicts = st.siteVerdicts
  classes : ∀ cls, cls ∉ planned.map (·.cls) → last.classes[cls]? = st.classes[cls]?
  others : st.version ≠ legacyStateVersion → ∀ name identity, name ≠ target → next[name]? = some identity →
    previous[name]? = some identity → st.sourceMismatch name identity = false →
    last.nodesForSubscription name = st.nodesForSubscription name
  target : st.version ≠ legacyStateVersion → ∀ identity, next[target]? = some identity →
    previous[target]? = some identity → st.sourceMismatch target identity = false →
    last.nodes = resetPlanned planned ((st.nodesForSubscription target).getD ∅)

theorem nextState_kept {env : Env} {request : Request} {fresh : Bool} {slot : Option String}
    {planned : List Planned} {now : Int} {last : StateFile}
    (h : nextState env request fresh slot planned now st = some last) :
    ∃ next, request.catalog.sourceIdentities env.sourceIdentity = some next ∧
      Kept ((request.previousCatalog.sourceIdentities env.sourceIdentity).getD ∅) next request.target planned st
        last := by
  obtain ⟨next, hids, rfl⟩ := Option.map_eq_some_iff.mp h
  refine ⟨next, hids, ?_⟩
  generalize (request.previousCatalog.sourceIdentities env.sourceIdentity).getD ∅ = previous
  dsimp only
  generalize (if fresh = true then some request.target else none) = freshlyTrusted
  have hbeside := @sameBeside_catalog st previous next freshlyTrusted
  generalize happlied : st.applySubscriptionCatalog previous next freshlyTrusted = applied at hbeside
  have hversion : st.version ≠ legacyStateVersion → applied.version ≠ legacyStateVersion :=
    fun hst => hbeside.version.trans_ne hst
  have hactivated := @activate_classes applied request.target
  -- Recording the slot changes nothing this is about.
  suffices hkept : ∀ slotted : StateFile, slotted = { (applied.activateSubscription request.target).2 with
      subscriptionCacheSlots := slotted.subscriptionCacheSlots } →
      Kept previous next request.target planned st { planned.foldl planState slotted with updatedUnix := now } by
    cases slot with
    | none => exact hkept _ rfl
    | some slot => exact hkept _ rfl
  intro slotted hslotted
  have hactive : slotted.activeSubscription = some request.target := by
    rw [hslotted]
    exact activate_activeSubscription
  have hplanned := foldl_planState planned slotted
  refine ⟨?_, fun cls hcls => ?_, fun hst name identity hne hnext hlisted hmatch => ?_,
    fun hst identity hnext hlisted hmatch => ?_⟩
  · rw [hplanned, hslotted]
    exact hactivated.2.trans hbeside.verdicts
  · show (planned.foldl planState slotted).classes[cls]? = _
    rw [classes_foldl_planState hcls, hslotted, ← hbeside.classes, ← hactivated.1]
  · have hnodes : slotted.nodesForSubscription name =
        (applied.activateSubscription request.target).2.nodesForSubscription name := by
      rw [hslotted]
      rfl
    have hother := congrArg Profile.nodes
      (@profile_activate_of_ne applied request.target name (fun hno => absurd hno (hversion hst)) hne)
    have hcatalog := @nodes_catalog st name identity previous next freshlyTrusted hnext hlisted hmatch
    rw [happlied] at hcatalog
    have hlast : ({ planned.foldl planState slotted with updatedUnix := now } : StateFile).nodesForSubscription name =
        slotted.nodesForSubscription name := by
      rw [hplanned]
      have hne' : slotted.activeSubscription ≠ some name := by
        rw [hactive]
        simpa using Ne.symm hne
      simp only [nodesForSubscription, if_neg hne']
    rw [hlast, hnodes]
    exact hother.trans hcatalog
  · show (planned.foldl planState slotted).nodes = _
    have hcatalog := @nodes_catalog st request.target identity previous next freshlyTrusted hnext hlisted hmatch
    rw [happlied] at hcatalog
    rw [nodes_foldl_planState, hslotted]
    show resetPlanned planned (applied.activateSubscription request.target).2.nodes = _
    rw [activate_nodes (hversion hst), Profile.stats, hcatalog]
    rfl

end StateFile

/-- No update is lost to a transaction: while it holds its locks no other task changes the state, so what it replaces is what it cloned, and its next state keeps all of it but what belongs to a changed source. -/
theorem no_update_lost {env : Env} {w : World} (hstart : Started env w) {tasks : Nat → Task}
    {moves : List (Move World)} {last : Pool World Outside Reply} (run : (daemon env tasks w).Run moves last) :
    (∀ m ∈ moves, ∀ i, i ≠ m.thread → Whole env i m.before.core → m.after.state = m.before.state) ∧
    ∀ m ∈ moves, m.after.trail.replaced = m.before.trail.replaced ∨ Whole env m.thread m.before.core ∧
      ∃ r, m.after.trail.replaced = r :: m.before.trail.replaced ∧ r.cloned = m.before.state ∧
        ∃ request fresh slot planned now next,
          nextState env request fresh slot planned now r.cloned = some m.after.state ∧
          request.catalog.sourceIdentities env.sourceIdentity = some next ∧
          StateFile.Kept ((request.previousCatalog.sourceIdentities env.sourceIdentity).getD ∅) next request.target
            planned m.before.state m.after.state := by
  have hmoves := reachable_moves hstart run
  refine ⟨fun m hm i hi hwhole => ((hmoves m hm).2.2.others i hi).state hwhole, fun m hm => ?_⟩
  obtain ⟨_, hafter, hguar⟩ := hmoves m hm
  refine hguar.replaces.imp_right fun ⟨hwhole, r, hcons, hpresent, hnext⟩ => ⟨hwhole, r, hcons, ?_⟩
  have hmem : r ∈ m.after.core.replaced := by
    rw [hcons]
    exact List.mem_cons_self
  obtain ⟨hkept, request, fresh, slot, planned, now, hstate⟩ := hafter.replaced r hmem
  have hcloned : r.cloned = m.before.state := hkept.symm.trans hpresent
  rw [hnext] at hstate
  obtain ⟨next, hids, hall⟩ := StateFile.nextState_kept (hcloned ▸ hstate)
  exact ⟨hcloned, request, fresh, slot, planned, now, next, hstate, hids, hall⟩

/-- A verdict recorded before a transaction is there after it. -/
theorem no_update_lost_verdict : ∃ moves last,
    (daemon (Sample.env Sample.web) (Sample.assign [.siteProbe (some "site"), .job, .switchSubscription "work"])
      (Sample.world Sample.web)).Run moves last ∧
    ∃ m ∈ moves, m.before.state.activeSubscription = some "home" ∧ m.after.state.activeSubscription = some "work" ∧
      m.before.state.siteVerdicts["site"]?.isSome = true ∧
      m.after.state.siteVerdicts = m.before.state.siteVerdicts := by
  obtain ⟨moves, last, run, hmoves⟩ := Pool.trace_reaches
    (Sample.steps 0 3 Sample.fine ++ Sample.steps 1 13 Sample.fine ++ Sample.steps 2 40 Sample.fine)
    (daemon (Sample.env Sample.web) (Sample.assign [.siteProbe (some "site"), .job, .switchSubscription "work"])
      (Sample.world Sample.web))
    (fun moves _ => moves.any fun m => m.before.trail.replaced.length ≠ m.after.trail.replaced.length &&
      m.before.state.activeSubscription = some "home" && m.after.state.activeSubscription = some "work" &&
      m.before.state.siteVerdicts["site"]?.isSome) (by decide +kernel)
  obtain ⟨m, hm, hmove⟩ := List.any_eq_true.mp hmoves
  simp only [Bool.and_eq_true, decide_eq_true_eq] at hmove
  obtain ⟨⟨⟨hreplaced, hbefore⟩, hafter⟩, hverdict⟩ := hmove
  refine ⟨moves, last, run, m, hm, hbefore, hafter, hverdict, ?_⟩
  rcases (no_update_lost (Sample.started Sample.web) run).2 m hm with hsame | ⟨_, _, _, _, hnext⟩
  · exact absurd (congrArg List.length hsame).symm hreplaced
  · obtain ⟨_, _, _, _, _, _, _, _, hkept⟩ := hnext
    exact hkept.verdicts

end Causeway

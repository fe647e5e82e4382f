import Causeway.Proof.Profiles
import Causeway.Proof.Frames

/-!
# Trusted and pending sources

A source is trusted, or it is pending and nothing of it is kept. The phases follow the order in which the supervisor applies the operations: at startup the sources are reconciled and a profile activated; a transaction applies the next catalog, activates its target and records the slot of a fresh body.
-/

namespace Causeway

open Concurrent

namespace StateFile

variable {st : StateFile} {name identity : String}

/-- Every profile is in order. -/
structure Sane (st : StateFile) : Prop where
  tidy : st.Tidy
  version : st.version ≠ legacyStateVersion
  ok : ∀ name, (st.profile name).Ok

/-- The catalog's sources are trusted or pending. -/
def Settled (current : BTreeMap String) (st : StateFile) : Prop :=
  ∀ name identity, current[name]? = some identity →
    (st.profile name).Trusted identity ∨ (st.profile name).pending ≠ none

theorem Sane.default : (default : StateFile).Sane :=
  ⟨⟨fun _ h => (nomatch h), fun h => absurd h (by decide)⟩, by decide, fun _ => ⟨.inl rfl, fun _ => rfl, fun _ => rfl⟩⟩

theorem Sane.remove (h : st.Sane) : (st.removeSubscription name).Sane := by
  refine ⟨h.tidy.remove, h.version, fun other => ?_⟩
  by_cases heq : other = name
  · subst heq
    rw [profile_remove_self]
    exact Profile.absent_ok
  · rw [profile_remove_of_ne heq]
    exact h.ok other

/-- A profile whose source was invalidated keeps nothing. -/
theorem invalidated_ok : ((st.invalidateSubscriptionSource name identity).profile name).Ok := by
  rw [profile_invalidate_self]
  refine ⟨.inl rfl, fun _ => rfl, fun _ => ?_⟩
  unfold Profile.stats
  split <;> rfl

theorem Sane.invalidate (h : st.Sane) : (st.invalidateSubscriptionSource name identity).Sane := by
  refine ⟨h.tidy.invalidate, h.version, fun other => ?_⟩
  by_cases heq : other = name
  · subst heq
    exact invalidated_ok
  · rw [profile_invalidate_of_ne heq]
    exact h.ok other

theorem trusted_trust : ((st.trustSubscriptionSource name identity).profile name).Trusted identity := by
  rw [profile_trust_self]
  exact ⟨rfl, rfl⟩

theorem Sane.trust (h : st.Sane) : (st.trustSubscriptionSource name identity).Sane := by
  refine ⟨h.tidy.trust, h.version, fun other => ?_⟩
  by_cases heq : other = name
  · subst heq
    exact trusted_trust.ok
  · rw [profile_trust_of_ne heq]
    exact h.ok other

theorem Sane.activate (h : st.Sane) : (st.activateSubscription name).2.Sane := by
  refine ⟨h.tidy.activate, activate_version, fun other => ?_⟩
  by_cases heq : other = name
  · subst heq
    rw [profile_activate_self h.version]
    exact ⟨(h.ok other).apart, (h.ok other).slot, (h.ok other).stats⟩
  · rw [profile_activate_of_ne h.tidy.unmigrated heq]
    exact h.ok other

theorem Sane.removeUnknown (h : st.Sane) (current : BTreeMap String) : (st.removeUnknown current).Sane :=
  foldl_keeps (fun _ _ h => h.remove) _ h

/-! ### Catalogs -/

def applyEntry (previous : BTreeMap String) (freshlyTrusted : Option String) (st : StateFile)
    (entry : String × String) : StateFile :=
  let st :=
    if previous[entry.1]? ≠ some entry.2 || st.sourceMismatch entry.1 entry.2 then
      st.invalidateSubscriptionSource entry.1 entry.2
    else st
  if freshlyTrusted = some entry.1 then st.trustSubscriptionSource entry.1 entry.2 else st

variable {previous next current : BTreeMap String} {freshlyTrusted : Option String} {entry : String × String}

theorem Sane.applyEntry (h : st.Sane) : (applyEntry previous freshlyTrusted st entry).Sane := by
  unfold StateFile.applyEntry
  dsimp only
  split <;> split
  · exact h.invalidate.trust
  · exact h.trust
  · exact h.invalidate
  · exact h

theorem Sane.catalog (h : st.Sane) : (st.applySubscriptionCatalog previous next freshlyTrusted).Sane :=
  foldl_keeps (fun _ _ h => h.applyEntry) _ (h.removeUnknown next)

theorem profile_applyEntry_of_ne (h : entry.1 ≠ name) :
    (applyEntry previous freshlyTrusted st entry).profile name = st.profile name := by
  unfold applyEntry
  dsimp only
  split <;> split
  · rw [profile_trust_of_ne h.symm, profile_invalidate_of_ne h.symm]
  · rw [profile_trust_of_ne h.symm]
  · rw [profile_invalidate_of_ne h.symm]
  · rfl

/-- A source that is trusted for its identity is no mismatch. -/
theorem sourceMismatch_of_trusted (h : (st.profile name).Trusted identity) :
    st.sourceMismatch name identity = false := by
  have hidentity : st.subscriptionSourceIdentities[name]? = some identity := h.identity
  have hpending : st.pendingSubscriptionSources[name]? = none := h.pending
  simp [sourceMismatch, hidentity, hpending]

/-- The freshly trusted name is trusted; of the others, those that were trusted and listed before. -/
theorem trusted_applyEntry : ((applyEntry previous freshlyTrusted st (name, identity)).profile name).Trusted identity ↔
    freshlyTrusted = some name ∨ (st.profile name).Trusted identity ∧ previous[name]? = some identity := by
  by_cases hfresh : freshlyTrusted = some name
  · simp only [applyEntry, if_pos hfresh]
    exact ⟨fun _ => .inl hfresh, fun _ => trusted_trust⟩
  · rw [or_iff_right hfresh]
    simp only [applyEntry, if_neg hfresh]
    split
    · rename_i hchanged
      rw [profile_invalidate_self]
      refine ⟨fun h => (nomatch h.pending), fun ⟨htrusted, hlisted⟩ => ?_⟩
      simp [hlisted, sourceMismatch_of_trusted htrusted] at hchanged
    · rename_i hsame
      simp only [Bool.or_eq_true, decide_eq_true_eq, not_or, not_not] at hsame
      exact ⟨fun h => ⟨h, hsame.1⟩, fun h => h.1⟩

/-- Each name of the next catalog meets its own entry. -/
theorem profile_catalog (h : next[name]? = some identity) : ∃ mid : StateFile, mid.profile name = st.profile name ∧
    (st.applySubscriptionCatalog previous next freshlyTrusted).profile name =
      (applyEntry previous freshlyTrusted mid (name, identity)).profile name := by
  have hmem := Std.ExtTreeMap.mem_toList_iff_getElem?_eq_some.mpr h
  obtain ⟨mid, hmid, hfold⟩ := @profile_foldl (st.removeUnknown next) name identity
    (applyEntry previous freshlyTrusted) _ (catalog_keys next) hmem fun _ _ hne => profile_applyEntry_of_ne hne
  exact ⟨mid, hmid.trans (profile_removeUnknown h), hfold⟩

theorem trusted_catalog (h : next[name]? = some identity) :
    ((st.applySubscriptionCatalog previous next freshlyTrusted).profile name).Trusted identity ↔
      freshlyTrusted = some name ∨ (st.profile name).Trusted identity ∧ previous[name]? = some identity := by
  obtain ⟨mid, hmid, hfold⟩ := @profile_catalog st name identity previous next freshlyTrusted h
  rw [hfold, trusted_applyEntry, hmid]

/-- A name that was not trusted for its identity comes out of its entry with no statistics. -/
theorem stats_applyEntry (hok : (st.profile name).Ok)
    (hsettled : previous[name]? = some identity →
      (st.profile name).Trusted identity ∨ (st.profile name).pending ≠ none)
    (hno : ¬ (st.profile name).Trusted identity) :
    ((applyEntry previous freshlyTrusted st (name, identity)).profile name).stats = ∅ := by
  have hstats : ∀ mid : StateFile, (mid.profile name).stats = ∅ →
      ((if freshlyTrusted = some name then mid.trustSubscriptionSource name identity else mid).profile name).stats =
        ∅ := by
    intro mid hmid
    split
    · rw [profile_trust_self]
      exact hmid
    · exact hmid
  unfold applyEntry
  apply hstats
  split
  · have hself := @profile_invalidate_self st name identity
    exact invalidated_ok.stats (by rw [hself]; simp)
  · rename_i hsame
    simp only [Bool.or_eq_true, decide_eq_true_eq, not_or, not_not] at hsame
    exact hok.stats ((hsettled hsame.1).resolve_left hno)

/-- So a transaction's target has statistics only if its source was trusted before. -/
theorem trusted_of_stats (h : st.Sane) (hsettled : st.Settled previous) (hnext : next[name]? = some identity)
    (hstats : ((st.applySubscriptionCatalog previous next freshlyTrusted).profile name).stats ≠ ∅) :
    (st.profile name).Trusted identity := by
  obtain ⟨mid, hmid, hfold⟩ := @profile_catalog st name identity previous next freshlyTrusted hnext
  rw [hfold] at hstats
  by_contra hno
  rw [← hmid] at hno
  exact hstats (stats_applyEntry (hmid ▸ h.ok name) (fun hlisted => hmid ▸ hsettled name identity hlisted) hno)

theorem Settled.applyEntry (hsettled : previous[name]? = some identity →
      (st.profile name).Trusted identity ∨ (st.profile name).pending ≠ none) :
    ((applyEntry previous freshlyTrusted st (name, identity)).profile name).Trusted identity ∨
      ((applyEntry previous freshlyTrusted st (name, identity)).profile name).pending ≠ none := by
  by_cases hfresh : freshlyTrusted = some name
  · exact .inl (trusted_applyEntry.mpr (.inl hfresh))
  · simp only [StateFile.applyEntry, if_neg hfresh]
    split
    · rw [profile_invalidate_self]
      exact .inr (by simp)
    · rename_i hsame
      simp only [Bool.or_eq_true, decide_eq_true_eq, not_or, not_not] at hsame
      exact hsettled hsame.1

theorem Settled.catalog (hsettled : st.Settled previous) :
    (st.applySubscriptionCatalog previous next freshlyTrusted).Settled next := by
  intro name identity hnext
  obtain ⟨mid, hmid, hfold⟩ := @profile_catalog st name identity previous next freshlyTrusted hnext
  rw [hfold]
  exact Settled.applyEntry fun hlisted => hmid ▸ hsettled name identity hlisted

/-! ### Startup -/

/-- The first loop of a start: a changed source becomes pending. -/
def checkEntry (st : StateFile) (entry : String × String) : StateFile :=
  if st.sourceMismatch entry.1 entry.2 then st.invalidateSubscriptionSource entry.1 entry.2 else st

/-- The second loop: a source without an identity is adopted. -/
def adoptEntry (st : StateFile) (entry : String × String) : StateFile :=
  if (st.pendingSubscriptionSources[entry.1]?).isSome then st
  else
    match st.subscriptionSourceIdentities[entry.1]? with
    | some stored => if stored = entry.2 then st else st.invalidateSubscriptionSource entry.1 entry.2
    | none => st.trustSubscriptionSource entry.1 entry.2

theorem reconcileStartupSources_eq (current : BTreeMap String) : st.reconcileStartupSources current =
    current.toList.foldl adoptEntry (current.toList.foldl checkEntry (st.removeUnknown current)) := rfl

theorem Sane.checkEntry (h : st.Sane) : (checkEntry st entry).Sane := by
  unfold StateFile.checkEntry
  split
  · exact h.invalidate
  · exact h

theorem Sane.adoptEntry (h : st.Sane) : (adoptEntry st entry).Sane := by
  unfold StateFile.adoptEntry
  split
  · exact h
  · split
    · split
      · exact h
      · exact h.invalidate
    · exact h.trust

theorem Sane.reconcile (h : st.Sane) : (st.reconcileStartupSources current).Sane :=
  foldl_keeps (fun _ _ h => h.adoptEntry) _ (foldl_keeps (fun _ _ h => h.checkEntry) _ (h.removeUnknown current))

theorem profile_adoptEntry_of_ne (h : entry.1 ≠ name) : (adoptEntry st entry).profile name = st.profile name := by
  unfold adoptEntry
  split
  · rfl
  · split
    · split
      · rfl
      · rw [profile_invalidate_of_ne h.symm]
    · rw [profile_trust_of_ne h.symm]

theorem settled_adoptEntry : ((adoptEntry st (name, identity)).profile name).Trusted identity ∨
    ((adoptEntry st (name, identity)).profile name).pending ≠ none := by
  unfold adoptEntry
  split
  · rename_i hpending
    exact .inr (Option.isSome_iff_ne_none.mp hpending)
  · rename_i hpending
    split
    · rename_i stored hstored
      split
      · rename_i heq
        exact .inl ⟨hstored.trans (congrArg some heq), Option.not_isSome_iff_eq_none.mp hpending⟩
      · rw [profile_invalidate_self]
        exact .inr (by simp)
    · exact .inl trusted_trust

theorem Settled.reconcile : (st.reconcileStartupSources current).Settled current := by
  intro name identity hcurrent
  have hmem := Std.ExtTreeMap.mem_toList_iff_getElem?_eq_some.mpr hcurrent
  obtain ⟨mid, -, hfold⟩ := @profile_foldl
    (current.toList.foldl checkEntry (st.removeUnknown current)) name identity adoptEntry _ (catalog_keys current) hmem
    fun _ _ hne => profile_adoptEntry_of_ne hne
  rw [reconcileStartupSources_eq, hfold]
  exact settled_adoptEntry

end StateFile

/-! ### Catalogs and their identities -/

theorem SubscriptionsConfig.getElem?_foldlM {catalog : SubscriptionsConfig}
    {identity : SubscriptionProfileConfig → Option String} {names : List String} {all ids : BTreeMap String}
    (h : names.foldlM (fun all name =>
      ((catalog.profile name).bind identity).map fun id => all.insert name id) all = some ids) (name : String) :
    ids[name]? = if name ∈ names then (catalog.profile name).bind identity else all[name]? := by
  induction names generalizing all with
  | nil =>
      cases h
      simp
  | cons head names ih =>
      rw [List.foldlM_cons] at h
      cases hid : (catalog.profile head).bind identity with
      | none => simp [hid] at h
      | some id =>
          simp only [hid, Option.map_some, Option.bind_eq_bind, Option.bind_some] at h
          rw [ih h]
          by_cases hmem : name ∈ names
          · simp [hmem]
          · by_cases hhead : head = name
            · subst hhead
              simp [hmem, hid]
            · simp [hmem, hhead, Ne.symm hhead, Std.ExtTreeMap.getElem?_insert]

theorem SubscriptionsConfig.isSome_foldlM {catalog : SubscriptionsConfig}
    {identity : SubscriptionProfileConfig → Option String} {names : List String} {all ids : BTreeMap String}
    (h : names.foldlM (fun all name =>
      ((catalog.profile name).bind identity).map fun id => all.insert name id) all = some ids) :
    ∀ name ∈ names, ((catalog.profile name).bind identity).isSome = true := by
  induction names generalizing all with
  | nil => simp
  | cons head names ih =>
      rw [List.foldlM_cons] at h
      cases hid : (catalog.profile head).bind identity with
      | none => simp [hid] at h
      | some id =>
          simp only [hid, Option.map_some, Option.bind_eq_bind, Option.bind_some] at h
          exact List.forall_mem_cons.mpr ⟨by rw [hid]; rfl, ih h⟩

theorem SubscriptionsConfig.mem_profileNames {catalog : SubscriptionsConfig} {name : String}
    {profile : SubscriptionProfileConfig} (h : catalog.profile name = some profile) : name ∈ catalog.profileNames := by
  unfold SubscriptionsConfig.profile at h
  unfold profileNames
  split
  · rename_i hfiles
    rw [if_pos hfiles] at h
    split at h
    · rename_i heq
      simp [heq]
    · cases h
  · rename_i hfiles
    rw [if_neg hfiles] at h
    rw [Std.ExtTreeMap.mem_keys]
    exact Std.ExtTreeMap.mem_iff_isSome_getElem?.mpr (by rw [h]; rfl)

/-- The identities of a catalog are those of its profiles. -/
theorem SubscriptionsConfig.getElem?_sourceIdentities {catalog : SubscriptionsConfig}
    {identity : SubscriptionProfileConfig → Option String} {ids : BTreeMap String}
    (h : catalog.sourceIdentities identity = some ids) (name : String) :
    ids[name]? = (catalog.profile name).bind identity := by
  rw [getElem?_foldlM h]
  split
  · rfl
  · rename_i hmem
    cases hprofile : catalog.profile name with
    | none => simp
    | some profile => exact absurd (mem_profileNames hprofile) hmem

/-- A catalog that has its identities has one for every profile. -/
theorem SubscriptionsConfig.listed {catalog : SubscriptionsConfig}
    {identity : SubscriptionProfileConfig → Option String} {ids : BTreeMap String}
    (h : catalog.sourceIdentities identity = some ids) {name : String} {profile : SubscriptionProfileConfig}
    (hprofile : catalog.profile name = some profile) : ∃ id, ids[name]? = some id := by
  rw [getElem?_sourceIdentities h]
  exact Option.isSome_iff_exists.mp (isSome_foldlM h name (mem_profileNames hprofile))

/-! ### Opening a transaction -/

def seen (step : World × World) : List World := [step.1]

/-- What an opened transaction rests on: a cached pool, and the statistics it may use, only on a source that was found trusted and that the catalog in force lists with the same identity. -/
structure Request.Opened (env : Env) (worlds : List World) (request : Request) (identity : String) : Prop where
  source : (request.catalog.profile request.target).bind env.sourceIdentity = some identity
  previous : ∃ w ∈ worlds, request.previousCatalog = w.subscriptions.catalog
  trusted : request.sourceTrusted = true →
    (request.previousCatalog.profile request.target).bind env.sourceIdentity = some identity ∧
      ∃ w ∈ worlds, w.state.sourceIsTrusted request.target identity = true
  cached : request.prepared.isFresh = false → request.sourceTrusted = true

/-- Only a trusted source falls back to its cache. -/
theorem emits_prepareSubscription {env : Env} {profile : SubscriptionProfileConfig} {allowed : Bool}
    {slot : Option String} : Prog.Emits seen
      (fun _ prepared => ∀ p, prepared = some (some p) → p.isFresh = false → allowed = true)
      (Sup.prepareSubscription env profile allowed slot) := by
  have hnone : ∀ prepared : Option (Option PreparedSubscription), prepared.join = none → Prog.Emits seen
      (fun _ prepared => ∀ p, prepared = some (some p) → p.isFresh = false → allowed = true)
      (pure prepared : Sup (Option (Option PreparedSubscription))) := by
    intro prepared hjoin
    apply Prog.Emits.pure
    intro p hp
    rw [hp] at hjoin
    cases hjoin
  rw [Sup.prepareSubscription]
  apply Prog.Emits.atomic
  intro _ _ fetched _ _
  cases fetched with
  | none => exact hnone _ rfl
  | some fetched =>
      cases fetched with
      | some prepared =>
          refine .pure fun p hp hfresh => ?_
          cases hp
          cases hfresh
      | none =>
          dsimp only
          split
          · rename_i hallowed
            apply Prog.Emits.atomic
            intro _ _ nodes _ _
            cases nodes with
            | nil => exact hnone _ rfl
            | cons node nodes => exact .pure fun _ _ _ => hallowed
          · exact hnone _ rfl

theorem emits_subscriptionFailure {α : Type} {target message : String} {post : List World → Except Reply α → Prop}
    (h : ∀ worlds reply, post worlds (.error reply)) :
    Prog.Emits seen post (do return .error (← Sup.subscriptionFailure target message)) := by
  intro steps value path
  obtain ⟨_, reply, second, rfl, _, hsecond⟩ := path.of_bind
  cases hsecond
  exact h _ reply

theorem emits_openTransaction {env : Env} {target : String} {catalog : SubscriptionsConfig}
    {allowCachedFallback isReload : Bool} : Prog.Emits seen
      (fun worlds opened => ∀ request, opened = .ok request →
        ∃ identity, request.Opened env worlds identity)
      (Sup.openTransaction env target catalog allowCachedFallback isReload) := by
  have hfail : ∀ reply, Prog.Emits seen (fun worlds opened => ∀ request, opened = .ok request →
      ∃ identity, request.Opened env worlds identity) (pure (.error reply) : Sup (Except Reply Request)) := by
    intro reply
    apply Prog.Emits.pure
    intro request h
    cases h
  rw [Sup.openTransaction]
  cases hprofile : catalog.profile target with
  | none => exact hfail _
  | some profile =>
  dsimp only
  cases hidentity : env.sourceIdentity profile with
  | none => exact hfail _
  | some identity =>
  dsimp only
  apply Prog.Emits.atomic
  intro _ w _ _ hlook
  cases hlook
  apply Prog.Emits.atomic
  intro _ u _ _ hread
  split at hread
  swap
  · cases hread
  cases hread
  dsimp only
  refine emits_prepareSubscription.bind fun log prepared hprepared => ?_
  cases prepared with
  | none => exact emits_subscriptionFailure fun _ _ _ h => by cases h
  | some prepared =>
  cases prepared with
  | none => exact emits_subscriptionFailure fun _ _ _ h => by cases h
  | some prepared =>
  have hopened : ∀ worlds, Request.Opened env (seen (w, w) ++ (seen (u, u) ++ (log ++ worlds)))
      ⟨target, catalog, w.subscriptions.active, w.subscriptions.catalog, u.state.subscriptionCacheSlots[target]?,
        u.state.sourceIsTrusted target identity &&
          decide ((w.subscriptions.catalog.profile target).bind env.sourceIdentity = some identity), prepared⟩
      identity := by
    intro worlds
    refine ⟨by simp [hprofile, hidentity], ⟨w, by simp [seen], rfl⟩, fun htrusted => ?_, fun hfresh => ?_⟩
    · rw [Bool.and_eq_true, decide_eq_true_eq] at htrusted
      exact ⟨htrusted.2, u, by simp [seen], htrusted.1⟩
    · have hallowed := hprepared prepared rfl hfresh
      rw [Bool.and_eq_true] at hallowed
      exact hallowed.2
  dsimp only
  split
  · exact emits_subscriptionFailure fun _ _ _ h => by cases h
  split
  · exact emits_subscriptionFailure fun _ _ _ h => by cases h
  split
  · apply Prog.Emits.atomic
    intro _ v _ _ hlook
    cases hlook
    split
    · apply Prog.Emits.pure
      intro request h
      cases h
    · apply Prog.Emits.pure
      intro request h
      cases h
      exact ⟨identity, hopened _⟩
  · apply Prog.Emits.pure
    intro request h
    cases h
    exact ⟨identity, hopened []⟩

/-! ### Phases -/

/-- Where the supervisor is in its order of operations, with the identities of the catalog in force. -/
inductive Phase where
  | stopped
  | reconciled (current : BTreeMap String)
  | selected (current : BTreeMap String) (active : String)
  | running (current : BTreeMap String)
  | applied (next : BTreeMap String) (target : String) (fresh : Bool)
  | activated (next : BTreeMap String) (target : String) (fresh : Bool)

/-- The worlds in which a transaction was opened were in this state, on the catalog in force. -/
def Request.OpenedIn (env : Env) (current : BTreeMap String) (st : StateFile) (request : Request) : Prop :=
  ∃ target catalog allowCachedFallback isReload steps,
    Prog.Path (Sup.openTransaction env target catalog allowCachedFallback isReload) steps (.done (.ok request)) ∧
    ∀ step ∈ steps, step.1.state = st ∧
      step.1.subscriptions.catalog.sourceIdentities env.sourceIdentity = some current

/-- The states that the operations lead to, in the order the supervisor issues them. -/
inductive Reached : Phase → StateFile → Prop
  | default : Reached .stopped default
  /-- A crash, or the end of the daemon: the next start finds a state that was there. -/
  | stop {phase : Phase} {st : StateFile} (h : Reached phase st) : Reached .stopped st
  | reconcile {st : StateFile} (current : BTreeMap String) (h : Reached .stopped st) :
      Reached (.reconciled current) (st.reconcileStartupSources current)
  | select {st : StateFile} {current : BTreeMap String} {active identity : String}
      (h : Reached (.reconciled current) st) (listed : current[active]? = some identity) :
      Reached (.selected current active) (st.activateSubscription active).2
  /-- The start goes on if the snapshot has nodes. -/
  | serve {st : StateFile} {current : BTreeMap String} {active : String} (env : Env) (read : Path → Option Bytes)
      (profile : SubscriptionProfileConfig) (h : Reached (.selected current active) st)
      (nodes : startupSnapshot env read st current active profile ≠ []) : Reached (.running current) st
  /-- Whatever the tasks do to the active statistics, the classes and the verdicts. -/
  | update {st : StateFile} {current : BTreeMap String} (h : Reached (.running current) st)
      (nodes : BTreeMap NodeStats) (classes : BTreeMap ClassState) (verdicts : BTreeMap (BTreeMap SiteVerdict))
      (now : Int) : Reached (.running current)
        { st with nodes := nodes, classes := classes, siteVerdicts := verdicts, updatedUnix := now }
  | apply {st : StateFile} {current next : BTreeMap String} {env : Env} {request : Request}
      (h : Reached (.running current) st) (opened : request.OpenedIn env current st)
      (identities : request.catalog.sourceIdentities env.sourceIdentity = some next) :
      Reached (.applied next request.target request.prepared.isFresh) (st.applySubscriptionCatalog current next
        (if request.prepared.isFresh then some request.target else none))
  | activate {st : StateFile} {next : BTreeMap String} {target : String} {fresh : Bool}
      (h : Reached (.applied next target fresh) st) :
      Reached (.activated next target fresh) (st.activateSubscription target).2
  | slot {st : StateFile} {next : BTreeMap String} {target : String} (h : Reached (.activated next target true) st)
      (slot : String) : Reached (.activated next target true)
        { st with subscriptionCacheSlots := st.subscriptionCacheSlots.insert target slot }
  | publish {st : StateFile} {next : BTreeMap String} {target : String} {fresh : Bool}
      (h : Reached (.activated next target fresh) st) : Reached (.running next) st

namespace StateFile

/-- The profile is in the catalog and its source is trusted. -/
def Vouched (current : BTreeMap String) (name : String) (st : StateFile) : Prop :=
  ∃ identity, current[name]? = some identity ∧ (st.profile name).Trusted identity

/-- What holds in each phase, besides order in every profile. -/
def InPhase (st : StateFile) : Phase → Prop
  | .stopped => True
  | .reconciled current => st.Settled current
  | .selected current active => st.Settled current ∧ st.activeSubscription = some active ∧
      ∃ identity, current[active]? = some identity
  | .running current => st.Settled current ∧ ∃ active, st.activeSubscription = some active ∧ st.Vouched current active
  | .applied next target _ => st.Settled next ∧ st.Vouched next target
  | .activated next target _ => st.Settled next ∧ st.activeSubscription = some target ∧ st.Vouched next target

variable {st : StateFile} {name identity : String} {current next : BTreeMap String}

/-- Activation changes no source. -/
theorem sources_activate (h : st.Sane) (other : String) :
    ((st.activateSubscription name).2.profile other).identity = (st.profile other).identity ∧
      ((st.activateSubscription name).2.profile other).pending = (st.profile other).pending := by
  by_cases heq : other = name
  · subst heq
    rw [profile_activate_self h.version]
    exact ⟨rfl, rfl⟩
  · rw [profile_activate_of_ne h.tidy.unmigrated heq]
    exact ⟨rfl, rfl⟩

theorem Trusted.activate (h : st.Sane) {other : String} (htrusted : (st.profile other).Trusted identity) :
    ((st.activateSubscription name).2.profile other).Trusted identity :=
  ⟨(sources_activate h other).1.trans htrusted.identity, (sources_activate h other).2.trans htrusted.pending⟩

theorem Settled.congr {other : StateFile} (h : st.Settled current)
    (hidentities : other.subscriptionSourceIdentities = st.subscriptionSourceIdentities)
    (hpending : other.pendingSubscriptionSources = st.pendingSubscriptionSources) : other.Settled current := by
  intro name identity hlisted
  simp only [profile, hidentities, hpending]
  exact (h name identity hlisted).imp_left fun htrusted => ⟨htrusted.identity, htrusted.pending⟩

theorem Settled.activate (h : st.Sane) (hsettled : st.Settled current) :
    (st.activateSubscription name).2.Settled current := by
  intro other identity hlisted
  rw [(sources_activate h other).2]
  exact (hsettled other identity hlisted).imp_left fun htrusted => Trusted.activate h htrusted

/-- The snapshot of a start comes from a trusted source. -/
theorem trusted_of_snapshot {env : Env} {read : Path → Option Bytes} {profile : SubscriptionProfileConfig}
    (h : st.Sane) (hsettled : st.Settled current) (hlisted : current[name]? = some identity)
    (hnodes : startupSnapshot env read st current name profile ≠ []) : (st.profile name).Trusted identity := by
  refine (hsettled name identity hlisted).resolve_right fun hpending => hnodes ?_
  have hslot : st.subscriptionCacheSlots[name]? = none := (h.ok name).slot hpending
  have hno : st.sourceIsTrusted name identity = false := by
    rw [Bool.eq_false_iff]
    exact fun htrusted => hpending (sourceIsTrusted_iff.mp htrusted).pending
  simp [startupSnapshot, hslot, hlisted, hno]

theorem Sane.update (h : st.Sane) (hactive : ∀ active, st.activeSubscription = some active →
      (st.profile active).pending = none) (nodes : BTreeMap NodeStats) (classes : BTreeMap ClassState)
    (verdicts : BTreeMap (BTreeMap SiteVerdict)) (now : Int) :
    ({ st with nodes := nodes, classes := classes, siteVerdicts := verdicts, updatedUnix := now } : StateFile).Sane := by
  refine ⟨⟨h.tidy.single, h.tidy.unmigrated⟩, h.version, fun other => ?_⟩
  refine ⟨(h.ok other).apart, (h.ok other).slot, fun hpending => ?_⟩
  have hother : st.activeSubscription ≠ some other := fun hactive' => hpending (hactive other hactive')
  have hstats := (h.ok other).stats hpending
  simp only [profile, Profile.stats, nodesForSubscription, if_neg hother] at hstats ⊢
  exact hstats

end StateFile

section

variable {env : Env} {st : StateFile} {current next : BTreeMap String} {request : Request}

/-- What the opening of a transaction says of the state it was opened in. -/
theorem Request.OpenedIn.gate (h : request.OpenedIn env current st) :
    request.previousCatalog.sourceIdentities env.sourceIdentity = some current ∧ ∃ identity,
    (request.catalog.profile request.target).bind env.sourceIdentity = some identity ∧
    (request.prepared.isFresh = false → request.sourceTrusted = true) ∧
    (request.sourceTrusted = true → (st.profile request.target).Trusted identity ∧
      current[request.target]? = some identity) := by
  obtain ⟨target, catalog, allowCachedFallback, isReload, steps, hpath, hsteps⟩ := h
  obtain ⟨identity, hopened⟩ := emits_openTransaction steps _ hpath request rfl
  have hworlds : ∀ w ∈ steps.flatMap seen, w.state = st ∧
      w.subscriptions.catalog.sourceIdentities env.sourceIdentity = some current := by
    intro w hw
    obtain ⟨step, hstep, hseen⟩ := List.mem_flatMap.mp hw
    rw [List.mem_singleton.mp hseen]
    exact hsteps step hstep
  obtain ⟨w, hw, hprevious⟩ := hopened.previous
  have hcurrent : request.previousCatalog.sourceIdentities env.sourceIdentity = some current := by
    rw [hprevious]
    exact (hworlds w hw).2
  refine ⟨hcurrent, identity, hopened.source, hopened.cached, fun htrusted => ?_⟩
  obtain ⟨hlisted, u, hu, hsource⟩ := hopened.trusted htrusted
  rw [(hworlds u hu).1] at hsource
  refine ⟨StateFile.sourceIsTrusted_iff.mp hsource, ?_⟩
  rw [SubscriptionsConfig.getElem?_sourceIdentities hcurrent]
  exact hlisted

/-- The invariant of every phase. -/
theorem Reached.inPhase {phase : Phase} (h : Reached phase st) : st.Sane ∧ st.InPhase phase := by
  induction h with
  | default => exact ⟨.default, trivial⟩
  | stop h ih => exact ⟨ih.1, trivial⟩
  | reconcile current h ih => exact ⟨ih.1.reconcile, .reconcile⟩
  | select h listed ih =>
      obtain ⟨hsane, hsettled⟩ := ih
      exact ⟨hsane.activate, hsettled.activate hsane, StateFile.activate_activeSubscription, _, listed⟩
  | serve env read profile h nodes ih =>
      obtain ⟨hsane, hsettled, hactive, identity, hlisted⟩ := ih
      exact ⟨hsane, hsettled, _, hactive, identity, hlisted,
        StateFile.trusted_of_snapshot hsane hsettled hlisted nodes⟩
  | update h nodes classes verdicts now ih =>
      obtain ⟨hsane, hsettled, active, hactive, identity, hlisted, htrusted⟩ := ih
      refine ⟨hsane.update (fun other hother => ?_) nodes classes verdicts now, hsettled.congr rfl rfl, active, hactive, identity,
        hlisted, htrusted.identity, htrusted.pending⟩
      rw [hactive] at hother
      cases hother
      exact htrusted.pending
  | @apply st current next env request h opened identities ih =>
      obtain ⟨hsane, hsettled, -⟩ := ih
      obtain ⟨-, identity, hsource, hcached, hgate⟩ := opened.gate
      have hlisted : next[request.target]? = some identity := by
        rw [SubscriptionsConfig.getElem?_sourceIdentities identities]
        exact hsource
      refine ⟨hsane.catalog, hsettled.catalog, identity, hlisted, (StateFile.trusted_catalog hlisted).mpr ?_⟩
      cases hfresh : request.prepared.isFresh with
      | true => exact .inl (if_pos rfl)
      | false => exact .inr (hgate (hcached hfresh))
  | activate h ih =>
      obtain ⟨hsane, hsettled, identity, hlisted, htrusted⟩ := ih
      exact ⟨hsane.activate, hsettled.activate hsane, StateFile.activate_activeSubscription, identity, hlisted,
        StateFile.Trusted.activate hsane htrusted⟩
  | @slot st next target h slot ih =>
      obtain ⟨hsane, hsettled, hactive, identity, hlisted, htrusted⟩ := ih
      refine ⟨⟨⟨hsane.tidy.single, hsane.tidy.unmigrated⟩, hsane.version, fun other => ?_⟩,
        hsettled.congr rfl rfl, hactive, identity, hlisted, htrusted.identity, htrusted.pending⟩
      refine ⟨(hsane.ok other).apart, fun hpending => ?_, (hsane.ok other).stats⟩
      have hne : target ≠ other := by
        rintro rfl
        exact hpending htrusted.pending
      simpa [StateFile.profile, Std.ExtTreeMap.getElem?_insert, hne] using (hsane.ok other).slot hpending
  | publish h ih =>
      obtain ⟨hsane, hsettled, hactive, hvouched⟩ := ih
      exact ⟨hsane, hsettled, _, hactive, hvouched⟩

end

/-! ### The two functions of the supervisor -/

/-- A successful start runs through the phases of a start. -/
theorem Reached.startFrom {env : Env} {read : Path → Option Bytes} {st last : StateFile} {active : String}
    {nodes : List Node} (h : Reached .stopped st) (hstart : startFrom env read st = some (last, active, nodes)) :
    ∃ current, env.cfg.subscriptions.sourceIdentities env.sourceIdentity = some current ∧
      Reached (.running current) last := by
  unfold Causeway.startFrom at hstart
  cases hcurrent : env.cfg.subscriptions.sourceIdentities env.sourceIdentity with
  | none => simp [hcurrent] at hstart
  | some current =>
  cases hfallback : defaultProfileName env.cfg.subscriptions with
  | none => simp [hcurrent, hfallback] at hstart
  | some fallback =>
  simp only [hcurrent, hfallback, Option.bind_eq_bind, Option.bind_some] at hstart
  obtain ⟨profile, hprofile, hstart⟩ := Option.bind_eq_some_iff.mp hstart
  split at hstart
  · cases hstart
  · rename_i hnodes
    cases hstart
    obtain ⟨identity, hlisted⟩ := SubscriptionsConfig.listed hcurrent hprofile
    exact ⟨current, rfl, .serve env read profile (.select (.reconcile current h) hlisted)
      (by simpa using hnodes)⟩

/-- A plan changes the classes and displayed failures only. -/
theorem foldl_planState (planned : List Planned) (st : StateFile) :
    planned.foldl planState st =
      { st with nodes := (planned.foldl planState st).nodes, classes := (planned.foldl planState st).classes } := by
  induction planned generalizing st with
  | nil => rfl
  | cons p planned ih => exact ih (planState st p)

/-- The state of a transaction runs through the phases of a transaction. -/
theorem Reached.nextState {env : Env} {st last : StateFile} {current : BTreeMap String} {request : Request}
    {slot : Option String} {planned : List Planned} {now : Int} (h : Reached (.running current) st)
    (hopened : request.OpenedIn env current st) (hslot : slot ≠ none → request.prepared.isFresh = true)
    (hnext : nextState env request request.prepared.isFresh slot planned now st = some last) :
    ∃ next, request.catalog.sourceIdentities env.sourceIdentity = some next ∧ Reached (.running next) last := by
  obtain ⟨hprevious, -⟩ := hopened.gate
  obtain ⟨next, hids, rfl⟩ := Option.map_eq_some_iff.mp hnext
  refine ⟨next, hids, ?_⟩
  have hactivated := (Reached.apply h hopened hids).activate
  rw [hprevious, Option.getD_some]
  dsimp only
  rw [foldl_planState]
  cases slot with
  | none => exact hactivated.publish.update _ _ _ _
  | some slot =>
      rw [hslot (by simp)] at hactivated ⊢
      exact (hactivated.slot slot).publish.update _ _ _ _

/-- In every state the operations lead to: no source is trusted and pending; a pending one has no slot and no statistics; after a catalog exactly the freshly trusted name and those trusted and listed before are trusted; and neither a start nor a transaction serves a cache or statistics of a source that is not trusted for its configured identity. -/
theorem source_trust {phase : Phase} {st : StateFile} (h : Reached phase st) :
    (∀ name : String, st.subscriptionSourceIdentities[name]? = none ∨ st.pendingSubscriptionSources[name]? = none) ∧
    (∀ name : String, st.pendingSubscriptionSources[name]? ≠ none →
      st.subscriptionCacheSlots[name]? = none ∧ (st.nodesForSubscription name).getD ∅ = ∅) ∧
    (∀ previous next freshlyTrusted name identity, next[name]? = some identity →
      ((st.applySubscriptionCatalog previous next freshlyTrusted).sourceIsTrusted name identity = true ↔
        freshlyTrusted = some name ∨ st.sourceIsTrusted name identity = true ∧ previous[name]? = some identity)) ∧
    (∀ current active env read profile, phase = .selected current active →
      startupSnapshot env read st current active profile ≠ [] ∨ st.nodes ≠ ∅ →
      ∃ identity, current[active]? = some identity ∧ st.sourceIsTrusted active identity = true) ∧
    (∀ current env request, phase = .running current → Request.OpenedIn env current st request →
      ∃ identity, (request.catalog.profile request.target).bind env.sourceIdentity = some identity ∧
      (request.prepared.isFresh = false ∨ request.sourceTrusted = true →
        st.sourceIsTrusted request.target identity = true) ∧
      ∀ next freshlyTrusted, request.catalog.sourceIdentities env.sourceIdentity = some next →
        ((st.applySubscriptionCatalog current next freshlyTrusted).activateSubscription request.target).2.nodes ≠ ∅ →
        st.sourceIsTrusted request.target identity = true) := by
  obtain ⟨hsane, hphase⟩ := h.inPhase
  refine ⟨fun name => (hsane.ok name).apart, fun name hpending => ⟨(hsane.ok name).slot hpending,
    (hsane.ok name).stats hpending⟩, ?_, ?_, ?_⟩
  · intro previous next freshlyTrusted name identity hlisted
    rw [StateFile.sourceIsTrusted_iff, StateFile.sourceIsTrusted_iff]
    exact StateFile.trusted_catalog hlisted
  · rintro current active env read profile rfl hserved
    obtain ⟨hsettled, hactive, identity, hlisted⟩ := hphase
    refine ⟨identity, hlisted, StateFile.sourceIsTrusted_iff.mpr ?_⟩
    rcases hserved with hnodes | hstats
    · exact StateFile.trusted_of_snapshot hsane hsettled hlisted hnodes
    · refine (hsettled active identity hlisted).resolve_right fun hpending => hstats ?_
      have hempty := (hsane.ok active).stats hpending
      simpa [StateFile.profile, Profile.stats, StateFile.nodesForSubscription, hactive] using hempty
  · rintro current env request rfl hopened
    obtain ⟨-, identity, hsource, hcached, hgate⟩ := hopened.gate
    refine ⟨identity, hsource, fun hserved => ?_, fun next freshlyTrusted hnext hstats => ?_⟩
    · exact StateFile.sourceIsTrusted_iff.mpr (hgate (hserved.elim hcached id)).1
    · have hlisted : next[request.target]? = some identity := by
        rw [SubscriptionsConfig.getElem?_sourceIdentities hnext]
        exact hsource
      rw [StateFile.activate_nodes hsane.catalog.version] at hstats
      exact StateFile.sourceIsTrusted_iff.mpr (StateFile.trusted_of_stats hsane hphase.1 hlisted hstats)

/-- A source that changes between two starts is pending after the second. -/
theorem source_trust_changed :
    let st := ((default : StateFile).reconcileStartupSources (.ofList [("home", "old")])).reconcileStartupSources
      (.ofList [("home", "new")])
    st.pendingSubscriptionSources["home"]? = some "new" ∧ st.subscriptionCacheSlots["home"]? = none ∧
      (st.nodesForSubscription "home").getD ∅ = ∅ := by
  intro st
  have hreached : Reached (.reconciled (.ofList [("home", "new")])) st :=
    .reconcile _ (.stop (.reconcile _ .default))
  have hpending : st.pendingSubscriptionSources["home"]? = some "new" := by decide +kernel
  refine ⟨hpending, (source_trust hreached).2.1 "home" ?_⟩
  rw [hpending]
  simp

end Causeway

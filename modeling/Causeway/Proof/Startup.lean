import Causeway.Proof.Trust

/-!
# Startup and foreign namespaces

A start prunes the names it finds in the four maps. The active profile's statistics are in none of them, so an active profile that no map names is left as it is.
-/

namespace Causeway

namespace Profile

/-- The profile has no identity and no pending marker but this one. -/
def Matches (profile : Profile) (identity : String) : Prop :=
  (∀ stored, profile.identity = some stored → stored = identity) ∧ ∀ stored, profile.pending = some stored → stored = identity

/-- The profile is trusted, or pending for this identity. -/
def SettledFor (profile : Profile) (identity : String) : Prop :=
  profile.Trusted identity ∨ profile.pending = some identity ∧ profile.Matches identity

end Profile

namespace StateFile

variable {st : StateFile} {name other identity : String} {current : BTreeMap String} {entry : String × String}

/-- What a start is for: nothing of a foreign profile is left, every profile of the catalog is trusted or pending, and a second start has nothing to do. -/
structure Reconciled (current : BTreeMap String) (st : StateFile) : Prop where
  foreign : ∀ name, current[name]? = none → st.profile name = .absent ∧ st.activeSubscription ≠ some name
  listed : ∀ name identity, current[name]? = some identity →
    st.sourceIsTrusted name identity = true ∨ st.pendingSubscriptionSources[name]? = some identity
  stable : st.reconcileStartupSources current = st

/-- None of the four maps names the profile. -/
structure Unnamed (name : String) (st : StateFile) : Prop where
  nodes : st.subscriptionNodes[name]? = none
  slot : st.subscriptionCacheSlots[name]? = none
  identity : st.subscriptionSourceIdentities[name]? = none
  pending : st.pendingSubscriptionSources[name]? = none

theorem mem_knownSubscriptions : name ∈ st.knownSubscriptions ↔ ¬ st.Unnamed name := by
  simp only [knownSubscriptions, Std.ExtTreeSet.mem_toList, Std.ExtTreeSet.mem_ofList, List.contains_iff_mem,
    List.mem_append, Std.ExtTreeMap.mem_keys, ← Std.ExtTreeMap.isSome_getElem?_iff_mem]
  constructor
  · rintro (((h | h) | h) | h) hunnamed
    · simp [hunnamed.nodes] at h
    · simp [hunnamed.slot] at h
    · simp [hunnamed.identity] at h
    · simp [hunnamed.pending] at h
  · intro h
    by_contra hnone
    simp only [not_or, Option.not_isSome_iff_eq_none] at hnone
    exact h ⟨hnone.1.1.1, hnone.1.1.2, hnone.1.2, hnone.2⟩

/-! ### The first pass -/

theorem unnamed_remove_self : (st.removeSubscription name).Unnamed name := by
  constructor <;> simp [removeSubscription]

theorem Unnamed.remove (h : st.Unnamed name) : (st.removeSubscription other).Unnamed name := by
  constructor <;> simp [removeSubscription, Std.ExtTreeMap.getElem?_erase, h.nodes, h.slot, h.identity, h.pending]

theorem unnamed_foldl_remove {names : List String} (h : st.Unnamed name ∨ name ∈ names) :
    (names.foldl removeSubscription st).Unnamed name := by
  induction names generalizing st with
  | nil => exact h.resolve_right (by simp)
  | cons removed names ih =>
      apply ih
      rcases h with h | h
      · exact .inl h.remove
      · rcases List.mem_cons.mp h with rfl | h
        · exact .inl unnamed_remove_self
        · exact .inr h

theorem active_foldl_remove {names : List String} : (names.foldl removeSubscription st).activeSubscription =
    st.activeSubscription.filter fun active => active ∉ names := by
  induction names generalizing st with
  | nil => cases hactive : st.activeSubscription <;> simp [hactive, Option.filter_some]
  | cons removed names ih =>
      rw [List.foldl_cons, ih]
      cases hactive : st.activeSubscription with
      | none => simp [removeSubscription, hactive]
      | some active =>
          by_cases heq : active = removed
          · simp [removeSubscription, hactive, heq, Option.filter_some]
          · simp [removeSubscription, hactive, heq, Option.filter_some]

/-- The names that the first pass drops. -/
theorem mem_dropped : name ∈ st.knownSubscriptions.filter (fun name => (current[name]?).isNone) ↔
    ¬ st.Unnamed name ∧ current[name]? = none := by
  simp [mem_knownSubscriptions]

theorem unnamed_removeUnknown (h : current[name]? = none) : (st.removeUnknown current).Unnamed name := by
  by_cases hunnamed : st.Unnamed name
  · exact unnamed_foldl_remove (.inl hunnamed)
  · exact unnamed_foldl_remove (.inr (mem_dropped.mpr ⟨hunnamed, h⟩))

/-- Nothing foreign is named, and nothing is dropped. -/
theorem removeUnknown_of_unnamed (h : ∀ name, current[name]? = none → st.Unnamed name) : st.removeUnknown current = st := by
  have hnone : st.knownSubscriptions.filter (fun name => (current[name]?).isNone) = [] := by
    refine List.eq_nil_iff_forall_not_mem.mpr fun name hmem => ?_
    obtain ⟨hnamed, hforeign⟩ := mem_dropped.mp hmem
    exact hnamed (h name hforeign)
  rw [removeUnknown, hnone, List.foldl_nil]

/-! ### The loops over the catalog -/

theorem Unnamed.invalidate (h : st.Unnamed name) (hne : other ≠ name) :
    (st.invalidateSubscriptionSource other identity).Unnamed name := by
  constructor
  · simp only [invalidateSubscriptionSource]
    split <;> simp [Std.ExtTreeMap.getElem?_erase, h.nodes]
  · simp [invalidateSubscriptionSource, Std.ExtTreeMap.getElem?_erase, h.slot]
  · simp [invalidateSubscriptionSource, Std.ExtTreeMap.getElem?_erase, h.identity]
  · simp [invalidateSubscriptionSource, Std.ExtTreeMap.getElem?_insert, h.pending, hne]

theorem Unnamed.trust (h : st.Unnamed name) (hne : other ≠ name) :
    (st.trustSubscriptionSource other identity).Unnamed name := by
  constructor
  · exact h.nodes
  · exact h.slot
  · simp [trustSubscriptionSource, Std.ExtTreeMap.getElem?_insert, h.identity, hne]
  · simp [trustSubscriptionSource, Std.ExtTreeMap.getElem?_erase, h.pending]

theorem Unnamed.checkEntry (h : st.Unnamed name) (hne : entry.1 ≠ name) : (checkEntry st entry).Unnamed name := by
  unfold StateFile.checkEntry
  split
  · exact h.invalidate hne
  · exact h

theorem Unnamed.adoptEntry (h : st.Unnamed name) (hne : entry.1 ≠ name) : (adoptEntry st entry).Unnamed name := by
  unfold StateFile.adoptEntry
  split
  · exact h
  · split
    · split
      · exact h
      · exact h.invalidate hne
    · exact h.trust hne

theorem active_checkEntry : (checkEntry st entry).activeSubscription = st.activeSubscription := by
  unfold checkEntry
  split <;> rfl

theorem active_adoptEntry : (adoptEntry st entry).activeSubscription = st.activeSubscription := by
  unfold adoptEntry
  split
  · rfl
  · split
    · split <;> rfl
    · rfl

/-- A loop over the entries of a catalog keeps what every entry of another name keeps. -/
theorem foldl_catalog {X : StateFile → Prop} {f : StateFile → String × String → StateFile} (hforeign : current[name]? = none)
    (hstep : ∀ st entry, entry.1 ≠ name → X st → X (f st entry)) (h : X st) : X (current.toList.foldl f st) := by
  have hne : ∀ entry ∈ current.toList, entry.1 ≠ name := by
    rintro ⟨listed, identity⟩ hentry rfl
    rw [Std.ExtTreeMap.mem_toList_iff_getElem?_eq_some, hforeign] at hentry
    cases hentry
  revert hne
  generalize current.toList = entries
  intro hne
  induction entries generalizing st with
  | nil => exact h
  | cons entry entries ih =>
      exact ih (hstep st entry (hne entry List.mem_cons_self) h) fun other hother => hne other (List.mem_cons_of_mem _ hother)

theorem unnamed_reconcile (h : current[name]? = none) : (st.reconcileStartupSources current).Unnamed name :=
  foldl_catalog h (fun _ _ hne hunnamed => hunnamed.adoptEntry hne)
    (foldl_catalog h (fun _ _ hne hunnamed => hunnamed.checkEntry hne) (unnamed_removeUnknown h))

/-- An active profile is dropped if it is foreign and one of the maps names it. -/
theorem active_reconcile : (st.reconcileStartupSources current).activeSubscription =
    st.activeSubscription.filter fun active => active ∉ st.knownSubscriptions.filter fun name => (current[name]?).isNone := by
  rw [← active_foldl_remove, reconcileStartupSources_eq]
  have hadopted := @foldl_keeps (current.toList.foldl checkEntry (st.removeUnknown current)) (String × String)
    (fun mid => mid.activeSubscription = (current.toList.foldl checkEntry (st.removeUnknown current)).activeSubscription)
    adoptEntry (fun _ _ hmid => active_adoptEntry.trans hmid) current.toList rfl
  have hchecked := @foldl_keeps (st.removeUnknown current) (String × String)
    (fun mid => mid.activeSubscription = (st.removeUnknown current).activeSubscription)
    checkEntry (fun _ _ hmid => active_checkEntry.trans hmid) current.toList rfl
  exact hadopted.trans hchecked

/-! ### The catalog's profiles -/

theorem sourceMismatch_eq_false : st.sourceMismatch name identity = false ↔ (st.profile name).Matches identity := by
  simp only [sourceMismatch, Bool.or_eq_false_iff, Option.any_eq_false]
  simp [Profile.Matches, profile]

theorem matches_checkEntry : ((checkEntry st (name, identity)).profile name).Matches identity := by
  unfold checkEntry
  split
  · rw [profile_invalidate_self]
    simp [Profile.Matches]
  · rename_i hmatches
    rw [Bool.not_eq_true] at hmatches
    exact sourceMismatch_eq_false.mp hmatches

theorem profile_checkEntry_of_ne (h : entry.1 ≠ name) : (checkEntry st entry).profile name = st.profile name := by
  unfold checkEntry
  split
  · rw [profile_invalidate_of_ne h.symm]
  · rfl

/-- A matching profile is pending, or trusted once it is adopted. -/
theorem settledFor_adoptEntry (h : (st.profile name).Matches identity) :
    ((adoptEntry st (name, identity)).profile name).SettledFor identity := by
  unfold adoptEntry
  split
  · rename_i hpending
    obtain ⟨stored, hstored⟩ := Option.isSome_iff_exists.mp hpending
    exact .inr ⟨hstored.trans (congrArg some (h.2 stored hstored)), h⟩
  · rename_i hpending
    split
    · rename_i stored hstored
      obtain rfl := h.1 stored hstored
      rw [if_pos rfl]
      exact .inl ⟨hstored, Option.not_isSome_iff_eq_none.mp hpending⟩
    · exact .inl trusted_trust

theorem settledFor_reconcile (h : current[name]? = some identity) :
    ((st.reconcileStartupSources current).profile name).SettledFor identity := by
  have hmem := Std.ExtTreeMap.mem_toList_iff_getElem?_eq_some.mpr h
  obtain ⟨checked, -, hchecked⟩ := @profile_foldl (st.removeUnknown current) name identity checkEntry _
    (catalog_keys current) hmem fun _ _ hne => profile_checkEntry_of_ne hne
  obtain ⟨adopted, hadopted, hfold⟩ := @profile_foldl (current.toList.foldl checkEntry (st.removeUnknown current)) name
    identity adoptEntry _ (catalog_keys current) hmem fun _ _ hne => profile_adoptEntry_of_ne hne
  rw [reconcileStartupSources_eq, hfold]
  apply settledFor_adoptEntry
  rw [hadopted, hchecked]
  exact matches_checkEntry

/-! ### A second start -/

/-- Both loops leave a settled profile alone. -/
theorem entry_settled (h : (st.profile name).SettledFor identity) :
    checkEntry st (name, identity) = st ∧ adoptEntry st (name, identity) = st := by
  rcases h with h | ⟨hpending, hmatches⟩
  · have hidentity : st.subscriptionSourceIdentities[name]? = some identity := h.identity
    have hnone : st.pendingSubscriptionSources[name]? = none := h.pending
    refine ⟨by rw [checkEntry, sourceMismatch_of_trusted h, if_neg (by simp)], ?_⟩
    simp [adoptEntry, hnone, hidentity]
  · have hpending : st.pendingSubscriptionSources[name]? = some identity := hpending
    refine ⟨by rw [checkEntry, sourceMismatch_eq_false.mpr hmatches, if_neg (by simp)], ?_⟩
    simp [adoptEntry, hpending]

theorem foldl_settled {f : StateFile → String × String → StateFile} {entries : List (String × String)}
    (h : ∀ entry ∈ entries, f st entry = st) : entries.foldl f st = st := by
  induction entries with
  | nil => rfl
  | cons entry entries ih =>
      rw [List.foldl_cons, h entry List.mem_cons_self]
      exact ih fun other hother => h other (List.mem_cons_of_mem _ hother)

theorem reconcile_of_settled (hforeign : ∀ name, current[name]? = none → st.Unnamed name)
    (hlisted : ∀ name identity, current[name]? = some identity → (st.profile name).SettledFor identity) :
    st.reconcileStartupSources current = st := by
  have hentry : ∀ entry ∈ current.toList, checkEntry st entry = st ∧ adoptEntry st entry = st := fun entry hmem =>
    entry_settled (hlisted _ _ (Std.ExtTreeMap.mem_toList_iff_getElem?_eq_some.mp hmem))
  rw [reconcileStartupSources_eq, removeUnknown_of_unnamed hforeign, foldl_settled fun entry hmem => (hentry entry hmem).1,
    foldl_settled fun entry hmem => (hentry entry hmem).2]

/-- A foreign profile that is not named is absent, unless it is active. -/
theorem Unnamed.absent (h : st.Unnamed name) (hactive : st.activeSubscription ≠ some name) : st.profile name = .absent := by
  rw [profile, nodesForSubscription, if_neg hactive, h.nodes, h.slot, h.identity, h.pending]
  rfl

end StateFile

open StateFile in
/-- A start reconciles a state exactly if its active profile is in the catalog or is named by one of the four maps. -/
theorem startup_reconciled_iff (st : StateFile) (current : BTreeMap String) :
    (st.reconcileStartupSources current).Reconciled current ↔
      ∀ active, st.activeSubscription = some active → (current[active]?).isSome ∨ active ∈ st.knownSubscriptions := by
  constructor
  · intro h active hactive
    by_contra hneither
    obtain ⟨hforeign, hunnamed⟩ := not_or.mp hneither
    rw [Option.not_isSome_iff_eq_none] at hforeign
    refine (h.foreign active hforeign).2 ?_
    rw [active_reconcile, hactive]
    simp [Option.filter_some, hunnamed]
  · intro h
    have hunnamed : ∀ name, current[name]? = none → (st.reconcileStartupSources current).Unnamed name := fun _ => unnamed_reconcile
    refine ⟨fun name hforeign => ?_, fun name identity hlisted => ?_, ?_⟩
    · have hactive : (st.reconcileStartupSources current).activeSubscription ≠ some name := by
        rw [active_reconcile]
        intro hkept
        obtain ⟨hactive, hname⟩ := Option.filter_eq_some_iff.mp hkept
        have hnamed := (h name hactive).resolve_left (by simp [hforeign])
        simp [hforeign, hnamed] at hname
      exact ⟨(hunnamed name hforeign).absent hactive, hactive⟩
    · rcases settledFor_reconcile hlisted with htrusted | ⟨hpending, _⟩
      · exact .inl (sourceIsTrusted_iff.mpr htrusted)
      · exact .inr hpending
    · exact reconcile_of_settled hunnamed fun name identity hlisted => settledFor_reconcile hlisted

/-- A version-2 file without identities whose active profile has left the catalog. -/
def Sample.identityless : StateFileV2 where
  version := stateVersion
  updatedUnix := 0
  activeSubscription := some "old"
  classes := ∅
  subscriptionNodes := .ofList [("old", ∅)]
  siteVerdicts := ∅
  subscriptionCacheSlots := ∅
  subscriptionSourceIdentities := ∅
  pendingSubscriptionSources := ∅

/-- Its active profile stays. -/
theorem startup_foreign_active : ∃ st, (StateWire.v2 Sample.identityless).load = .ok st ∧
    ¬ (st.reconcileStartupSources (.ofList [("home", "home")])).Reconciled (.ofList [("home", "home")]) := by
  have hkept : ((StateWire.v2 Sample.identityless).load.toOption.any fun st =>
      (st.reconcileStartupSources (.ofList [("home", "home")])).activeSubscription = some "old") = true := by decide +kernel
  obtain ⟨st, hload, hactive⟩ := (Option.any_eq_true _ _).mp hkept
  rw [decide_eq_true_eq] at hactive
  cases hresult : (StateWire.v2 Sample.identityless).load with
  | error error => simp [hresult, Except.toOption] at hload
  | ok loaded =>
      obtain rfl : loaded = st := by simpa [hresult, Except.toOption] using hload
      refine ⟨loaded, rfl, fun h => ?_⟩
      exact (h.foreign "old" (by decide +kernel)).2 hactive

end Causeway

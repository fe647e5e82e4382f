import Causeway.Model.State

/-!
# What the state says of one profile

A profile's statistics, cache slot and source identity are spread over four maps and the flat view. `StateFile.profile` collects them under the profile's name; seen this way an operation changes one profile and leaves the others alone, and a loop over a catalog changes each of its profiles once.
-/

namespace Causeway

/-- Everything that is kept under one profile's name. -/
structure Profile where
  nodes : Option (BTreeMap NodeStats)
  slot : Option String
  identity : Option String
  pending : Option String

namespace Profile

def absent : Profile := ⟨none, none, none, none⟩

def stats (profile : Profile) : BTreeMap NodeStats := profile.nodes.getD ∅

/-- The source with this identity is the trusted one. -/
structure Trusted (profile : Profile) (identity : String) : Prop where
  identity : profile.identity = some identity
  pending : profile.pending = none

/-- A source is not trusted and pending at once, and a pending one keeps nothing. -/
structure Ok (profile : Profile) : Prop where
  apart : profile.identity = none ∨ profile.pending = none
  slot : profile.pending ≠ none → profile.slot = none
  stats : profile.pending ≠ none → profile.stats = ∅

theorem absent_ok : absent.Ok := ⟨.inl rfl, fun _ => rfl, fun _ => rfl⟩

theorem Trusted.ok {profile : Profile} {identity : String} (h : profile.Trusted identity) : profile.Ok :=
  ⟨.inr h.pending, fun hpending => absurd h.pending hpending, fun hpending => absurd h.pending hpending⟩

end Profile

namespace StateFile

def profile (st : StateFile) (name : String) : Profile :=
  ⟨st.nodesForSubscription name, st.subscriptionCacheSlots[name]?, st.subscriptionSourceIdentities[name]?,
    st.pendingSubscriptionSources[name]?⟩

/-- The active profile has no second copy, and a version-1 state has no profiles yet. -/
structure Tidy (st : StateFile) : Prop where
  single : ∀ name, st.activeSubscription = some name → st.subscriptionNodes[name]? = none
  unmigrated : st.version = legacyStateVersion → st.activeSubscription = none ∧ st.subscriptionNodes = ∅

variable {st : StateFile} {name other identity : String}

theorem sourceIsTrusted_iff : st.sourceIsTrusted name identity = true ↔ (st.profile name).Trusted identity := by
  rw [sourceIsTrusted, Bool.and_eq_true, decide_eq_true_eq, Option.isNone_iff_eq_none]
  exact ⟨fun h => ⟨h.1, h.2⟩, fun h => ⟨h.identity, h.pending⟩⟩

/-! ### Removal -/

theorem profile_remove_self : (st.removeSubscription name).profile name = .absent := by
  by_cases h : st.activeSubscription = some name <;>
    simp [profile, nodesForSubscription, removeSubscription, Profile.absent, h]

theorem profile_remove_of_ne (h : other ≠ name) :
    (st.removeSubscription name).profile other = st.profile other := by
  by_cases hactive : st.activeSubscription = some name
  · simp [profile, nodesForSubscription, removeSubscription, hactive, Std.ExtTreeMap.getElem?_erase, Ne.symm h]
  · simp [profile, nodesForSubscription, removeSubscription, hactive, Std.ExtTreeMap.getElem?_erase, Ne.symm h]

theorem Tidy.remove (h : st.Tidy) : (st.removeSubscription name).Tidy := by
  refine ⟨fun active hactive => ?_, fun hversion => ?_⟩
  · simp only [removeSubscription] at hactive ⊢
    split at hactive
    · cases hactive
    · rw [Std.ExtTreeMap.getElem?_erase]
      simp [h.single active hactive]
  · obtain ⟨hnone, hempty⟩ := h.unmigrated hversion
    simp [removeSubscription, hnone, hempty]

/-! ### Sources -/

theorem profile_invalidate_self : (st.invalidateSubscriptionSource name identity).profile name =
    { nodes := if st.activeSubscription = some name then some ∅ else none
      slot := none, identity := none, pending := some identity } := by
  by_cases h : st.activeSubscription = some name <;>
    simp [profile, nodesForSubscription, invalidateSubscriptionSource, h]

theorem profile_invalidate_of_ne (h : other ≠ name) :
    (st.invalidateSubscriptionSource name identity).profile other = st.profile other := by
  by_cases hactive : st.activeSubscription = some name <;>
    simp [profile, nodesForSubscription, invalidateSubscriptionSource, hactive, Std.ExtTreeMap.getElem?_erase,
      Std.ExtTreeMap.getElem?_insert, Ne.symm h]

theorem Tidy.invalidate (h : st.Tidy) : (st.invalidateSubscriptionSource name identity).Tidy := by
  refine ⟨fun active hactive => ?_, fun hversion => ?_⟩
  · have hnone := h.single active hactive
    simp only [invalidateSubscriptionSource]
    split
    · exact hnone
    · simp [Std.ExtTreeMap.getElem?_erase, hnone]
  · obtain ⟨hnone, hempty⟩ := h.unmigrated hversion
    simp [invalidateSubscriptionSource, hnone, hempty]

theorem profile_trust_self : (st.trustSubscriptionSource name identity).profile name =
    { st.profile name with identity := some identity, pending := none } := by
  have hnodes : (st.trustSubscriptionSource name identity).nodesForSubscription name =
      st.nodesForSubscription name := rfl
  rw [profile, hnodes]
  simp [profile, trustSubscriptionSource]

theorem profile_trust_of_ne (h : other ≠ name) :
    (st.trustSubscriptionSource name identity).profile other = st.profile other := by
  have hnodes : (st.trustSubscriptionSource name identity).nodesForSubscription other =
      st.nodesForSubscription other := rfl
  rw [profile, hnodes]
  simp [profile, trustSubscriptionSource, Std.ExtTreeMap.getElem?_erase, Std.ExtTreeMap.getElem?_insert, Ne.symm h]

theorem Tidy.trust (h : st.Tidy) : (st.trustSubscriptionSource name identity).Tidy := ⟨h.single, h.unmigrated⟩

/-! ### Activation -/

theorem activate_legacy (h : st.version = legacyStateVersion) : (st.activateSubscription name).2 =
    { st with version := stateVersion, activeSubscription := some name } := by
  simp [activateSubscription, migrateForSubscription, h]

theorem activate_same (hversion : st.version ≠ legacyStateVersion) (h : st.activeSubscription = some name) :
    (st.activateSubscription name).2 = st := by
  simp [activateSubscription, migrateForSubscription, hversion, h]

/-- Every profile's statistics before a change of the active one: the flat view goes back under its name. -/
def inactive (st : StateFile) : BTreeMap (BTreeMap NodeStats) :=
  match st.activeSubscription with
  | some previous => st.subscriptionNodes.insert previous st.nodes
  | none => st.subscriptionNodes

theorem activate_new (hversion : st.version ≠ legacyStateVersion) (h : st.activeSubscription ≠ some name) :
    (st.activateSubscription name).2 =
      { st with
        activeSubscription := some name
        subscriptionNodes := st.inactive.erase name
        nodes := (st.inactive[name]?).getD ∅ } := by
  simp only [activateSubscription, migrateForSubscription, if_pos hversion, if_neg h]
  rfl

theorem inactive_getElem? : st.inactive[name]? = st.nodesForSubscription name := by
  unfold inactive nodesForSubscription
  cases st.activeSubscription with
  | none => simp
  | some previous =>
      by_cases h : previous = name
      · simp [h]
      · simp [h, Std.ExtTreeMap.getElem?_insert]

@[simp] theorem activate_activeSubscription : (st.activateSubscription name).2.activeSubscription = some name := by
  by_cases hversion : st.version = legacyStateVersion
  · rw [activate_legacy hversion]
  · by_cases h : st.activeSubscription = some name
    · rw [activate_same hversion h, h]
    · rw [activate_new hversion h]

@[simp] theorem activate_version : (st.activateSubscription name).2.version ≠ legacyStateVersion := by
  by_cases hversion : st.version = legacyStateVersion
  · rw [activate_legacy hversion]
    show stateVersion ≠ legacyStateVersion
    decide
  · by_cases h : st.activeSubscription = some name
    · rwa [activate_same hversion h]
    · rwa [activate_new hversion h]

/-- Activating a profile puts its statistics in the flat view. -/
theorem activate_nodes (hversion : st.version ≠ legacyStateVersion) :
    (st.activateSubscription name).2.nodes = (st.profile name).stats := by
  by_cases h : st.activeSubscription = some name
  · rw [activate_same hversion h]
    simp [profile, Profile.stats, nodesForSubscription, h]
  · rw [activate_new hversion h]
    exact congrArg (·.getD ∅) inactive_getElem?

theorem profile_activate_self (hversion : st.version ≠ legacyStateVersion) :
    (st.activateSubscription name).2.profile name =
      { st.profile name with nodes := some (st.profile name).stats } := by
  have hnodes : (st.activateSubscription name).2.nodesForSubscription name = some (st.profile name).stats := by
    rw [nodesForSubscription, if_pos activate_activeSubscription, activate_nodes hversion]
  rw [profile, hnodes]
  by_cases h : st.activeSubscription = some name
  · rw [activate_same hversion h]
    rfl
  · rw [activate_new hversion h]
    rfl

/-- The other profiles keep what they have, the one that was active included. -/
theorem profile_activate_of_ne
    (hunmigrated : st.version = legacyStateVersion → st.activeSubscription = none ∧ st.subscriptionNodes = ∅)
    (h : other ≠ name) :
    (st.activateSubscription name).2.profile other = st.profile other := by
  have hother : (st.activateSubscription name).2.activeSubscription ≠ some other := by
    rw [activate_activeSubscription]
    simpa using Ne.symm h
  have hnodes : (st.activateSubscription name).2.nodesForSubscription other = st.nodesForSubscription other := by
    rw [nodesForSubscription, if_neg hother]
    by_cases hversion : st.version = legacyStateVersion
    · obtain ⟨hnone, hempty⟩ := hunmigrated hversion
      rw [activate_legacy hversion]
      simp [nodesForSubscription, hnone]
    · by_cases hactive : st.activeSubscription = some name
      · rw [activate_same hversion hactive]
        have hne : st.activeSubscription ≠ some other := by
          rw [hactive]
          simpa using Ne.symm h
        rw [nodesForSubscription, if_neg hne]
      · rw [activate_new hversion hactive]
        rw [Std.ExtTreeMap.getElem?_erase, inactive_getElem?]
        simp [Ne.symm h]
  rw [profile, hnodes]
  by_cases hversion : st.version = legacyStateVersion
  · rw [activate_legacy hversion]
    rfl
  · by_cases hactive : st.activeSubscription = some name
    · rw [activate_same hversion hactive]
      rfl
    · rw [activate_new hversion hactive]
      rfl

theorem Tidy.activate (h : st.Tidy) : (st.activateSubscription name).2.Tidy := by
  refine ⟨fun active hactive => ?_, fun hversion => absurd hversion activate_version⟩
  rw [activate_activeSubscription] at hactive
  cases hactive
  by_cases hversion : st.version = legacyStateVersion
  · obtain ⟨_, hempty⟩ := h.unmigrated hversion
    rw [activate_legacy hversion]
    simp [hempty]
  · by_cases hactive : st.activeSubscription = some name
    · rw [activate_same hversion hactive]
      exact h.single name hactive
    · rw [activate_new hversion hactive]
      simp

/-! ### Loops -/

/-- A loop keeps what each of its rounds keeps. -/
theorem foldl_keeps {α : Type} {X : StateFile → Prop} {f : StateFile → α → StateFile}
    (hstep : ∀ st a, X st → X (f st a)) (l : List α) (h : X st) : X (l.foldl f st) := by
  induction l generalizing st with
  | nil => exact h
  | cons a l ih => exact ih (hstep st a h)

/-- A loop that leaves a profile alone at every entry leaves it alone. -/
theorem profile_foldl_of_ne {α : Type} {f : StateFile → α → StateFile} {l : List α}
    (hother : ∀ st a, a ∈ l → (f st a).profile name = st.profile name) :
    (l.foldl f st).profile name = st.profile name := by
  induction l generalizing st with
  | nil => rfl
  | cons a l ih =>
      have hrest : (l.foldl f (f st a)).profile name = (f st a).profile name :=
        ih fun st a ha => hother st a (List.mem_cons_of_mem _ ha)
      exact hrest.trans (hother st a List.mem_cons_self)

/-- A loop over distinct names that touches only the profile of the entry at hand does to each what its entry does. -/
theorem profile_foldl {f : StateFile → String × String → StateFile} {l : List (String × String)}
    (hkeys : l.Pairwise fun a b => a.1 ≠ b.1) (hmem : (name, identity) ∈ l)
    (hother : ∀ st entry, entry.1 ≠ name → (f st entry).profile name = st.profile name) :
    ∃ mid : StateFile, mid.profile name = st.profile name ∧
      (l.foldl f st).profile name = (f mid (name, identity)).profile name := by
  induction l generalizing st with
  | nil => cases hmem
  | cons entry l ih =>
      obtain ⟨hentry, hrest⟩ := List.pairwise_cons.mp hkeys
      rcases List.mem_cons.mp hmem with rfl | hmem
      · exact ⟨st, rfl, profile_foldl_of_ne fun st other hin => hother st other (Ne.symm (hentry other hin))⟩
      · obtain ⟨mid, hmid, hfold⟩ := @ih (f st entry) hrest hmem
        exact ⟨mid, hmid.trans (hother st entry (hentry _ hmem)), hfold⟩

theorem catalog_keys (catalog : BTreeMap String) :
    (Std.ExtTreeMap.toList catalog).Pairwise fun a b => a.1 ≠ b.1 := by
  refine (Std.ExtTreeMap.distinct_keys_toList (t := catalog)).imp fun hab heq => hab ?_
  rw [heq]
  exact Std.ReflCmp.compare_self

/-- Dropping the unknown profiles leaves the known ones alone. -/
theorem profile_removeUnknown {current : BTreeMap String} (h : current[name]? = some identity) :
    (st.removeUnknown current).profile name = st.profile name := by
  refine profile_foldl_of_ne fun st other hin => profile_remove_of_ne ?_
  rintro rfl
  have := (List.mem_filter.mp hin).2
  rw [h] at this
  cases this

end StateFile

end Causeway

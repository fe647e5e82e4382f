import Causeway.Concurrent.Solo
import Causeway.Proof.StateFile
import Causeway.Proof.Statistics

/-!
# Saving and loading the state

On disk the active profile's statistics are folded into the profile map; loading takes them out again. A state that the operations lead to comes back from a successful save as it was, and a save refuses just the states that have no wire form.
-/

namespace Causeway

open Concurrent

/-! ### Operations -/

/-- The operations on a state, with slots limited to the two slot names. -/
inductive StateOp where
  | remove (name : String)
  | invalidate (name identity : String)
  | trust (name identity : String)
  | catalog (previous next : BTreeMap String) (freshlyTrusted : Option String)
  | reconcile (current : BTreeMap String)
  | migrate (selected : String)
  | activate (name : String)
  | slot (name value : String) (valid : value = cacheSlotA ∨ value = cacheSlotB)
  | nodes (f : BTreeMap NodeStats → BTreeMap NodeStats)
  | classes (f : BTreeMap ClassState → BTreeMap ClassState)
  | verdicts (f : BTreeMap (BTreeMap SiteVerdict) → BTreeMap (BTreeMap SiteVerdict))
  | stamp (now : Int)

def StateOp.run (st : StateFile) : StateOp → StateFile
  | .remove name => st.removeSubscription name
  | .invalidate name identity => st.invalidateSubscriptionSource name identity
  | .trust name identity => st.trustSubscriptionSource name identity
  | .catalog previous next freshlyTrusted => st.applySubscriptionCatalog previous next freshlyTrusted
  | .reconcile current => st.reconcileStartupSources current
  | .migrate selected => (st.migrateForSubscription selected).2
  | .activate name => (st.activateSubscription name).2
  | .slot name value _ => { st with subscriptionCacheSlots := st.subscriptionCacheSlots.insert name value }
  | .nodes f => { st with nodes := f st.nodes }
  | .classes f => { st with classes := f st.classes }
  | .verdicts f => { st with siteVerdicts := f st.siteVerdicts }
  | .stamp now => { st with updatedUnix := now }

namespace StateFile

/-- Every confirmed slot is one of the two. -/
def SlotsValid (st : StateFile) : Prop :=
  ∀ name value : String, st.subscriptionCacheSlots[name]? = some value → value = cacheSlotA ∨ value = cacheSlotB

/-- What holds of every state the operations lead to. -/
structure Sound (st : StateFile) : Prop where
  tidy : st.Tidy
  slots : st.SlotsValid
  version : st.version = legacyStateVersion ∨ st.version = stateVersion

/-- The states a save refuses: unmigrated, or with statistics of no profile. -/
def Refused (st : StateFile) : Prop :=
  st.version = legacyStateVersion ∨ st.activeSubscription = none ∧ st.nodes ≠ ∅

variable {st : StateFile} {name identity : String}

theorem SlotsValid.of_erase (h : st.SlotsValid) {other : StateFile}
    (heq : other.subscriptionCacheSlots = st.subscriptionCacheSlots.erase name) : other.SlotsValid := by
  intro key slot hslot
  rw [heq, Std.ExtTreeMap.getElem?_erase] at hslot
  split at hslot
  · cases hslot
  · exact h key slot hslot

theorem Sound.remove (h : st.Sound) : (st.removeSubscription name).Sound :=
  ⟨h.tidy.remove, h.slots.of_erase rfl, h.version⟩

theorem Sound.invalidate (h : st.Sound) : (st.invalidateSubscriptionSource name identity).Sound :=
  ⟨h.tidy.invalidate, h.slots.of_erase rfl, h.version⟩

theorem Sound.trust (h : st.Sound) : (st.trustSubscriptionSource name identity).Sound :=
  ⟨h.tidy.trust, h.slots, h.version⟩

theorem Sound.removeUnknown (h : st.Sound) (current : BTreeMap String) : (st.removeUnknown current).Sound :=
  foldl_keeps (fun _ _ h => h.remove) _ h

theorem Sound.catalog (h : st.Sound) (previous next : BTreeMap String) (freshlyTrusted : Option String) :
    (st.applySubscriptionCatalog previous next freshlyTrusted).Sound := by
  refine foldl_keeps (fun st entry h => ?_) _ (h.removeUnknown next)
  dsimp only
  split <;> split
  · exact h.invalidate.trust
  · exact h.trust
  · exact h.invalidate
  · exact h

theorem Sound.reconcile (h : st.Sound) (current : BTreeMap String) : (st.reconcileStartupSources current).Sound := by
  refine foldl_keeps (fun st entry h => ?_) _ (foldl_keeps (fun st entry h => ?_) _ (h.removeUnknown current))
  · dsimp only
    split
    · exact h
    · split
      · split
        · exact h
        · exact h.invalidate
      · exact h.trust
  · dsimp only
    split
    · exact h.invalidate
    · exact h

theorem Sound.migrate (h : st.Sound) : (st.migrateForSubscription name).2.Sound := by
  unfold migrateForSubscription
  split
  · exact h
  · rename_i hlegacy
    obtain ⟨_, hempty⟩ := h.tidy.unmigrated (not_not.mp hlegacy)
    refine ⟨⟨fun active _ => ?_, fun hversion => ?_⟩, h.slots, .inr rfl⟩
    · simp [hempty]
    · exact absurd hversion (show stateVersion ≠ legacyStateVersion by decide)

theorem activate_slots : (st.activateSubscription name).2.subscriptionCacheSlots = st.subscriptionCacheSlots := by
  by_cases hversion : st.version = legacyStateVersion
  · rw [activate_legacy hversion]
  · by_cases hactive : st.activeSubscription = some name
    · rw [activate_same hversion hactive]
    · rw [activate_new hversion hactive]

theorem Sound.activate (h : st.Sound) : (st.activateSubscription name).2.Sound := by
  refine ⟨h.tidy.activate, ?_, ?_⟩
  · intro key slot hslot
    rw [activate_slots] at hslot
    exact h.slots key slot hslot
  · by_cases hversion : st.version = legacyStateVersion
    · rw [activate_legacy hversion]
      exact .inr rfl
    · by_cases hactive : st.activeSubscription = some name
      · rw [activate_same hversion hactive]
        exact h.version
      · rw [activate_new hversion hactive]
        exact h.version

theorem Sound.run (h : st.Sound) (op : StateOp) : (op.run st).Sound := by
  cases op with
  | remove name => exact h.remove
  | invalidate name identity => exact h.invalidate
  | trust name identity => exact h.trust
  | catalog previous next freshlyTrusted => exact h.catalog previous next freshlyTrusted
  | reconcile current => exact h.reconcile current
  | migrate selected => exact h.migrate
  | activate name => exact h.activate
  | slot name value valid =>
      refine ⟨⟨h.tidy.single, h.tidy.unmigrated⟩, fun key other hother => ?_, h.version⟩
      simp only [StateOp.run, Std.ExtTreeMap.getElem?_insert] at hother
      split at hother
      · cases hother
        exact valid
      · exact h.slots key other hother
  | nodes f => exact ⟨⟨h.tidy.single, h.tidy.unmigrated⟩, h.slots, h.version⟩
  | classes f => exact ⟨⟨h.tidy.single, h.tidy.unmigrated⟩, h.slots, h.version⟩
  | verdicts f => exact ⟨⟨h.tidy.single, h.tidy.unmigrated⟩, h.slots, h.version⟩
  | stamp now => exact ⟨⟨h.tidy.single, h.tidy.unmigrated⟩, h.slots, h.version⟩

theorem load_version {wire : StateWire} (h : wire.load = .ok st) :
    st.version = legacyStateVersion ∨ st.version = stateVersion := by
  cases wire with
  | v1 wire =>
      simp only [StateWire.load] at h
      split at h
      · cases h
        exact .inl ‹_›
      · cases h
  | v2 wire =>
      simp only [StateWire.load] at h
      split at h
      · cases h
      rename_i hversion
      split at h
      · cases h
      split at h
      · split at h
        · cases h
          exact .inr (not_not.mp hversion)
        · cases h
      · cases h
        exact .inr (not_not.mp hversion)

/-- The slots of a loaded state are those of the file, which have been looked at. -/
theorem load_slots {wire : StateWire} (h : wire.load = .ok st) : st.SlotsValid := by
  cases wire with
  | v1 wire =>
      simp only [StateWire.load] at h
      split at h
      · cases h
        intro name value hvalue
        simp [default] at hvalue
      · cases h
  | v2 wire =>
      simp only [StateWire.load] at h
      split at h
      · cases h
      split at h
      · cases h
      rename_i hfind
      have hslots : ∀ name value : String, wire.subscriptionCacheSlots[name]? = some value →
          value = cacheSlotA ∨ value = cacheSlotB := by
        intro name value hvalue
        have hmem := Std.ExtTreeMap.mem_toList_iff_getElem?_eq_some.mpr hvalue
        have := List.find?_eq_none.mp hfind _ hmem
        by_contra hno
        rw [not_or] at hno
        exact this (by simpa [cacheSlotA, cacheSlotB] using hno)
      split at h
      · split at h
        · cases h
          exact hslots
        · cases h
      · cases h
        exact hslots

theorem Initial.sound (h : st.Initial) : st.Sound := by
  rcases h with rfl | ⟨wire, hload⟩
  · exact ⟨.default, fun _ _ hslot => by simp [default] at hslot, .inr rfl⟩
  · refine ⟨.load hload, ?_, ?_⟩
    · exact load_slots hload
    · exact load_version hload

theorem Sound.foldl (h : st.Sound) (ops : List StateOp) : (ops.foldl StateOp.run st).Sound :=
  foldl_keeps (fun _ op h => h.run op) ops h

/-! ### The wire form -/

/-- A state that a save refuses has no wire form. -/
theorem toWire_error (h : st.Refused) : ∃ error, st.toWire = .error error := by
  have hnodes : ∃ error, st.persistedSubscriptionNodes = .error error := by
    unfold persistedSubscriptionNodes
    rcases h with hlegacy | ⟨hnone, hempty⟩
    · have hversion : st.version ≠ stateVersion := by
        rw [hlegacy]
        decide
      exact ⟨.needsMigration, by rw [if_pos hversion]⟩
    · by_cases hversion : st.version = stateVersion
      · exact ⟨.unboundNodes, by simp [hversion, hnone, hempty]⟩
      · exact ⟨.needsMigration, by rw [if_pos hversion]⟩
  obtain ⟨error, hnodes⟩ := hnodes
  exact ⟨error, by rw [toWire, hnodes]; rfl⟩

/-- Any other state has one, and loading it gives the state back. -/
theorem load_toWire (h : st.Sound) (hrefused : ¬ st.Refused) :
    ∃ wire, st.toWire = .ok wire ∧ (StateWire.v2 wire).load = .ok st := by
  have hversion : st.version = stateVersion := h.version.resolve_left fun hlegacy => hrefused (.inl hlegacy)
  have hslots : (Std.ExtTreeMap.toList st.subscriptionCacheSlots).find?
      (fun entry => !decide (entry.2 = "a") && !decide (entry.2 = "b")) = none := by
    rw [List.find?_eq_none]
    intro entry hentry
    rcases h.slots entry.1 entry.2 (Std.ExtTreeMap.mem_toList_iff_getElem?_eq_some.mp hentry) with hslot | hslot
    · simp [hslot, cacheSlotA]
    · simp [hslot, cacheSlotB]
  cases hactive : st.activeSubscription with
  | some active =>
      have hnodes : st.persistedSubscriptionNodes = .ok (st.subscriptionNodes.insert active st.nodes) := by
        simp [persistedSubscriptionNodes, hversion, hactive]
      refine ⟨_, by rw [toWire, hnodes]; rfl, ?_⟩
      -- The active entry goes in and comes out again, because it had no second copy.
      have herase : (st.subscriptionNodes.insert active st.nodes).erase active = st.subscriptionNodes := by
        ext1 key
        by_cases hkey : active = key
        · subst hkey
          simp [h.tidy.single active hactive]
        · simp [Std.ExtTreeMap.getElem?_erase, Std.ExtTreeMap.getElem?_insert, hkey]
      simp [StateWire.load, hactive, herase, ← hversion]
      rw [hslots, ← hactive]
  | none =>
      have hempty : st.nodes = ∅ := by
        by_contra hno
        exact hrefused (.inr ⟨hactive, hno⟩)
      have hnodes : st.persistedSubscriptionNodes = .ok st.subscriptionNodes := by
        simp [persistedSubscriptionNodes, hversion, hactive, hempty]
      refine ⟨_, by rw [toWire, hnodes]; rfl, ?_⟩
      simp [StateWire.load, hactive, ← hempty, ← hversion]
      rw [hslots, ← hactive]

end StateFile

/-! ### A save that runs alone -/

/-- If all is to go well, no operation of the outside fails. -/
def Willing (fine : Prop) (o : Outside) : Prop := fine → o.ok = true

/-- How one part of a save ends: well if all is to go well, and if well then with `X`. -/
def Succeeds (fine : Prop) (X : World → Prop) (ok : Bool) (w : World) : Prop :=
  (fine → ok = true) ∧ (ok = true → X w)

namespace Sup

variable {β : Type} {env : Env} {me inode : Nat} {fine : Prop} {w : World} {post : β → World → Prop}

/-- The temporary file is open and holds these bytes. -/
def Holds (inode : Nat) (bytes : Bytes) (w : World) : Prop :=
  w.stateDir.tmp = some inode ∧ w.stateDir.inodes.content inode = bytes

theorem Succeeds.failed {X : World → Prop} {ok : Bool} (hno : ok = false) (h : fine → ok = true) :
    Succeeds fine X false w :=
  ⟨fun hfine => hno.symm.trans (h hfine), fun hfalse => absurd hfalse Bool.false_ne_true⟩

/-- An operation of the outside, with what it changes. -/
theorem alone_act {α : Type} {f : Outside → World → α × World} {k : α → Sup β}
    (h : ∀ o, Willing fine o → Prog.Alone (Willing fine) post (k (f o w).1) (f o w).2) :
    Prog.Alone (Willing fine) post (act f >>= k) w := by
  apply Prog.Alone.atomic
  intro o b t hwilling hact
  have hnext := h o hwilling
  rwa [Option.some.inj hact] at hnext

theorem alone_ask {k : Bool → Sup β}
    (h : ∀ ok, (fine → ok = true) → Prog.Alone (Willing fine) post (k ok) w) :
    Prog.Alone (Willing fine) post (ask (·.ok) >>= k) w := by
  apply Prog.Alone.atomic
  intro o b t hwilling hact
  cases hact
  exact h o.ok hwilling

/-- Nothing is left to write. -/
theorem Holds.all {content : Bytes} {offset : Nat} (h : Holds inode (content.take offset) w)
    (hnil : content.drop offset = []) : Holds inode content w := by
  rwa [List.take_of_length_le (List.drop_eq_nil_iff.mp hnil)] at h

theorem alone_writeAll {content : Bytes} {fuel offset : Nat} (hfuel : (content.drop offset).length ≤ fuel)
    (hle : offset ≤ content.length) (h : Holds inode (content.take offset) w) :
    Prog.Alone (Willing fine) (Succeeds fine (Holds inode content))
      (writeAll me inode fuel offset (content.drop offset)) w := by
  induction fuel generalizing offset w with
  | zero =>
      have hnil : content.drop offset = [] := List.length_eq_zero_iff.mp (by omega)
      rw [hnil, writeAll]
      exact ⟨fun _ => rfl, fun _ => h.all hnil⟩
  | succ fuel ih =>
      cases hbytes : content.drop offset with
      | nil =>
          rw [writeAll]
          exact ⟨fun _ => rfl, fun _ => h.all hbytes⟩
      | cons byte bytes =>
          rw [writeAll]
          · apply alone_act
            intro o hwilling
            cases ho : o.ok with
            | false => exact Succeeds.failed ho hwilling
            | true =>
                simp only [if_true]
                have hlen : (byte :: bytes).length = content.length - offset := by
                  rw [← hbytes, List.length_drop]
                have hpos : 0 < (byte :: bytes).length := by simp
                rw [hbytes] at hfuel
                generalize hcount : max 1 (min o.count (byte :: bytes).length) = count
                have hchunk : ((byte :: bytes).take count).length = count := by
                  rw [List.length_take]
                  omega
                have hrest : (byte :: bytes).drop count = content.drop (offset + count) := by
                  rw [← hbytes, List.drop_drop]
                rw [hrest]
                have hheld : Holds inode (content.take (offset + count)) { w with
                    stateDir := w.stateDir.write inode offset ((byte :: bytes).take count)
                    trail := w.trail.updateSave me fun save => { save with written := offset + count } } := by
                  refine ⟨h.1, ?_⟩
                  show Function.update _ _ _ _ = _
                  rw [Function.update_self, h.2, writeAt_end hle (hbytes ▸ List.take_prefix _ _), hchunk]
                refine ih ?_ (by omega) hheld
                rw [List.length_drop]
                omega
          · simp

/-- How a save ends: well if all is to go well, and if well then with these bytes in the state file. -/
def Saved (fine : Prop) (content : Bytes) (outcome : Option SaveOutcome) (w : World) : Prop :=
  (fine → outcome.isSome = true) ∧ (outcome.isSome = true → w.stateDir.bytes = some content)

theorem Saved.failed {content : Bytes} {ok : Bool} (hno : ok = false) (h : fine → ok = true) :
    Saved fine content none w :=
  ⟨fun hfine => hno.symm.trans (h hfine), fun hnone => absurd hnone Bool.false_ne_true⟩

theorem openTmp_holds (dir : StateDir) : dir.openTmp.2.tmp = some dir.openTmp.1 ∧
    dir.openTmp.2.inodes.content dir.openTmp.1 = [] := by
  unfold StateDir.openTmp
  cases htmp : dir.tmp with
  | none => exact ⟨rfl, Function.update_self _ _ _⟩
  | some inode => exact ⟨rfl, Function.update_self _ _ _⟩

theorem alone_saveSteps {kind : SaveKind} {content : Bytes} :
    Prog.Alone (Willing fine) (Saved fine content) (saveSteps me kind content) w := by
  rw [saveSteps]
  apply alone_act
  intro o hopen
  cases ho : o.ok with
  | false => exact Saved.failed ho hopen
  | true =>
      simp only [if_true]
      apply alone_ask
      intro ok hok
      cases ok with
      | false => exact Saved.failed rfl hok
      | true =>
          have hwrite := @alone_writeAll me w.stateDir.openTmp.1 fine { w with
            stateDir := w.stateDir.openTmp.2
            trail := w.trail.updateSave me fun save =>
              { save with inode := some w.stateDir.openTmp.1, written := 0 } }
            content content.length 0 le_rfl (Nat.zero_le _) (openTmp_holds w.stateDir)
          refine hwrite.bind ?_
          rintro written v ⟨hfine, hheld⟩
          cases written with
          | false => exact Saved.failed rfl hfine
          | true =>
              apply alone_ask
              intro ok hok
              cases ok with
              | false => exact Saved.failed rfl hok
              | true =>
                  obtain ⟨htmp, hbytes⟩ := hheld rfl
                  apply alone_act
                  intro o hrename
                  have hdir : v.stateDir.renameTmp =
                      some { v.stateDir with tmp := none, file := some w.stateDir.openTmp.1 } := by
                    simp [StateDir.renameTmp, htmp]
                  cases ho : o.ok with
                  | false => exact Saved.failed ho hrename
                  | true =>
                      simp only [hdir]
                      apply alone_ask
                      intro ok _
                      have hsaved : ∀ outcome : SaveOutcome, Saved fine content (some outcome) { v with
                          stateDir := { v.stateDir with tmp := none, file := some w.stateDir.openTmp.1 }
                          trail := { v.trail.updateSave me fun save => { save with renamed := true } with
                            recorded := saveRecord kind v.trail.recorded } } := by
                        refine fun outcome => ⟨fun _ => rfl, fun _ => ?_⟩
                        simp [StateDir.bytes, hbytes]
                      cases ok with
                      | false => exact hsaved _
                      | true => exact hsaved _

theorem alone_saveAtomic {kind : SaveKind} {st : StateFile} {content : Bytes}
    (hserialize : env.serialize st = some content) :
    Prog.Alone (Willing fine) (Saved fine content) (saveAtomic env me kind st) w := by
  rw [saveAtomic]
  apply alone_ask
  intro ok hok
  cases ok with
  | false => exact Saved.failed rfl hok
  | true =>
      rw [hserialize]
      apply alone_act
      intro _ _
      refine Prog.Alone.bind alone_saveSteps fun outcome t hsaved => ?_
      apply alone_act
      intro _ _
      exact hsaved

theorem enabled_act {α : Type} {f : Outside → World → α × World} : (act f).Enabled :=
  .atomic fun _ _ => rfl

theorem enabled_ask {α : Type} {f : Outside → α} : (ask f).Enabled := .atomic fun _ _ => rfl

theorem enabled_writeAll {fuel offset : Nat} {bytes : Bytes} : (writeAll me inode fuel offset bytes).Enabled := by
  induction fuel generalizing offset bytes with
  | zero => cases bytes <;> exact .pure _
  | succ fuel ih =>
      cases bytes with
      | nil => exact .pure _
      | cons byte bytes =>
          rw [writeAll]
          · refine .bind enabled_act fun count => ?_
            cases count with
            | none => exact .pure _
            | some count => exact ih
          · simp

theorem enabled_saveSteps {kind : SaveKind} {content : Bytes} : (saveSteps me kind content).Enabled := by
  rw [saveSteps]
  refine .bind enabled_act fun inode => ?_
  cases inode with
  | none => exact .pure _
  | some inode =>
      refine .bind enabled_ask fun ok => ?_
      cases ok with
      | false => exact .pure _
      | true =>
          refine .bind enabled_writeAll fun written => ?_
          cases written with
          | false => exact .pure _
          | true =>
              refine .bind enabled_ask fun ok => ?_
              cases ok with
              | false => exact .pure _
              | true =>
                  refine .bind enabled_act fun renamed => ?_
                  cases renamed with
                  | false => exact .pure _
                  | true =>
                      refine .bind enabled_ask fun ok => ?_
                      cases ok <;> exact .pure _

theorem enabled_saveAtomic {kind : SaveKind} {st : StateFile} : (saveAtomic env me kind st).Enabled := by
  rw [saveAtomic]
  refine .bind enabled_ask fun ok => ?_
  cases ok with
  | false => exact .pure _
  | true =>
      cases env.serialize st with
      | none => exact .pure _
      | some content =>
          refine .bind enabled_act fun _ => ?_
          exact .bind enabled_saveSteps fun _ => .bind enabled_act fun _ => .pure _

/-- Without a wire form nothing is done. -/
theorem run_saveAtomic_refused {kind : SaveKind} {st : StateFile} (h : env.serialize st = none)
    (events : Nat → Outside) : (saveAtomic env me kind st).run events w = some (none, w) := by
  simp [saveAtomic, ask, Prog.run, h, pure]

end Sup

/-! ### Round trip -/

/-- Decoding gives back what a save of this state encodes. -/
def Env.Faithful (env : Env) (st : StateFile) : Prop :=
  ∀ wire, st.toWire = .ok wire → env.fromStr (env.toVecPretty wire) = some (.v2 wire)

section

variable {env : Env} {st : StateFile}

theorem serialize_none (h : st.Refused) : env.serialize st = none := by
  obtain ⟨error, hwire⟩ := StateFile.toWire_error h
  rw [Env.serialize, hwire]

/-- What a save writes loads as the state. -/
theorem load_serialized (h : st.Sound) (hrefused : ¬ st.Refused) (hfaithful : env.Faithful st) :
    ∃ content, env.serialize st = some content ∧ env.load (some content) = .ok (some st) := by
  obtain ⟨wire, hwire, hload⟩ := StateFile.load_toWire h hrefused
  refine ⟨env.toVecPretty wire, by rw [Env.serialize, hwire], ?_⟩
  rw [Env.load, hfaithful wire hwire]
  exact congrArg (Except.map some) hload

/-- A save of such a state that runs alone: if it succeeds the file holds the state, and it succeeds if nothing fails. -/
theorem saved_state (h : st.Sound) (hrefused : ¬ st.Refused) (hfaithful : env.Faithful st) {me : Nat}
    {kind : SaveKind} {w last : World} {events : Nat → Outside} {outcome : Option SaveOutcome}
    (hrun : (Sup.saveAtomic env me kind st).run events w = some (outcome, last)) :
    ((∀ n, (events n).ok = true) → outcome.isSome = true) ∧
      (outcome.isSome = true → env.load last.stateDir.bytes = .ok (some st)) := by
  obtain ⟨content, hserialize, hload⟩ := load_serialized h hrefused hfaithful
  have halone : Prog.Alone (Willing (∀ n, (events n).ok = true)) (Sup.Saved (∀ n, (events n).ok = true) content)
      (Sup.saveAtomic env me kind st) w := Sup.alone_saveAtomic hserialize
  have hsaved := halone.run (fun n hfine => hfine n) hrun
  refine ⟨hsaved.1, fun hsome => ?_⟩
  rw [hsaved.2 hsome]
  exact hload

/-- Migration binds the statistics of a version-1 file to the profile and leaves the rest. -/
theorem migrate_legacy {wire : StateFileV1} {old : StateFile} (hload : (StateWire.v1 wire).load = .ok old)
    (selected : String) :
    ¬ (old.migrateForSubscription selected).2.Refused ∧
      (old.migrateForSubscription selected).2.classes = wire.classes ∧
      (old.migrateForSubscription selected).2.nodesForSubscription selected = some wire.nodes := by
  simp only [StateWire.load] at hload
  split at hload
  · rename_i hversion
    cases hload
    simp [StateFile.migrateForSubscription, StateFile.Refused, StateFile.nodesForSubscription, hversion,
      stateVersion, legacyStateVersion]
  · cases hload

/-- Every state that the operations lead to comes back from a save as it was; a save refuses only unmigrated states and statistics of no profile, without a step on the files; and a version-1 file that is migrated, saved and loaded keeps its classes and its statistics. -/
theorem state_round_trip {initial : StateFile} (hinitial : initial.Initial) {ops : List StateOp}
    (hst : ops.foldl StateOp.run initial = st) (hfaithful : env.Faithful st) (me : Nat) (kind : SaveKind) :
    (∀ w events outcome last, (Sup.saveAtomic env me kind st).run events w = some (some outcome, last) →
      env.load last.stateDir.bytes = .ok (some st)) ∧
    (∀ w events, (∀ n, (events n).ok = true) → ∃ outcome last,
      (Sup.saveAtomic env me kind st).run events w = some (outcome, last) ∧ (outcome = none ↔ st.Refused)) ∧
    (st.Refused → ∀ w events, ∃ last, (Sup.saveAtomic env me kind st).run events w = some (none, last) ∧
      last.stateDir = w.stateDir) ∧
    (∀ text wire old selected, env.fromStr text = some (.v1 wire) → env.load (some text) = .ok (some old) →
      st = (old.migrateForSubscription selected).2 → ¬ st.Refused ∧ ∀ w events outcome last,
        (Sup.saveAtomic env me kind st).run events w = some (some outcome, last) →
        ∃ again, env.load last.stateDir.bytes = .ok (some again) ∧ again.classes = wire.classes ∧
          again.nodesForSubscription selected = some wire.nodes) := by
  have hsound : st.Sound := hst ▸ hinitial.sound.foldl ops
  have hrefuses : st.Refused → ∀ w events, (Sup.saveAtomic env me kind st).run events w = some (none, w) :=
    fun hrefused w events => Sup.run_saveAtomic_refused (serialize_none hrefused) events
  have hsaves : ∀ w events outcome last, (Sup.saveAtomic env me kind st).run events w = some (some outcome, last) →
      env.load last.stateDir.bytes = .ok (some st) := by
    intro w events outcome last hrun
    by_cases hrefused : st.Refused
    · rw [hrefuses hrefused w events] at hrun
      cases hrun
    · exact (saved_state hsound hrefused hfaithful hrun).2 rfl
  refine ⟨hsaves, ?_, fun hrefused w events => ⟨w, hrefuses hrefused w events, rfl⟩, ?_⟩
  · intro w events hfine
    have henabled : (Sup.saveAtomic env me kind st).Enabled := Sup.enabled_saveAtomic
    obtain ⟨outcome, last, hrun⟩ := henabled.run events w
    refine ⟨outcome, last, hrun, ?_⟩
    constructor
    · intro hnone
      by_contra hrefused
      have hsome := (saved_state hsound hrefused hfaithful hrun).1 hfine
      rw [hnone] at hsome
      cases hsome
    · intro hrefused
      rw [hrefuses hrefused w events] at hrun
      cases hrun
      rfl
  · intro text wire old selected hdecode hload hmigrated
    rw [Env.load, hdecode] at hload
    have hold : (StateWire.v1 wire).load = .ok old := by
      cases hwire : (StateWire.v1 wire).load with
      | error error =>
          simp only [hwire] at hload
          cases hload
      | ok st =>
          simp only [hwire] at hload
          cases hload
          rfl
    obtain ⟨hrefused, hclasses, hnodes⟩ := migrate_legacy hold selected
    rw [← hmigrated] at hrefused hclasses hnodes
    exact ⟨hrefused, fun w events outcome last hrun => ⟨st, hsaves w events outcome last hrun, hclasses, hnodes⟩⟩

end

/-- A version-1 file with one class and one node. -/
def Sample.legacy : StateFileV1 where
  version := legacyStateVersion
  updatedUnix := 7
  classes := .ofList [("web", { (default : ClassState) with activeNode := some "A", generation := 3 })]
  nodes := .ofList [("A", Sample.probed)]

/-- The same after its migration, as it is written. -/
def Sample.migrated : StateFileV2 where
  version := stateVersion
  updatedUnix := 7
  activeSubscription := some "home"
  classes := Sample.legacy.classes
  subscriptionNodes := .ofList [("home", Sample.legacy.nodes)]
  siteVerdicts := ∅
  subscriptionCacheSlots := ∅
  subscriptionSourceIdentities := ∅
  pendingSubscriptionSources := ∅

/-- The texts `[1]` and `[2]` are those of the two files. -/
def Sample.legacyEnv : Env :=
  { Sample.env Sample.web with
    toVecPretty := fun _ => [2]
    fromStr := fun text => if text = [1] then some (.v1 Sample.legacy) else some (.v2 Sample.migrated) }

/-- The version-1 file is loaded, migrated, saved and loaded again. -/
theorem state_round_trip_migrated : ∃ old outcome last again,
    Sample.legacyEnv.load (some [1]) = .ok (some old) ∧
    (Sup.saveAtomic Sample.legacyEnv 0 .shared (old.migrateForSubscription "home").2).run (fun _ => Sample.fine)
      (Sample.world Sample.web) = some (some outcome, last) ∧
    Sample.legacyEnv.load last.stateDir.bytes = .ok (some again) ∧ again.classes = Sample.legacy.classes ∧
    again.nodesForSubscription "home" = some Sample.legacy.nodes := by
  obtain ⟨old, hload⟩ : ∃ old, (StateWire.v1 Sample.legacy).load = .ok old := ⟨_, rfl⟩
  have hloaded : Sample.legacyEnv.load (some [1]) = .ok (some old) := congrArg (Except.map some) hload
  have hwire : (old.migrateForSubscription "home").2.toWire = .ok Sample.migrated := by
    cases hload
    decide +kernel
  have hfaithful : Sample.legacyEnv.Faithful (old.migrateForSubscription "home").2 := by
    intro wire hother
    rw [hwire] at hother
    cases hother
    rfl
  obtain ⟨-, hends, -, hlegacy⟩ := state_round_trip (.inr ⟨_, hload⟩)
    (show [StateOp.migrate "home"].foldl StateOp.run old = (old.migrateForSubscription "home").2 from rfl)
    hfaithful 0 .shared
  obtain ⟨outcome, last, hrun, hrefused⟩ := hends (Sample.world Sample.web) (fun _ => Sample.fine) fun _ => rfl
  obtain ⟨hkept, hagain⟩ := hlegacy [1] Sample.legacy old "home" rfl hloaded rfl
  cases outcome with
  | none => exact absurd (hrefused.mp rfl) hkept
  | some outcome =>
      obtain ⟨again, hrest⟩ := hagain _ _ outcome last hrun
      exact ⟨old, outcome, last, again, hloaded, hrun, hrest⟩

end Causeway

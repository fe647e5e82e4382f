import Causeway.Proof.Commits

/-!
# Slots across restarts

Every slot that the state file names rests on its file, over any number of lives of the daemon that each end anywhere, as long as no manifest is put where a named one lies. Memory keeps its own manifests apart by the two slots; the condition fails only where a start has dropped a slot from memory that the file still names, or where a catalog gives a profile the cache file of another.
-/

namespace Causeway

open Concurrent

/-- What the state file names rests on its files. -/
def Stock.Intact (env : Env) (s : Stock) : Prop :=
  ∀ name slot, env.namedSlot s.dir.bytes name = some slot → s.Rests name slot

/-- Every slot that the state file names has a file, and it holds the manifest whose commit the state file recorded. -/
def CacheIntact (env : Env) (w : World) : Prop :=
  ∀ name slot, env.namedSlot w.stateDir.bytes name = some slot →
    ∃ base path bytes, cacheSlotPath base slot = some path ∧ w.trail.recorded name = some (path, bytes) ∧
      w.cacheDir.bytes path = some bytes

/-- Files that a daemon may find: every name is that of a file, and the cache is intact. -/
structure Grounded (env : Env) (disk : World) : Prop where
  dir : disk.stateDir.Ok
  cache : ∀ path inode, disk.cacheDir.files path = some inode → inode < disk.cacheDir.inodes.next
  intact : CacheIntact env disk

/-- A manifest of the profile that lies at a slot of the cache file is at the one that memory names for the target, or at the second one while memory names none. -/
def Spared (recorded : Option (Path × Bytes)) (base : Path) (memory : Option String) : Prop :=
  ∀ path bytes slot, recorded = some (path, bytes) → cacheSlotPath base slot = some path →
    memory = some slot ∨ memory = none ∧ slot = cacheSlotB

/-- Where the step puts a manifest in place, every slot that the state file names is spared at the cache file that the target has in the catalog of the transaction. -/
def Apart (env : Env) (tasks : Nat → Task) (m : Move World) : Prop :=
  m.after.cacheDir.files ≠ m.before.cacheDir.files →
    ∀ target catalog base, (tasks m.thread).target m.before.subscriptions.active = some target →
      m.before.trail.catalog = some catalog → (catalog.profile target).bind (·.cacheFile) = some base →
        ∀ name slot, env.namedSlot m.before.stateDir.bytes name = some slot →
          Spared (m.before.trail.recorded name) base m.before.state.subscriptionCacheSlots[target]?

/-- A commit goes to the slot that memory does not name. -/
theorem Spared.ne {recorded : Option (Path × Bytes)} {base path old : Path} {bytes : Bytes} {memory : Option String}
    (h : Spared recorded base memory) (hrecorded : recorded = some (old, bytes))
    (hchosen : cacheSlotPath base (nextSlot memory) = some path) : old ≠ path := by
  rintro rfl
  rcases h old bytes (nextSlot memory) hrecorded hchosen with hnamed | ⟨rfl, hslot⟩
  · exact nextSlot_ne memory hnamed
  · exact absurd hslot (by decide)

/-! ### One step -/

section

variable {env : Env} {target : Option String} {s t : Stock}

theorem Stocked.intact (h : Stocked env target s t) (hs : s.Intact env) (hfaithful : t.Faithful env)
    (hapart : t.cache.files ≠ s.cache.files → ∀ name catalog base, target = some name → s.catalog = some catalog →
      (catalog.profile name).bind (·.cacheFile) = some base →
        ∀ other slot, env.namedSlot s.dir.bytes other = some slot →
          Spared (s.recorded other) base s.state.subscriptionCacheSlots[name]?) : t.Intact env := by
  intro name slot hnamed
  cases h with
  | aside same file bytes files cached =>
      obtain ⟨base, path, content, hpath, hrecord, hcached⟩ := hs name slot (bytes ▸ hnamed)
      rw [same]
      exact ⟨base, path, content, hpath, hrecord, (cached path).trans hcached⟩
  | placed other catalog place path isTarget begun configured chosen same changed others =>
      rw [same] at hnamed
      obtain ⟨base, old, content, hpath, hrecord, hcached⟩ := hs name slot hnamed
      have hchanged : t.cache.files ≠ s.cache.files := fun heq => changed (congrFun heq path)
      have hspared := hapart hchanged other catalog place isTarget begun configured name slot hnamed
      rw [same]
      exact ⟨base, old, content, hpath, hrecord, (others old (hspared.ne hrecord chosen)).trans hcached⟩
  | saved same moved rests =>
      rcases rests hfaithful name slot hnamed with ⟨hold, hrecord⟩ | hrests
      · obtain ⟨base, path, content, hpath, hrecorded, hcached⟩ := hs name slot hold
        refine ⟨base, path, content, hpath, hrecord.trans hrecorded, ?_⟩
        rw [same]
        exact hcached
      · exact hrests
  | published same =>
      rw [same] at hnamed ⊢
      exact hs name slot hnamed

/-- Without a rename of the state file it names what it named, and records what it recorded. -/
theorem Stocked.unsaved (h : Stocked env target s t) (hfile : t.dir.file = s.dir.file) :
    t.dir.bytes = s.dir.bytes ∧ t.recorded = s.recorded := by
  cases h with
  | aside same file bytes files cached =>
      rw [same]
      exact ⟨bytes, rfl⟩
  | placed other catalog place path isTarget begun configured chosen same changed others =>
      rw [same]
      exact ⟨rfl, rfl⟩
  | saved same moved rests => exact absurd hfile moved
  | published same =>
      rw [same]
      exact ⟨rfl, rfl⟩

end

/-! ### One life -/

theorem startFrom_slots {env : Env} {read : Path → Option Bytes} {loaded st : StateFile} {active : String}
    {nodes : List Node} (hloaded : loaded.Sound) (h : startFrom env read loaded = some (st, active, nodes)) :
    st.Sound ∧ loaded.Narrows st := by
  unfold startFrom at h
  obtain ⟨current, -, h⟩ := Option.bind_eq_some_iff.mp h
  obtain ⟨fallback, -, h⟩ := Option.bind_eq_some_iff.mp h
  obtain ⟨profile, -, h⟩ := Option.bind_eq_some_iff.mp h
  dsimp only at h
  split at h
  · cases h
  · cases h
    exact ⟨(hloaded.reconcile current).activate, StateFile.Narrows.activate (.reconcile (fun _ _ h => h) current)⟩

/-- A start keeps slots of the state file only. -/
theorem loadStartup_slots {env : Env} {read : Path → Option Bytes} {file : Option Bytes} {st : StateFile}
    {active : String} {nodes : List Node} (h : loadStartup env read file = some (st, active, nodes)) :
    st.Sound ∧ ∀ name slot : String, st.subscriptionCacheSlots[name]? = some slot →
      env.namedSlot file name = some slot := by
  unfold loadStartup at h
  cases hload : env.load file with
  | error error => simp [hload] at h
  | ok loaded =>
      rw [hload] at h
      cases file with
      | none =>
          cases hload
          obtain ⟨hsound, hnarrows⟩ := startFrom_slots (StateFile.Initial.sound (.inl rfl)) h
          refine ⟨hsound, fun name slot hslot => ?_⟩
          have hnone := hnarrows name slot hslot
          simp [default] at hnone
      | some text =>
          rw [Env.load] at hload
          cases htext : env.fromStr text with
          | none => simp [htext] at hload
          | some wire =>
              simp only [htext] at hload
              cases hwire : wire.load with
              | error error => simp [hwire, Except.map] at hload
              | ok st' =>
                  simp only [hwire, Except.map, Except.ok.injEq] at hload
                  subst hload
                  obtain ⟨hsound, hnarrows⟩ := startFrom_slots (StateFile.Initial.sound (.inr ⟨wire, hwire⟩)) h
                  refine ⟨hsound, fun name slot hslot => ?_⟩
                  simpa [Env.namedSlot, Env.load, htext, hwire, Except.map] using hnarrows name slot hslot

section

variable {env : Env} {tasks : Nat → Task} {w : World} {moves : List (Move World)} {last : Pool World Outside Reply}

/-- Transactions keep the discipline of their mutex. -/
theorem stockroom_holds (hw : (stockroom env tasks).inv w)
    (htasks : ∀ i, tasks i = .idle ∨ tasks i = .reload ∨ ∃ name, tasks i = .switchSubscription name) :
    (stockroom env tasks).Holds (fun _ _ _ => True) (daemon env tasks w) := by
  refine ⟨hw, fun i => ?_⟩
  show Stows env tasks i (fun _ _ => True) ((tasks i).prog env i) w
  rcases htasks i with htask | htask | ⟨name, htask⟩
  · rw [htask]
    exact .pure fun _ _ => trivial
  · rw [show (tasks i).prog env i = Sup.reload env i by rw [htask]; rfl]
    exact stows_reload hw htask
  · rw [show (tasks i).prog env i = Sup.switchSubscription env i name by rw [htask]; rfl]
    exact stows_switchSubscription hw htask

/-- One life that starts on such files leaves such files, at every move. -/
theorem life_grounded (hw : (stockroom env tasks).inv w) (hintact : CacheIntact env w)
    (htasks : ∀ i, tasks i = .idle ∨ tasks i = .reload ∨ ∃ name, tasks i = .switchSubscription name)
    (run : (daemon env tasks w).Run moves last)
    (hfaithful : ∀ m ∈ moves, ∀ st ∈ m.after.trail.passed, env.Faithful st)
    (hapart : ∀ m ∈ moves, Apart env tasks m) :
    Grounded env last.shared ∧ ∀ m ∈ moves, CacheIntact env m.before ∧ CacheIntact env m.after ∧
      (m.after.stateDir.file = m.before.stateDir.file → m.after.stateDir.bytes = m.before.stateDir.bytes ∧
        m.after.trail.recorded = m.before.trail.recorded) := by
  have hholds := stockroom_holds hw htasks
  have hstep : ∀ m ∈ moves, CacheIntact env m.before → CacheIntact env m.after := by
    intro m hm hbefore
    exact (hholds.allowed run m hm).2.2.2.intact hbefore (hfaithful m hm) (hapart m hm)
  have hlast := (hholds.run run).inv.1
  refine ⟨⟨hlast.dir, hlast.cache, run.keeps hintact hstep⟩, fun m hm => ?_⟩
  obtain ⟨hbefore, hafter⟩ := run.keeps_moves hintact hstep m hm
  exact ⟨hbefore, hafter, (hholds.allowed run m hm).2.2.2.unsaved⟩

end

/-! ### All lives -/

/-- A start on such files keeps the discipline of the transactions to come. -/
theorem Restarted.inv {env : Env} {left w : World} {tasks : Nat → Task} (h : Restarted env left w)
    (hleft : Grounded env left) : (stockroom env tasks).inv w ∧ CacheIntact env w := by
  obtain ⟨read, st, active, nodes, loaded⟩ := h
  obtain ⟨hsound, hslots⟩ := loadStartup_slots loaded
  exact ⟨⟨⟨hleft.dir, hleft.cache, hsound⟩, fun _ _ => hslots⟩, hleft.intact⟩

/-- The manifest of every slot that the state file names is there, and a start reads it for a profile with that cache file. -/
structure Recovers (env : Env) (w : World) : Prop where
  intact : CacheIntact env w
  reads : ∀ name slot path bytes, env.namedSlot w.stateDir.bytes name = some slot →
    w.trail.recorded name = some (path, bytes) → ∀ (profile : SubscriptionProfileConfig) (read : Path → Option Bytes),
      profile.files = [] → (profile.cacheFile.bind fun base => cacheSlotPath base slot) = some path →
        loadProfileSnapshotFromSlot env.parseStr (fun place => (w.cacheDir.bytes place).or (read place)) profile
          (some slot) = loadAll env.parseStr (fun _ => some bytes) [path]

theorem CacheIntact.recovers {env : Env} {w : World} (h : CacheIntact env w) : Recovers env w := by
  refine ⟨h, fun name slot path bytes hnamed hrecorded profile read hfiles hpath => ?_⟩
  obtain ⟨-, other, content, -, hother, hcached⟩ := h name slot hnamed
  cases hrecorded.symm.trans hother
  simp [loadProfileSnapshotFromSlot, hfiles, hpath, loadAll, hcached]

/-- While every manifest that a transaction puts in place stays apart from the named ones, the cache outlives any number of transactions and of crashes between any two steps: a start reads for every slot that the state file names the manifest that this file recorded, and a transaction whose state is not saved changes nothing of that. -/
theorem cache_crash_safe {env : Env} {disk last : World} {lives : List Life} (hdisk : Grounded env disk)
    (hlives : Lives env disk lives last) (htasks : ∀ life ∈ lives, life.Transactions)
    (hfaithful : ∀ life ∈ lives, ∀ m ∈ life.moves, ∀ st ∈ m.after.trail.passed, env.Faithful st)
    (hapart : ∀ life ∈ lives, ∀ m ∈ life.moves, Apart env life.tasks m) :
    Recovers env last ∧ ∀ life ∈ lives, ∀ m ∈ life.moves, Recovers env m.before ∧ Recovers env m.after ∧
      (m.after.stateDir.file = m.before.stateDir.file → m.after.stateDir.bytes = m.before.stateDir.bytes ∧
        m.after.trail.recorded = m.before.trail.recorded) := by
  suffices h : Grounded env last ∧ ∀ life ∈ lives, ∀ m ∈ life.moves, CacheIntact env m.before ∧
      CacheIntact env m.after ∧ (m.after.stateDir.file = m.before.stateDir.file →
        m.after.stateDir.bytes = m.before.stateDir.bytes ∧ m.after.trail.recorded = m.before.trail.recorded) from
    ⟨h.1.intact.recovers, fun life hlife m hm =>
      (h.2 life hlife m hm).imp CacheIntact.recovers fun h => h.imp_left CacheIntact.recovers⟩
  induction hlives with
  | none => exact ⟨hdisk, fun _ h => nomatch h⟩
  | @next lives left w cfg tasks moves last earlier restarted run ih =>
      have hold : ∀ life ∈ lives, life ∈ lives ++ [⟨cfg, tasks, moves⟩] := fun life h => List.mem_append_left _ h
      have hnew : (⟨cfg, tasks, moves⟩ : Life) ∈ lives ++ [⟨cfg, tasks, moves⟩] := by simp
      obtain ⟨hleft, hmoves⟩ := ih (fun life h => htasks life (hold life h)) (fun life h => hfaithful life (hold life h))
        fun life h => hapart life (hold life h)
      -- the configuration has no part in what a state file names
      obtain ⟨hw, hintact⟩ := @Restarted.inv { env with cfg := cfg } left w tasks restarted
        ⟨hleft.dir, hleft.cache, hleft.intact⟩
      obtain ⟨hlast, hlife⟩ := life_grounded hw hintact (htasks _ hnew) run (hfaithful _ hnew) (hapart _ hnew)
      refine ⟨⟨hlast.dir, hlast.cache, hlast.intact⟩, fun life hmem m hm => ?_⟩
      rcases List.mem_append.mp hmem with hmem | hmem
      · exact hmoves life hmem m hm
      · cases List.mem_singleton.mp hmem
        exact hlife m hm

/-! ### A daemon with two remote profiles -/

/-- A path belongs to one slot. -/
theorem cacheSlotPath_slot {base other path : Path} {slot slot' : String} (h : cacheSlotPath base slot = some path)
    (h' : cacheSlotPath other slot' = some path) : slot = slot' := by
  have hends : ∀ {base : Path} {slot : String}, cacheSlotPath base slot = some path →
      (slot = cacheSlotA ∧ ∃ dir name, path = dir ++ [name ++ "." ++ "causeway-a"]) ∨
        (slot = cacheSlotB ∧ ∃ dir name, path = dir ++ [name ++ "." ++ "causeway-b"]) := by
    intro base slot h
    rcases slot_of_cacheSlotPath h with rfl | rfl
    · refine .inl ⟨rfl, ?_⟩
      simp only [cacheSlotPath, if_true] at h
      cases hname : fileName base with
      | none => simp [hname] at h
      | some name => exact ⟨base.dropLast, name, by simpa [hname] using h.symm⟩
    · refine .inr ⟨rfl, ?_⟩
      simp only [cacheSlotPath, show cacheSlotB ≠ cacheSlotA by decide, if_true, if_false] at h
      cases hname : fileName base with
      | none => simp [hname] at h
      | some name => exact ⟨base.dropLast, name, by simpa [hname] using h.symm⟩
  have hclash : ∀ {dir dir' : Path} {name name' : String},
      dir ++ [name ++ "." ++ "causeway-a"] ≠ dir' ++ [name' ++ "." ++ "causeway-b"] := by
    intro dir dir' name name' heq
    have hlast := congrArg (fun path : Path => (path.getLast?.map fun last => last.toList.getLast?)) heq
    simp at hlast
  rcases hends h with ⟨rfl, dir, name, rfl⟩ | ⟨rfl, dir, name, rfl⟩ <;>
    rcases hends h' with ⟨rfl, dir', name', heq⟩ | ⟨rfl, dir', name', heq⟩
  · rfl
  · exact absurd heq hclash
  · exact absurd heq.symm hclash
  · rfl

def Env.namedSlots (env : Env) (file : Option Bytes) : List (String × String) :=
  match env.load file with
  | .ok (some st) => Std.ExtTreeMap.toList st.subscriptionCacheSlots
  | _ => []

theorem mem_namedSlots {env : Env} {file : Option Bytes} {name slot : String} (h : env.namedSlot file name = some slot) :
    (name, slot) ∈ env.namedSlots file := by
  cases hload : env.load file with
  | error error => simp [Env.namedSlot, hload] at h
  | ok loaded =>
      cases loaded with
      | none => simp [Env.namedSlot, hload] at h
      | some st =>
          simp only [Env.namedSlot, hload] at h
          simp only [Env.namedSlots, hload]
          exact Std.ExtTreeMap.mem_toList_iff_getElem?_eq_some.mpr h

namespace Sample

def remote (name cache : String) : SubscriptionProfileConfig :=
  { files := [], urlFile := some [name ++ ".url"], cacheFile := some [cache] }

/-- Two remote profiles with these cache files. -/
def remotes (x y : String) : Config :=
  { config [] with subscriptions :=
    { files := [], default := some "x", profiles := .ofList [("x", remote "x" x), ("y", remote "y" y)] } }

/-- A state file that names these slots. -/
def slotted (slots : List (String × String)) : StateFileV2 where
  version := stateVersion
  updatedUnix := 0
  activeSubscription := some "x"
  classes := ∅
  subscriptionNodes := .ofList [("x", ∅)]
  siteVerdicts := ∅
  subscriptionCacheSlots := .ofList slots
  subscriptionSourceIdentities := .ofList [("x", "x.url x.cache"), ("y", "y.url y.cache")]
  pendingSubscriptionSources := ∅

/-- The text `[3]` is that of a state file with the first slots, and `[4]` that of one with the second. -/
def slotsEnv (first second : List (String × String)) : Env where
  cfg := remotes "x.cache" "y.cache"
  parseStr bytes := if bytes = [1] then some homeNodes else if bytes = [2] then some workNodes else none
  sourceIdentity profile := some (" ".intercalate (profile.urlFile.getD [] ++ profile.cacheFile.getD []))
  toVecPretty _ := [4]
  fromStr text :=
    if text = [3] then some (.v2 (slotted first)) else if text = [4] then some (.v2 (slotted second)) else none

/-- The state file `[3]`, and one manifest for each profile. -/
def slotsDisk (env : Env) : World :=
  startWorld env { inodes := ⟨fun _ => [3], 1⟩, tmp := none, file := some 0 }
    { inodes := ⟨fun inode => if inode = 0 then [1] else [2], 2⟩
      files := fun path =>
        if path = ["x.cache.causeway-b"] then some 0 else if path = ["y.cache.causeway-a"] then some 1 else none }
    (fun name =>
      if name = "x" then some (["x.cache.causeway-b"], [1])
      else if name = "y" then some (["y.cache.causeway-a"], [2]) else none) default "x" []

def restart (env : Env) (left : World) : World :=
  match loadStartup env (fun path => (left.cacheDir.bytes path).or none) left.stateDir.bytes with
  | some (st, active, nodes) => startWorld env left.stateDir left.cacheDir left.trail.recorded st active nodes
  | none => left

theorem restarted {env : Env} {left : World}
    (h : (loadStartup env (fun path => (left.cacheDir.bytes path).or none) left.stateDir.bytes).isSome) :
    Restarted env left (restart env left) := by
  rw [restart]
  split
  · exact .intro (fun _ => none) _ _ _ ‹_›
  · rename_i hnone
    rw [hnone] at h
    cases h

theorem slotsDisk_grounded {env : Env}
    (hslots : ∀ entry ∈ env.namedSlots (some [3]), entry = ("x", "b") ∨ entry = ("y", "a")) :
    Grounded env (slotsDisk env) := by
  refine ⟨⟨fun _ h => (nomatch h), ?_, fun _ h => (nomatch h)⟩, ?_, ?_⟩
  · rintro _ ⟨⟩
    exact Nat.zero_lt_one
  · intro path inode h
    simp only [slotsDisk, startWorld] at h ⊢
    split at h
    · cases h
      decide
    · split at h <;> cases h
      decide
  · intro name slot hnamed
    rcases hslots _ (mem_namedSlots hnamed) with heq | heq
    · obtain ⟨rfl, rfl⟩ := Prod.mk.inj heq
      exact ⟨["x.cache"], _, _, by decide +kernel, rfl, by simp [slotsDisk, startWorld, CacheDir.bytes]⟩
    · obtain ⟨rfl, rfl⟩ := Prod.mk.inj heq
      exact ⟨["y.cache"], _, _, by decide +kernel, rfl, by simp [slotsDisk, startWorld, CacheDir.bytes]⟩

def fetched (body : Bytes) : Outside := { fine with body := some body }

/-- Every slot that the state file names belongs to the target of the thread, memory names it too, and its manifest is beside the first cache file. -/
def spares (env : Env) (tasks : Nat → Task) (m : Move World) : Bool :=
  (env.namedSlots m.before.stateDir.bytes).all fun entry =>
    (tasks m.thread).target m.before.subscriptions.active = some entry.1 &&
      m.before.state.subscriptionCacheSlots[entry.1]? = some entry.2 &&
        (m.before.trail.recorded entry.1).map Prod.fst = cacheSlotPath ["x.cache"] entry.2

theorem apart_of_spares {env : Env} {tasks : Nat → Task} {m : Move World} (h : spares env tasks m = true) :
    Apart env tasks m := by
  intro _ target catalog base htarget _ _ name slot hnamed path bytes place hrecorded hplace
  rw [spares, List.all_eq_true] at h
  have hentry := h _ (mem_namedSlots hnamed)
  simp only [Bool.and_eq_true, decide_eq_true_eq] at hentry
  obtain ⟨⟨hmine, hmemory⟩, hpath⟩ := hentry
  cases htarget.symm.trans hmine
  rw [hrecorded] at hpath
  cases cacheSlotPath_slot hplace hpath.symm
  exact .inl hmemory

/-- The moves spare the named slots, and what they save is the state file `[4]`. -/
def checked (first second : List (String × String)) (tasks : Nat → Task) (moves : List (Move World)) : Bool :=
  moves.all fun m => spares (slotsEnv first second) tasks m &&
    m.after.trail.passed.all fun st => decide (st.toWire = .ok (slotted second))

theorem of_checked {first second : List (String × String)} {tasks : Nat → Task} {moves : List (Move World)}
    {m : Move World}
    (h : checked first second tasks moves = true) (hm : m ∈ moves) : Apart (slotsEnv first second) tasks m ∧
      ∀ st ∈ m.after.trail.passed, (slotsEnv first second).Faithful st := by
  have hcheck := List.all_eq_true.mp h m hm
  simp only [Bool.and_eq_true, List.all_eq_true, decide_eq_true_eq] at hcheck
  refine ⟨apart_of_spares hcheck.1, fun st hst wire hwire => ?_⟩
  cases (hcheck.2 st hst).symm.trans hwire
  rfl

def refreshEnv : Env := slotsEnv [("x", "b")] [("x", "a")]

def refresh : Nat → Task := assign [.switchSubscription "x"]

/-- The daemon that starts on these files and is asked to refresh its profile. -/
def refreshing (left : World) : Pool World Outside Reply := daemon refreshEnv refresh (restart refreshEnv left)

/-- The moves are such as the theorem asks for, and the state file `[4]` is in place. -/
def refreshed (moves : List (Move World)) (last : Pool World Outside Reply) : Bool :=
  checked [("x", "b")] [("x", "a")] refresh moves &&
    decide (refreshEnv.namedSlots last.shared.stateDir.bytes = [("x", "a")])

/-- The cache files of the two profiles are swapped while the daemon runs. -/
def swapEnv : Env := slotsEnv [("x", "b"), ("y", "a")] []

def swapped : Outside := { fetched [1] with config := some (remotes "y.cache" "x.cache") }

end Sample

/-- The daemon is killed when the state is saved, starts on the new manifest, and is killed again when the next one is in place. -/
theorem cache_crash_safe_twice : ∃ lives last,
    Lives Sample.refreshEnv (Sample.slotsDisk Sample.refreshEnv) lives last ∧ lives.length = 2 ∧
    Recovers Sample.refreshEnv last ∧ Sample.refreshEnv.namedSlots last.stateDir.bytes = [("x", "a")] := by
  obtain ⟨moves, mid, run, hmid⟩ := Pool.trace_reaches (Sample.steps 0 24 (Sample.fetched [2]))
    (Sample.refreshing (Sample.slotsDisk Sample.refreshEnv))
    (fun moves mid => Sample.refreshed moves mid &&
      (loadStartup Sample.refreshEnv (fun path => (mid.shared.cacheDir.bytes path).or none)
        mid.shared.stateDir.bytes).isSome &&
      (Pool.trace (Sample.steps 0 14 (Sample.fetched [1])) (Sample.refreshing mid.shared)).any
        fun r => Sample.refreshed r.1 r.2) (by decide +kernel)
  simp only [Bool.and_eq_true] at hmid
  obtain ⟨⟨hfirst, hagain⟩, htrace⟩ := hmid
  obtain ⟨moves', last, run', hlast⟩ := Pool.trace_reaches _ _ Sample.refreshed htrace
  have hlives : Lives Sample.refreshEnv (Sample.slotsDisk Sample.refreshEnv)
      [⟨Sample.refreshEnv.cfg, Sample.refresh, moves⟩, ⟨Sample.refreshEnv.cfg, Sample.refresh, moves'⟩] last.shared :=
    @Lives.next Sample.refreshEnv _ _ _ _ Sample.refreshEnv.cfg Sample.refresh moves' last
      (@Lives.next Sample.refreshEnv _ _ _ _ Sample.refreshEnv.cfg Sample.refresh moves mid .none
        (Sample.restarted (by decide +kernel)) run)
      (Sample.restarted hagain) run'
  simp only [Sample.refreshed, Bool.and_eq_true, decide_eq_true_eq] at hfirst hlast
  have hlife : ∀ life ∈ [Life.mk Sample.refreshEnv.cfg Sample.refresh moves,
      ⟨Sample.refreshEnv.cfg, Sample.refresh, moves'⟩], life.tasks = Sample.refresh ∧
        Sample.checked [("x", "b")] [("x", "a")] Sample.refresh life.moves = true := by
    simp [hfirst.1, hlast.1]
  refine ⟨_, _, hlives, rfl, (cache_crash_safe (Sample.slotsDisk_grounded (by decide +kernel)) hlives
    (fun life hmem i => ?_) (fun life hmem m hm st hst => ?_) fun life hmem m hm => ?_).1, hlast.2⟩
  · rw [(hlife life hmem).1]
    cases i with
    | zero => exact .inr (.inr ⟨"x", rfl⟩)
    | succ i => exact .inl rfl
  · exact (Sample.of_checked (hlife life hmem).2 hm).2 st hst
  · rw [(hlife life hmem).1]
    exact (Sample.of_checked (hlife life hmem).2 hm).1

/-- A reload gives the active profile the cache file of another one; the state is not saved, and the other's slot holds a manifest that nothing records. -/
theorem cache_crash_swapped : ¬ ∀ (env : Env) (disk last : World) (lives : List Life), Grounded env disk →
    Lives env disk lives last → (∀ life ∈ lives, life.Transactions) →
    (∀ life ∈ lives, ∀ m ∈ life.moves, ∀ st ∈ m.after.trail.passed, env.Faithful st) → Recovers env last := by
  intro hall
  obtain ⟨moves, last, run, hlast⟩ := Pool.trace_reaches
    (Sample.steps 0 19 Sample.swapped ++ Sample.steps 0 6 { Sample.swapped with ok := false })
    (daemon Sample.swapEnv (Sample.assign [.reload]) (Sample.restart Sample.swapEnv (Sample.slotsDisk Sample.swapEnv)))
    (fun moves last => moves.all (fun m => m.after.trail.passed.isEmpty) &&
      decide (Sample.swapEnv.namedSlot last.shared.stateDir.bytes "y" = some "a" ∧
        last.shared.trail.recorded "y" = some (["y.cache.causeway-a"], [2]) ∧
        last.shared.cacheDir.bytes ["y.cache.causeway-a"] = some [1])) (by decide +kernel)
  rw [Bool.and_eq_true, List.all_eq_true, decide_eq_true_eq] at hlast
  obtain ⟨hunsaved, hnamed, hrecorded, hcached⟩ := hlast
  have hlives : Lives Sample.swapEnv (Sample.slotsDisk Sample.swapEnv)
      [⟨Sample.swapEnv.cfg, Sample.assign [.reload], moves⟩] last.shared :=
    .next .none (Sample.restarted (by decide +kernel)) run
  have hrecovers := hall _ _ _ _ (Sample.slotsDisk_grounded (by decide +kernel)) hlives (fun life hlife i => ?_)
    fun life hlife m hm st hst => ?_
  · obtain ⟨-, path, bytes, -, hrecord, hbytes⟩ := hrecovers.intact "y" "a" hnamed
    cases hrecorded.symm.trans hrecord
    cases hcached.symm.trans hbytes
  · cases List.mem_singleton.mp hlife
    cases i with
    | zero => exact .inr (.inl rfl)
    | succ i => exact .inl rfl
  · cases List.mem_singleton.mp hlife
    have hempty := List.isEmpty_iff.mp (hunsaved m hm)
    rw [hempty] at hst
    cases hst

end Causeway

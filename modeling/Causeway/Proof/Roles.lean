import Causeway.Model.Roles

/-!
# Roles are separate

What the role check accepts, in terms of the paths the daemon uses: `FileRole.path` is what the running daemon opens, the check compares what it has collected itself.
-/

namespace Causeway

/-! ### Collisions -/

/-- The pair is a conflict in one of the two passes. -/
def Conflicting (left right : PathRole) : Prop :=
  (left.access.isWritable = true ∨ right.access.isWritable = true) ∧
    (left.path = right.path ∨
      (left.path <+: right.path ∨ right.path <+: left.path) ∧
        ¬ (left.space.isSome = true ∧ left.space = right.space))

section

variable {left right : PathRole} {roles : List PathRole} {exactOnly : Bool}

theorem Conflicting.symm (h : Conflicting left right) : Conflicting right left := by
  obtain ⟨hwritable, hpath⟩ := h
  refine ⟨hwritable.symm, ?_⟩
  rcases hpath with heq | ⟨hpre, hspace⟩
  · exact Or.inl heq.symm
  · refine Or.inr ⟨hpre.symm, ?_⟩
    rintro ⟨hsome, heq⟩
    exact hspace ⟨by rw [← heq]; exact hsome, heq.symm⟩

theorem roleConflict_iff :
    Conflicting left right ↔ roleConflict true left right = true ∨ roleConflict false left right = true := by
  unfold Conflicting roleConflict
  by_cases hexact : left.path = right.path
  · simp [hexact]
  · simp only [hexact, false_or]
    cases hleft : left.space with
    | none => simp [or_comm]
    | some space =>
        by_cases hspace : some space = right.space
        · simp [hspace.symm]
        · simp [hspace, or_comm]

theorem firstConflict_none : firstConflict exactOnly roles = none ↔
    roles.Pairwise fun left right => roleConflict exactOnly left right = false := by
  induction roles with
  | nil => simp [firstConflict]
  | cons left roles ih =>
      rw [firstConflict, List.pairwise_cons, ← ih]
      cases hfind : roles.find? (roleConflict exactOnly left) with
      | none =>
          have hno : ∀ right ∈ roles, roleConflict exactOnly left right = false := by simpa using hfind
          exact (and_iff_right hno).symm
      | some right =>
          simp only [reduceCtorEq, false_iff, not_and]
          intro hno
          have hconflict := List.find?_some hfind
          rw [hno right (List.mem_of_find?_eq_some hfind)] at hconflict
          cases hconflict

/-- Exactly the sets of roles with no conflict are accepted. -/
theorem validateRoleCollisions_iff : validateRoleCollisions roles = .ok () ↔
    roles.Pairwise fun left right => ¬ Conflicting left right := by
  unfold validateRoleCollisions
  have hpairs : [true, false].findSome? (firstConflict · roles) = none ↔
      roles.Pairwise fun left right => ¬ Conflicting left right := by
    rw [List.findSome?_eq_none_iff]
    simp only [List.mem_cons, List.not_mem_nil, or_false, forall_eq_or_imp, forall_eq, firstConflict_none, ← List.pairwise_and_iff]
    apply iff_of_eq
    congr 1
    funext left right
    rw [roleConflict_iff]
    simp
  rw [← hpairs]
  cases [true, false].findSome? (firstConflict · roles) with
  | none => simp
  | some pair => simp

end

/-! ### What the daemon uses -/

/-- One use of a path. -/
inductive FileRole where
  | stateFile
  | stateTemporary
  | logDir
  | controlSocket
  | runDir
  | sslocal
  | obfsPlugin
  | singbox
  | mainConfig
  | legacySource (index : Nat)
  | localSource (name : String) (index : Nat)
  | urlSecret (name : String)
  | cache (name : String)
  | cacheSlot (name slot : String)
deriving DecidableEq

namespace FileRole

/-- Where the daemon looks for it. -/
def path (cfg : FilesConfig) (configPath : Option Path) : FileRole → Option Path
  | stateFile => some cfg.stateFile
  | stateTemporary => some cfg.temporaryPath
  | logDir => some cfg.logDir
  | controlSocket => some cfg.socketPath
  | runDir => some cfg.runDir
  | sslocal => some cfg.sslocalBin
  | obfsPlugin => some cfg.obfsPluginBin
  | singbox => some cfg.singboxBin
  | mainConfig => configPath
  | legacySource index => cfg.subscriptions.files[index]?
  | localSource name index => (cfg.subscriptions.profiles[name]?).bind (·.files[index]?)
  | urlSecret name => (cfg.subscriptions.profiles[name]?).bind (·.urlFile)
  | cache name => (cfg.subscriptions.profiles[name]?).bind (·.cacheFile)
  | cacheSlot name slot => ((cfg.subscriptions.profiles[name]?).bind (·.cacheFile)).bind (cacheSlotPath · slot)

def written : FileRole → Bool
  | stateFile | stateTemporary | logDir | controlSocket | runDir | cache _ | cacheSlot _ _ => true
  | _ => false

/-- The socket and the run directory share a namespace. -/
def space : FileRole → Option String
  | controlSocket | runDir => some "runtime"
  | _ => none

end FileRole

section

variable (normalized : Path → Option Path) (cfg : FilesConfig) (configPath : Option Path)

/-- The role is in use, and this is its path on the file system. -/
def FileRole.At (role : FileRole) (path : Path) : Prop := (role.path cfg configPath).bind normalized = some path

instance (role : FileRole) (path : Path) : Decidable (role.At normalized cfg configPath path) :=
  inferInstanceAs (Decidable ((role.path cfg configPath).bind normalized = some path))

/-- Two uses of paths, one of them for writing, of which one contains or is the other; unless they differ and are excepted. -/
def RoleClash (excepted : FileRole → FileRole → Prop) : Prop :=
  ∃ outer inner outerPath innerPath, outer ≠ inner ∧ (outer.written = true ∨ inner.written = true) ∧
    outer.At normalized cfg configPath outerPath ∧ inner.At normalized cfg configPath innerPath ∧
    outerPath <+: innerPath ∧ ¬ (outerPath ≠ innerPath ∧ excepted outer inner)

/-- Every path in use can be resolved, and every cache has slots. -/
structure Resolved : Prop where
  path : ∀ role path, FileRole.path cfg configPath role = some path → (normalized path).isSome = true
  slots : ∀ name cacheFile, FileRole.path cfg configPath (.cache name) = some cacheFile → (fileName cacheFile).isSome = true

/-- The socket and the run directory, either way. -/
def SameSpace (outer inner : FileRole) : Prop := outer.space.isSome = true ∧ outer.space = inner.space

/-- What the check knows of a use. -/
structure Stands (use : FileRole) (role : PathRole) : Prop where
  path : use.At normalized cfg configPath role.path
  access : role.access.isWritable = use.written
  space : role.space = use.space

/-- The uses in the order in which their roles are collected. -/
def fixedUses : List FileRole :=
  [.stateFile, .stateTemporary, .logDir, .controlSocket, .runDir, .sslocal, .obfsPlugin, .singbox]

def profileUses (name : String) (profile : SubscriptionProfileConfig) : List FileRole :=
  profile.files.zipIdx.map (fun entry => .localSource name entry.2) ++
    profile.urlFile.toList.map (fun _ => .urlSecret name) ++
    profile.cacheFile.toList.flatMap fun _ => [.cache name, .cacheSlot name cacheSlotA, .cacheSlot name cacheSlotB]

def fileUses : List FileRole :=
  fixedUses ++ configPath.toList.map (fun _ => .mainConfig) ++
    cfg.subscriptions.files.zipIdx.map (fun entry => .legacySource entry.2) ++
    cfg.subscriptions.profiles.toList.flatMap fun entry => profileUses entry.1 entry.2

end

/-! ### What the check collects -/

section

variable {α β ι : Type} {normalized : Path → Option Path} {cfg : FilesConfig} {configPath : Option Path} {use : FileRole} {path : Path}
  {uses all : List FileRole} {post : α → Prop} {result : Except String α}

/-- If it succeeds, its result is as described; and it succeeds if every use resolves. -/
structure Collects (normalized : Path → Option Path) (cfg : FilesConfig) (configPath : Option Path) (uses : List FileRole)
    (post : α → Prop) (result : Except String α) : Prop where
  sound : ∀ value, result = .ok value → post value
  complete : (∀ use ∈ uses, ∃ path, use.At normalized cfg configPath path) → ∃ value, result = .ok value

theorem Collects.pure {value : α} (h : post value) : Collects normalized cfg configPath uses post (Pure.pure value) where
  sound := fun other hother => by
    cases hother
    exact h
  complete := fun _ => ⟨value, rfl⟩

theorem Collects.bind {next : α → Except String β} {post' : β → Prop} (h : Collects normalized cfg configPath uses post result)
    (hall : ∀ use ∈ uses, use ∈ all) (hnext : ∀ value, post value → Collects normalized cfg configPath all post' (next value)) :
    Collects normalized cfg configPath all post' (result >>= next) where
  sound := fun value hvalue => by
    cases hresult : result with
    | error text =>
        rw [hresult] at hvalue
        cases hvalue
    | ok first =>
        rw [hresult] at hvalue
        exact (hnext first (h.sound first hresult)).sound value hvalue
  complete := fun hat => by
    obtain ⟨first, hfirst⟩ := h.complete fun use huse => hat use (hall use huse)
    rw [hfirst]
    exact (hnext first (h.sound first hfirst)).complete hat

/-- One after the other. -/
theorem Collects.mapM {l : List α} {is : List ι} {usesOf : ι → List FileRole} {step : α → Except String β} {posts : ι → β → Prop}
    (h : List.Forall₂ (fun i x => Collects normalized cfg configPath (usesOf i) (posts i) (step x)) is l) :
    Collects normalized cfg configPath (is.flatMap usesOf) (fun values => List.Forall₂ posts is values) (l.mapM step) := by
  induction h with
  | nil => exact Collects.pure List.Forall₂.nil
  | cons hfirst _ ih =>
      rw [List.mapM_cons, List.flatMap_cons]
      apply hfirst.bind (fun use huse => List.mem_append_left _ huse)
      intro value hvalue
      apply ih.bind (fun use huse => List.mem_append_right _ huse)
      intro values hvalues
      exact Collects.pure (List.Forall₂.cons hvalue hvalues)

theorem Collects.new {access : PathAccess} {space : Option String} {label : String} (hpath : use.path cfg configPath = some path)
    (haccess : access.isWritable = use.written) (hspace : space = use.space) :
    Collects normalized cfg configPath [use] (Stands normalized cfg configPath use) (PathRole.new normalized path label access space) where
  sound := fun role hrole => by
    unfold PathRole.new at hrole
    cases hnormal : normalized path with
    | none =>
        rw [hnormal] at hrole
        cases hrole
    | some normal =>
        rw [hnormal] at hrole
        cases hrole
        exact ⟨by unfold FileRole.At; rw [hpath, Option.bind_some, hnormal], haccess, hspace⟩
  complete := fun hat => by
    obtain ⟨normal, hnormal⟩ := hat use (by simp)
    unfold FileRole.At at hnormal
    rw [hpath, Option.bind_some] at hnormal
    unfold PathRole.new
    rw [hnormal]
    exact ⟨_, rfl⟩

theorem Collects.each {l : List α} {useOf : α → FileRole} {step : α → Except String PathRole}
    (h : ∀ x ∈ l, Collects normalized cfg configPath [useOf x] (Stands normalized cfg configPath (useOf x)) (step x)) :
    Collects normalized cfg configPath (l.map useOf) (List.Forall₂ (Stands normalized cfg configPath) (l.map useOf)) (l.mapM step) := by
  have hall := @Collects.mapM _ _ _ normalized cfg configPath l (l.map useOf) ([·]) step (Stands normalized cfg configPath)
    (List.forall₂_map_left_iff.mpr (List.forall₂_same.mpr h))
  rwa [List.flatMap_singleton'] at hall

theorem Collects.eachAll {l : List α} {usesOf : α → List FileRole} {step : α → Except String (List PathRole)}
    (h : ∀ x ∈ l, Collects normalized cfg configPath (usesOf x) (List.Forall₂ (Stands normalized cfg configPath) (usesOf x)) (step x)) :
    Collects normalized cfg configPath (l.flatMap usesOf)
      (fun roles => List.Forall₂ (Stands normalized cfg configPath) (l.flatMap usesOf) roles.flatten) (l.mapM step) := by
  have hall := @Collects.mapM _ _ _ normalized cfg configPath l l usesOf step
    (fun x roles => List.Forall₂ (Stands normalized cfg configPath) (usesOf x) roles) (List.forall₂_same.mpr h)
  refine ⟨fun roles hroles => ?_, hall.complete⟩
  have hmapped : List.Forall₂ (List.Forall₂ (Stands normalized cfg configPath)) (l.map usesOf) roles :=
    List.forall₂_map_left_iff.mpr (hall.sound roles hroles)
  exact List.rel_flatten hmapped

/-- The two ways to a slot's path agree. -/
theorem derivedCacheSlotPath_toOption (base : Path) :
    (derivedCacheSlotPath base "causeway-a").toOption = cacheSlotPath base cacheSlotA ∧
      (derivedCacheSlotPath base "causeway-b").toOption = cacheSlotPath base cacheSlotB := by
  unfold derivedCacheSlotPath cacheSlotPath withFileName
  cases hname : fileName base <;> simp [Except.toOption, cacheSlotA, cacheSlotB]

theorem collects_slotRole {name slot suffix label : String} {cacheFile : Path}
    (hpath : FileRole.path cfg configPath (.cache name) = some cacheFile)
    (hsame : (derivedCacheSlotPath cacheFile suffix).toOption = cacheSlotPath cacheFile slot) :
    Collects normalized cfg configPath [.cacheSlot name slot] (Stands normalized cfg configPath (.cacheSlot name slot))
      (slotRole normalized name cacheFile suffix label) := by
  have huse : FileRole.path cfg configPath (.cacheSlot name slot) = cacheSlotPath cacheFile slot := by
    show ((cfg.subscriptions.profiles[name]?).bind (·.cacheFile)).bind (cacheSlotPath · slot) = _
    rw [show (cfg.subscriptions.profiles[name]?).bind (·.cacheFile) = some cacheFile from hpath]
    rfl
  unfold slotRole
  cases hderived : derivedCacheSlotPath cacheFile suffix with
  | error text =>
      rw [hderived] at hsame
      constructor
      · intro value hvalue
        cases hvalue
      · intro hat
        obtain ⟨slotPath, hslotPath⟩ := hat _ (List.mem_singleton_self _)
        unfold FileRole.At at hslotPath
        rw [huse, ← hsame] at hslotPath
        cases hslotPath
  | ok slotPath =>
      rw [hderived] at hsame
      exact Collects.new (huse.trans hsame.symm) rfl rfl

theorem collects_fixedRoles :
    Collects normalized cfg configPath fixedUses (List.Forall₂ (Stands normalized cfg configPath) fixedUses)
      ((fixedRoles normalized cfg).mapM id) := by
  have hall : List.Forall₂ (fun use role => Collects normalized cfg configPath [use] (Stands normalized cfg configPath use) (id role))
      fixedUses (fixedRoles normalized cfg) := by
    unfold fixedUses fixedRoles
    repeat' apply List.Forall₂.cons
    all_goals first | exact Collects.new rfl rfl rfl | exact .nil
  have hmapped := Collects.mapM hall
  rwa [List.flatMap_singleton'] at hmapped

theorem collects_sources {name : String} {profile : SubscriptionProfileConfig}
    (hprofile : cfg.subscriptions.profiles[name]? = some profile) (label : Nat → String) :
    Collects normalized cfg configPath (profile.files.zipIdx.map fun entry => .localSource name entry.2)
      (List.Forall₂ (Stands normalized cfg configPath) (profile.files.zipIdx.map fun entry => .localSource name entry.2))
      (profile.files.zipIdx.mapM fun entry => PathRole.readOnly normalized entry.1 (label entry.2)) := by
  apply Collects.each
  intro entry hentry
  refine Collects.new ?_ rfl rfl
  show (cfg.subscriptions.profiles[name]?).bind (·.files[entry.2]?) = some entry.1
  rw [hprofile]
  exact List.mem_zipIdx_iff_getElem?.mp hentry

theorem collects_secret {name label : String} {profile : SubscriptionProfileConfig}
    (hprofile : cfg.subscriptions.profiles[name]? = some profile) :
    Collects normalized cfg configPath (profile.urlFile.toList.map fun _ => .urlSecret name)
      (List.Forall₂ (Stands normalized cfg configPath) (profile.urlFile.toList.map fun _ => .urlSecret name))
      (profile.urlFile.toList.mapM fun urlFile => PathRole.readOnly normalized urlFile label) := by
  apply Collects.each
  intro urlFile hurl
  refine Collects.new ?_ rfl rfl
  show (cfg.subscriptions.profiles[name]?).bind (·.urlFile) = some urlFile
  rw [hprofile]
  exact Option.mem_toList.mp hurl

theorem collects_profileRoles {name : String} {profile : SubscriptionProfileConfig}
    (hprofile : cfg.subscriptions.profiles[name]? = some profile) :
    Collects normalized cfg configPath (profileUses name profile)
      (List.Forall₂ (Stands normalized cfg configPath) (profileUses name profile)) (profileRoles normalized name profile) := by
  unfold profileRoles profileUses
  apply (collects_sources hprofile fun index =>
    "local source #" ++ toString (index + 1) ++ " of profile " ++ name.quote).bind fun use huse => List.mem_append_left _ (List.mem_append_left _ huse)
  intro sources hsources
  apply (collects_secret hprofile).bind fun use huse => List.mem_append_left _ (List.mem_append_right _ huse)
  intro secret hsecret
  have hcaches : ∀ cacheFile ∈ profile.cacheFile.toList, Collects normalized cfg configPath
      [.cache name, .cacheSlot name cacheSlotA, .cacheSlot name cacheSlotB]
      (List.Forall₂ (Stands normalized cfg configPath) [.cache name, .cacheSlot name cacheSlotA, .cacheSlot name cacheSlotB])
      (do
        let cache ← PathRole.writableFile normalized cacheFile ("subscription cache of profile " ++ name.quote)
        let slotA ← slotRole normalized name cacheFile "causeway-a" "A"
        let slotB ← slotRole normalized name cacheFile "causeway-b" "B"
        return [cache, slotA, slotB]) := by
    intro cacheFile hcache
    have hpath : FileRole.path cfg configPath (.cache name) = some cacheFile := by
      show (cfg.subscriptions.profiles[name]?).bind (·.cacheFile) = some cacheFile
      rw [hprofile]
      exact Option.mem_toList.mp hcache
    have hslots := derivedCacheSlotPath_toOption cacheFile
    apply (Collects.new hpath rfl rfl).bind (by simp)
    intro cache hcache
    apply (collects_slotRole hpath hslots.1).bind (by simp)
    intro slotA hslotA
    apply (collects_slotRole hpath hslots.2).bind (by simp)
    intro slotB hslotB
    exact Collects.pure (.cons hcache (.cons hslotA (.cons hslotB .nil)))
  apply (Collects.eachAll hcaches).bind fun use huse => List.mem_append_right _ huse
  intro caches hcaches
  exact Collects.pure (List.rel_append (List.rel_append hsources hsecret) hcaches)

theorem collects_config {label : String} :
    Collects normalized cfg configPath (configPath.toList.map fun _ => .mainConfig)
      (List.Forall₂ (Stands normalized cfg configPath) (configPath.toList.map fun _ => .mainConfig))
      (configPath.toList.mapM fun path => PathRole.readOnly normalized path label) := by
  apply Collects.each
  intro path hpath
  exact Collects.new (Option.mem_toList.mp hpath) rfl rfl

theorem collects_legacy (label : Nat → String) :
    Collects normalized cfg configPath (cfg.subscriptions.files.zipIdx.map fun entry => .legacySource entry.2)
      (List.Forall₂ (Stands normalized cfg configPath) (cfg.subscriptions.files.zipIdx.map fun entry => .legacySource entry.2))
      (cfg.subscriptions.files.zipIdx.mapM fun entry => PathRole.readOnly normalized entry.1 (label entry.2)) := by
  apply Collects.each
  intro entry hentry
  exact Collects.new (List.mem_zipIdx_iff_getElem?.mp hentry) rfl rfl

/-- What is collected stands for the uses, in order. -/
theorem collects_filesystemRoles :
    Collects normalized cfg configPath (fileUses cfg configPath)
      (List.Forall₂ (Stands normalized cfg configPath) (fileUses cfg configPath)) (filesystemRoles normalized cfg configPath) := by
  unfold filesystemRoles fileUses
  apply collects_fixedRoles.bind fun use huse =>
    List.mem_append_left _ (List.mem_append_left _ (List.mem_append_left _ huse))
  intro fixed hfixed
  apply collects_config.bind fun use huse =>
    List.mem_append_left _ (List.mem_append_left _ (List.mem_append_right _ huse))
  intro config hconfig
  apply (collects_legacy fun index => "legacy local subscription source #" ++ toString (index + 1)).bind fun use huse => List.mem_append_left _ (List.mem_append_right _ huse)
  intro legacy hlegacy
  have hprofiles : ∀ entry ∈ cfg.subscriptions.profiles.toList, Collects normalized cfg configPath
      (profileUses entry.1 entry.2) (List.Forall₂ (Stands normalized cfg configPath) (profileUses entry.1 entry.2))
      (profileRoles normalized entry.1 entry.2) := by
    intro entry hentry
    exact collects_profileRoles (Std.ExtTreeMap.mem_toList_iff_getElem?_eq_some.mp hentry)
  apply (Collects.eachAll hprofiles).bind fun use huse => List.mem_append_right _ huse
  intro profiles hprofiles
  exact Collects.pure (List.rel_append (List.rel_append (List.rel_append hfixed hconfig) hlegacy) hprofiles)

/-! ### The uses -/

theorem cacheSlotPath_valid {base slotPath : Path} {slot : String} (h : cacheSlotPath base slot = some slotPath) :
    (slot = cacheSlotA ∨ slot = cacheSlotB) ∧ (fileName base).isSome = true := by
  unfold cacheSlotPath at h
  cases hname : fileName base with
  | none =>
      rw [hname] at h
      split at h <;> simp at h
  | some name =>
      refine ⟨?_, rfl⟩
      by_contra hslot
      rw [not_or] at hslot
      rw [if_neg hslot.1, if_neg hslot.2] at h
      cases h

theorem cacheSlotPath_isSome {base : Path} {slot : String} (hslot : slot = cacheSlotA ∨ slot = cacheSlotB)
    (hname : (fileName base).isSome = true) : (cacheSlotPath base slot).isSome = true := by
  obtain ⟨name, hname⟩ := Option.isSome_iff_exists.mp hname
  unfold cacheSlotPath
  rcases hslot with rfl | rfl <;> simp [hname, cacheSlotA, cacheSlotB]

theorem mem_fileUses_profile {name : String} {profile : SubscriptionProfileConfig}
    (hprofile : cfg.subscriptions.profiles[name]? = some profile) (huse : use ∈ profileUses name profile) :
    use ∈ fileUses cfg configPath :=
  List.mem_append_right _ (List.mem_flatMap.mpr ⟨(name, profile), Std.ExtTreeMap.mem_toList_iff_getElem?_eq_some.mpr hprofile, huse⟩)

theorem mem_fileUses_cache {name slot : String} {cacheFile : Path}
    (hcache : FileRole.path cfg configPath (.cache name) = some cacheFile) (hslot : slot = cacheSlotA ∨ slot = cacheSlotB) :
    .cache name ∈ fileUses cfg configPath ∧ .cacheSlot name slot ∈ fileUses cfg configPath := by
  obtain ⟨profile, hprofile, hfile⟩ := Option.bind_eq_some_iff.mp hcache
  constructor
  · apply mem_fileUses_profile hprofile
    simp [profileUses, hfile]
  · apply mem_fileUses_profile hprofile
    rcases hslot with rfl | rfl <;> simp [profileUses, hfile]

/-- Every use of a path is collected. -/
theorem mem_fileUses (h : use.path cfg configPath = some path) : use ∈ fileUses cfg configPath := by
  cases use with
  | mainConfig =>
      have hconfig : configPath = some path := h
      simp [fileUses, hconfig]
  | legacySource index =>
      have hmem : (path, index) ∈ cfg.subscriptions.files.zipIdx := List.mem_zipIdx_iff_getElem?.mpr h
      apply List.mem_append_left
      apply List.mem_append_right
      exact List.mem_map.mpr ⟨(path, index), hmem, rfl⟩
  | localSource name index =>
      obtain ⟨profile, hprofile, hfile⟩ := Option.bind_eq_some_iff.mp h
      apply mem_fileUses_profile hprofile
      apply List.mem_append_left
      apply List.mem_append_left
      exact List.mem_map.mpr ⟨(path, index), List.mem_zipIdx_iff_getElem?.mpr hfile, rfl⟩
  | urlSecret name =>
      obtain ⟨profile, hprofile, hfile⟩ := Option.bind_eq_some_iff.mp h
      apply mem_fileUses_profile hprofile
      simp [profileUses, hfile]
  | cache name => exact (mem_fileUses_cache h (Or.inl rfl)).1
  | cacheSlot name slot =>
      obtain ⟨cacheFile, hcache, hslot⟩ := Option.bind_eq_some_iff.mp h
      exact (mem_fileUses_cache hcache (cacheSlotPath_valid hslot).1).2
  | _ => simp [fileUses, fixedUses]

/-- What is collected is used, if every cache has slots. -/
theorem path_of_mem_fileUses (hresolved : Resolved normalized cfg configPath) (huse : use ∈ fileUses cfg configPath) :
    ∃ path, use.path cfg configPath = some path := by
  rcases List.mem_append.mp huse with huse | huse
  · rcases List.mem_append.mp huse with huse | huse
    · rcases List.mem_append.mp huse with huse | huse
      · simp only [fixedUses, List.mem_cons, List.not_mem_nil, or_false] at huse
        rcases huse with rfl | rfl | rfl | rfl | rfl | rfl | rfl | rfl <;> exact ⟨_, rfl⟩
      · obtain ⟨path, hpath, rfl⟩ := List.mem_map.mp huse
        exact ⟨path, Option.mem_toList.mp hpath⟩
    · obtain ⟨entry, hentry, rfl⟩ := List.mem_map.mp huse
      exact ⟨entry.1, List.mem_zipIdx_iff_getElem?.mp hentry⟩
  · obtain ⟨⟨name, profile⟩, hprofile, huse⟩ := List.mem_flatMap.mp huse
    have hprofile := Std.ExtTreeMap.mem_toList_iff_getElem?_eq_some.mp hprofile
    rcases List.mem_append.mp huse with huse | huse
    · rcases List.mem_append.mp huse with huse | huse
      · obtain ⟨entry, hentry, rfl⟩ := List.mem_map.mp huse
        exact ⟨entry.1, Option.bind_eq_some_iff.mpr ⟨profile, hprofile, List.mem_zipIdx_iff_getElem?.mp hentry⟩⟩
      · obtain ⟨urlFile, hurl, rfl⟩ := List.mem_map.mp huse
        exact ⟨urlFile, Option.bind_eq_some_iff.mpr ⟨profile, hprofile, Option.mem_toList.mp hurl⟩⟩
    · obtain ⟨cacheFile, hcache, huse⟩ := List.mem_flatMap.mp huse
      have hpath : FileRole.path cfg configPath (.cache name) = some cacheFile :=
        Option.bind_eq_some_iff.mpr ⟨profile, hprofile, Option.mem_toList.mp hcache⟩
      have hslot : ∀ slot, (slot = cacheSlotA ∨ slot = cacheSlotB) →
          ∃ path, FileRole.path cfg configPath (.cacheSlot name slot) = some path := by
        intro slot hslot
        obtain ⟨slotPath, hslotPath⟩ := Option.isSome_iff_exists.mp (cacheSlotPath_isSome hslot (hresolved.slots name cacheFile hpath))
        exact ⟨slotPath, Option.bind_eq_some_iff.mpr ⟨cacheFile, hpath, hslotPath⟩⟩
      simp only [List.mem_cons, List.not_mem_nil, or_false] at huse
      rcases huse with rfl | rfl | rfl
      · exact ⟨cacheFile, hpath⟩
      · exact hslot cacheSlotA (Or.inl rfl)
      · exact hslot cacheSlotB (Or.inr rfl)

theorem nodup_zipIdx {l : List α} {useOf : Nat → FileRole} (hinj : Function.Injective useOf) :
    (l.zipIdx.map fun entry => useOf entry.2).Nodup := by
  have hindices : (l.zipIdx.map Prod.snd).Nodup := by
    rw [List.zipIdx_map_snd]
    exact List.nodup_range'
  have hmapped := hindices.map hinj
  rwa [List.map_map] at hmapped

theorem nodup_profileUses {name : String} {profile : SubscriptionProfileConfig} : (profileUses name profile).Nodup := by
  have hsources := @nodup_zipIdx Path profile.files (FileRole.localSource name) (by intro a b h; cases h; rfl)
  unfold profileUses
  cases profile.urlFile <;> cases profile.cacheFile <;>
    simp [List.nodup_append, hsources, cacheSlotA, cacheSlotB] <;> rintro _ _ _ _ rfl <;> simp

def FileRole.profile : FileRole → Option String
  | localSource name _ | urlSecret name | cache name | cacheSlot name _ => some name
  | _ => none

theorem profile_of_mem_profileUses {name : String} {profile : SubscriptionProfileConfig} (huse : use ∈ profileUses name profile) :
    use.profile = some name := by
  unfold profileUses at huse
  simp only [List.mem_append, List.mem_map, List.mem_flatMap, List.mem_cons, List.not_mem_nil, or_false] at huse
  rcases huse with (⟨entry, _, rfl⟩ | ⟨urlFile, _, rfl⟩) | ⟨cacheFile, _, rfl | rfl | rfl⟩ <;> rfl

theorem nodup_fileUses : (fileUses cfg configPath).Nodup := by
  have hlegacy := @nodup_zipIdx Path cfg.subscriptions.files FileRole.legacySource (by intro a b h; cases h; rfl)
  have hprofiles : (cfg.subscriptions.profiles.toList.flatMap fun entry => profileUses entry.1 entry.2).Nodup := by
    apply List.nodup_flatMap.mpr
    refine ⟨fun _ _ => nodup_profileUses, ?_⟩
    apply Std.ExtTreeMap.distinct_keys_toList.imp
    intro left right hne use hleft hright
    have hsame := (profile_of_mem_profileUses hleft).symm.trans (profile_of_mem_profileUses hright)
    apply hne
    rw [Option.some.inj hsame]
    exact Std.ReflCmp.compare_self
  have hnone : ∀ use, use ∈ fixedUses ++ configPath.toList.map (fun _ => FileRole.mainConfig) ++
      cfg.subscriptions.files.zipIdx.map (fun entry => .legacySource entry.2) → use.profile = none := by
    intro use huse
    simp only [List.mem_append, List.mem_map, fixedUses, List.mem_cons, List.not_mem_nil, or_false] at huse
    rcases huse with ((rfl | rfl | rfl | rfl | rfl | rfl | rfl | rfl) | ⟨_, _, rfl⟩) | ⟨_, _, rfl⟩ <;> rfl
  unfold fileUses
  rw [List.nodup_append]
  refine ⟨?_, hprofiles, ?_⟩
  · cases configPath <;> simp [hlegacy, fixedUses]
  · intro use huse other hother heq
    obtain ⟨entry, _, hother⟩ := List.mem_flatMap.mp hother
    have hprofile := profile_of_mem_profileUses hother
    rw [← heq, hnone use huse] at hprofile
    cases hprofile

/-! ### Pairs -/

variable {outer inner : FileRole} {left right : PathRole} {roles : List PathRole}

theorem exists_of_forall₂ {R : α → β → Prop} {l : List α} {m : List β} {x : α} (h : List.Forall₂ R l m) (hx : x ∈ l) :
    ∃ y ∈ m, R x y := by
  induction h with
  | nil => cases hx
  | cons hfirst _ ih =>
      rcases List.mem_cons.mp hx with rfl | hx'
      · exact ⟨_, by simp, hfirst⟩
      · obtain ⟨y, hy, hxy⟩ := ih hx'
        exact ⟨y, List.mem_cons_of_mem _ hy, hxy⟩

/-- Two uses have two roles. -/
theorem Stands.apart (h : List.Forall₂ (Stands normalized cfg configPath) uses roles)
    (hpairs : roles.Pairwise fun left right => ¬ Conflicting left right) (houter : outer ∈ uses) (hinner : inner ∈ uses)
    (hne : outer ≠ inner) : ∃ left right, Stands normalized cfg configPath outer left ∧ Stands normalized cfg configPath inner right ∧
      ¬ Conflicting left right := by
  induction h with
  | nil => cases houter
  | cons hfirst hrest ih =>
      obtain ⟨hhead, htail⟩ := List.pairwise_cons.mp hpairs
      rcases List.mem_cons.mp houter with heq | houter'
      · rcases List.mem_cons.mp hinner with heq' | hinner'
        · exact absurd (heq.trans heq'.symm) hne
        · obtain ⟨role, hrole, hstands⟩ := exists_of_forall₂ hrest hinner'
          exact ⟨_, role, heq ▸ hfirst, hstands, hhead role hrole⟩
      · rcases List.mem_cons.mp hinner with heq' | hinner'
        · obtain ⟨role, hrole, hstands⟩ := exists_of_forall₂ hrest houter'
          exact ⟨role, _, hstands, heq' ▸ hfirst, fun hconflict => hhead role hrole hconflict.symm⟩
        · exact ih htail houter' hinner'

/-- Two roles have two uses. -/
theorem Stands.pairwise (h : List.Forall₂ (Stands normalized cfg configPath) uses roles) (hnodup : uses.Nodup)
    (hpairs : ∀ outer inner left right, outer ≠ inner → Stands normalized cfg configPath outer left →
      Stands normalized cfg configPath inner right → ¬ Conflicting left right) :
    roles.Pairwise fun left right => ¬ Conflicting left right := by
  induction h with
  | nil => exact List.Pairwise.nil
  | cons hfirst hrest ih =>
      obtain ⟨hhead, htail⟩ := List.nodup_cons.mp hnodup
      refine List.Pairwise.cons (fun right hright => ?_) (ih htail)
      have hflip : List.Forall₂ (fun role use => Stands normalized cfg configPath use role) _ _ := List.Forall₂.flip hrest
      obtain ⟨use, huse, hstands⟩ := exists_of_forall₂ hflip hright
      apply hpairs _ use _ right _ hfirst hstands
      intro heq
      rw [heq] at hhead
      exact hhead huse

/-- A pair of roles conflicts if their uses clash, one way round or the other. -/
theorem Stands.conflicting_iff (houter : Stands normalized cfg configPath outer left) (hinner : Stands normalized cfg configPath inner right) :
    Conflicting left right ↔ (outer.written = true ∨ inner.written = true) ∧
      (left.path <+: right.path ∧ ¬ (left.path ≠ right.path ∧ SameSpace outer inner) ∨
        right.path <+: left.path ∧ ¬ (right.path ≠ left.path ∧ SameSpace inner outer)) := by
  unfold Conflicting SameSpace
  rw [houter.access, hinner.access, houter.space, hinner.space]
  by_cases heq : left.path = right.path
  · simp [heq]
  · have hne : right.path ≠ left.path := fun h => heq h.symm
    have hspace : (inner.space.isSome = true ∧ inner.space = outer.space) ↔ (outer.space.isSome = true ∧ outer.space = inner.space) := by
      constructor <;> rintro ⟨hsome, hsame⟩
      · exact ⟨hsame ▸ hsome, hsame.symm⟩
      · exact ⟨hsame ▸ hsome, hsame.symm⟩
    rw [hspace]
    simp only [heq, hne, ne_eq, not_false_eq_true, true_and, false_or, ← or_and_right]

theorem FileRole.At.unique {normal other : Path} (h : use.At normalized cfg configPath normal)
    (h' : use.At normalized cfg configPath other) : normal = other :=
  Option.some.inj (h.symm.trans h')

/-- Roles are accepted if and only if their uses do not clash. -/
theorem validateRoleCollisions_uses (h : List.Forall₂ (Stands normalized cfg configPath) (fileUses cfg configPath) roles) :
    validateRoleCollisions roles = .ok () ↔ ¬ RoleClash normalized cfg configPath SameSpace := by
  rw [validateRoleCollisions_iff]
  constructor
  · rintro hpairs ⟨outer, inner, outerPath, innerPath, hne, hwritten, houter, hinner, hpre, hexcept⟩
    obtain ⟨path, hpath, _⟩ := Option.bind_eq_some_iff.mp houter
    obtain ⟨path', hpath', _⟩ := Option.bind_eq_some_iff.mp hinner
    obtain ⟨left, right, hleft, hright, hno⟩ := Stands.apart h hpairs (mem_fileUses hpath) (mem_fileUses hpath') hne
    apply hno
    rw [hleft.conflicting_iff hright, hleft.path.unique houter, hright.path.unique hinner]
    exact ⟨hwritten, Or.inl ⟨hpre, hexcept⟩⟩
  · intro hclash
    apply Stands.pairwise h nodup_fileUses
    intro outer inner left right hne hleft hright hconflict
    apply hclash
    obtain ⟨hwritten, ⟨hpre, hexcept⟩ | ⟨hpre, hexcept⟩⟩ := (hleft.conflicting_iff hright).mp hconflict
    · exact ⟨outer, inner, _, _, hne, hwritten, hleft.path, hright.path, hpre, hexcept⟩
    · exact ⟨inner, outer, _, _, hne.symm, hwritten.symm, hright.path, hleft.path, hpre, hexcept⟩

theorem Resolved.of_roles (h : List.Forall₂ (Stands normalized cfg configPath) (fileUses cfg configPath) roles) :
    Resolved normalized cfg configPath where
  path := fun use path hpath => by
    obtain ⟨role, _, hstands⟩ := exists_of_forall₂ h (mem_fileUses hpath)
    obtain ⟨path', hpath', hnormal⟩ := Option.bind_eq_some_iff.mp hstands.path
    rw [hpath] at hpath'
    cases hpath'
    rw [hnormal]
    rfl
  slots := fun name cacheFile hcache => by
    obtain ⟨role, _, hstands⟩ := exists_of_forall₂ h (mem_fileUses_cache hcache (Or.inl rfl)).2
    obtain ⟨slotPath, hslotPath, _⟩ := Option.bind_eq_some_iff.mp hstands.path
    obtain ⟨cacheFile', hcache', hslot⟩ := Option.bind_eq_some_iff.mp hslotPath
    have hsame : some cacheFile = some cacheFile' := hcache.symm.trans hcache'
    cases hsame
    exact (cacheSlotPath_valid hslot).2

theorem filesystemRoles_isOk (hresolved : Resolved normalized cfg configPath) :
    ∃ roles, filesystemRoles normalized cfg configPath = .ok roles := by
  apply collects_filesystemRoles.complete
  intro use huse
  obtain ⟨path, hpath⟩ := path_of_mem_fileUses hresolved huse
  obtain ⟨normal, hnormal⟩ := Option.isSome_iff_exists.mp (hresolved.path use path hpath)
  exact ⟨normal, Option.bind_eq_some_iff.mpr ⟨path, hpath, hnormal⟩⟩

end

/-! ### The law -/

/-- What is accepted: the paths resolve, and no two uses clash but the socket and the run directory. The slots that are checked are those that are written. -/
theorem filesystem_roles_separate (normalized : Path → Option Path) (cfg : FilesConfig) (configPath : Option Path) :
    (validateFilesystemRoles normalized cfg configPath = .ok () ↔
      Resolved normalized cfg configPath ∧ ¬ RoleClash normalized cfg configPath SameSpace) ∧
    ∀ base, (derivedCacheSlotPath base "causeway-a").toOption = cacheSlotPath base cacheSlotA ∧
      (derivedCacheSlotPath base "causeway-b").toOption = cacheSlotPath base cacheSlotB := by
  refine ⟨?_, derivedCacheSlotPath_toOption⟩
  unfold validateFilesystemRoles
  cases hroles : filesystemRoles normalized cfg configPath with
  | error text =>
      constructor
      · intro h
        cases h
      · intro ⟨hresolved, _⟩
        obtain ⟨roles, hok⟩ := filesystemRoles_isOk hresolved
        rw [hroles] at hok
        cases hok
  | ok roles =>
      have hstands := collects_filesystemRoles.sound roles hroles
      have huses := validateRoleCollisions_uses hstands
      exact ⟨fun h => ⟨Resolved.of_roles hstands, huses.mp h⟩, fun h => huses.mpr h.2⟩

namespace Sample

def filesConfig : FilesConfig where
  stateFile := ["/", "data", "state.json"]
  logDir := ["/", "logs"]
  sslocalBin := ["/", "bin", "sslocal"]
  obfsPluginBin := ["/", "bin", "obfs-local"]
  singboxBin := ["/", "bin", "sing-box"]
  subscriptions := { files := [["/", "etc", "nodes.yaml"]], default := none, profiles := ∅ }

/-- The state file and its temporary file are links to `/srv`, the control socket is a link to `/data`. -/
def linked (path : Path) : Option Path :=
  if path = ["/", "data", "state.json"] then some ["/", "srv", "state.json"]
  else if path = ["/", "data", "state.json.tmp"] then some ["/", "srv", "state.json.tmp"]
  else if path = ["/", "data", "run", "control.sock"] then some ["/", "data"]
  else some path

end Sample

/-- The exemption lets the run directory be inside the control socket too. -/
theorem filesystem_roles_reversed : ¬ ∀ normalized cfg configPath, validateFilesystemRoles normalized cfg configPath = .ok () →
    ¬ RoleClash normalized cfg configPath fun outer inner => outer = .runDir ∧ inner = .controlSocket := by
  intro h
  apply h Sample.linked Sample.filesConfig none (by decide +kernel)
  refine ⟨.controlSocket, .runDir, ["/", "data"], ["/", "data", "run"], by decide, by decide, by decide +kernel, by decide +kernel,
    by decide, ?_⟩
  rintro ⟨_, hexcept, _⟩
  cases hexcept

end Causeway

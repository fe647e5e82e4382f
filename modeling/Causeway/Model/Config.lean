import Causeway.Model.Basic

/-!
# Configuration

The parts of `config.rs` that the supervisor reads: per-class overrides, the health, selection and site settings, and the subscription catalog.
-/

namespace Causeway

/-- A path as its components, file name last; the root is the component `/`. Configured paths are text, so they are Unicode. -/
abbrev Path := List String

/-- `Path::file_name` -/
def fileName (path : Path) : Option String :=
  path.getLast?.filter fun component => component ≠ "/" && component ≠ "." && component ≠ ".."

abbrev Bytes := List UInt8

structure ClassSelection where
  regions : Option (List String)
  autoSwitch : Option Bool
deriving DecidableEq

structure ClassHealth where
  url : Option String
  samples : Option Nat
deriving DecidableEq

structure ClassConfig where
  listen : String
  selection : Option ClassSelection
  health : Option ClassHealth
deriving DecidableEq

structure HealthConfig where
  failThreshold : Nat
  url : String
  samples : Nat
deriving DecidableEq

structure SelectionConfig where
  hysteresis : ℚ
  emaAlpha : ℚ
  regions : List String
  autoSwitch : Bool
deriving DecidableEq

structure SiteTarget where
  url : String
deriving DecidableEq

structure SitesConfig where
  maxCandidates : Nat
  verdictTtlSecs : Nat
  userAgent : String :=
    "Mozilla/5.0 (X11; Linux x86_64) AppleWebKit/537.36 (KHTML, like Gecko) Chrome/126.0.0.0 Safari/537.36"
  list : BTreeMap SiteTarget
deriving DecidableEq

/-- One named subscription source: local manifests, or a remote one with its private cache. -/
structure SubscriptionProfileConfig where
  files : List Path
  urlFile : Option Path
  cacheFile : Option Path
deriving DecidableEq

structure SubscriptionsConfig where
  files : List Path
  default : Option String
  profiles : BTreeMap SubscriptionProfileConfig
deriving DecidableEq

structure Config where
  classes : BTreeMap ClassConfig
  health : HealthConfig
  selection : SelectionConfig
  sites : SitesConfig
  subscriptions : SubscriptionsConfig
deriving DecidableEq

namespace Config

variable (cfg : Config)

def classRegions (cls : String) : List String :=
  (((cfg.classes[cls]?).bind (·.selection)).bind (·.regions)).getD cfg.selection.regions

def classAutoSwitch (cls : String) : Bool :=
  (((cfg.classes[cls]?).bind (·.selection)).bind (·.autoSwitch)).getD cfg.selection.autoSwitch

def classHealthOverride (cls : String) : Option String :=
  ((cfg.classes[cls]?).bind (·.health)).bind (·.url)

def classHealthUrl (cls : String) : String := (cfg.classHealthOverride cls).getD cfg.health.url

def classHealthSamples (cls : String) : Nat :=
  (((cfg.classes[cls]?).bind (·.health)).bind (·.samples)).getD cfg.health.samples

/-- The keys a class overrides, for the dashboard. -/
def classSelectionSummary (cls : String) : String :=
  match (cfg.classes[cls]?).bind (·.selection) with
  | none => ""
  | some selection =>
      let regions := selection.regions.map fun regions => "regions=" ++ ",".intercalate regions
      let auto := selection.autoSwitch.map fun auto => "auto=" ++ if auto then "on" else "off"
      " ".intercalate (regions.toList ++ auto.toList)

/-- The class sets the value itself. -/
def Overrides {α : Type} (cls : String) (field : ClassSelection → Option α) (value : α) : Prop :=
  ∃ config selection, cfg.classes[cls]? = some config ∧ config.selection = some selection ∧ field selection = some value

variable {cfg} {cls : String}

theorem bind_selection_eq_some {α : Type} {field : ClassSelection → Option α} {value : α} :
    ((cfg.classes[cls]?).bind (·.selection)).bind field = some value ↔ cfg.Overrides cls field value := by
  simp only [Option.bind_eq_some_iff, Overrides]
  constructor
  · intro ⟨selection, ⟨config, hconfig, hselection⟩, hvalue⟩
    exact ⟨config, selection, hconfig, hselection, hvalue⟩
  · intro ⟨config, selection, hconfig, hselection, hvalue⟩
    exact ⟨selection, ⟨config, hconfig, hselection⟩, hvalue⟩

/-- What the class sets, else what holds of all classes. -/
theorem getD_selection_eq_iff {α : Type} {field : ClassSelection → Option α} {global value : α} :
    (((cfg.classes[cls]?).bind (·.selection)).bind field).getD global = value ↔
      cfg.Overrides cls field value ∨ (∀ other, ¬ cfg.Overrides cls field other) ∧ global = value := by
  simp only [← bind_selection_eq_some]
  cases ((cfg.classes[cls]?).bind (·.selection)).bind field with
  | none => simp
  | some set => simp

theorem classRegions_eq_iff {regions : List String} : cfg.classRegions cls = regions ↔
    cfg.Overrides cls (·.regions) regions ∨
      (∀ other, ¬ cfg.Overrides cls (·.regions) other) ∧ cfg.selection.regions = regions :=
  getD_selection_eq_iff

theorem classAutoSwitch_eq_iff {auto : Bool} : cfg.classAutoSwitch cls = auto ↔
    cfg.Overrides cls (·.autoSwitch) auto ∨
      (∀ other, ¬ cfg.Overrides cls (·.autoSwitch) other) ∧ cfg.selection.autoSwitch = auto :=
  getD_selection_eq_iff

end Config

/-- The profile name of the legacy `files` form. -/
def legacySubscriptionName : String := "default"

namespace SubscriptionsConfig

variable (catalog : SubscriptionsConfig)

def profileNames : List String :=
  if !catalog.files.isEmpty then [legacySubscriptionName] else catalog.profiles.keys

def profile (name : String) : Option SubscriptionProfileConfig :=
  if !catalog.files.isEmpty then
    if name = legacySubscriptionName then
      some { files := catalog.files, urlFile := none, cacheFile := none }
    else none
  else catalog.profiles[name]?

/-- Every configured source with its identity, or nothing if one of them has none. `identity` is the digest of the normalized paths. -/
def sourceIdentities (identity : SubscriptionProfileConfig → Option String) :
    Option (BTreeMap String) :=
  catalog.profileNames.foldlM (fun all name =>
    ((catalog.profile name).bind identity).map fun id => all.insert name id) ∅

end SubscriptionsConfig

end Causeway

import Causeway.Model.Config
import Causeway.Model.Score

/-!
# Persisted state

`state.rs`: the in-memory state file, the operations on its per-profile namespaces, and its wire form. The JSON text itself is outside the program; what is written is `StateFileV2`.
-/

namespace Causeway

inductive SiteStatus where
  | ok
  | blocked
  | unknown
deriving DecidableEq

structure SiteVerdict where
  status : SiteStatus
  httpStatus : Option Nat
  checkedUnix : Int
  detail : Option String
deriving DecidableEq

structure ClassState where
  activeNode : Option String
  socksPort : Option Nat
  httpPort : Option Nat
  generation : UInt64
deriving DecidableEq

instance : Inhabited ClassState where
  default := { activeNode := none, socksPort := none, httpPort := none, generation := 0 }

def stateVersion : Nat := 2

def legacyStateVersion : Nat := 1

/-- `nodes` is the active profile's view; `subscriptionNodes` holds the inactive profiles. -/
structure StateFile where
  version : Nat
  updatedUnix : Int
  activeSubscription : Option String
  classes : BTreeMap ClassState
  nodes : BTreeMap NodeStats
  subscriptionCacheSlots : BTreeMap String
  subscriptionSourceIdentities : BTreeMap String
  pendingSubscriptionSources : BTreeMap String
  subscriptionNodes : BTreeMap (BTreeMap NodeStats)
  siteVerdicts : BTreeMap (BTreeMap SiteVerdict)
deriving DecidableEq

instance : Inhabited StateFile where
  default :=
    { version := stateVersion, updatedUnix := 0, activeSubscription := none, classes := ∅, nodes := ∅,
      subscriptionCacheSlots := ∅, subscriptionSourceIdentities := ∅, pendingSubscriptionSources := ∅,
      subscriptionNodes := ∅, siteVerdicts := ∅ }

namespace StateFile

variable (st : StateFile)

def nodesForSubscription (name : String) : Option (BTreeMap NodeStats) :=
  if st.activeSubscription = some name then some st.nodes else st.subscriptionNodes[name]?

def removeSubscription (name : String) : StateFile :=
  let active := st.activeSubscription = some name
  { st with
    nodes := if active then ∅ else st.nodes
    activeSubscription := if active then none else st.activeSubscription
    subscriptionNodes := st.subscriptionNodes.erase name
    subscriptionCacheSlots := st.subscriptionCacheSlots.erase name
    subscriptionSourceIdentities := st.subscriptionSourceIdentities.erase name
    pendingSubscriptionSources := st.pendingSubscriptionSources.erase name }

/-- Keep the name, drop everything derived from its previous source, and mark it pending. -/
def invalidateSubscriptionSource (name identity : String) : StateFile :=
  let active := st.activeSubscription = some name
  { st with
    nodes := if active then ∅ else st.nodes
    subscriptionNodes := if active then st.subscriptionNodes else st.subscriptionNodes.erase name
    subscriptionCacheSlots := st.subscriptionCacheSlots.erase name
    subscriptionSourceIdentities := st.subscriptionSourceIdentities.erase name
    pendingSubscriptionSources := st.pendingSubscriptionSources.insert name identity }

def trustSubscriptionSource (name identity : String) : StateFile :=
  { st with
    pendingSubscriptionSources := st.pendingSubscriptionSources.erase name
    subscriptionSourceIdentities := st.subscriptionSourceIdentities.insert name identity }

def sourceIsTrusted (name identity : String) : Bool :=
  st.subscriptionSourceIdentities[name]? = some identity &&
    (st.pendingSubscriptionSources[name]?).isNone

/-- Every profile name that owns a persisted namespace. -/
def knownSubscriptions : List String :=
  (Std.ExtTreeSet.ofList (st.subscriptionNodes.keys ++ st.subscriptionCacheSlots.keys ++
    st.subscriptionSourceIdentities.keys ++ st.pendingSubscriptionSources.keys)).toList

/-- Drop the namespaces of profiles that the catalog no longer names. -/
def removeUnknown (current : BTreeMap String) : StateFile :=
  (st.knownSubscriptions.filter fun name => (current[name]?).isNone).foldl removeSubscription st

/-- A stored or pending identity other than this one. -/
def sourceMismatch (name identity : String) : Bool :=
  (st.subscriptionSourceIdentities[name]?).any (· ≠ identity) ||
    (st.pendingSubscriptionSources[name]?).any (· ≠ identity)

def applySubscriptionCatalog (previous next : BTreeMap String) (freshlyTrusted : Option String) :
    StateFile :=
  next.toList.foldl (fun st (name, identity) =>
    let st :=
      if previous[name]? ≠ some identity || st.sourceMismatch name identity then
        st.invalidateSubscriptionSource name identity
      else st
    if freshlyTrusted = some name then st.trustSubscriptionSource name identity else st)
    (st.removeUnknown next)

/-- Startup: drop unknown profiles, make changed sources pending, adopt identity-less ones. -/
def reconcileStartupSources (current : BTreeMap String) : StateFile :=
  let checked := current.toList.foldl (fun st (name, identity) =>
    if st.sourceMismatch name identity then st.invalidateSubscriptionSource name identity else st)
    (st.removeUnknown current)
  current.toList.foldl (fun st (name, identity) =>
    if (st.pendingSubscriptionSources[name]?).isSome then st
    else
      match st.subscriptionSourceIdentities[name]? with
      | some stored =>
          if stored = identity then st else st.invalidateSubscriptionSource name identity
      | none => st.trustSubscriptionSource name identity) checked

/-- Bind version-1 statistics to the selected profile; nothing happens on version 2. -/
def migrateForSubscription (selected : String) : Bool × StateFile :=
  if st.version ≠ legacyStateVersion then (false, st)
  else (true, { st with version := stateVersion, activeSubscription := some selected })

def activateSubscription (name : String) : Bool × StateFile :=
  match st.migrateForSubscription name with
  | (true, st) => (true, st)
  | (false, st) =>
      if st.activeSubscription = some name then (false, st)
      else
        let inactive :=
          match st.activeSubscription with
          | some previous => st.subscriptionNodes.insert previous st.nodes
          | none => st.subscriptionNodes
        (true, { st with
          activeSubscription := some name
          subscriptionNodes := inactive.erase name
          nodes := (inactive[name]?).getD ∅ })

inductive StateError where
  | needsMigration
  | unboundNodes
  | unsupportedVersion (version : Nat)
  | missingActiveSubscription (active : String)
  | invalidSubscriptionCacheSlot (profile slot : String)
  | json
  | io
deriving DecidableEq

/-- The on-disk profile map, with the active view put back under its name. -/
def persistedSubscriptionNodes : Except StateError (BTreeMap (BTreeMap NodeStats)) :=
  if st.version ≠ stateVersion then .error .needsMigration
  else
    match st.activeSubscription with
    | some active => .ok (st.subscriptionNodes.insert active st.nodes)
    | none => if st.nodes.isEmpty then .ok st.subscriptionNodes else .error .unboundNodes

def updateClass (name : String) (f : ClassState → ClassState) : StateFile :=
  { st with classes := st.classes.upsert name f }

def updateStats (node : String) (f : NodeStats → NodeStats) : StateFile :=
  { st with nodes := st.nodes.upsert node f }

/-- `get_mut(node)`, then reset the displayed failure count. -/
def resetHealthFailures (node : String) : StateFile :=
  { st with nodes := st.nodes.adjust node fun stats => { stats with consecutiveHealthFailures := 0 } }

def insertSiteVerdict (site node : String) (verdict : SiteVerdict) : StateFile :=
  { st with
    siteVerdicts := st.siteVerdicts.insert site (((st.siteVerdicts[site]?).getD ∅).insert node verdict) }

end StateFile

/-! ### Wire form -/

structure StateFileV1 where
  version : Nat
  updatedUnix : Int
  classes : BTreeMap ClassState
  nodes : BTreeMap NodeStats
deriving DecidableEq

/-- On disk the profile map includes the active profile. -/
structure StateFileV2 where
  version : Nat
  updatedUnix : Int
  activeSubscription : Option String
  classes : BTreeMap ClassState
  subscriptionNodes : BTreeMap (BTreeMap NodeStats)
  siteVerdicts : BTreeMap (BTreeMap SiteVerdict)
  subscriptionCacheSlots : BTreeMap String
  subscriptionSourceIdentities : BTreeMap String
  pendingSubscriptionSources : BTreeMap String
deriving DecidableEq

namespace StateFile

/-- What a save serializes. -/
def toWire (st : StateFile) : Except StateError StateFileV2 := do
  let nodes ← st.persistedSubscriptionNodes
  return {
    version := stateVersion
    updatedUnix := st.updatedUnix
    activeSubscription := st.activeSubscription
    classes := st.classes
    subscriptionNodes := nodes
    siteVerdicts := st.siteVerdicts
    subscriptionCacheSlots := st.subscriptionCacheSlots
    subscriptionSourceIdentities := st.subscriptionSourceIdentities
    pendingSubscriptionSources := st.pendingSubscriptionSources }

end StateFile

/-- What the text of a state file decodes to. -/
inductive StateWire where
  | v1 (wire : StateFileV1)
  | v2 (wire : StateFileV2)
deriving DecidableEq

/-- `load` after decoding: version 1 stays unbound, version 2 exposes the active profile's statistics. -/
def StateWire.load : StateWire → Except StateFile.StateError StateFile
  | .v1 wire =>
      if wire.version = legacyStateVersion then
        .ok { (default : StateFile) with
          version := wire.version, updatedUnix := wire.updatedUnix, classes := wire.classes,
          nodes := wire.nodes }
      else .error (.unsupportedVersion wire.version)
  | .v2 wire =>
      if wire.version ≠ stateVersion then .error (.unsupportedVersion wire.version)
      else
        match wire.subscriptionCacheSlots.toList.find? fun (_, slot) => slot ≠ "a" && slot ≠ "b" with
        | some (profile, slot) => .error (.invalidSubscriptionCacheSlot profile slot)
        | none =>
            let bound := fun nodes (inactive : BTreeMap (BTreeMap NodeStats)) => Except.ok
              { version := wire.version, updatedUnix := wire.updatedUnix,
                activeSubscription := wire.activeSubscription, classes := wire.classes, nodes := nodes,
                subscriptionCacheSlots := wire.subscriptionCacheSlots,
                subscriptionSourceIdentities := wire.subscriptionSourceIdentities,
                pendingSubscriptionSources := wire.pendingSubscriptionSources,
                subscriptionNodes := inactive, siteVerdicts := wire.siteVerdicts }
            match wire.activeSubscription with
            | some active =>
                match wire.subscriptionNodes[active]? with
                | some nodes => bound nodes (wire.subscriptionNodes.erase active)
                | none => .error (.missingActiveSubscription active)
            | none => bound ∅ wire.subscriptionNodes

end Causeway

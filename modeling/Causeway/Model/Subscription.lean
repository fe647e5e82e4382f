import Causeway.Model.Config

/-!
# Subscriptions

`subscription.rs`: parsed nodes, the two cache slots beside a configured cache path, and a prepared profile. YAML decoding and the fetcher are outside the program: manifests come through `parseStr`, a fetched body through the caller.
-/

namespace Causeway

structure ObfsOpts where
  mode : String
  host : Option String
deriving DecidableEq

structure SsNode where
  name : String
  server : String
  port : UInt16
  cipher : String
  password : String
  plugin : Option ObfsOpts
deriving DecidableEq

structure AnytlsNode where
  name : String
  server : String
  port : UInt16
  password : String
  sni : Option String
  alpn : Option (List String)
  clientFingerprint : Option String
  skipCertVerify : Bool
deriving DecidableEq

inductive Node where
  | ss (node : SsNode)
  | anytls (node : AnytlsNode)
deriving DecidableEq

namespace Node

def name : Node → String
  | .ss node => node.name
  | .anytls node => node.name

end Node

def maxProfileNodes : Nat := 256

def cacheSlotA : String := "a"

def cacheSlotB : String := "b"

/-- The private slot beside the configured cache path. -/
def cacheSlotPath (base : Path) (slot : String) : Option Path :=
  let suffix :=
    if slot = cacheSlotA then some "causeway-a"
    else if slot = cacheSlotB then some "causeway-b"
    else none
  match suffix, fileName base with
  | some suffix, some name => some (base.dropLast ++ [name ++ "." ++ suffix])
  | _, _ => none

/-- The slot a commit goes to: the one that is not confirmed. -/
def nextSlot (confirmedSlot : Option String) : String :=
  if confirmedSlot = some cacheSlotA then cacheSlotB else cacheSlotA

theorem nextSlot_ne (confirmedSlot : Option String) : confirmedSlot ≠ some (nextSlot confirmedSlot) := by
  unfold nextSlot
  split
  · rename_i h
    subst h
    decide
  · exact ‹_›

theorem nextSlot_valid (confirmedSlot : Option String) :
    nextSlot confirmedSlot = cacheSlotA ∨ nextSlot confirmedSlot = cacheSlotB := by
  unfold nextSlot
  split
  · exact .inr rfl
  · exact .inl rfl

/-- Merge parsed manifests; of nodes with one name the first is kept. -/
def mergeNodes : List Node → List Node → List Node
  | all, [] => all
  | all, node :: nodes =>
      mergeNodes (if all.any fun seen => seen.name = node.name then all else all ++ [node]) nodes

/-- Load manifests from what `read` finds at each path; a file that is missing or malformed is skipped. -/
def loadAll (parseStr : Bytes → Option (List Node)) (read : Path → Option Bytes) (paths : List Path) :
    List Node :=
  paths.foldl (fun all path => mergeNodes all (((read path).bind parseStr).getD [])) []

/-- Without a network: local manifests, or the cache generation of the confirmed slot. -/
def loadProfileSnapshotFromSlot (parseStr : Bytes → Option (List Node)) (read : Path → Option Bytes)
    (profile : SubscriptionProfileConfig) (confirmedSlot : Option String) : List Node :=
  if !profile.files.isEmpty then loadAll parseStr read profile.files
  else
    let path := profile.cacheFile.bind fun base =>
      match confirmedSlot with
      | some slot => cacheSlotPath base slot
      | none => some base
    match path with
    | some path => loadAll parseStr read [path]
    | none => []

/-- A fully parsed candidate profile; a remote body stays pending until its commit. -/
structure PreparedProfile where
  nodes : List Node
  pendingCache : Option (Path × Bytes)
  committedSlot : Option String
deriving DecidableEq

/-- Read or fetch, then parse; no cache is touched. `fetched` is the body the fetcher delivered. -/
def prepareProfile (parseStr : Bytes → Option (List Node)) (read : Path → Option Bytes)
    (fetched : Option Bytes) (profile : SubscriptionProfileConfig) : Option PreparedProfile :=
  if !profile.files.isEmpty then
    match loadAll parseStr read profile.files with
    | [] => none
    | nodes => some { nodes := nodes, pendingCache := none, committedSlot := none }
  else
    match profile.urlFile, profile.cacheFile, fetched with
    | some _, some cacheFile, some body =>
        match parseStr body with
        | none | some [] => none
        | some nodes =>
            if nodes.length ≤ maxProfileNodes then
              some { nodes := nodes, pendingCache := some (cacheFile, body), committedSlot := none }
            else none
    | _, _, _ => none

inductive PreparedSubscription where
  | fresh (prepared : PreparedProfile)
  | cached (nodes : List Node)
deriving DecidableEq

namespace PreparedSubscription

def nodes : PreparedSubscription → List Node
  | .fresh prepared => prepared.nodes
  | .cached nodes => nodes

def isFresh : PreparedSubscription → Bool
  | .fresh _ => true
  | .cached _ => false

def committedSlot : PreparedSubscription → Option String
  | .fresh prepared => prepared.committedSlot
  | .cached _ => none

end PreparedSubscription

end Causeway

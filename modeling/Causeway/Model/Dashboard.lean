import Causeway.Model.Select
import Causeway.Model.World

/-!
# The dashboard

`switch.rs`: what the terminal dashboard knows, and how it judges a snapshot, orders the nodes and sorts the replies to its requests.
-/

namespace Causeway

namespace Dashboard

inductive MessageLevel where
  | info | success | warning | error
deriving DecidableEq

structure SubscriptionOutcomeUnknown where
  previous : String
  requested : String
  subscriptionGenerationBeforeRequest : UInt64
deriving DecidableEq

/-- The profile, its generation and the pool that a probe round is about. -/
structure ProbeRoundTag where
  activeSubscription : String
  subscriptionGeneration : UInt64
  pool : List String
deriving DecidableEq

structure ProbeRoundResult where
  ok : Bool
  rttMs : Option ℚ
deriving DecidableEq

structure ProbeRound where
  tag : ProbeRoundTag
  results : BTreeMap ProbeRoundResult

structure ProbeReplyOutcome where
  level : MessageLevel
  message : String
  round : Option ProbeRound
  counts : Option (Nat × Nat)

/-- The profile shown before a live daemon has told its own. -/
inductive OfflineSubscription where
  | persisted (name : String)
  | configuredDefault (name : String)
  | unavailable
deriving DecidableEq

namespace OfflineSubscription

def displayName : OfflineSubscription → Option String
  | persisted name | configuredDefault name => some name
  | unavailable => none

def confirmedName : OfflineSubscription → Option String
  | persisted name => some name
  | configuredDefault _ | unavailable => none

end OfflineSubscription

/-- `urlEdit` is the hidden input of the URL editor, while it is open. -/
structure SubscriptionPicker where
  entries : List SubscriptionSummary
  selected : Nat
  urlEdit : Option String

inductive PickerAction where
  | none | close
  | switch (name : String)
deriving DecidableEq

/-! ### Requests -/

/-- What the dashboard asks the daemon. -/
inductive Request where
  | status (cls : String)
  | events
  | switch (cls node : String)
  | probeNow (cls : String)
  | switchSubscription (name : String)
deriving DecidableEq

inductive MutationKind where
  | nodeSwitch (node : String)
  | probeAll (requestedTag : Option ProbeRoundTag)
  | subscriptionSwitch (previous requested : String) (generationBefore : UInt64)
deriving DecidableEq

namespace MutationKind

def request (cls : String) : MutationKind → Request
  | nodeSwitch node => .switch cls node
  | probeAll _ => .probeNow cls
  | subscriptionSwitch _ requested _ => .switchSubscription requested

def busyMessage (cls : String) : MutationKind → String
  | nodeSwitch node => "switching to " ++ node ++ " — pre-check in progress…"
  | probeAll _ => "probing all nodes end-to-end (class " ++ cls ++ ")…"
  | subscriptionSwitch _ requested _ => "switching subscription to " ++ requested ++ " — staging checked paths…"

end MutationKind

/-- A request on its way. `rx` is where its reply will arrive; `kind` is set on the mutation lane. -/
structure InFlight where
  kind : Option MutationKind
  cls : String
  epoch : UInt64
  rx : Nat
deriving DecidableEq

/-- What a client gets: a reply, or the text of an error. -/
abbrev ReplyResult := Except String Reply

/-! ### Snapshots -/

/-- Does the snapshot identify the active profile, within a coherent catalog? -/
def authoritativeSubscriptionStatus (snapshot : StatusSnapshot) : Bool :=
  match snapshot.activeSubscription.filter (· ≠ "") with
  | none => false
  | some active =>
      snapshot.subscriptionGeneration.isSome && snapshot.subscriptionTxnInProgress.isSome &&
        !snapshot.availableSubscriptions.isEmpty && snapshot.availableSubscriptions.all (·.name ≠ "") &&
        snapshot.availableSubscriptions.any (·.name = active)

/-- `sort` and `dedup` -/
def sortedPool (nodes : List String) : List String := (sortBy compare nodes).destutter (· ≠ ·)

/-- Nothing for an empty pool, or one that names a node twice. -/
def probeRoundTag (snapshot : StatusSnapshot) : Option ProbeRoundTag := do
  let activeSubscription ← snapshot.activeSubscription
  let subscriptionGeneration ← snapshot.subscriptionGeneration
  if snapshot.availableNodes.isEmpty then none
  else
    let pool := sortedPool snapshot.availableNodes
    if pool.length ≠ snapshot.availableNodes.length then none
    else some { activeSubscription, subscriptionGeneration, pool }

/-! ### Replies -/

inductive SubscriptionReplyResult where
  | success (outcome : SubscriptionSwitchOutcome)
  | failed (message : String)
  | unknown (message : String)
deriving DecidableEq

def classifySubscriptionReply : ReplyResult → SubscriptionReplyResult
  | .ok reply =>
      if reply.ok then
        match reply.subscriptionSwitch with
        | some outcome => .success outcome
        | none => .unknown
            "subscription request outcome unknown: daemon replied ok without an outcome; further subscription changes are locked until authoritative status reconciles"
      else .failed (reply.error.getD "subscription change failed; current paths kept")
  | .error error => .unknown
      ("subscription request outcome unknown; further subscription changes are locked until authoritative status reconciles: " ++ error)

def classifySwitchReply (requested : String) : ReplyResult → MessageLevel × String
  | .ok reply =>
      if reply.ok then
        match reply.switch with
        | some outcome =>
            if outcome.fallback then (.warning, requested ++ " failed pre-check — fell back to " ++ outcome.installed)
            else (.success, "switched to " ++ outcome.installed)
        | none => (.warning, "node switch outcome unknown: daemon replied ok without an outcome")
      else (.error, reply.error.getD "switch failed")
  | .error error => (.error, "switch request failed: " ++ error)

/-- The result a round keeps; a latency belongs to a success, and to nothing else. Every number that a reply can carry is finite. -/
def validRtt (result : ProbeResult) : Bool :=
  match result.ok, result.rttMs with
  | true, some rtt => 0 ≤ rtt
  | false, none => true
  | _, _ => false

/-- One result more, unless it is malformed or its node has one already. -/
def collectResult (byNode : BTreeMap ProbeRoundResult) (result : ProbeResult) : Option (BTreeMap ProbeRoundResult) :=
  if !validRtt result || byNode.contains result.node then none
  else some (byNode.insert result.node ⟨result.ok, result.rttMs⟩)

/-- A round that covers exactly the pool it was asked for. -/
def probeRound (results : List ProbeResult) (tag : ProbeRoundTag) : Option ProbeRound := do
  let byNode ← results.foldlM collectResult ∅
  if byNode.keys = tag.pool then some ⟨tag, byNode⟩ else none

def classifyProbeReply (requestedTag : Option ProbeRoundTag) : ReplyResult → ProbeReplyOutcome
  | .ok reply =>
      if reply.ok then
        match reply.probe with
        | some results =>
            let ok := results.countP (·.ok)
            let total := (requestedTag.map (·.pool.length)).getD results.length
            let round := requestedTag.bind (probeRound results)
            let done := "end-to-end probe done: " ++ toString ok ++ "/" ++ toString total ++ " ok"
            if round.isSome then
              { level := .success, message := done, round := round, counts := some (ok, total) }
            else
              { level := .warning
                message := done ++ "; ranking unchanged (incomplete or malformed result set)"
                round := none
                counts := none }
        | none =>
            { level := .warning, message := "probe outcome unknown: daemon replied ok without results"
              round := none, counts := none }
      else { level := .error, message := reply.error.getD "probe failed", round := none, counts := none }
  | .error error =>
      { level := .error, message := "probe request failed: " ++ error, round := none, counts := none }

def completedProbeMessage (ok total : Nat) (roundApplied : Bool) (recommended : Option String) :
    MessageLevel × String :=
  let (level, suffix) : MessageLevel × String :=
    if !roundApplied then (.warning, "ranking unchanged (subscription or pool changed)")
    else if ok = 0 then (.warning, "no usable recommendation")
    else (.success, (recommended.map ("recommended " ++ ·)).getD "no usable recommendation")
  (level, "end-to-end probe done: " ++ toString ok ++ "/" ++ toString total ++ " ok; " ++ suffix)

/-! ### The order of the nodes -/

/-- `then_with(|| a.cmp(b))` after the score. -/
def scoreThenName (a b : String) (sa sb : NodeStats) : Ordering := (scoreCmp sb sa).then (compare a b)

/-- A missing latency is the longest. -/
def rttCmp : Option ℚ → Option ℚ → Ordering
  | some a, some b => totalCmp a b
  | some _, none => .lt
  | none, some _ => .gt
  | none, none => .eq

def answeredCmp (a b : String) (sa sb : Option NodeStats) (ra rb : ProbeRoundResult) : Ordering :=
  let stability : Ordering :=
    match sa, sb with
    | some sa, some sb => successCmp sb.successEma sa.successEma
    | some _, none => .lt
    | none, some _ => .gt
    | none, none => .eq
  stability.then ((rttCmp ra.rttMs rb.rttMs).then
    (match sa, sb with
    | some sa, some sb => scoreThenName a b sa sb
    | _, _ => compare a b))

def failedCmp (a b : String) (sa sb : Option NodeStats) : Ordering :=
  match sa, sb with
  | some sa, some sb => scoreThenName a b sa sb
  | some _, none => .lt
  | none, some _ => .gt
  | none, none => compare a b

/-- Without a round: the probed nodes by score, then the others by name. -/
def probedCmp (a b : String) (sa sb : Option NodeStats) : Ordering :=
  match sa.filter NodeStats.isProbed, sb.filter NodeStats.isProbed with
  | some sa, some sb => scoreThenName a b sa sb
  | some _, none => .lt
  | none, some _ => .gt
  | none, none => compare a b

def orderCmp (nodes : Option (BTreeMap NodeStats)) (probeRound : Option ProbeRound) (a b : String) : Ordering :=
  let sa := nodes.bind fun all => all[a]?
  let sb := nodes.bind fun all => all[b]?
  match probeRound.bind fun round => round.results[a]?, probeRound.bind fun round => round.results[b]? with
  | some ra, some rb =>
      match ra.ok, rb.ok with
      | true, false => .lt
      | false, true => .gt
      | true, true => answeredCmp a b sa sb ra rb
      | false, false => failedCmp a b sa sb
  | some _, none => .lt
  | none, some _ => .gt
  | none, none => probedCmp a b sa sb

/-- The pool, with the nodes that only the statistics name if the daemon does not tell its pool. -/
def orderedNames (snapshot : Option StatusSnapshot) (subs : List String) (probeRound : Option ProbeRound) :
    List String :=
  let names :=
    match snapshot with
    | some snapshot =>
        if snapshot.availableNodes.isEmpty then
          snapshot.nodes.keys.foldl (fun names node => if node ∈ names then names else names ++ [node]) subs
        else subs
    | none => subs
  sortBy (orderCmp (snapshot.map (·.nodes)) probeRound) names

end Dashboard

end Causeway

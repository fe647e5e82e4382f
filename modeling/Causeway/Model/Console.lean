import Causeway.Model.Dashboard
import Causeway.Model.Wire

/-!
# The loop of the dashboard

One turn polls the three request lanes, handles at most one key and issues the requests that are due. A request runs in the background: its reply is there at some later turn, or never.
-/

namespace Causeway

namespace Dashboard

/-- What the dashboard has done. No handler reads it. -/
inductive Deed where
  | asked (request : Nat) (cls : String)
  /-- The snapshot of a status reply is on display, under this class. -/
  | applied (request : Nat) (cls : String) (snapshot : StatusSnapshot)
  /-- No live data: the state file is on display. -/
  | offline
  | focused (cls : String)
  | submitted (request : Nat) (kind : MutationKind)
  | answered (request : Nat)
  /-- A subscription request ended, and its outcome is not known. -/
  | lost (request : Nat)
  | reconciled (message : String)

structure App where
  cfgClasses : List String
  listens : List String
  classSelections : List String
  classIdx : Nat
  inRange : classIdx < cfgClasses.length
  subs : List String
  configuredDefaultSubscription : Option String
  offlineSubscription : OfflineSubscription
  fallbackSubscriptions : List SubscriptionSummary
  fallbackProfiles : BTreeMap SubscriptionProfileConfig
  fallbackProfileNodes : BTreeMap (List String)
  subscriptionPicker : Option SubscriptionPicker
  subscriptionOutcomeUnknown : Option SubscriptionOutcomeUnknown
  lastProbeRound : Option ProbeRound
  connected : Bool
  snapshot : Option StatusSnapshot
  generationKnown : Bool
  /-- The nodes on display, narrowed by the filter. -/
  order : List String
  orderFull : List String
  selected : Nat
  statusFlight : Option InFlight
  eventsFlight : Option InFlight
  mutationFlight : Option InFlight
  epoch : UInt64
  lastEventsRefresh : Int
  filter : Option String
  filterEdit : Bool
  helpOpen : Bool
  quitArmed : Bool
  message : String
  messageLevel : MessageLevel
  events : List Event
  lastRefresh : Int
  /-- Requests issued so far. -/
  spawned : Nat
  /-- Newest first. -/
  deeds : List Deed

/-- Milliseconds. -/
def refreshEvery : Int := 2000

def filterMaxChars : Nat := 64

def maxSubscriptionUrlBytes : Nat := 8192

/-! ### Keys -/

inductive KeyCode where
  | char (c : Char)
  | esc | enter | backspace | tab | backTab | up | down | left | right
  | other
deriving DecidableEq

structure KeyEvent where
  code : KeyCode
  control : Bool
deriving DecidableEq

inductive KeyAction where
  | none | quit
deriving DecidableEq

/-! ### The outside of a turn -/

/-- What `try_recv` finds at a receiver. -/
inductive Arrival where
  | empty
  | received (result : ReplyResult)
  | closed

/-- What one turn meets: the replies that are there, the key, the files and the clock. -/
structure Turn where
  arrivals : Nat → Arrival
  key : Option KeyEvent
  /-- The state file, if there is one that loads. -/
  stateFile : Option StateFile
  profileNodeNames : SubscriptionProfileConfig → Option String → List String
  writeSubscriptionUrl : Path → String → Except String Unit
  toLowercase : String → String
  polledAt : Int
  pressedAt : Int
  refreshedAt : Int

namespace App

variable (app : App)

def busy : Bool := app.mutationFlight.isSome

def cls : String := app.cfgClasses.get ⟨app.classIdx, app.inRange⟩

def listen : String := (app.listens[app.classIdx]?).getD "-"

def authoritativeSubscriptionSnapshot : Option StatusSnapshot :=
  if app.connected then app.snapshot.filter authoritativeSubscriptionStatus else none

def authoritativeActiveSubscription : Option String :=
  app.authoritativeSubscriptionSnapshot.bind (·.activeSubscription)

def activeSubscription : Option String :=
  app.authoritativeActiveSubscription.or
    (if app.connected then app.offlineSubscription.confirmedName
    else (app.snapshot.bind (·.activeSubscription)).or app.offlineSubscription.confirmedName)

def subscriptionMutationAllowed : Bool :=
  app.authoritativeSubscriptionSnapshot.isSome &&
    app.snapshot.any (·.subscriptionTxnInProgress = some false) && app.subscriptionOutcomeUnknown.isNone

def setMessage (level : MessageLevel) (message : String) : App :=
  { app with message := message, messageLevel := level }

def subscriptionChoices : List SubscriptionSummary :=
  match app.authoritativeSubscriptionSnapshot with
  | some snapshot => snapshot.availableSubscriptions
  | none => app.fallbackSubscriptions

def note (deed : Deed) : App := { app with deeds := deed :: app.deeds }

end App

/-! ### Snapshots -/

def filtered (turn : Turn) (filter : Option String) (order : List String) : List String :=
  match (filter.filter (· ≠ "")).map turn.toLowercase with
  | none => order
  | some pattern => order.filter fun name => contains (turn.toLowercase name) pattern

def rebuildOrder (turn : Turn) (app : App) : App :=
  let selectedNode := app.order[app.selected]?
  let currentTag := app.snapshot.bind probeRoundTag
  let lastProbeRound := app.lastProbeRound.filter fun round => some round.tag = currentTag
  let orderFull := orderedNames app.snapshot app.subs lastProbeRound
  let order := filtered turn app.filter orderFull
  { app with
    lastProbeRound := lastProbeRound
    orderFull := orderFull
    order := order
    selected := (selectedNode.bind fun node => order.findIdx? (· = node)).getD
      (min app.selected (order.length - 1)) }

/-- Drops nothing of the order: the whole pool counts, not what the filter shows. -/
def recommendedNode (app : App) : Option String := do
  let node ← app.orderFull.head?
  let round ← app.lastProbeRound
  if (round.results[node]?).any (·.ok) then some node else none

/-- What a snapshot says of a request whose reply was lost; nothing if it proves neither outcome. -/
def reconciliation (pending : SubscriptionOutcomeUnknown) (snapshot : StatusSnapshot) : Option String := do
  if !authoritativeSubscriptionStatus snapshot then none
  else if snapshot.subscriptionTxnInProgress ≠ some false then none
  else
    let subscriptionGeneration ← snapshot.subscriptionGeneration
    let active ← snapshot.activeSubscription
    if active = pending.requested ∧ subscriptionGeneration = pending.subscriptionGenerationBeforeRequest + 1 then
      some ("previous subscription request reconciled: " ++ active ++ " is active (reply was lost)")
    else if active = pending.previous ∧ subscriptionGeneration = pending.subscriptionGenerationBeforeRequest then
      some ("previous subscription request reconciled: " ++ active ++ " remains active")
    else none

def reconcileSubscriptionOutcome (snapshot : StatusSnapshot) (app : App) : App :=
  match app.subscriptionOutcomeUnknown.bind fun pending => reconciliation pending snapshot with
  | none => app
  | some message =>
      ({ app with subscriptionOutcomeUnknown := none }.setMessage .warning message).note (.reconciled message)

def applyLiveSnapshot (snapshot : StatusSnapshot) (app : App) : App :=
  let app := if snapshot.availableNodes.isEmpty then app else { app with subs := snapshot.availableNodes }
  let app := reconcileSubscriptionOutcome snapshot app
  { app with snapshot := some snapshot, generationKnown := true, connected := true }

def classOverviewsFromState (app : App) (st : StateFile) : List ClassOverview :=
  app.cfgClasses.zipIdx.map fun (name, i) =>
    { name := name
      listen := (app.listens[i]?).getD "-"
      activeNode := (st.classes[name]?).bind (·.activeNode)
      generation := ((st.classes[name]?).map (·.generation)).getD 0
      selection := (app.classSelections[i]?).getD "" }

def configuredDefault (app : App) : OfflineSubscription :=
  match app.configuredDefaultSubscription with
  | some name => .configuredDefault name
  | none => .unavailable

/-- Last known good data while the daemon does not answer. -/
def refreshFromFile (turn : Turn) (app : App) : App :=
  match turn.stateFile with
  | some st =>
      let activeSubscription := st.activeSubscription.filter (app.fallbackProfiles.contains ·)
      let offlineSubscription :=
        match activeSubscription with
        | some name => .persisted name
        | none => configuredDefault app
      let fallbackProfileNodes :=
        match activeSubscription.bind fun name => (app.fallbackProfiles[name]?).map (name, ·) with
        | some (name, profile) =>
            app.fallbackProfileNodes.insert name (turn.profileNodeNames profile (st.subscriptionCacheSlots[name]?))
        | none => app.fallbackProfileNodes
      let availableNodes := (activeSubscription.bind fun name => fallbackProfileNodes[name]?).getD []
      let cs := st.classes[app.cls]?
      { app with
        offlineSubscription := offlineSubscription
        fallbackProfileNodes := fallbackProfileNodes
        subs := availableNodes
        generationKnown := cs.isSome
        snapshot := some {
          cls := app.cls
          activeNode := cs.bind (·.activeNode)
          socksPort := cs.bind (·.socksPort)
          httpPort := cs.bind (·.httpPort)
          generation := (cs.map (·.generation)).getD 0
          nodes := st.nodes
          traffic := ∅
          activeConns := 0
          activeSubscription := activeSubscription
          subscriptionGeneration := none
          subscriptionTxnInProgress := none
          availableSubscriptions := app.fallbackSubscriptions
          availableNodes := availableNodes
          classes := classOverviewsFromState app st } }
  | none =>
      { app with
        offlineSubscription := configuredDefault app
        subs := ((configuredDefault app).displayName.bind fun name => app.fallbackProfileNodes[name]?).getD []
        snapshot := none
        generationKnown := false
        lastProbeRound := none }

/-! ### Lanes -/

/-- A new request; its id is where the reply will arrive. -/
def spawnRequest (app : App) : Nat × App := (app.spawned, { app with spawned := app.spawned + 1 })

def takeCompleted (turn : Turn) : Option InFlight → Option (InFlight × ReplyResult)
  | none => none
  | some flight =>
      match turn.arrivals flight.rx with
      | .empty => none
      | .received result => some (flight, result)
      | .closed => some (flight, .error "background request task failed")

/-- A reply about another class or an older epoch is dropped. -/
def completeStatusReply (turn : Turn) (flight : InFlight) (result : ReplyResult) (app : App) : App :=
  if flight.cls ≠ app.cls ∨ flight.epoch ≠ app.epoch then app
  else
    match result.toOption.filter (·.ok) with
    | some reply =>
        match reply.status with
        | some snapshot =>
            rebuildOrder turn ((applyLiveSnapshot snapshot app).note (.applied flight.rx app.cls snapshot))
        | none => app
    | none => rebuildOrder turn ((refreshFromFile turn { app with connected := false }).note .offline)

def completeEventsReply (flight : InFlight) (result : ReplyResult) (app : App) : App :=
  if flight.epoch ≠ app.epoch then app
  else
    match (result.toOption.filter (·.ok)).bind (·.events) with
    | some events => { app with events := events }
    | none => app

/-- Did the reply change the subscription? -/
def applySubscriptionReplyResult (rx : Nat) (previous requested : String) (generationBefore : UInt64) (app : App) :
    SubscriptionReplyResult → Bool × App
  | .success outcome =>
      (true, { app with subscriptionOutcomeUnknown := none }.setMessage .success
        ("subscription " ++ outcome.previous ++ " → " ++ outcome.active ++ " — " ++ toString outcome.nodeCount ++
          " nodes"))
  | .failed message => (false, app.setMessage .error message)
  | .unknown message =>
      (false, ({ app with subscriptionOutcomeUnknown := some ⟨previous, requested, generationBefore⟩ }.setMessage
        .warning message).note (.lost rx))

/-- What the reply to a mutation changes on display. -/
def applyMutationReply (turn : Turn) (rx : Nat) (result : ReplyResult) (app : App) : MutationKind → App
  | .nodeSwitch node =>
      let (level, message) := classifySwitchReply node result
      app.setMessage level message
  | .probeAll requestedTag =>
      let outcome := classifyProbeReply requestedTag result
      let app := rebuildOrder turn ({ app with lastProbeRound := outcome.round }.setMessage outcome.level outcome.message)
      match outcome.counts with
      | some (ok, total) =>
          let (level, message) := completedProbeMessage ok total app.lastProbeRound.isSome (recommendedNode app)
          app.setMessage level message
      | none => app
  | .subscriptionSwitch previous requested generationBefore =>
      let (changed, app) :=
        applySubscriptionReplyResult rx previous requested generationBefore app (classifySubscriptionReply result)
      if changed then { app with selected := 0, filter := none, filterEdit := false } else app

def completeMutation (turn : Turn) (flight : InFlight) (result : ReplyResult) (app : App) : App :=
  if flight.cls ≠ app.cls then app
  else
    match flight.kind with
    | none => app
    | some kind =>
        let app := applyMutationReply turn flight.rx result (app.note (.answered flight.rx)) kind
        -- Status requests sent during the mutation may describe the world before it.
        { app with
          epoch := app.epoch + 1
          statusFlight := none
          quitArmed := false
          lastRefresh := turn.polledAt - refreshEvery }

def pollStatus (turn : Turn) (app : App) : App :=
  match takeCompleted turn app.statusFlight with
  | some (flight, result) => completeStatusReply turn flight result { app with statusFlight := none }
  | none => app

def pollEvents (turn : Turn) (app : App) : App :=
  match takeCompleted turn app.eventsFlight with
  | some (flight, result) => completeEventsReply flight result { app with eventsFlight := none }
  | none => app

def pollMutation (turn : Turn) (app : App) : App :=
  match takeCompleted turn app.mutationFlight with
  | some (flight, result) => completeMutation turn flight result { app with mutationFlight := none }
  | none => app

/-- Every completed reply is applied; the others keep waiting. -/
def pollFlights (turn : Turn) (app : App) : App := pollMutation turn (pollEvents turn (pollStatus turn app))

def shouldSpawnStatus (turn : Turn) (app : App) : Bool :=
  refreshEvery ≤ turn.refreshedAt - app.lastRefresh && app.statusFlight.isNone

def shouldSpawnEvents (turn : Turn) (app : App) : Bool :=
  app.connected && app.eventsFlight.isNone && refreshEvery ≤ turn.refreshedAt - app.lastEventsRefresh

def spawnStatus (turn : Turn) (app : App) : App :=
  let (rx, app) := spawnRequest app
  { app with
    lastRefresh := turn.refreshedAt
    statusFlight := some { kind := none, cls := app.cls, epoch := app.epoch, rx := rx } }.note (.asked rx app.cls)

def spawnEvents (turn : Turn) (app : App) : App :=
  let (rx, app) := spawnRequest app
  { app with
    lastEventsRefresh := turn.refreshedAt
    eventsFlight := some { kind := none, cls := app.cls, epoch := app.epoch, rx := rx } }

def maybeSpawnRefresh (turn : Turn) (app : App) : App :=
  let app := if shouldSpawnStatus turn app then spawnStatus turn app else app
  if shouldSpawnEvents turn app then spawnEvents turn app else app

/-- Status replies already on their way describe the world before the mutation. -/
def prepareMutation (kind : MutationKind) (rx : Nat) (app : App) : App :=
  { app with
    epoch := app.epoch + 1
    mutationFlight := some { kind := some kind, cls := app.cls, epoch := app.epoch + 1, rx := rx } }

/-- Mutations do not overlap. -/
def submitMutation (kind : MutationKind) (app : App) : App :=
  if app.mutationFlight.isSome then app.setMessage .warning "another change is already in progress"
  else
    let app := app.setMessage .info (kind.busyMessage app.cls)
    let (rx, app) := spawnRequest app
    (prepareMutation kind rx app).note (.submitted rx kind)

end Dashboard

end Causeway

import Causeway.Model.Console
import Causeway.Model.System

/-!
# The keys of the dashboard

A key belongs to the help overlay, the filter, the subscription picker with its URL editor, or the table, whichever is in front.
-/

namespace Causeway

namespace Dashboard

/-! ### The table -/

def selectUp (app : App) : App :=
  if app.order.isEmpty then app else { app with selected := app.selected - 1 }

def selectDown (app : App) : App :=
  if app.order.isEmpty then app else { app with selected := min (app.selected + 1) (app.order.length - 1) }

/-- Focus another class. Status replies already on their way are about the old one. -/
def changeClass (turn : Turn) (forward : Bool) (app : App) : App :=
  let n := app.cfgClasses.length
  let app := { app with
    classIdx := if forward then (app.classIdx + 1) % n else (app.classIdx + n - 1) % n
    inRange := by
      have hn : 0 < n := Nat.zero_lt_of_lt app.inRange
      split <;> exact Nat.mod_lt _ hn
    snapshot := none
    generationKnown := false
    lastProbeRound := none
    order := []
    orderFull := []
    selected := 0
    filter := none
    filterEdit := false }
  { app.setMessage .info ("class " ++ app.cls) with
    epoch := app.epoch + 1
    statusFlight := none
    lastRefresh := turn.pressedAt - refreshEvery }.note (.focused app.cls)

def proxyExportLine (listen : String) : String :=
  "export http_proxy=http://" ++ listen ++ " https_proxy=http://" ++ listen ++ " all_proxy=socks5h://" ++ listen

def openSubscriptionPicker (app : App) : App :=
  let entries := app.subscriptionChoices
  if entries.isEmpty then app.setMessage .warning "no subscription profiles available"
  else
    let selected := (app.activeSubscription.bind fun active => entries.findIdx? (·.name = active)).getD 0
    { app with subscriptionPicker := some { entries := entries, selected := selected, urlEdit := none } }

def quitKey (app : App) : KeyAction × App :=
  if app.busy && !app.quitArmed then
    (.none, { app with quitArmed := true }.setMessage .warning
      "change in flight — press q again to quit (the daemon finishes it either way)")
  else (.quit, app)

def dashboardKey (turn : Turn) (key : KeyCode) (app : App) : KeyAction × App :=
  match key with
  | .char 'q' | .esc => quitKey app
  | .char '?' => (.none, { app with helpOpen := true })
  | .char 'k' | .up => (.none, selectUp app)
  | .char 'j' | .down => (.none, selectDown app)
  | .char '/' => (.none, { app with filter := some (app.filter.getD ""), filterEdit := true })
  | .char 'c' => (.none, if app.busy then app else app.setMessage .info ("copy: " ++ proxyExportLine app.listen))
  | .char 's' => (.none, if app.busy then app else openSubscriptionPicker app)
  | .tab | .backTab | .left | .right =>
      (.none, if app.busy || app.cfgClasses.length < 2 then app
        else changeClass turn (key = .tab || key = .right) app)
  | .char 't' =>
      (.none, if app.busy then app else submitMutation (.probeAll (app.snapshot.bind probeRoundTag)) app)
  | .enter =>
      (.none, if app.busy then app
        else match app.order[app.selected]? with
          | some node => submitMutation (.nodeSwitch node) app
          | none => app)
  | _ => (.none, app)

/-! ### The filter -/

def filterEditKey (turn : Turn) (key : KeyCode) (app : App) : App :=
  match key with
  | .esc => rebuildOrder turn { app with filter := none, filterEdit := false }
  | .enter => rebuildOrder turn { app with filterEdit := false, filter := app.filter.filter (· ≠ "") }
  | .backspace =>
      rebuildOrder turn { app with filter := some (String.ofList (app.filter.getD "").toList.dropLast) }
  | .char c =>
      if isControl c then app
      else
        let pattern := app.filter.getD ""
        rebuildOrder turn { app with
          filter := some (if pattern.length < filterMaxChars then pattern.push c else pattern) }
  | _ => app

/-! ### The picker -/

def App.picker (picker : Option SubscriptionPicker) (app : App) : App := { app with subscriptionPicker := picker }

def urlScheme : String := "https://"

def validateSubscriptionUrl (url : String) : Except String Unit :=
  if !url.startsWith urlScheme then .error "must start with https://"
  else if url.utf8ByteSize ≤ urlScheme.utf8ByteSize then .error "nothing after https://"
  else if url.toList.any fun c => isWhitespace c || isControl c then
    .error "must not contain whitespace or control characters"
  else if maxSubscriptionUrlBytes < url.utf8ByteSize then .error "too long"
  else .ok ()

def invalidUrlMessage (reason : String) : String := "invalid subscription URL: " ++ reason

/-- Save the URL; that of the active profile is fetched again by a switch. -/
def saveUrlEdit (turn : Turn) (name buffer : String) (app : App) : PickerAction × App :=
  let url := trim buffer
  match validateSubscriptionUrl url with
  | .error reason => (.none, app.setMessage .warning (invalidUrlMessage reason))
  | .ok () =>
      match (app.fallbackProfiles[name]?).bind (·.urlFile) with
      | none =>
          (.none, app.setMessage .warning ("subscription " ++ name ++ " has no url_file; edit config.toml instead"))
      | some urlFile =>
          match turn.writeSubscriptionUrl urlFile url with
          | .error error =>
              (.none, app.setMessage .warning ("failed to save subscription URL for " ++ name ++ ": " ++ error))
          | .ok () =>
              if app.authoritativeActiveSubscription = some name && app.subscriptionMutationAllowed then
                (.switch name, (app.picker none).setMessage .info
                  ("subscription URL saved for " ++ name ++ "; refetching via the checked switch flow"))
              else
                (.none, app.setMessage .success
                  ("subscription URL saved for " ++ name ++ "; press Enter on it to switch"))

/-- The editor closes; then what was typed is saved. -/
def submitUrlEdit (turn : Turn) (picker : SubscriptionPicker) (app : App) : PickerAction × App :=
  match picker.urlEdit with
  | none => (.none, app)
  | some buffer =>
      let app := app.picker (some { picker with urlEdit := none })
      match picker.entries[picker.selected]? with
      | none => (.none, app)
      | some entry => saveUrlEdit turn entry.name buffer app

def urlEditKey (turn : Turn) (key : KeyCode) (picker : SubscriptionPicker) (buffer : String) (app : App) :
    PickerAction × App :=
  match key with
  | .esc =>
      (.none, (app.picker (some { picker with urlEdit := none })).setMessage .info "subscription URL edit cancelled")
  | .enter => submitUrlEdit turn picker app
  | .backspace =>
      (.none, app.picker (some { picker with urlEdit := some (String.ofList buffer.toList.dropLast) }))
  | .char c =>
      (.none, if isControl c || maxSubscriptionUrlBytes ≤ buffer.utf8ByteSize then app
        else app.picker (some { picker with urlEdit := some (buffer.push c) }))
  | _ => (.none, app)

def blockedMessage (app : App) : String :=
  if app.subscriptionOutcomeUnknown.isSome then
    "subscription change blocked: the previous request's outcome has not yet been reconciled by authoritative live status"
  else if app.authoritativeSubscriptionSnapshot.isSome then
    "subscription picker is view-only while another subscription change is in progress"
  else if app.connected then
    "subscription picker is view-only: the connected daemon does not provide authoritative subscription status"
  else "subscription picker is view-only while the daemon is unreachable"

def pickerEnter (picker : SubscriptionPicker) (app : App) : PickerAction × App :=
  let app := app.picker none
  match picker.entries[picker.selected]? with
  | none => (.none, app)
  | some entry =>
      if app.authoritativeActiveSubscription = some entry.name then
        (.close, app.setMessage .info ("subscription " ++ entry.name ++ " is already active"))
      else if app.subscriptionMutationAllowed then (.switch entry.name, app)
      else (.close, app.setMessage .warning (blockedMessage app))

def pickerEdit (picker : SubscriptionPicker) (app : App) : App :=
  match picker.entries[picker.selected]? with
  | none => app
  | some entry =>
      if ((app.fallbackProfiles[entry.name]?).bind (·.urlFile)).isSome then
        (app.picker (some { picker with urlEdit := some "" })).setMessage .info
          ("enter the new subscription URL for " ++ entry.name ++ " — input is hidden")
      else
        app.setMessage .warning
          ("subscription " ++ entry.name ++ " is a local file profile; edit config.toml instead")

def pickerKey (turn : Turn) (key : KeyCode) (picker : SubscriptionPicker) (app : App) : PickerAction × App :=
  match picker.urlEdit with
  | some buffer => urlEditKey turn key picker buffer app
  | none =>
      match key with
      | .esc | .char 'q' => (.close, app.picker none)
      | .char 'k' | .up => (.none, app.picker (some { picker with selected := picker.selected - 1 }))
      | .char 'j' | .down =>
          (.none, app.picker (some { picker with
            selected := min (picker.selected + 1) (picker.entries.length - 1) }))
      | .char 'e' => (.none, pickerEdit picker app)
      | .enter => pickerEnter picker app
      | _ => (.none, app)

/-- The switch that the picker asked for. Its generation is there whenever it is allowed. -/
def submitSubscription (name : String) (app : App) : App :=
  if !app.subscriptionMutationAllowed then
    app.setMessage .warning
      "subscription switch blocked until a compatible live daemon reports authoritative status"
  else
    let previous := app.authoritativeActiveSubscription.getD ""
    match app.authoritativeSubscriptionSnapshot.bind (·.subscriptionGeneration) with
    | some generationBefore => submitMutation (.subscriptionSwitch previous name generationBefore) app
    | none => app

/-! ### One turn -/

/-- What the loop does next: it leaves, starts over, or first issues the requests that are due. -/
inductive Next where
  | leave | again | refresh
deriving DecidableEq

def pressKey (turn : Turn) (key : KeyEvent) (app : App) : Next × App :=
  if key.code = .char 'c' && key.control then (.leave, app)
  else if app.helpOpen then (.again, { app with helpOpen := false })
  else if app.filterEdit then (.again, filterEditKey turn key.code app)
  else
    match app.subscriptionPicker with
    | some picker =>
        match pickerKey turn key.code picker app with
        | (.switch name, app) => (.again, submitSubscription name app)
        | (_, app) => (.again, app)
    | none =>
        match dashboardKey turn key.code app with
        | (.quit, app) => (.leave, app)
        | (.none, app) => (.refresh, app)

/-- One turn of `tui_loop`; nothing if it leaves. -/
def tuiTurn (turn : Turn) (app : App) : Option App :=
  let app := pollFlights turn app
  match turn.key with
  | none => some (maybeSpawnRefresh turn app)
  | some key =>
      match pressKey turn key app with
      | (.leave, _) => none
      | (.again, app) => some app
      | (.refresh, app) => some (maybeSpawnRefresh turn app)

/-- The dashboard after a turn of every list element. -/
def tuiLoop (turns : List Turn) (app : App) : Option App := turns.foldlM (fun app turn => tuiTurn turn app) app

/-! ### The start -/

def startOffline (cfg : Config) (persisted : Option StateFile) : OfflineSubscription :=
  match (persisted.bind (·.activeSubscription)).filter fun name => (cfg.subscriptions.profile name).isSome with
  | some name => .persisted name
  | none =>
      match defaultProfileName cfg.subscriptions with
      | some name => .configuredDefault name
      | none => .unavailable

/-- `App::new` on a checked configuration, which has a class. -/
def App.new (turn : Turn) (cfg : Config) (cls : String) (hclasses : 0 < cfg.classes.keys.length) : App :=
  let cfgClasses := cfg.classes.keys
  let offlineSubscription := startOffline cfg turn.stateFile
  let profiles := cfg.subscriptions.profileNames.filterMap fun name =>
    (cfg.subscriptions.profile name).map (name, ·)
  let fallbackProfileNodes : BTreeMap (List String) := .ofList (profiles.map fun (name, profile) =>
    (name, turn.profileNodeNames profile (turn.stateFile.bind fun st => st.subscriptionCacheSlots[name]?)))
  { cfgClasses := cfgClasses
    listens := cfgClasses.map fun c => ((cfg.classes[c]?).map (·.listen)).getD "-"
    classSelections := cfgClasses.map cfg.classSelectionSummary
    classIdx := (cfgClasses.findIdx? (· = cls)).getD 0
    inRange := by
      cases hfind : cfgClasses.findIdx? (· = cls) with
      | none => exact hclasses
      | some i => exact (List.findIdx?_eq_some_iff_getElem.mp hfind).1
    subs := (offlineSubscription.displayName.bind fun name => fallbackProfileNodes[name]?).getD []
    configuredDefaultSubscription := defaultProfileName cfg.subscriptions
    offlineSubscription := offlineSubscription
    fallbackSubscriptions := cfg.subscriptions.profileNames.map fun name =>
      { name := name, nodeCount := (fallbackProfileNodes[name]?).map (·.length) }
    fallbackProfiles := .ofList profiles
    fallbackProfileNodes := fallbackProfileNodes
    subscriptionPicker := none
    subscriptionOutcomeUnknown := none
    lastProbeRound := none
    connected := false
    snapshot := none
    generationKnown := false
    order := []
    orderFull := []
    selected := 0
    statusFlight := none
    eventsFlight := none
    mutationFlight := none
    epoch := 0
    lastEventsRefresh := turn.pressedAt
    filter := none
    filterEdit := false
    helpOpen := false
    quitArmed := false
    message := ""
    messageLevel := .info
    events := []
    lastRefresh := turn.pressedAt
    spawned := 0
    deeds := [] }

/-- The one status request before the loop, whose reply is waited for. -/
def refreshStatus (turn : Turn) (status : ReplyResult) (app : App) : App :=
  let (rx, app) := spawnRequest { app with lastRefresh := turn.refreshedAt }
  let app := app.note (.asked rx app.cls)
  match (status.toOption.filter (·.ok)).bind (·.status) with
  | some snapshot => (applyLiveSnapshot snapshot app).note (.applied rx app.cls snapshot)
  | none => (refreshFromFile turn { app with connected := false }).note .offline

def refreshEvents (events : ReplyResult) (app : App) : App :=
  let (_, app) := spawnRequest app
  match (events.toOption.filter (·.ok)).bind (·.events) with
  | some events => { app with events := events }
  | none => app

def refresh (turn : Turn) (status events : ReplyResult) (app : App) : App :=
  refreshEvents events (rebuildOrder turn (refreshStatus turn status app))

/-- What the dashboard shows first. -/
inductive Opened (cfg : Config) : App → Prop
  | intro (turn : Turn) (cls : String) (hclasses : 0 < cfg.classes.keys.length) (status events : ReplyResult) :
      Opened cfg (refresh turn status events (App.new turn cfg cls hclasses))

end Dashboard

end Causeway

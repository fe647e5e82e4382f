import Causeway.Concurrent.Discipline
import Causeway.Proof.History
import Causeway.Model.System

/-!
# Who may change what

The discipline of the supervisor. A class's runtime, route, entry in the state file and history belong to the holder of its lock; the published subscription changes only under the write gate, the transaction mutex and every class lock together; a thread's save in progress is its own. What holds between two critical sections is `Inv`: every class whose lock is free is in order.

Everything is stated of `Core`, the part of the world these rules are about, so a step that leaves the core alone needs no argument.
-/

namespace Causeway

open Concurrent History

/-- The state directory with the saves in progress. -/
structure Files where
  dir : StateDir
  saves : Nat → Option Save
  window : Nat → Option (String × Bool)
  passed : List StateFile

/-- The traffic counters, and what they should be counting. -/
structure Ledger where
  nodes : BTreeMap NodeTraffic
  selections : Nat
  carried : List Carried

structure Core where
  locks : LockName → Lock
  subscriptions : SubscriptionRuntime
  runtime : String → ClassRuntime
  route : String → ClassRoute
  state : StateFile
  selected : Option String
  ledger : Ledger
  jobs : List Job
  published : Nat
  routeEpoch : String → Nat
  reads : List (String × Nat)
  hist : String → History
  log : List Obs
  stamps : String → String → Option Stamp
  replaced : List Replacement
  files : Files

def World.core (w : World) : Core where
  locks := w.locks
  subscriptions := w.subscriptions
  runtime := w.runtime
  route := w.route
  state := w.state
  selected := w.traffic.subscription
  ledger := ⟨w.traffic.nodes, w.trail.selections, w.trail.carried⟩
  jobs := w.jobs
  published := w.trail.published
  routeEpoch := w.trail.routeEpoch
  reads := w.trail.reads
  hist := w.trail.hist
  log := w.trail.log
  stamps := w.trail.stamps
  replaced := w.trail.replaced
  files := ⟨w.stateDir, w.trail.saves, w.trail.window, w.trail.passed⟩

/-- What the holder of a class's lock owns. -/
structure Cell where
  runtime : ClassRuntime
  route : ClassRoute
  entry : Option ClassState
  routeEpoch : Nat
  hist : History

namespace Core

def hold (c : Core) (i : Nat) (name : LockName) : Hold := (c.locks name).hold i

def Free (c : Core) (name : LockName) : Prop := ∀ i, c.hold i name ≠ .write

def entry (c : Core) (cls : String) : Option ClassState := c.state.classes[cls]?

/-- The statistics and the traffic counters are those of the published profile. -/
structure Bound (c : Core) : Prop where
  state : c.state.activeSubscription = some c.subscriptions.active
  traffic : c.selected = some c.subscriptions.active

def cell (c : Core) (cls : String) : Cell :=
  ⟨c.runtime cls, c.route cls, c.entry cls, c.routeEpoch cls, c.hist cls⟩

/-- No save of thread `i` is in progress and no publication of it pending. -/
def Idle (c : Core) (i : Nat) : Prop := c.files.saves i = none ∧ c.files.window i = none

end Core

/-- Thread `i` holds something that keeps publications out. -/
def Pinned (env : Env) (i : Nat) (c : Core) : Prop :=
  c.hold i .reconfiguration ≠ .none ∨ c.hold i .subscriptionTxn = .write ∨
    ∃ cls ∈ env.classes, c.hold i (.cls cls) = .write

/-- Thread `i` holds every lock of a transaction. -/
structure Whole (env : Env) (i : Nat) (c : Core) : Prop where
  txn : c.hold i .subscriptionTxn = .write
  gate : c.hold i .reconfiguration = .write
  classes : ∀ cls ∈ env.classes, c.hold i (.cls cls) = .write

/-! ### What other threads do -/

/-- What thread `i` may see happen between two of its own steps. -/
structure Sees (env : Env) (i : Nat) (s t : Core) : Prop where
  hold : ∀ name, t.hold i name = s.hold i name
  cell : ∀ cls ∈ env.classes, s.hold i (.cls cls) = .write → t.cell cls = s.cell cls
  subs : Pinned env i s → t.subscriptions = s.subscriptions ∧ t.published = s.published
  published : s.published ≤ t.published
  era : t.published = s.published → t.subscriptions = s.subscriptions
  state : Whole env i s → t.state = s.state
  bound : s.hold i .state = .write → s.Bound → t.Bound
  hist : ∀ cls, s.hist cls <:+ t.hist cls
  save : t.files.saves i = s.files.saves i
  window : t.files.window i = s.files.window i
  counted : Pinned env i s → t.selected = s.selected
  selections : s.ledger.selections ≤ t.ledger.selections
  selected : t.ledger.selections = s.ledger.selections → t.selected = s.selected

theorem World.free {w : World} {name : LockName} (h : w.locks name = .free) : w.core.Free name := by
  have hlock : w.core.locks name = .free := h
  intro i
  simp [Core.hold, hlock]

theorem Sees.refl {env : Env} {i : Nat} {s : Core} : Sees env i s s where
  hold _ := rfl
  cell _ _ _ := rfl
  subs _ := ⟨rfl, rfl⟩
  published := le_rfl
  era _ := rfl
  state _ := rfl
  bound _ h := h
  hist _ := List.suffix_rfl
  save := rfl
  window := rfl
  counted _ := rfl
  selections := le_rfl
  selected _ := rfl

theorem Sees.pinned {env : Env} {i : Nat} {s t : Core} (h : Sees env i s t) (hs : Pinned env i s) :
    Pinned env i t := by
  unfold Pinned at hs ⊢
  simpa only [h.hold] using hs

theorem Sees.whole {env : Env} {i : Nat} {s t : Core} (h : Sees env i s t) (hs : Whole env i s) :
    Whole env i t :=
  ⟨(h.hold _).trans hs.txn, (h.hold _).trans hs.gate, fun cls hcls => (h.hold _).trans (hs.classes cls hcls)⟩

theorem Sees.trans {env : Env} {i : Nat} {s t u : Core} (h : Sees env i s t) (g : Sees env i t u) :
    Sees env i s u where
  hold name := (g.hold name).trans (h.hold name)
  cell cls hcls hw := (g.cell cls hcls (by rw [h.hold]; exact hw)).trans (h.cell cls hcls hw)
  subs hs :=
    ⟨(g.subs (h.pinned hs)).1.trans (h.subs hs).1, (g.subs (h.pinned hs)).2.trans (h.subs hs).2⟩
  published := h.published.trans g.published
  era heq := by
    have hmid : t.published = s.published := le_antisymm (heq ▸ g.published) h.published
    exact (g.era (heq.trans hmid.symm)).trans (h.era hmid)
  state hs := (g.state (h.whole hs)).trans (h.state hs)
  bound hs hb := g.bound ((h.hold _).trans hs) (h.bound hs hb)
  hist cls := (h.hist cls).trans (g.hist cls)
  save := g.save.trans h.save
  window := g.window.trans h.window
  counted hs := (g.counted (h.pinned hs)).trans (h.counted hs)
  selections := h.selections.trans g.selections
  selected heq := by
    have hmid : t.ledger.selections = s.ledger.selections := le_antisymm (heq ▸ g.selections) h.selections
    exact (g.selected (heq.trans hmid.symm)).trans (h.selected hmid)

/-! ### Saves -/

/-- What the thread that saves must hold. -/
def SaveKind.Guarded (hold : LockName → Hold) (st : StateFile) : SaveKind → Prop
  | .shared => hold .state = .write
  | .cloned target _ => hold .reconfiguration = .write ∧ st.activeSubscription = some target

/-- The pending publication after a save of this kind has begun or returned. -/
def SaveKind.window (kind : SaveKind) (i : Nat) (pending : String → Option (String × Bool))
    (window : Nat → Option (String × Bool)) : Nat → Option (String × Bool) :=
  match kind with
  | .shared => window
  | .cloned target _ => Function.update window i (pending target)

/-- One step of thread `i` on the state directory. -/
inductive FileStep (env : Env) (i : Nat) (hold : LockName → Hold) (f : Files) : Files → Prop
  | begin {kind : SaveKind} {st : StateFile} {content : Bytes} (idle : f.saves i = none)
      (settled : f.window i = none) (serialized : env.serialize st = some content) (guarded : kind.Guarded hold st) :
      FileStep env i hold f { f with
        saves := Function.update f.saves i (some ⟨kind, content, none, 0, false⟩)
        window := kind.window i (fun target => some (target, false)) f.window
        passed := st :: f.passed }
  | openTmp {save : Save} (saving : f.saves i = some save) (fresh : save.inode = none)
      (unnamed : save.renamed = false) :
      FileStep env i hold f { f with
        dir := f.dir.openTmp.2
        saves := Function.update f.saves i
          (some { save with inode := some f.dir.openTmp.1, written := 0 }) }
  | write {save : Save} {inode : Nat} {bytes : Bytes} (saving : f.saves i = some save)
      (opened : save.inode = some inode) (unnamed : save.renamed = false)
      (next : bytes <+: save.content.drop save.written) :
      FileStep env i hold f { f with
        dir := f.dir.write inode save.written bytes
        saves := Function.update f.saves i (some { save with written := save.written + bytes.length }) }
  | rename {save : Save} {dir : StateDir} (saving : f.saves i = some save) (opened : save.inode ≠ none)
      (done : save.written = save.content.length) (unnamed : save.renamed = false)
      (renamed : f.dir.renameTmp = some dir) :
      FileStep env i hold f { f with
        dir := dir
        saves := Function.update f.saves i (some { save with renamed := true }) }
  | finish {save : Save} {ok : Bool} (saving : f.saves i = some save)
      (success : ok = true → save.renamed = true) :
      FileStep env i hold f { f with
        saves := Function.update f.saves i none
        window := save.kind.window i (fun target => if ok then some (target, true) else none) f.window }
  | publish (idle : f.saves i = none) :
      FileStep env i hold f { f with window := Function.update f.window i none }

/-- A step leaves the files alone and keeps the locks its saves rest on, or is a step of its own save. -/
inductive FileGuard (env : Env) (i : Nat) (s t : Core) : Prop
  | still (files : t.files = s.files)
      (gate : t.hold i .reconfiguration = s.hold i .reconfiguration ∨ s.Idle i)
      (mutex : t.hold i .state = s.hold i .state ∨ s.files.saves i = none)
  | step (locks : t.locks = s.locks) (step : FileStep env i (s.hold i) s.files t.files)

/-- A step touches a class's route only to install one path in it. -/
def Routed (s t : Core) : Prop :=
  ∀ cls, (t.route cls = s.route cls ∧ installs (t.hist cls) = installs (s.hist cls)) ∨
    installs (t.hist cls) = installs (s.hist cls) + 1

/-- The state is replaced only by a thread with every lock of a transaction, from the state that is there. -/
def Replaces (env : Env) (i : Nat) (s t : Core) : Prop :=
  t.replaced = s.replaced ∨
    Whole env i s ∧ ∃ r, t.replaced = r :: s.replaced ∧ r.present = s.state ∧ r.next = t.state

/-- The traffic counters are switched only to the published profile. -/
def Selects (s t : Core) : Prop := t.selected = s.selected ∨ t.selected = some t.subscriptions.active

/-- One step on the traffic counters: none, a change of the selected profile, or the end of a connection. -/
inductive Books (selected : Option String) (ledger : Ledger) : Option String → Ledger → Prop
  | still : Books selected ledger selected ledger
  | select {target : String} (changed : selected ≠ some target) :
      Books selected ledger (some target) { ledger with nodes := ∅, selections := ledger.selections + 1 }
  | carry (entry : Carried) (earlier : entry.capturedAt ≤ ledger.selections)
      (current : entry.capturedAt = ledger.selections → selected = some entry.profile) :
      Books selected ledger selected { ledger with
        nodes :=
          if entry.node ≠ "" then ((⟨selected, ledger.nodes⟩ : TrafficState).add entry.profile entry.node entry.up entry.down).nodes
          else ledger.nodes
        carried := entry :: ledger.carried }

/-- What a step of thread `i` keeps. -/
structure Guar (env : Env) (i : Nat) (s t : Core) : Prop where
  others : ∀ j, j ≠ i → Sees env j s t
  files : FileGuard env i s t
  routes : Routed s t
  replaces : Replaces env i s t
  selects : Selects s t
  books : Books s.selected s.ledger t.selected t.ledger

theorem Guar.refl {env : Env} {i : Nat} {s : Core} : Guar env i s s :=
  ⟨fun _ _ => .refl, .still rfl (.inl rfl) (.inl rfl), fun _ => .inl ⟨rfl, rfl⟩, .inl rfl, .inl rfl, .still⟩

/-- What there is to see of a step, whoever looks. -/
theorem Guar.sees {env : Env} {i : Nat} {s t : Core} (h : Guar env i s t) : Sees env (i + 1) s t :=
  h.others _ (Nat.succ_ne_self i)

/-! ### The invariant -/

/-- The route, the state file and the pool agree with the active path. -/
structure Shown (cls : String) (active : ActiveNode) (c : Core) : Prop where
  nodeName : (c.route cls).nodeName = active.node.name
  socks : (c.route cls).socksUpstream = some active.handle.socksAddr
  http : (c.route cls).httpUpstream = some active.handle.httpAddr
  connections : (c.route cls).pathConnections = some active.pathConnections
  subscription : (c.route cls).trafficSubscription = c.subscriptions.active
  entry : ∃ cs, c.entry cls = some cs ∧ cs.activeNode = some active.node.name ∧
    cs.generation = (c.route cls).generation
  member : active.node ∈ c.subscriptions.nodes

/-- A class whose lock is free is in order. -/
structure ClassOk (cls : String) (c : Core) : Prop where
  shown : ∀ active, (c.runtime cls).active = some active → Shown cls active c
  last : (c.runtime cls).active = lastActive (c.hist cls)
  streak : (c.runtime cls).healthFailures ≤ streak (c.hist cls)

/-- A verdict was recorded under the gate it was measured under, by now. -/
structure Stamp.Fact (stamp : Stamp) (now : Nat) : Prop where
  taken : stamp.takenAt ≤ stamp.gateAt
  gate : stamp.gateAt = stamp.recordedAt
  recorded : stamp.recordedAt ≤ now

theorem Stamp.Fact.later {stamp : Stamp} {now later : Nat} (h : stamp.Fact now) (hle : now ≤ later) :
    stamp.Fact later :=
  ⟨h.taken, h.gate, h.recorded.trans hle⟩

/-- What a remembered observation says is so. -/
def Obs.Fact : Obs → Prop
  | .installed _ _ _ chosenAt installedAt => chosenAt = installedAt
  | .siteRecorded _ _ stamp => stamp.Fact stamp.recordedAt
  | .siteVerdict _ _ _ _ stamp now | .siteSwitch _ _ _ stamp now => ∀ st, stamp = some st → st.Fact now
  | .probeRecorded _ readAt stamp =>
      stamp.takenAt ≤ readAt ∧ readAt ≤ stamp.recordedAt ∧
        UInt64.ofNat readAt = UInt64.ofNat stamp.recordedAt
  | _ => True

/-- A spawned probe carries the era it was spawned in. -/
def Job.Fact (published : Nat) : Job → Prop
  | .probe _ _ _ era _ takenAt readAt =>
      takenAt ≤ readAt ∧ readAt ≤ published ∧ era = UInt64.ofNat readAt
  | .site _ _ _ _ takenAt => takenAt ≤ published
  | .drain _ => True

theorem Job.Fact.later {job : Job} {published later : Nat} (h : job.Fact published)
    (hle : published ≤ later) : job.Fact later := by
  cases job with
  | probe request index node era cls takenAt readAt => exact ⟨h.1, h.2.1.trans hle, h.2.2⟩
  | site request node site url takenAt => exact Nat.le_trans h hle
  | drain active => trivial

/-- The region allowlist of the class lets the node through. -/
def Eligible (env : Env) (cls : String) (node : Node) : Prop :=
  (env.cfg.classRegions cls).isEmpty ∨ inRegions (env.cfg.classRegions cls) node

/-- The names of the other nodes, ranked by the scores the switch goes by. -/
def SwitchField.ranking (env : Env) (cls : String) (field : SwitchField) : List String :=
  ((rankedCandidates field.nodes field.st (env.cfg.classRegions cls)).filter fun node =>
    some node.name ≠ field.active).map (·.name)

/-- Which node may be installed on a class after which path. -/
def Chosen (env : Env) (cls : String) (new : Node) (old : Option ActiveNode) : Cause → Prop
  | .initial => Eligible env cls new
  | .manual => True
  | .healthFailures _ => Eligible env cls new ∧ (old.isSome → env.cfg.classAutoSwitch cls)
  | .challengerWins challenge field failed =>
      Eligible env cls new ∧ env.cfg.classAutoSwitch cls ∧ challenge.won env.cfg.selection.hysteresis ∧
        old.map (·.node.name) = field.active ∧ failed ++ [new.name] <+: field.ranking env cls
  | .egressChange => old.map (·.node) = some new
  | .subscriptionChange refreshed => refreshed → Eligible env cls new
  | .site _ activeAtLock => old.map (·.node.name) = activeAtLock
  | .pathRecovery _ => old.map (·.node.name) = some new.name

def Env.law (env : Env) (cls : String) : Law := ⟨env.cfg.health.failThreshold, Chosen env cls⟩

/-- The next state was made from the one it replaced. -/
structure Replacement.Fact (env : Env) (r : Replacement) : Prop where
  kept : r.present = r.cloned
  next : ∃ request fresh committedSlot planned now,
    nextState env request fresh committedSlot planned now r.cloned = some r.next

/-- The route belongs to the publication, and connections that capture it count for the selected profile. -/
structure UpToDate (cls : String) (c : Core) : Prop where
  epoch : c.routeEpoch cls = c.published
  selected : c.selected = some c.subscriptions.active
  tag : c.route cls = emptyRoute ∨ (c.route cls).trafficSubscription = c.subscriptions.active

theorem UpToDate.congr {cls : String} {s t : Core} (h : UpToDate cls s) (hcell : t.cell cls = s.cell cls)
    (hsubs : t.subscriptions = s.subscriptions) (hpublished : t.published = s.published) (hselected : t.selected = s.selected) :
    UpToDate cls t where
  epoch := (congrArg Cell.routeEpoch hcell).trans (h.epoch.trans hpublished.symm)
  selected := by rw [hselected, hsubs, h.selected]
  tag := by
    have hroute : t.route cls = s.route cls := congrArg Cell.route hcell
    rw [hroute, hsubs]
    exact h.tag

theorem Books.selections {selected selected' : Option String} {s t : Ledger} (h : Books selected s selected' t) :
    s.selections ≤ t.selections ∧ (t.selections = s.selections → selected' = selected) := by
  cases h with
  | still => exact ⟨le_rfl, fun _ => rfl⟩
  | select changed => exact ⟨Nat.le_succ _, fun heq => absurd heq (Nat.succ_ne_self _)⟩
  | carry entry earlier current => exact ⟨le_rfl, fun _ => rfl⟩

structure Inv (env : Env) (c : Core) : Prop where
  settled : ∀ cls ∈ env.classes, c.Free (.cls cls) → ClassOk cls c
  route : ∀ cls ∈ env.classes, (c.route cls).pathConnections = lastInstalled (c.hist cls)
  count : ∀ cls ∈ env.classes, (c.route cls).generation = UInt64.ofNat (installs (c.hist cls))
  history : ∀ cls ∈ env.classes, History.Fact (env.law cls) (c.hist cls)
  era : c.subscriptions.generation = UInt64.ofNat c.published
  epochs : ∀ cls ∈ env.classes, c.Free (.route cls) → UpToDate cls c
  reads : c.reads.Pairwise (fun later earlier => earlier.2 ≤ later.2) ∧ ∀ r ∈ c.reads, r.2 ≤ c.published
  log : ∀ obs ∈ c.log, obs.Fact
  stamps : ∀ site node stamp, c.stamps site node = some stamp → stamp.Fact c.published
  jobs : ∀ job ∈ c.jobs, job.Fact c.published
  bound : c.Free .state → c.Bound
  replaced : ∀ r ∈ c.replaced, r.Fact env

def discipline (env : Env) : Discipline World where
  inv w := Inv env w.core
  guar i w u := Guar env i w.core u.core
  rely i w u := Sees env i w.core u.core
  refl _ _ := .refl
  trans h g := h.trans g
  compat hij _ _ h := h.others _ (Ne.symm hij)

/-- A thread runs a program safely from a world. -/
def SafeFrom (env : Env) (i : Nat) {α : Type} (post : α → Core → Prop) (p : Sup α) (w : World) : Prop :=
  (discipline env).Safe i (fun value u => post value u.core) p w

namespace SafeFrom

variable {env : Env} {i : Nat} {α β : Type} {w : World}

theorem mono {post : α → Core → Prop} {p : Sup α} {t : World} (h : SafeFrom env i post p w)
    (hwt : Sees env i w.core t.core) : SafeFrom env i post p t :=
  Discipline.Safe.mono h hwt

theorem weaken {post other : α → Core → Prop} {p : Sup α} (h : SafeFrom env i post p w)
    (himp : ∀ a c, post a c → other a c) : SafeFrom env i other p w :=
  Discipline.Safe.weaken h fun a t _ => himp a t.core

theorem bind {mid : α → Core → Prop} {post : β → Core → Prop} {p : Sup α} {k : α → Sup β}
    (hp : SafeFrom env i mid p w) (hw : Inv env w.core)
    (hk : ∀ a (u : World), Inv env u.core → mid a u.core → SafeFrom env i post (k a) u) :
    SafeFrom env i post (p >>= k) w :=
  Discipline.Safe.bind hp hw fun a u hu ha => hk a u hu ha

end SafeFrom

end Causeway

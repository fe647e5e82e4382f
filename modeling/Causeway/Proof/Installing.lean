import Causeway.Proof.Saving

/-!
# Installs keep the discipline

An attempt to activate a candidate changes nothing a thread relies on. An install changes the holder's own class in four steps, after which the class is in order again.
-/

namespace Causeway

open Concurrent History

/-! ### Quiet programs -/

/-- A program whose every step keeps the anchor. -/
def QuietTo (env : Env) (i : Nat) {α : Type} (result : α → Prop) (p : Sup α) : Prop :=
  ∀ w : World, Inv env w.core → SafeFrom env i (fun a v => Sees env i w.core v ∧ result a) p w

section

variable {env : Env} {i : Nat} {α β : Type} {post : β → Core → Prop} {w : World} {result : α → Prop}

theorem safe_quiet {p : Sup α} {k : α → Sup β} (hp : QuietTo env i result p) (hw : Inv env w.core)
    (hk : ∀ a, result a → SafeFrom env i post (k a) w) : SafeFrom env i post (p >>= k) w :=
  (hp w hw).bind hw fun a _ _ ha => (hk a ha.2).mono ha.1

theorem quiet_pure {value : α} (h : result value) : QuietTo env i result (pure value) :=
  fun _ _ => safe_pure fun _ hst => ⟨hst, h⟩

theorem quiet_ask {f : Outside → β} {k : β → Sup α} (hk : ∀ b, QuietTo env i result (k b)) :
    QuietTo env i result (Sup.ask f >>= k) :=
  fun w hw => safe_ask fun b => hk b w hw

theorem quiet_look {f : World → β} {k : β → Sup α} (hk : ∀ b, QuietTo env i result (k b)) :
    QuietTo env i result (Sup.look f >>= k) :=
  fun w hw => safe_look fun t _ _ => hk (f t) w hw

theorem quiet_readState {f : StateFile → β} {k : β → Sup α} (hk : ∀ b, QuietTo env i result (k b)) :
    QuietTo env i result (Sup.readState f >>= k) :=
  fun w hw => safe_readState fun st => hk (f st) w hw

theorem quiet_pushEvent {f : Outside → Event} {k : Unit → Sup α} (hk : QuietTo env i result (k ())) :
    QuietTo env i result (Sup.pushEvent f >>= k) :=
  fun w hw => safe_pushEvent (hk w hw)

theorem quiet_stopPlane {id : Nat} {k : Unit → Sup α} (hk : QuietTo env i result (k ())) :
    QuietTo env i result (Sup.stopPlane id >>= k) :=
  fun w hw => safe_stopPlane (hk w hw)

theorem quiet_act {f : Outside → World → β × World} {k : β → Sup α} (hf : ∀ o t, (f o t).2.core = t.core)
    (hk : ∀ b, QuietTo env i result (k b)) : QuietTo env i result (Sup.act f >>= k) :=
  fun w hw => safe_act_same hf fun _ _ _ _ => hk _ w hw

theorem quiet_observe {obs : Obs} {k : Unit → Sup α} (hobs : obs.Fact)
    (hk : QuietTo env i result (k ())) : QuietTo env i result ((Sup.observe fun _ => ((), obs)) >>= k) :=
  fun w hw => safe_observe (fun _ _ _ => hobs) fun _ _ _ => hk w hw

theorem QuietTo.weaken {other : α → Prop} {p : Sup α} (h : QuietTo env i result p)
    (himp : ∀ a, result a → other a) : QuietTo env i other p :=
  fun w hw => (h w hw).weaken fun a _ ha => ⟨ha.1, himp a ha.2⟩

theorem QuietTo.bind {mid : β → Prop} {p : Sup β} {k : β → Sup α} (hp : QuietTo env i mid p)
    (hk : ∀ b, mid b → QuietTo env i result (k b)) : QuietTo env i result (p >>= k) :=
  fun w hw => safe_quiet hp hw fun b hb => hk b hb w hw

end

/-! ### Attempts -/

section

variable {env : Env} {i : Nat}

theorem quiet_fuse (fused : Bool) : QuietTo env i (fun _ => True) (Sup.fuse fused) := by
  cases fused with
  | false => exact quiet_pure trivial
  | true => exact quiet_ask (k := pure) fun _ => quiet_pure trivial

theorem quiet_startPlane {spec : Sup.StartSpec} : QuietTo env i (fun _ => True) (Sup.startPlane i spec) := by
  rw [Sup.startPlane]
  refine quiet_act ?_ fun spawned => ?_
  · intro o t
    split <;> rfl
  · cases spawned with
    | error error => exact quiet_pure trivial
    | ok handle =>
        refine quiet_ask fun failure => ?_
        cases failure with
        | none => exact quiet_pure trivial
        | some error => exact quiet_stopPlane (quiet_pure trivial)

theorem quiet_startFused {spec : Sup.StartSpec} {fused : Bool} :
    QuietTo env i (fun _ => True) (Sup.startFused i spec fused) := by
  rw [Sup.startFused]
  refine quiet_act ?_ fun spawned => ?_
  · intro o t
    split <;> rfl
  · cases spawned with
    | error error => exact quiet_pure trivial
    | ok handle =>
        refine (quiet_fuse fused).bind fun elapsed _ => ?_
        cases elapsed with
        | true => exact quiet_stopPlane (quiet_pure trivial)
        | false =>
            refine quiet_ask fun failure => ?_
            cases failure with
            | none => exact quiet_pure trivial
            | some error => exact quiet_stopPlane (quiet_pure trivial)

theorem quiet_tryActivate {cls : String} {node : Node} {fused : Bool} :
    QuietTo env i (fun attempt => ∀ active, attempt = .activated active → active.node = node)
      (Sup.tryActivate env i cls node fused) := by
  rw [Sup.tryActivate]
  refine quiet_ask fun reserved => ?_
  cases reserved with
  | error error => exact quiet_pure (fun _ h => nomatch h)
  | ok spec =>
      refine quiet_startFused.bind fun started _ => ?_
      rcases started with _ | _ | handle
      · exact quiet_pure (fun _ h => nomatch h)
      · exact quiet_pure (fun _ h => nomatch h)
      · refine quiet_ask fun checked => ?_
        refine (quiet_fuse fused).bind fun elapsed _ => ?_
        cases elapsed with
        | true => exact quiet_stopPlane (quiet_pure (fun _ h => nomatch h))
        | false =>
            rcases checked with error | ⟨code, rtt⟩
            · refine quiet_observe ?_ (quiet_stopPlane (quiet_pure (fun _ h => nomatch h)))
              trivial
            · simp only [Bool.false_eq_true, if_false]
              split
              · refine quiet_observe ?_ (quiet_pure ?_)
                · trivial
                · rintro active ⟨⟩
                  rfl
              · refine quiet_observe ?_ (quiet_stopPlane (quiet_pure (fun _ h => nomatch h)))
                trivial

end

/-! ### Steps on the holder's own class -/

/-- The parts of the invariant about one class that hold also while it is being changed. -/
structure CellOk (law : Law) (cell : Cell) : Prop where
  route : cell.route.pathConnections = lastInstalled cell.hist
  count : cell.route.generation = UInt64.ofNat (installs cell.hist)
  history : History.Fact law cell.hist

/-- Only the cell of one class, what the state says of nodes, and the log differ. -/
structure OwnStep (cls : String) (s t : Core) : Prop where
  same : t = { s with
    runtime := t.runtime, route := t.route, state := t.state, routeEpoch := t.routeEpoch, hist := t.hist,
    log := t.log }
  active : t.state.activeSubscription = s.state.activeSubscription
  others : ∀ other, other ≠ cls → t.cell other = s.cell other
  hist : s.hist cls <:+ t.hist cls

section

variable {env : Env} {i : Nat} {cls : String} {s t u : Core}

theorem OwnStep.later (h : OwnStep cls s t) : Later s t := by
  refine ⟨by rw [h.same], fun other => ?_⟩
  by_cases hother : other = cls
  · exact hother ▸ h.hist
  · rw [Core.cell_hist (h.others other hother)]

theorem OwnStep.hold (h : OwnStep cls s t) (j : Nat) (name : LockName) : t.hold j name = s.hold j name := by
  rw [h.same]
  rfl

theorem OwnStep.subscriptions (h : OwnStep cls s t) : t.subscriptions = s.subscriptions := by
  rw [h.same]

theorem OwnStep.published (h : OwnStep cls s t) : t.published = s.published := by
  rw [h.same]

theorem OwnStep.fileParts (h : OwnStep cls s t) : t.files = s.files := by
  rw [h.same]

theorem OwnStep.bound (h : OwnStep cls s t) (hs : s.Bound) : t.Bound := by
  refine ⟨?_, ?_⟩
  · rw [h.active, h.subscriptions]
    exact hs.state
  · rw [h.same]
    exact hs.traffic

theorem OwnStep.files (h : OwnStep cls s t) : FileGuard env i s t :=
  .still h.fileParts (.inl (h.hold _ _)) (.inl (h.hold _ _))

theorem OwnStep.replaces (h : OwnStep cls s t) : Replaces env i s t := .inl (by rw [h.same])

theorem OwnStep.selected (h : OwnStep cls s t) : t.selected = s.selected := by
  rw [h.same]

theorem OwnStep.selects (h : OwnStep cls s t) : Selects s t := .inl h.selected

theorem OwnStep.books (h : OwnStep cls s t) : Books s.selected s.ledger t.selected t.ledger := by
  rw [h.same]
  exact .still

/-- No other thread holds the class, so none sees the step. -/
theorem OwnStep.sees (h : OwnStep cls s t) (hcls : cls ∈ env.classes) (hhold : s.hold i (.cls cls) = .write)
    {j : Nat} (hj : j ≠ i) : Sees env j s t where
  hold := h.hold j
  cell other _ hother := by
    refine h.others other ?_
    rintro rfl
    exact hj (Lock.write_unique hother hhold)
  subs _ := ⟨h.subscriptions, h.published⟩
  published := h.later.published
  era _ := h.subscriptions
  state hwhole := absurd (.inr (.inr ⟨cls, hcls, hhold⟩)) (hwhole.not_pinned (Ne.symm hj))
  bound _ := h.bound
  hist := h.later.hist
  save := by rw [h.fileParts]
  window := by rw [h.fileParts]
  counted _ := h.selected
  selections := h.books.selections.1
  selected _ := h.selected

/-- Such a step is right if the class's own part of the invariant is. -/
structure OwnOk (env : Env) (cls : String) (s t : Core) : Prop extends OwnStep cls s t where
  cellOk : CellOk (env.law cls) (t.cell cls)
  epoch : (t.routeEpoch cls = s.routeEpoch cls ∧ t.route cls = s.route cls) ∨
    t.routeEpoch cls = s.published ∧ (t.route cls).trafficSubscription = s.subscriptions.active
  log : ∀ obs ∈ t.log, obs.Fact
  routed : (t.route cls = s.route cls ∧ installs (t.hist cls) = installs (s.hist cls)) ∨
    installs (t.hist cls) = installs (s.hist cls) + 1

theorem OwnOk.routes (h : OwnOk env cls s t) : Routed s t := by
  intro other
  by_cases hother : other = cls
  · exact hother ▸ h.routed
  · have hcell := h.others other hother
    exact .inl ⟨Core.cell_route hcell, by rw [Core.cell_hist hcell]⟩

theorem OwnOk.inv (h : OwnOk env cls s t) (hs : Inv env s) (hcls : cls ∈ env.classes)
    (hhold : s.hold i (.cls cls) = .write) : Inv env t := by
  have hfree : ∀ name, t.Free name → s.Free name := fun name hn j => by
    rw [← h.hold j]
    exact hn j
  refine ⟨?_, ?_, ?_, ?_, ?_, ?_, ?_, h.log, ?_, ?_, fun hn => h.bound (hs.bound (hfree _ hn)), ?_⟩
  · intro other hmem hother
    have hne : other ≠ cls := by
      rintro rfl
      exact hfree _ hother i hhold
    exact (hs.settled other hmem (hfree _ hother)).congr (h.others other hne) h.subscriptions
  · intro other hmem
    by_cases hne : other = cls
    · exact hne ▸ h.cellOk.route
    · rw [Core.cell_route (h.others other hne), Core.cell_hist (h.others other hne)]
      exact hs.route other hmem
  · intro other hmem
    by_cases hne : other = cls
    · exact hne ▸ h.cellOk.count
    · rw [Core.cell_route (h.others other hne), Core.cell_hist (h.others other hne)]
      exact hs.count other hmem
  · intro other hmem
    by_cases hne : other = cls
    · exact hne ▸ h.cellOk.history
    · rw [Core.cell_hist (h.others other hne)]
      exact hs.history other hmem
  · rw [h.subscriptions, h.published]
    exact hs.era
  · intro other hmem hother
    have hcurrent := hs.epochs other hmem (hfree _ hother)
    by_cases hne : other = cls
    · subst hne
      have hselected : t.selected = some t.subscriptions.active := by
        rw [h.selected, h.subscriptions, hcurrent.selected]
      rcases h.epoch with ⟨hepoch, hroute⟩ | ⟨hepoch, htag⟩
      · exact ⟨by rw [hepoch, h.published, hcurrent.epoch], hselected, by rw [hroute, h.subscriptions]; exact hcurrent.tag⟩
      · exact ⟨by rw [hepoch, h.published], hselected, .inr (by rw [htag, h.subscriptions])⟩
    · exact hcurrent.congr (h.others other hne) h.subscriptions h.published h.selected
  · rw [h.same]
    exact hs.reads
  · rw [h.same]
    exact hs.stamps
  · rw [h.same]
    exact hs.jobs
  · rw [h.same]
    exact hs.replaced

end

/-- What a thread knows of the class it is changing: its cell, and that all else it knew stays. -/
structure Owning (env : Env) (i : Nat) (cls : String) (base : Core) (cell : Cell) (c : Core) : Prop
    extends Later base c where
  mem : cls ∈ env.classes
  hold : c.hold i (.cls cls) = .write
  holds : ∀ name, name ≠ .state → c.hold i name = base.hold i name
  cell : c.cell cls = cell
  subs : c.subscriptions = base.subscriptions
  era : c.published = base.published
  idle : c.Idle i

section

variable {env : Env} {i : Nat} {cls : String} {cell : Cell} {base : Core}

theorem Owning.pinned {c : Core} (h : Owning env i cls base cell c) : Pinned env i c :=
  .inr (.inr ⟨cls, h.mem, h.hold⟩)

theorem Owning.stays {s t : Core} (h : Owning env i cls base cell s) (hst : Stays env i s t)
    (hidle : t.Idle i) : Owning env i cls base cell t where
  toLater := h.toLater.trans hst.toLater
  mem := h.mem
  hold := (hst.hold _ (by simp)).trans h.hold
  holds name hname := (hst.hold name hname).trans (h.holds name hname)
  cell := (hst.cell cls h.mem h.hold).trans h.cell
  subs := (hst.subs h.pinned).1.trans h.subs
  era := (hst.subs h.pinned).2.trans h.era
  idle := hidle

theorem Owning.sees {s t : Core} (h : Owning env i cls base cell s) (hst : Sees env i s t) :
    Owning env i cls base cell t :=
  h.stays hst.stays (hst.idle h.idle)

theorem Inv.cellOk {c : Core} (h : Inv env c) (hmem : cls ∈ env.classes) :
    CellOk (env.law cls) (c.cell cls) :=
  ⟨h.route cls hmem, h.count cls hmem, h.history cls hmem⟩

theorem safe_ownAct {α β : Type} {act : Outside → World → Option (α × World)} {k : α → Sup β}
    {post : β → Core → Prop} {w : World} (hmem : cls ∈ env.classes)
    (hhold : w.core.hold i (.cls cls) = .write)
    (hact : ∀ o (t u : World) b, act o t = some (b, u) → Inv env t.core → Sees env i w.core t.core →
      OwnOk env cls t.core u.core ∧ (Inv env u.core → SafeFrom env i post (k b) u)) :
    SafeFrom env i post (Prog.atomic act >>= k) w := by
  refine Discipline.Safe.atomic fun t ht hst o b u hbu => ?_
  obtain ⟨hstep, hk⟩ := hact o t u b hbu ht hst
  have hhold' : t.core.hold i (.cls cls) = .write := (hst.hold _).trans hhold
  have hinv := hstep.inv ht hmem hhold'
  exact ⟨hinv, ⟨fun j hj => hstep.sees hmem hhold' hj, hstep.files, hstep.routes, hstep.replaces, hstep.selects,
    hstep.books⟩, hk hinv⟩

theorem safe_ownStep {α β : Type} {act : Outside → World → Option (α × World)} {k : α → Sup β}
    {post : β → Core → Prop} {w : World} (h : Owning env i cls base cell w.core) (next : Cell) (R : α → Prop)
    (hnext : CellOk (env.law cls) cell → CellOk (env.law cls) next)
    (hrouted : (next.route = cell.route ∧ installs next.hist = installs cell.hist) ∨
      installs next.hist = installs cell.hist + 1)
    (hact : ∀ o (t u : World) b, act o t = some (b, u) → Owning env i cls base cell t.core →
      Inv env t.core → Sees env i w.core t.core → OwnStep cls t.core u.core ∧ u.core.cell cls = next ∧
        (next.routeEpoch = cell.routeEpoch ∧ next.route = cell.route ∨
          next.routeEpoch = t.core.published ∧ next.route.trafficSubscription = t.core.subscriptions.active) ∧
        (∀ obs ∈ u.core.log, obs.Fact) ∧ R b)
    (hk : ∀ b (u : World), R b → Inv env u.core → Owning env i cls base next u.core →
      SafeFrom env i post (k b) u) :
    SafeFrom env i post (Prog.atomic act >>= k) w := by
  refine safe_ownAct h.mem h.hold fun o t u b hbu ht hst => ?_
  have hown := h.sees hst
  obtain ⟨hstep, hcell, hepoch, hlog, hb⟩ := hact o t u b hbu hown ht hst
  have hok : CellOk (env.law cls) (u.core.cell cls) := by
    rw [hcell]
    exact hnext (hown.cell ▸ ht.cellOk h.mem)
  have hunow : u.core.routeEpoch cls = next.routeEpoch := congrArg Cell.routeEpoch hcell
  have hthen : t.core.routeEpoch cls = cell.routeEpoch := congrArg Cell.routeEpoch hown.cell
  have hroute : u.core.route cls = next.route ∧ u.core.hist cls = next.hist := by
    rw [← hcell]
    exact ⟨rfl, rfl⟩
  have hroute' : t.core.route cls = cell.route ∧ t.core.hist cls = cell.hist := by
    rw [← hown.cell]
    exact ⟨rfl, rfl⟩
  refine ⟨⟨hstep, hok, by rwa [hunow, hthen, hroute.1, hroute'.1], hlog, ?_⟩, fun hu => hk b u hb hu ?_⟩
  · rwa [hroute.1, hroute.2, hroute'.1, hroute'.2]
  exact {
    toLater := hown.toLater.trans hstep.later
    mem := h.mem
    hold := (hstep.hold _ _).trans hown.hold
    holds := fun name hname => (hstep.hold _ _).trans (hown.holds name hname)
    cell := hcell
    subs := hstep.subscriptions.trans hown.subs
    era := hstep.published.trans hown.era
    idle := by
      rw [Core.Idle, hstep.fileParts]
      exact hown.idle }

end

/-! ### Installing a path -/

/-- What the cause of an install says of the class and of the node it is installed with. -/
structure CauseFact (env : Env) (cls : String) (node : Node) (cause : Cause) (c : Core) : Prop where
  chosen : Chosen env cls node (c.runtime cls).active cause
  recovery : ∀ bookedAt, cause.recovery = some bookedAt →
    Justified env.cfg.health.failThreshold (c.hist cls) bookedAt

theorem CauseFact.congr {env : Env} {cls : String} {node : Node} {cause : Cause} {s t : Core}
    (h : CauseFact env cls node cause s) (hcell : t.cell cls = s.cell cls) :
    CauseFact env cls node cause t := by
  have hruntime := Core.cell_runtime hcell
  have hhist := Core.cell_hist hcell
  exact ⟨hruntime ▸ h.chosen, hhist ▸ h.recovery⟩

/-- What the cause says of the candidates of a walk, each after the ones before it have failed. -/
def CausesFact (env : Env) (cls : String) (candidates : List Node) (cause : Cause) (c : Core) : Prop :=
  ∀ failed node rest, candidates = failed ++ node :: rest →
    CauseFact env cls node (failed.foldl (fun cause node => cause.missed node.name) cause) c

section

variable {env : Env} {cls : String} {candidates : List Node} {cause : Cause} {c : Core}

/-- A cause that failed candidates do not change. -/
theorem CausesFact.of_forall (hfixed : ∀ name, cause.missed name = cause)
    (h : ∀ node ∈ candidates, CauseFact env cls node cause c) : CausesFact env cls candidates cause c := by
  intro failed node rest heq
  rw [List.foldl_fixed' fun node => hfixed node.name]
  exact h node (by simp [heq])

theorem CausesFact.head {candidate : Node} (h : CausesFact env cls (candidate :: candidates) cause c) :
    CauseFact env cls candidate cause c :=
  h [] candidate candidates rfl

theorem CausesFact.tail {candidate : Node} (h : CausesFact env cls (candidate :: candidates) cause c) :
    CausesFact env cls candidates (cause.missed candidate.name) c :=
  fun failed node rest heq => h (candidate :: failed) node rest (congrArg (candidate :: ·) heq)

theorem CausesFact.congr {s t : Core} (h : CausesFact env cls candidates cause s)
    (hcell : t.cell cls = s.cell cls) : CausesFact env cls candidates cause t :=
  fun failed node rest heq => (h failed node rest heq).congr hcell

end

/-- What the holder of a class still knows after working on it. -/
structure Worked (env : Env) (i : Nat) (cls : String) (s t : Core) : Prop extends Later s t where
  inClass : InClass env i cls t
  idle : t.Idle i
  hold : ∀ name, name ≠ .state → t.hold i name = s.hold i name
  subs : t.subscriptions = s.subscriptions
  era : t.published = s.published

section

variable {env : Env} {i : Nat} {cls : String} {s t u : Core}

theorem Worked.of_sees (h : InClass env i cls s) (hidle : s.Idle i) (hst : Sees env i s t) :
    Worked env i cls s t :=
  ⟨hst.later, h.sees hst, hst.idle hidle, fun name _ => hst.hold name, (hst.subs h.pinned).1,
    (hst.subs h.pinned).2⟩

theorem Worked.trans (h : Worked env i cls s t) (g : Worked env i cls t u) : Worked env i cls s u :=
  ⟨h.toLater.trans g.toLater, g.inClass, g.idle, fun name hn => (g.hold name hn).trans (h.hold name hn),
    g.subs.trans h.subs, g.era.trans h.era⟩

/-- A step on the class, if it leaves it in order. -/
theorem Worked.of_step (h : InClass env i cls s) (hidle : s.Idle i) (hst : Sees env i s t)
    (hstep : OwnStep cls t u) (hok : ClassOk cls u) : Worked env i cls s u where
  toLater := hst.later.trans hstep.later
  inClass := ⟨h.mem, (hstep.hold _ _).trans ((hst.hold _).trans h.hold), hok⟩
  idle := by
    rw [Core.Idle, hstep.fileParts]
    exact hst.idle hidle
  hold name _ := (hstep.hold _ _).trans (hst.hold name)
  subs := hstep.subscriptions.trans (hst.subs h.pinned).1
  era := hstep.published.trans (hst.subs h.pinned).2

theorem Worked.sees (h : Worked env i cls s t) (htu : Sees env i t u) : Worked env i cls s u :=
  h.trans (.of_sees h.inClass h.idle htu)

end

namespace Cell

variable (cell : Cell) (newActive : ActiveNode)

def replaced : Cell :=
  { cell with runtime := { cell.runtime with active := some newActive, autoRecovery := ⟨0, none⟩ } }

/-- After `flipRoute`, for a class whose previous path was `old`. -/
def flipped (old : Option ActiveNode) (subscription : String) (cause : Cause) (published : Nat) : Cell :=
  { cell with
    route :=
      { socksUpstream := some newActive.handle.socksAddr
        httpUpstream := some newActive.handle.httpAddr
        nodeName := newActive.node.name
        generation := cell.route.generation + 1
        pathConnections := some newActive.pathConnections
        trafficSubscription := subscription }
    routeEpoch := published
    hist := .installed newActive old cause :: cell.hist }

def recorded (generation : UInt64) : Cell :=
  { cell with
    entry := some
      { activeNode := some newActive.node.name
        socksPort := some newActive.handle.socksAddr
        httpPort := some newActive.handle.httpAddr
        generation := generation } }

def reset : Cell := { cell with runtime := { cell.runtime with healthFailures := 0 } }

end Cell

section

variable {env : Env} {i : Nat} {cls : String} {cell : Cell} {base : Core}
  {β : Type} {post : β → Core → Prop} {w : World} {newActive : ActiveNode}

theorem safe_replaceActive {k : Option ActiveNode → Sup β} (h : Owning env i cls base cell w.core)
    (hk : ∀ u : World, Inv env u.core → Owning env i cls base (cell.replaced newActive) u.core →
      SafeFrom env i post (k cell.runtime.active) u) :
    SafeFrom env i post (Sup.replaceActive i cls newActive >>= k) w := by
  refine safe_ownStep h (cell.replaced newActive) (fun old => old = cell.runtime.active) (fun hok => ⟨hok.1, hok.2, hok.3⟩) (.inl ⟨rfl, rfl⟩) ?_ ?_
  · intro o t u b hbu hown ht _
    obtain ⟨rfl, rfl⟩ := Prod.mk.inj (Option.some.inj hbu)
    have hcell := hown.cell
    refine ⟨⟨rfl, rfl, ?_, List.suffix_rfl⟩, ?_, .inl ⟨rfl, rfl⟩, ht.log, ?_⟩
    · intro other hother
      simp [Core.cell, Core.entry, World.core, Trail.noteRecovery, Function.update_of_ne hother]
    · rw [← hcell]
      simp [Core.cell, Core.entry, World.core, Trail.noteRecovery, Cell.replaced]
    · rw [← hcell]
      rfl
  · rintro b u rfl hu hown
    exact hk u hu hown

theorem safe_flipRoute {old : Option ActiveNode} {subscription : String} {cause : Cause} {chosenAt : Nat}
    {k : UInt64 → Sup β} (h : Owning env i cls base cell w.core) (hchosen : chosenAt = w.core.published)
    (hsubscription : subscription = w.core.subscriptions.active)
    (hevent : EventFact (env.law cls) cell.hist (.installed newActive old cause))
    (hk : ∀ u : World, Inv env u.core →
      Owning env i cls base (cell.flipped newActive old subscription cause w.core.published) u.core →
      SafeFrom env i post (k (cell.route.generation + 1)) u) :
    SafeFrom env i post (Sup.flipRoute i cls newActive old subscription cause chosenAt >>= k) w := by
  refine safe_ownStep h (cell.flipped newActive old subscription cause w.core.published)
    (fun generation => generation = cell.route.generation + 1) ?_ (.inr rfl) ?_ ?_
  · intro hok
    refine ⟨rfl, ?_, hevent, hok.history⟩
    simp [Cell.flipped, installs, hok.count]
  · intro o t u b hbu hown ht hst
    split at hbu
    · obtain ⟨rfl, rfl⟩ := Prod.mk.inj (Option.some.inj hbu)
      have hcell := hown.cell
      have hpublished : t.core.published = w.core.published := (hst.subs h.pinned).2
      have hsubs : t.core.subscriptions = w.core.subscriptions := (hst.subs h.pinned).1
      refine ⟨⟨rfl, rfl, ?_, ?_⟩, ?_, .inr ⟨hpublished.symm, by rw [hsubs]; exact hsubscription⟩, ?_, ?_⟩
      · intro other hother
        simp [Core.cell, Core.entry, World.core, Trail.note, Function.update_of_ne hother]
      · simp [World.core, Trail.note]
      · rw [← hcell, ← hpublished]
        simp [Core.cell, Core.entry, World.core, Trail.note, Cell.flipped]
      · exact List.forall_mem_cons.mpr ⟨hchosen.trans hpublished.symm, ht.log⟩
      · rw [← hcell]
        rfl
    · cases hbu
  · rintro b u rfl hu hown
    exact hk u hu hown

theorem safe_recordInstall {generation : UInt64} {k : Unit → Sup β} (h : Owning env i cls base cell w.core)
    (hk : ∀ u : World, Inv env u.core → Owning env i cls base (cell.recorded newActive generation) u.core →
      SafeFrom env i post (k ()) u) :
    SafeFrom env i post (Sup.recordInstall cls newActive generation >>= k) w := by
  refine safe_ownStep h (cell.recorded newActive generation) (fun _ => True)
    (fun hok => ⟨hok.1, hok.2, hok.3⟩) (.inl ⟨rfl, rfl⟩) ?_ fun _ u _ hu hown => hk u hu hown
  intro o t u b hbu hown ht _
  split at hbu
  · obtain ⟨rfl, rfl⟩ := Prod.mk.inj (Option.some.inj hbu)
    have hcell := hown.cell
    refine ⟨⟨rfl, rfl, ?_, List.suffix_rfl⟩, ?_, .inl ⟨rfl, rfl⟩, ht.log, trivial⟩
    · intro other hother
      simp [Core.cell, Core.entry, World.core, StateFile.resetHealthFailures, StateFile.updateClass,
        BTreeMap.getElem?_upsert_of_ne _ _ (Ne.symm hother)]
    · rw [← hcell]
      simp [Core.cell, Core.entry, World.core, StateFile.resetHealthFailures, StateFile.updateClass, Cell.recorded]
  · cases hbu

theorem safe_resetClassFailures {k : Unit → Sup β} (h : Owning env i cls base cell w.core)
    (hk : ∀ u : World, Inv env u.core → Owning env i cls base cell.reset u.core →
      SafeFrom env i post (k ()) u) :
    SafeFrom env i post (Sup.resetClassFailures cls >>= k) w := by
  refine safe_ownStep h cell.reset (fun _ => True) (fun hok => ⟨hok.1, hok.2, hok.3⟩) (.inl ⟨rfl, rfl⟩) ?_
    fun _ u _ hu hown => hk u hu hown
  intro o t u b hbu hown ht _
  obtain ⟨rfl, rfl⟩ := Prod.mk.inj (Option.some.inj hbu)
  have hcell := hown.cell
  refine ⟨⟨rfl, rfl, ?_, List.suffix_rfl⟩, ?_, .inl ⟨rfl, rfl⟩, ht.log, trivial⟩
  · intro other hother
    simp [Core.cell, Core.entry, World.core, Function.update_of_ne hother]
  · rw [← hcell]
    simp [Core.cell, Core.entry, World.core, Cell.reset]

theorem Owning.of_inClass {c : Core} (h : InClass env i cls c) (hidle : c.Idle i) :
    Owning env i cls c (c.cell cls) c :=
  ⟨.refl, h.mem, h.hold, fun _ _ => rfl, rfl, rfl, rfl, hidle⟩

/-- The class is in order again once its cell says so. -/
theorem Owning.worked {c : Core} (h : Owning env i cls base cell c) (hok : ClassOk cls c) :
    Worked env i cls base c :=
  ⟨h.toLater, ⟨h.mem, h.hold, hok⟩, h.idle, h.holds, h.subs, h.era⟩

/-- What the cell of a class says at the end of an install. -/
theorem installed_ok {c : Core} {old : Option ActiveNode} {subscription : String} {cause : Cause}
    {published : Nat}
    (hcell : c.cell cls = ((((cell.replaced newActive).flipped newActive old subscription cause
      published).recorded newActive (cell.route.generation + 1)).reset))
    (hsubscription : subscription = c.subscriptions.active) (hmember : newActive.node ∈ c.subscriptions.nodes) :
    ClassOk cls c := by
  have hruntime : c.runtime cls = ⟨some newActive, ⟨0, none⟩, 0⟩ := congrArg Cell.runtime hcell
  have hroute := congrArg Cell.route hcell
  have hentry := congrArg Cell.entry hcell
  have hhist := congrArg Cell.hist hcell
  simp only [Core.cell, Cell.reset, Cell.recorded, Cell.flipped, Cell.replaced] at hroute hentry hhist
  refine ⟨?_, ?_, ?_⟩
  · intro active hactive
    rw [hruntime] at hactive
    cases hactive
    refine ⟨?_, ?_, ?_, ?_, ?_, ⟨_, hentry, rfl, ?_⟩, hmember⟩
    all_goals rw [hroute]
    exact hsubscription
  · rw [hruntime, hhist]
    rfl
  · rw [hruntime]
    exact Nat.zero_le _

theorem safe_installActive {cause : Cause} {chosenAt : Nat} (hclass : InClass env i cls w.core) (hidle : w.core.Idle i)
    (hmember : newActive.node ∈ w.core.subscriptions.nodes) (hcause : CauseFact env cls newActive.node cause w.core)
    (hchosen : chosenAt = w.core.published) :
    SafeFrom env i (fun _ v => Worked env i cls w.core v)
      (Sup.installActive env i cls newActive cause chosenAt) w := by
  rw [Sup.installActive]
  refine safe_look fun t _ hst => ?_
  have hsubs : t.subscriptions = w.subscriptions := (hst.subs hclass.pinned).1
  refine safe_replaceActive (.of_inClass hclass hidle) fun u hu hown => ?_
  refine safe_flipRoute hown (hchosen.trans hown.era.symm)
    (congrArg SubscriptionRuntime.active (hsubs.trans hown.subs.symm)) ⟨hclass.ok.last, hcause.chosen, hcause.recovery⟩ fun v hv hown => ?_
  refine safe_recordInstall hown fun x hx hown => ?_
  refine safe_resetClassFailures hown fun y hy hown => ?_
  refine (safe_saveState hown.idle).bind hy ?_
  rintro _ z _ ⟨hyz, hidle'⟩
  have hz := hown.stays hyz hidle'
  have hworked : Worked env i cls w.core z.core :=
    hz.worked (installed_ok hz.cell (congrArg SubscriptionRuntime.active (hsubs.trans hz.subs.symm))
      (hz.subs ▸ hmember))
  refine safe_pushEvent ?_
  cases (w.core.cell cls).runtime.active with
  | none => exact safe_pure fun _ hst => hworked.sees hst
  | some old => exact safe_scheduleDrain (k := pure) (safe_pure fun _ hst => hworked.sees hst)

theorem safe_recordFailedCandidate {node : String} {k : Unit → Sup β}
    (hgate : w.core.hold i .reconfiguration = .read) (hk : SafeFrom env i post (k ()) w) :
    SafeFrom env i post (Sup.recordFailedCandidate env cls node >>= k) w := by
  rw [Sup.recordFailedCandidate]
  split
  · exact safe_lockState hgate (fun _ _ => rfl) (fun _ _ => rfl) fun _ _ => hk
  · exact hk

/-- How trying candidates ends: after a failure the class is as it was. -/
def Tried (env : Env) (i : Nat) (cls : String) (s : Core) (result : Except (Option String) String) (v : Core) :
    Prop :=
  Worked env i cls s v ∧ ∀ error, result = .error error → v.cell cls = s.cell cls

theorem safe_tryCandidates {cause : Cause} {chosenAt : Nat} {lastCause : Option String} {candidates : List Node}
    (hw : Inv env w.core) (hclass : InClass env i cls w.core) (hidle : w.core.Idle i)
    (hgate : w.core.hold i .reconfiguration = .read)
    (hmember : ∀ node ∈ candidates, node ∈ w.core.subscriptions.nodes)
    (hcause : CausesFact env cls candidates cause w.core) (hchosen : chosenAt = w.core.published) :
    SafeFrom env i (Tried env i cls w.core)
      (Sup.tryCandidates env i cls cause chosenAt lastCause candidates) w := by
  have hstop : ∀ error, SafeFrom env i (Tried env i cls w.core) (pure (Except.error error)) w := fun _ =>
    safe_pure fun _ hst =>
      ⟨.of_sees hclass hidle hst, fun _ _ => hst.cell cls hclass.mem hclass.hold⟩
  induction candidates generalizing cause lastCause with
  | nil => exact hstop _
  | cons candidate candidates ih =>
      rw [Sup.tryCandidates]
      refine safe_look fun t _ _ => ?_
      cases t.drainShutdown with
      | true => exact hstop _
      | false =>
          refine safe_quiet quiet_tryActivate hw fun attempt hattempt => ?_
          cases attempt with
          | elapsed => exact hstop _
          | failed error =>
              refine safe_recordFailedCandidate hgate (safe_pushEvent (ih ?_ hcause.tail))
              exact fun node hnode => hmember node (List.mem_cons_of_mem _ hnode)
          | activated active =>
              have hnode := hattempt active rfl
              have hcandidate : CauseFact env cls active.node cause w.core := hnode ▸ hcause.head
              have hmember : active.node ∈ w.core.subscriptions.nodes := hnode ▸ hmember _ List.mem_cons_self
              refine (safe_installActive hclass hidle hmember hcandidate hchosen).bind hw fun _ u _ hworked => ?_
              exact safe_pure fun _ hst => ⟨hworked.sees hst, fun _ h => nomatch h⟩

end

end Causeway

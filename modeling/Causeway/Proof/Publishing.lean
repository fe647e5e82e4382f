import Causeway.Proof.Staging

/-!
# A publication keeps the discipline

A publication changes every class and the subscription in several steps. Its thread holds every lock that other threads' knowledge rests on, so none of the steps is seen, and the parts agree again when the route locks are released.
-/

namespace Causeway

open Concurrent History

/-! ### Steps under all locks -/

/-- The locks a publication takes beside those of its transaction. -/
def publishLocks (env : Env) : List LockName := .state :: env.classes.map .route

/-- Only the classes, the state, the subscription, the log and the thread's own pending publication differ. -/
structure TxnStep (i : Nat) (s t : Core) : Prop where
  same : t = { s with
    subscriptions := t.subscriptions, runtime := t.runtime, route := t.route, state := t.state,
    selected := t.selected, ledger := t.ledger, published := t.published, routeEpoch := t.routeEpoch, hist := t.hist,
    log := t.log, replaced := t.replaced, files := { s.files with window := t.files.window } }
  published : s.published ≤ t.published
  era : t.published = s.published → t.subscriptions = s.subscriptions
  hist : ∀ cls, s.hist cls <:+ t.hist cls
  window : ∀ j, j ≠ i → t.files.window j = s.files.window j
  books : Books s.selected s.ledger t.selected t.ledger

section

variable {env : Env} {i j : Nat} {s t : Core}

theorem TxnStep.hold (h : TxnStep i s t) (k : Nat) (name : LockName) : t.hold k name = s.hold k name := by
  rw [h.same]
  rfl

theorem TxnStep.saves (h : TxnStep i s t) : t.files.saves = s.files.saves := by
  rw [h.same]

/-- Nobody else holds anything such a step could surprise. -/
theorem TxnStep.sees (h : TxnStep i s t) (hwhole : Whole env i s) (hmutex : s.hold i .state = .write)
    (hj : j ≠ i) : Sees env j s t where
  hold := h.hold j
  cell cls hcls hhold := absurd (Lock.write_unique hhold (hwhole.classes cls hcls)) hj
  subs hpinned := absurd hpinned (hwhole.not_pinned hj)
  published := h.published
  era := h.era
  state hother := absurd (Lock.write_unique hother.gate hwhole.gate) hj
  bound hhold := absurd (Lock.write_unique hhold hmutex) hj
  hist := h.hist
  save := by rw [h.saves]
  window := h.window j hj
  counted hpinned := absurd hpinned (hwhole.not_pinned hj)
  selections := h.books.selections.1
  selected := h.books.selections.2

/-- What such a step must show again. -/
structure TxnOk (env : Env) (i : Nat) (s t : Core) : Prop extends TxnStep i s t where
  cellOk : ∀ cls ∈ env.classes, CellOk (env.law cls) (t.cell cls)
  generation : t.subscriptions.generation = UInt64.ofNat t.published
  log : ∀ obs ∈ t.log, obs.Fact
  routes : Routed s t
  replaced : t.replaced = s.replaced ∨
    ∃ r, t.replaced = r :: s.replaced ∧ r.Fact env ∧ r.present = s.state ∧ r.next = t.state
  selects : Selects s t

theorem TxnOk.inv (h : TxnOk env i s t) (hs : Inv env s) (hwhole : Whole env i s)
    (hheld : ∀ name ∈ publishLocks env, s.hold i name = .write) : Inv env t where
  settled cls hcls hfree := absurd (hwhole.classes cls hcls) (by
    rw [← h.hold]
    exact hfree i)
  route cls hcls := (h.cellOk cls hcls).route
  count cls hcls := (h.cellOk cls hcls).count
  history cls hcls := (h.cellOk cls hcls).history
  era := h.generation
  epochs cls hcls hfree := absurd (hheld (.route cls) (by simpa [publishLocks] using hcls)) (by
    rw [← h.hold]
    exact hfree i)
  reads := by
    rw [h.same]
    exact ⟨hs.reads.1, fun r hr => (hs.reads.2 r hr).trans h.published⟩
  log := h.log
  stamps := by
    rw [h.same]
    exact fun site node stamp hstamp => (hs.stamps site node stamp hstamp).later h.published
  jobs := by
    rw [h.same]
    exact fun job hjob => (hs.jobs job hjob).later h.published
  bound hfree := absurd (hheld .state List.mem_cons_self) (by
    rw [← h.hold]
    exact hfree i)
  replaced := by
    rcases h.replaced with hsame | ⟨r, hcons, hfact, _⟩
    · rw [hsame]
      exact hs.replaced
    · rw [hcons]
      exact List.forall_mem_cons.mpr ⟨hfact, hs.replaced⟩

theorem TxnOk.replaces (h : TxnOk env i s t) (hwhole : Whole env i s) : Replaces env i s t :=
  h.replaced.imp_right fun ⟨r, hcons, _, hpresent, hnext⟩ => ⟨hwhole, r, hcons, hpresent, hnext⟩

end

/-! ### The state of a publication -/

/-- What a publication has made of the classes and the subscription so far. -/
structure Draft where
  cells : String → Cell
  state : StateFile
  subs : SubscriptionRuntime
  published : Nat
  pending : Option (String × Bool)
  selected : Option String

/-- Thread `i` is publishing and has taken the listed locks. -/
structure Publishing (env : Env) (i : Nat) (held : List LockName) (draft : Draft) (c : Core) : Prop
    extends Whole env i c where
  held : ∀ name ∈ held, c.hold i name = .write
  saves : c.files.saves i = none
  cell : ∀ cls ∈ env.classes, c.cell cls = draft.cells cls
  state : c.state = draft.state
  subs : c.subscriptions = draft.subs
  published : c.published = draft.published
  pending : c.files.window i = draft.pending
  selected : c.selected = draft.selected

section

variable {env : Env} {i : Nat} {held : List LockName} {draft next : Draft} {s t : Core}

theorem Publishing.sees (h : Publishing env i held draft s) (hst : Sees env i s t) :
    Publishing env i held draft t where
  toWhole := hst.whole h.toWhole
  held name hname := (hst.hold _).trans (h.held name hname)
  saves := hst.save.trans h.saves
  cell cls hcls := (hst.cell cls hcls (h.classes cls hcls)).trans (h.cell cls hcls)
  state := (hst.state h.toWhole).trans h.state
  subs := (hst.subs h.toWhole.pinned).1.trans h.subs
  published := (hst.subs h.toWhole.pinned).2.trans h.published
  pending := hst.window.trans h.pending
  selected := (hst.counted h.toWhole.pinned).trans h.selected

theorem Publishing.relocked {name : LockName} {rest : List LockName} (h : Publishing env i held draft s)
    (hst : Relocked i name s t) (htxn : name ≠ .subscriptionTxn) (hgate : name ≠ .reconfiguration)
    (hcls : ∀ cls, name ≠ .cls cls) (hrest : ∀ name ∈ rest, t.hold i name = .write) :
    Publishing env i rest draft t where
  txn := (hst.others _ _ (.inl htxn.symm)).trans h.txn
  gate := (hst.others _ _ (.inl hgate.symm)).trans h.gate
  classes cls hmem := (hst.others _ _ (.inl (hcls cls).symm)).trans (h.classes cls hmem)
  held := hrest
  saves := by
    rw [hst.same]
    exact h.saves
  cell cls hmem := (hst.cell cls).trans (h.cell cls hmem)
  state := hst.state.trans h.state
  subs := hst.subscriptions.trans h.subs
  published := hst.published.trans h.published
  pending := by
    rw [hst.same]
    exact h.pending
  selected := by
    rw [hst.same]
    exact h.selected

theorem Publishing.step (h : Publishing env i held draft s) (hst : TxnStep i s t)
    (hcell : ∀ cls ∈ env.classes, t.cell cls = next.cells cls) (hstate : t.state = next.state) (hsubs : t.subscriptions = next.subs)
    (hpublished : t.published = next.published) (hpending : t.files.window i = next.pending)
    (hselected : t.selected = next.selected) :
    Publishing env i held next t where
  txn := (hst.hold _ _).trans h.txn
  gate := (hst.hold _ _).trans h.gate
  classes cls hcls := (hst.hold _ _).trans (h.classes cls hcls)
  held name hname := (hst.hold _ _).trans (h.held name hname)
  saves := by
    rw [hst.saves]
    exact h.saves
  cell := hcell
  state := hstate
  subs := hsubs
  published := hpublished
  pending := hpending
  selected := hselected

end

section

variable {env : Env} {i : Nat} {α β : Type} {post : β → Core → Prop} {w : World} {draft : Draft}

theorem safe_txnAct {f : Outside → World → α × World} {k : α → Sup β} (next : Draft)
    (h : Publishing env i (publishLocks env) draft w.core)
    (hf : ∀ o (t u : World) b, f o t = (b, u) → Inv env t.core →
      Publishing env i (publishLocks env) draft t.core →
      TxnOk env i t.core u.core ∧ FileGuard env i t.core u.core ∧
        Publishing env i (publishLocks env) next u.core)
    (hk : ∀ o (t u : World) b, f o t = (b, u) → Inv env u.core →
      Publishing env i (publishLocks env) next u.core → SafeFrom env i post (k b) u) :
    SafeFrom env i post (Sup.act f >>= k) w := by
  refine Discipline.Safe.atomic fun t ht hst o b u hbu => ?_
  have hpub := h.sees hst
  obtain ⟨hok, hfiles, hnext⟩ := hf o t u b (Option.some.inj hbu) ht hpub
  have hinv := hok.inv ht hpub.toWhole hpub.held
  have hmutex := hpub.held .state List.mem_cons_self
  have hguar : Guar env i t.core u.core :=
    ⟨fun j hj => hok.sees hpub.toWhole hmutex hj, hfiles, hok.routes, hok.replaces hpub.toWhole, hok.selects, hok.books⟩
  exact ⟨hinv, hguar, hk _ t _ _ (Option.some.inj hbu) hinv hnext⟩

/-- Every class of a publication in progress is right about its own history. -/
theorem Publishing.cellOk {c : Core} {held : List LockName} (h : Publishing env i held draft c)
    (hc : Inv env c) {cls : String} (hcls : cls ∈ env.classes) : CellOk (env.law cls) (draft.cells cls) :=
  h.cell cls hcls ▸ hc.cellOk hcls

/-! ### The steps -/

namespace Draft

variable (draft : Draft)

def replaced (st : StateFile) : Draft :=
  { draft with
    cells := fun cls => { draft.cells cls with entry := st.classes[cls]? }
    state := st
    pending := none }

end Draft

theorem safe_replaceState {cloned st : StateFile} {k : Unit → Sup β}
    (h : Publishing env i (publishLocks env) draft w.core) (hfact : Replacement.Fact env ⟨cloned, draft.state, st⟩)
    (hk : ∀ u : World, Inv env u.core → Publishing env i (publishLocks env) (draft.replaced st) u.core →
      SafeFrom env i post (k ()) u) :
    SafeFrom env i post (Sup.replaceState i cloned st >>= k) w := by
  refine safe_txnAct (draft.replaced st) h ?_ fun _ _ u _ _ hu hpub => hk u hu hpub
  intro o t u b hbu ht hpub
  obtain ⟨rfl, rfl⟩ := Prod.mk.inj hbu
  have hstep : TxnStep i t.core (World.core { t with
      state := st
      trail := { t.trail with
        window := Function.update t.trail.window i none
        replaced := ⟨cloned, t.state, st⟩ :: t.trail.replaced } }) :=
    ⟨rfl, le_rfl, fun _ => rfl, fun _ => List.suffix_rfl, fun j hj => Function.update_of_ne hj _ _, .still⟩
  have hstate : t.state = draft.state := hpub.state
  refine ⟨⟨hstep, fun cls hcls => ?_, ht.era, ht.log, fun _ => .inl ⟨rfl, rfl⟩, ?_, .inl rfl⟩,
    .step rfl (.publish hpub.saves), ?_⟩
  · have hok := ht.cellOk hcls
    exact ⟨hok.route, hok.count, hok.history⟩
  · exact .inr ⟨_, rfl, hstate ▸ hfact, rfl, rfl⟩
  · refine hpub.step hstep (fun cls hcls => ?_) rfl hpub.subs hpub.published (Function.update_self _ _ _) hpub.selected
    simp only [Draft.replaced, ← hpub.cell cls hcls]
    rfl

def Cell.published (cell : Cell) (p : Planned) (target : String) (refreshed : Bool) (epoch : Nat) : Cell where
  runtime := { active := some p.active, autoRecovery := ⟨0, none⟩, healthFailures := 0 }
  route :=
    { socksUpstream := some p.active.handle.socksAddr
      httpUpstream := some p.active.handle.httpAddr
      nodeName := p.active.node.name
      generation := p.generation
      pathConnections := some p.active.pathConnections
      trafficSubscription := target }
  entry := some { cell.entry.getD default with
    socksPort := some p.active.handle.socksAddr
    httpPort := some p.active.handle.httpAddr }
  routeEpoch := epoch
  hist := .installed p.active cell.runtime.active (.subscriptionChange refreshed) :: cell.hist

def Draft.publishedClass (draft : Draft) (target : String) (refreshed : Bool) (p : Planned) : Draft :=
  { draft with
    cells := Function.update draft.cells p.cls
      ((draft.cells p.cls).published p target refreshed (draft.published + 1))
    state := draft.state.updateClass p.cls fun cs =>
      { cs with
        socksPort := some p.active.handle.socksAddr
        httpPort := some p.active.handle.httpAddr } }

/-- A class that is ready for its new path. -/
structure Draft.Ready (draft : Draft) (env : Env) (refreshed : Bool) (p : Planned) : Prop where
  mem : p.cls ∈ env.classes
  eligible : refreshed → Eligible env p.cls p.active.node
  last : (draft.cells p.cls).runtime.active = lastActive (draft.cells p.cls).hist
  generation : p.generation = (draft.cells p.cls).route.generation + 1

theorem Draft.Ready.congr {other : Draft} {refreshed : Bool} {p : Planned} (h : draft.Ready env refreshed p)
    (hruntime : (other.cells p.cls).runtime = (draft.cells p.cls).runtime)
    (hroute : (other.cells p.cls).route = (draft.cells p.cls).route)
    (hhist : (other.cells p.cls).hist = (draft.cells p.cls).hist) : other.Ready env refreshed p :=
  ⟨h.mem, h.eligible, by rw [hruntime, hhist]; exact h.last, by rw [hroute]; exact h.generation⟩

theorem safe_publishClass {target : String} {refreshed : Bool} {p : Planned} {k : Option ActiveNode → Sup β}
    (h : Publishing env i (publishLocks env) draft w.core) (hready : draft.Ready env refreshed p)
    (hk : ∀ old (u : World), Inv env u.core →
      Publishing env i (publishLocks env) (draft.publishedClass target refreshed p) u.core →
      SafeFrom env i post (k old) u) :
    SafeFrom env i post (Sup.publishClass i target refreshed p >>= k) w := by
  refine safe_txnAct (draft.publishedClass target refreshed p) h ?_ fun _ _ u old _ hu hpub => hk old u hu hpub
  intro o t u old hbu ht hpub
  have hbefore := hpub.cell p.cls hready.mem
  have hself : u.core.cell p.cls = (draft.cells p.cls).published p target refreshed (draft.published + 1) := by
    cases hbu
    rw [← hbefore, ← hpub.published]
    simp [Core.cell, Core.entry, World.core, Trail.note, Cell.published, StateFile.updateClass]
  have hother : ∀ cls, cls ≠ p.cls → u.core.cell cls = t.core.cell cls := by
    intro cls hcls
    cases hbu
    simp [Core.cell, Core.entry, World.core, Trail.note, StateFile.updateClass, Function.update_of_ne hcls,
      BTreeMap.getElem?_upsert_of_ne _ _ (Ne.symm hcls)]
  have hstep : TxnStep i t.core u.core := by
    cases hbu
    refine ⟨rfl, le_rfl, fun _ => rfl, fun cls => ?_, fun _ _ => rfl, .still⟩
    by_cases hcls : cls = p.cls
    · subst hcls
      simp [World.core, Trail.note]
    · simp [World.core, Trail.note, Function.update_of_ne hcls]
  refine ⟨⟨hstep, ?_, ?_, ?_, ?_, ?_, ?_⟩, ?_, ?_⟩
  · intro cls hcls
    by_cases heq : cls = p.cls
    · subst heq
      have hok := hpub.cellOk ht hready.mem
      rw [hself]
      refine ⟨rfl, ?_, ⟨hready.last, hready.eligible, ?_⟩, hok.history⟩
      · simp [Cell.published, installs, hready.generation, hok.count]
      · intro bookedAt h
        cases h
    · rw [hother cls heq]
      exact ht.cellOk hcls
  · cases hbu
    exact ht.era
  · cases hbu
    exact List.forall_mem_cons.mpr ⟨rfl, ht.log⟩
  · intro cls
    by_cases heq : cls = p.cls
    · subst heq
      have hhist : u.core.hist p.cls = _ := congrArg Cell.hist hself
      have hhist' : t.core.hist p.cls = _ := congrArg Cell.hist hbefore
      rw [hhist, hhist']
      exact .inr rfl
    · exact .inl ⟨Core.cell_route (hother cls heq), by rw [Core.cell_hist (hother cls heq)]⟩
  · cases hbu
    exact .inl rfl
  · cases hbu
    exact .inl rfl
  · cases hbu
    exact .still rfl (.inl rfl) (.inl rfl)
  · refine hpub.step hstep (fun cls hcls => ?_) ?_ ?_ ?_ ?_ ?_
    · by_cases heq : cls = p.cls
      · subst heq
        simpa [Draft.publishedClass] using hself
      · simpa [Draft.publishedClass, Function.update_of_ne heq] using (hother cls heq).trans (hpub.cell cls hcls)
    · cases hbu
      simp [Draft.publishedClass, World.core, ← hpub.state]
    · cases hbu
      exact hpub.subs
    · cases hbu
      exact hpub.published
    · cases hbu
      exact hpub.pending
    · cases hbu
      exact hpub.selected

def Draft.publishedClasses (draft : Draft) (target : String) (refreshed : Bool) (planned : List Planned) : Draft :=
  planned.foldl (Draft.publishedClass · target refreshed) draft

theorem safe_publishClasses {target : String} {refreshed : Bool} {planned : List Planned}
    {k : List ActiveNode → Sup β}
    (h : Publishing env i (publishLocks env) draft w.core) (hw : Inv env w.core)
    (hnodup : (planned.map (·.cls)).Nodup) (hready : ∀ p ∈ planned, draft.Ready env refreshed p)
    (hk : ∀ old (u : World), Inv env u.core →
      Publishing env i (publishLocks env) (draft.publishedClasses target refreshed planned) u.core →
      SafeFrom env i post (k old) u) :
    SafeFrom env i post (Sup.publishClasses i target refreshed planned >>= k) w := by
  induction planned generalizing draft w k with
  | nil => exact hk _ w hw h
  | cons p planned ih =>
      rw [List.map_cons, List.nodup_cons] at hnodup
      obtain ⟨hp, hrest⟩ := List.forall_mem_cons.mp hready
      simp only [Sup.publishClasses, bind_assoc, pure_bind]
      refine safe_publishClass h hp fun old u hu hpub => ?_
      refine ih hpub hu hnodup.2 (fun q hq => ?_) fun others v hv hpub => hk _ v hv hpub
      have hne : q.cls ≠ p.cls := by
        rintro heq
        exact hnodup.1 (heq ▸ List.mem_map_of_mem hq)
      refine (hrest q hq).congr ?_ ?_ ?_
      all_goals simp [Draft.publishedClass, Function.update_of_ne hne]

def Draft.publishedRuntime (draft : Draft) (target : String) (nodes : List Node)
    (catalog : SubscriptionsConfig) : Draft :=
  { draft with
    subs := { active := target, nodes := nodes, catalog := catalog, generation := draft.subs.generation + 1 }
    published := draft.published + 1 }

theorem safe_publishRuntime {target : String} {nodes : List Node} {catalog : SubscriptionsConfig}
    {k : Unit → Sup β} (h : Publishing env i (publishLocks env) draft w.core)
    (hk : ∀ u : World, Inv env u.core →
      Publishing env i (publishLocks env) (draft.publishedRuntime target nodes catalog) u.core →
      SafeFrom env i post (k ()) u) :
    SafeFrom env i post (Sup.publishRuntime target nodes catalog >>= k) w := by
  refine safe_txnAct (draft.publishedRuntime target nodes catalog) h ?_ fun _ _ u _ _ hu hpub => hk u hu hpub
  intro o t u b hbu ht hpub
  have hstep : TxnStep i t.core u.core := by
    cases hbu
    exact ⟨rfl, Nat.le_succ _, fun heq => absurd heq (Nat.succ_ne_self _), fun _ => List.suffix_rfl,
      fun _ _ => rfl, .still⟩
  have hcell : ∀ cls, u.core.cell cls = t.core.cell cls := by
    intro cls
    cases hbu
    rfl
  refine ⟨⟨hstep, fun cls hcls => hcell cls ▸ ht.cellOk hcls, ?_, ?_, ?_, ?_, ?_⟩, ?_, ?_⟩
  · cases hbu
    have hera : t.subscriptions.generation = UInt64.ofNat t.trail.published := ht.era
    simp [World.core, hera]
  · cases hbu
    exact ht.log
  · exact fun cls => .inl ⟨Core.cell_route (hcell cls), by rw [Core.cell_hist (hcell cls)]⟩
  · cases hbu
    exact .inl rfl
  · cases hbu
    exact .inl rfl
  · cases hbu
    exact .still rfl (.inl rfl) (.inl rfl)
  · refine hpub.step hstep (fun cls hcls => (hcell cls).trans (hpub.cell cls hcls)) ?_ ?_ ?_ ?_ ?_
    · cases hbu
      exact hpub.state
    · cases hbu
      simp [Draft.publishedRuntime, World.core, ← hpub.subs]
    · cases hbu
      simp [Draft.publishedRuntime, World.core, ← hpub.published]
    · cases hbu
      exact hpub.pending
    · cases hbu
      exact hpub.selected

theorem selectSubscription_subscription (state : TrafficState) (subscription : String) :
    (state.selectSubscription subscription).subscription = some subscription := by
  unfold TrafficState.selectSubscription
  split
  · rfl
  · exact not_not.mp ‹_›

def Draft.selecting (draft : Draft) (target : String) : Draft := { draft with selected := some target }

theorem safe_selectSubscription {target : String} {k : Unit → Sup β}
    (h : Publishing env i (publishLocks env) draft w.core) (hactive : draft.subs.active = target)
    (hstate : draft.state.activeSubscription = some target)
    (hk : ∀ u : World, Inv env u.core → Publishing env i (publishLocks env) (draft.selecting target) u.core →
      u.core.Bound → SafeFrom env i post (k ()) u) :
    SafeFrom env i post (Sup.selectSubscription target >>= k) w := by
  refine safe_txnAct (draft.selecting target) h ?_ ?_
  · intro o t u b hbu ht hpub
    have hselected : u.core.selected = some target := by
      cases hbu
      exact selectSubscription_subscription _ _
    have hbooks : Books t.core.selected t.core.ledger u.core.selected u.core.ledger := by
      cases hbu
      by_cases hsame : t.traffic.subscription = some target
      · simp only [World.core, TrafficState.selectSubscription, hsame, ne_eq, not_true, if_false, if_true, Nat.add_zero]
        exact .still
      · simp only [World.core, TrafficState.selectSubscription, hsame, ne_eq, not_false_eq_true, if_false, if_true]
        exact .select hsame
    have hstep : TxnStep i t.core u.core := by
      refine ⟨?_, ?_, ?_, ?_, ?_, hbooks⟩ <;> cases hbu
      · rfl
      · exact le_rfl
      · exact fun _ => rfl
      · exact fun _ => List.suffix_rfl
      · exact fun _ _ => rfl
    have hcell : ∀ cls, u.core.cell cls = t.core.cell cls := by
      intro cls
      cases hbu
      rfl
    have hsubs : u.core.subscriptions = t.core.subscriptions := by
      cases hbu
      rfl
    refine ⟨⟨hstep, fun cls hcls => hcell cls ▸ ht.cellOk hcls, ?_, ?_, fun cls => .inl ?_, ?_, .inr ?_⟩, ?_, ?_⟩
    · cases hbu
      exact ht.era
    · cases hbu
      exact ht.log
    · exact ⟨Core.cell_route (hcell cls), by rw [Core.cell_hist (hcell cls)]⟩
    · cases hbu
      exact .inl rfl
    · rw [hselected, hsubs, hpub.subs, hactive]
    · cases hbu
      exact .still rfl (.inl rfl) (.inl rfl)
    · refine hpub.step hstep (fun cls hcls => (hcell cls).trans (hpub.cell cls hcls)) ?_ (hsubs.trans hpub.subs) ?_ ?_ hselected
      · cases hbu
        exact hpub.state
      · cases hbu
        exact hpub.published
      · cases hbu
        exact hpub.pending
  · intro o t u b hbu hu hpub
    refine hk u hu hpub ⟨?_, ?_⟩
    · rw [hpub.state, hpub.subs]
      exact hstate.trans (congrArg some hactive.symm)
    · rw [hpub.selected, hpub.subs]
      exact congrArg some hactive.symm

/-! ### The whole publication -/

theorem safe_lockRoutes (taken : List String) {routes : List String} {k : Unit → Sup β}
    (h : Publishing env i (taken.map .route) draft w.core) (hw : Inv env w.core)
    (hk : ∀ u : World, Inv env u.core → Publishing env i ((taken ++ routes).map .route) draft u.core →
      SafeFrom env i post (k ()) u) :
    SafeFrom env i post (Sup.lockRoutes i routes >>= k) w := by
  induction routes generalizing taken w with
  | nil => exact hk w hw (by simpa using h)
  | cons cls routes ih =>
      simp only [Sup.lockRoutes, bind_assoc]
      refine safe_acquireWrite ⟨fun hn => (nomatch hn), fun hn => (nomatch hn)⟩ ?_
      intro t u _ hst _ hmoved hhold hu
      have hpub : Publishing env i ((taken ++ [cls]).map .route) draft u.core := by
        refine (h.sees hst).relocked hmoved (by simp) (by simp) (by simp) ?_
        rw [List.map_append]
        refine List.forall_mem_append.mpr ⟨fun name hname => ?_, by simpa using hhold⟩
        by_cases heq : name = .route cls
        · exact heq ▸ hhold
        · rw [hmoved.others _ _ (.inl heq)]
          exact (h.sees hst).held name hname
      exact ih _ hpub hu fun v hv hpub => hk v hv (by simpa using hpub)

theorem safe_releaseRoutes {routes : List String} {k : Unit → Sup β}
    (h : Publishing env i [] draft w.core) (hw : Inv env w.core)
    (hepoch : ∀ cls ∈ env.classes, (draft.cells cls).routeEpoch = draft.published)
    (htag : ∀ cls ∈ env.classes, (draft.cells cls).route.trafficSubscription = draft.subs.active)
    (hselected : draft.selected = some draft.subs.active)
    (hk : ∀ u : World, Inv env u.core → Publishing env i [] draft u.core → SafeFrom env i post (k ()) u) :
    SafeFrom env i post (Sup.releaseAll i (routes.map .route) >>= k) w := by
  induction routes generalizing w with
  | nil => exact hk w hw h
  | cons cls routes ih =>
      simp only [Sup.releaseAll, List.map_cons, bind_assoc]
      refine safe_release ⟨fun hn => (nomatch hn), fun hn => (nomatch hn)⟩ ?_ ?_ (fun hn => nomatch hn) ?_
      · exact fun _ _ _ _ hn => nomatch hn
      · intro t hst other hother _ _
        have hpub := h.sees hst
        have hcell := hpub.cell other hother
        refine ⟨?_, by rw [hpub.selected, hpub.subs, hselected], .inr ?_⟩
        · rw [hpub.published, ← hepoch other hother, ← hcell]
          rfl
        · rw [hpub.subs, ← htag other hother, ← hcell]
          rfl
      · intro t u _ hst hmoved _ hu
        exact ih ((h.sees hst).relocked hmoved (by simp) (by simp) (by simp) (by simp)) hu

theorem publishedClasses_of_not_mem {target : String} {refreshed : Bool} {planned : List Planned} {cls : String}
    (h : cls ∉ planned.map (·.cls)) :
    (draft.publishedClasses target refreshed planned).cells cls = draft.cells cls := by
  induction planned generalizing draft with
  | nil => rfl
  | cons p planned ih =>
      simp only [List.map_cons, List.mem_cons, not_or] at h
      exact (ih h.2).trans (Function.update_of_ne h.1 _ _)

theorem publishedClasses_rest {target : String} {refreshed : Bool} {planned : List Planned} :
    (draft.publishedClasses target refreshed planned).subs = draft.subs ∧
      (draft.publishedClasses target refreshed planned).published = draft.published ∧
      (draft.publishedClasses target refreshed planned).pending = draft.pending ∧
      (draft.publishedClasses target refreshed planned).state.activeSubscription =
        draft.state.activeSubscription := by
  induction planned generalizing draft with
  | nil => exact ⟨rfl, rfl, rfl, rfl⟩
  | cons p planned ih => exact ih

/-- Every planned class has its new cell, if no class is planned twice. -/
theorem publishedClasses_mem {target : String} {refreshed : Bool} {planned : List Planned} {p : Planned}
    (hnodup : (planned.map (·.cls)).Nodup) (hp : p ∈ planned) :
    (draft.publishedClasses target refreshed planned).cells p.cls =
      (draft.cells p.cls).published p target refreshed (draft.published + 1) := by
  induction planned generalizing draft with
  | nil => cases hp
  | cons head planned ih =>
      rw [List.map_cons, List.nodup_cons] at hnodup
      rcases List.mem_cons.mp hp with rfl | hp
      · exact (publishedClasses_of_not_mem hnodup.1).trans (Function.update_self _ _ _)
      · have hne : p.cls ≠ head.cls := by
          rintro heq
          exact hnodup.1 (heq ▸ List.mem_map_of_mem hp)
        refine (ih hnodup.2 hp).trans ?_
        simp [Draft.publishedClass, Function.update_of_ne hne]

/-- Every class in order, under all the locks of a transaction. -/
structure Entered (env : Env) (i : Nat) (c : Core) : Prop extends Whole env i c where
  idle : c.Idle i
  ok : ∀ cls ∈ env.classes, ClassOk cls c

/-- A published class is in order. -/
theorem published_ok {c : Core} {p : Planned} {target : String} {refreshed : Bool} {epoch : Nat} {cell : Cell} {cs : ClassState}
    (hcell : c.cell p.cls = cell.published p target refreshed epoch) (hentry : cell.entry = some cs)
    (hnode : cs.activeNode = some p.active.node.name) (hgeneration : cs.generation = p.generation)
    (htarget : c.subscriptions.active = target) (hmember : p.active.node ∈ c.subscriptions.nodes) :
    ClassOk p.cls c := by
  have hruntime : c.runtime p.cls = ⟨some p.active, ⟨0, none⟩, 0⟩ := congrArg Cell.runtime hcell
  have hroute : c.route p.cls = _ := congrArg Cell.route hcell
  have hentry' : c.entry p.cls = _ := congrArg Cell.entry hcell
  have hhist : c.hist p.cls = _ := congrArg Cell.hist hcell
  simp only [Cell.published, hentry] at hroute hentry' hhist
  refine ⟨?_, ?_, ?_⟩
  · intro active hactive
    rw [hruntime] at hactive
    cases hactive
    refine ⟨?_, ?_, ?_, ?_, ?_, ⟨_, hentry', hnode, ?_⟩, hmember⟩
    all_goals rw [hroute]
    · exact htarget.symm
    · exact hgeneration
  · rw [hruntime, hhist]
    rfl
  · rw [hruntime]
    exact Nat.zero_le _

def startDraft (i : Nat) (c : Core) : Draft := 
  ⟨c.cell, c.state, c.subscriptions, c.published, c.files.window i, c.selected⟩

/-- What a publication has made of everything at its end. -/
def Draft.done (draft : Draft) (request : Request) (prepared : Sup.Prepared) : Draft :=
  (((draft.replaced prepared.next).publishedClasses request.target request.refreshed
    prepared.planned).publishedRuntime request.target prepared.nodes request.catalog).selecting request.target

theorem Draft.done_cell {request : Request} {prepared : Sup.Prepared} {c : Core}
    (h : prepared.Ok env request c) {p : Planned} (hp : p ∈ prepared.planned) :
    (draft.done request prepared).cells p.cls =
      ((draft.replaced prepared.next).cells p.cls).published p request.target request.refreshed
        (draft.published + 1) :=
  publishedClasses_mem (by rw [h.classes]; exact classes_nodup) hp

theorem Draft.done_rest {request : Request} {prepared : Sup.Prepared} :
    (draft.done request prepared).published = draft.published + 1 ∧
      (draft.done request prepared).pending = none ∧
      (draft.done request prepared).subs.active = request.target ∧
      (draft.done request prepared).subs.nodes = prepared.nodes ∧
      (draft.done request prepared).state.activeSubscription = prepared.next.activeSubscription ∧
      (draft.done request prepared).selected = some request.target := by
  obtain ⟨_, hpublished, hpending, hactive⟩ := @publishedClasses_rest (draft.replaced prepared.next)
    request.target request.refreshed prepared.planned
  exact ⟨congrArg (· + 1) hpublished, hpending, rfl, rfl, hactive, rfl⟩

/-- Every class is planned. -/
theorem Sup.Prepared.Ok.planned {request : Request} {prepared : Sup.Prepared} {c : Core}
    (h : prepared.Ok env request c) {cls : String} (hcls : cls ∈ env.classes) :
    ∃ p ∈ prepared.planned, p.cls = cls := by
  rw [← h.classes] at hcls
  simpa using hcls

/-- The end of a publication: all classes are in order and nothing is pending. -/
theorem Publishing.entered {request : Request} {prepared : Sup.Prepared} {c base : Core}
    (h : Publishing env i [] ((startDraft i base).done request prepared) c)
    (hprepared : prepared.Ok env request base) : Entered env i c where
  toWhole := h.toWhole
  idle := ⟨h.saves, h.pending.trans Draft.done_rest.2.1⟩
  ok cls hcls := by
    obtain ⟨p, hp, rfl⟩ := hprepared.planned hcls
    have hsubs := h.subs
    refine published_ok ((h.cell p.cls hcls).trans (Draft.done_cell hprepared hp)) (hprepared.entry p hp)
      rfl rfl ?_ ?_
    · rw [hsubs]
      exact Draft.done_rest.2.2.1
    · rw [hsubs, Draft.done_rest.2.2.2.1]
      exact hprepared.member p hp

theorem safe_publish {request : Request} {prepared : Sup.Prepared} (hw : Inv env w.core)
    (hwhole : Whole env i w.core) (hsaves : w.core.files.saves i = none)
    (hok : ∀ cls ∈ env.classes, ClassOk cls w.core) (hprepared : prepared.Ok env request w.core) :
    SafeFrom env i (fun _ v => Entered env i v)
      (Sup.publish env i request prepared.nodes prepared.planned prepared.cloned prepared.next) w := by
  have hnodup : (prepared.planned.map (·.cls)).Nodup := by
    rw [hprepared.classes]
    exact classes_nodup
  have hstart : Publishing env i [] (startDraft i w.core) w.core :=
    ⟨hwhole, by simp, hsaves, fun _ _ => rfl, rfl, rfl, rfl, rfl, rfl⟩
  have hready : ∀ p ∈ prepared.planned,
      ((startDraft i w.core).replaced prepared.next).Ready env request.refreshed p := by
    intro p hp
    have hcls : p.cls ∈ env.classes := by
      rw [← hprepared.classes]
      exact List.mem_map_of_mem hp
    exact ⟨hcls, fun hrefreshed => hprepared.eligible hrefreshed p hp, (hok p.cls hcls).last,
      hprepared.generation p hp⟩
  rw [Sup.publish]
  refine safe_lockRoutes [] hstart hw fun u hu hpub => ?_
  refine safe_acquireWrite ⟨fun hn => (nomatch hn), fun _ => hpub.saves⟩ ?_
  intro s t _ hus _ hst hmutex ht
  have hpub : Publishing env i (publishLocks env) (startDraft i w.core) t.core :=
    (hpub.sees hus).relocked hst (by simp) (by simp) (by simp) <| by
      refine List.forall_mem_cons.mpr ⟨hmutex, fun name hname => ?_⟩
      obtain ⟨cls, _, rfl⟩ := List.mem_map.mp hname
      rw [hst.others _ _ (.inl (by simp))]
      exact (hpub.sees hus).held _ hname
  obtain ⟨fresh, committedSlot, hnext⟩ := hprepared.next
  have hfact : Replacement.Fact env ⟨prepared.cloned, w.core.state, prepared.next⟩ :=
    ⟨hprepared.cloned, request, fresh, committedSlot, prepared.planned, prepared.now, hnext⟩
  refine safe_replaceState hpub hfact fun u hu hpub => ?_
  refine safe_publishClasses hpub hu hnodup hready fun old u _ hpub => ?_
  refine safe_publishRuntime hpub fun u _ hpub => ?_
  refine safe_selectSubscription hpub rfl ?_ fun u _ hpub hbound => ?_
  · have hstate : ((startDraft i w.core).done request prepared).state.activeSubscription = _ :=
      Draft.done_rest.2.2.2.2.1
    exact hstate.trans hprepared.active
  refine safe_release ⟨fun hn => (nomatch hn), fun _ => hpub.saves⟩ ?_ ?_ (fun _ _ => hbound) ?_
  · exact fun _ _ _ _ hn => nomatch hn
  · exact fun _ _ _ _ hn => nomatch hn
  · intro x y _ hux hxy _ hy
    have hpub : Publishing env i [] ((startDraft i w.core).done request prepared) y.core :=
      (hpub.sees hux).relocked hxy (by simp) (by simp) (by simp) (by simp)
    refine safe_releaseRoutes hpub hy (fun cls hcls => ?_) (fun cls hcls => ?_) ?_ fun z _ hpub => ?_
    · obtain ⟨p, hp, rfl⟩ := hprepared.planned hcls
      rw [Draft.done_cell hprepared hp, Draft.done_rest.1]
      rfl
    · obtain ⟨p, hp, rfl⟩ := hprepared.planned hcls
      rw [Draft.done_cell hprepared hp, Draft.done_rest.2.2.1]
      rfl
    · rw [Draft.done_rest.2.2.2.2.2, Draft.done_rest.2.2.1]
    · exact safe_pure fun _ hst => (hpub.sees hst).entered hprepared

end

end Causeway

import Causeway.Proof.Discipline

/-!
# Rules for single steps

One rule for every kind of step the operations are made of. A step that no thread's knowledge depends on keeps the anchor; taking and releasing a lock moves it, and the rule says what is known at the new one.
-/

namespace Causeway

open Concurrent History

/-- Everything that only grows. -/
structure Later (s t : Core) : Prop where
  published : s.published ≤ t.published
  hist : ∀ cls, s.hist cls <:+ t.hist cls

theorem Later.refl {s : Core} : Later s s := ⟨le_rfl, fun _ => List.suffix_rfl⟩

theorem Later.trans {s t u : Core} (h : Later s t) (g : Later t u) : Later s u :=
  ⟨h.published.trans g.published, fun cls => (h.hist cls).trans (g.hist cls)⟩

/-- What a thread still knows across its own saves: everything but its hold of the state mutex. -/
structure Stays (env : Env) (i : Nat) (s t : Core) : Prop extends Later s t where
  hold : ∀ name, name ≠ .state → t.hold i name = s.hold i name
  cell : ∀ cls ∈ env.classes, s.hold i (.cls cls) = .write → t.cell cls = s.cell cls
  subs : Pinned env i s → t.subscriptions = s.subscriptions ∧ t.published = s.published
  state : Whole env i s → t.state = s.state

section

variable {env : Env} {i j : Nat} {cls : String} {s t u : Core}

theorem Sees.later (h : Sees env i s t) : Later s t := ⟨h.published, h.hist⟩

theorem Sees.stays (h : Sees env i s t) : Stays env i s t :=
  ⟨h.later, fun name _ => h.hold name, h.cell, h.subs, h.state⟩

theorem Stays.refl : Stays env i s s := Sees.refl.stays

theorem Stays.pinned (h : Stays env i s t) (hs : Pinned env i s) : Pinned env i t := by
  unfold Pinned at hs ⊢
  rcases hs with hs | hs | ⟨cls, hcls, hs⟩
  · exact .inl (by rwa [h.hold _ (by simp)])
  · exact .inr (.inl (by rwa [h.hold _ (by simp)]))
  · exact .inr (.inr ⟨cls, hcls, by rwa [h.hold _ (by simp)]⟩)

theorem Stays.whole (h : Stays env i s t) (hs : Whole env i s) : Whole env i t :=
  ⟨(h.hold _ (by simp)).trans hs.txn, (h.hold _ (by simp)).trans hs.gate,
    fun cls hcls => (h.hold _ (by simp)).trans (hs.classes cls hcls)⟩

theorem Stays.trans (h : Stays env i s t) (g : Stays env i t u) : Stays env i s u where
  toLater := h.toLater.trans g.toLater
  hold name hname := (g.hold name hname).trans (h.hold name hname)
  cell cls hcls hw := (g.cell cls hcls (by rwa [h.hold _ (by simp)])).trans (h.cell cls hcls hw)
  subs hs :=
    ⟨(g.subs (h.pinned hs)).1.trans (h.subs hs).1, (g.subs (h.pinned hs)).2.trans (h.subs hs).2⟩
  state hs := (g.state (h.whole hs)).trans (h.state hs)

/-- What a thread still knows across its own saves while it keeps the state mutex. -/
structure StaysLocked (env : Env) (i : Nat) (s t : Core) : Prop extends Stays env i s t where
  mutex : t.hold i .state = s.hold i .state
  bound : s.hold i .state = .write → s.Bound → t.Bound

theorem Sees.staysLocked (h : Sees env i s t) : StaysLocked env i s t := ⟨h.stays, h.hold _, h.bound⟩

theorem StaysLocked.trans (h : StaysLocked env i s t) (g : StaysLocked env i t u) : StaysLocked env i s u :=
  ⟨h.toStays.trans g.toStays, g.mutex.trans h.mutex, fun hs hb => g.bound (h.mutex.trans hs) (h.bound hs hb)⟩

theorem Sees.idle (h : Sees env i s t) (hs : s.Idle i) : t.Idle i :=
  ⟨h.save.trans hs.1, h.window.trans hs.2⟩

theorem pinned_of_read (h : s.hold i .reconfiguration = .read) : Pinned env i s := .inl (by simp [h])

theorem Whole.pinned (h : Whole env i s) : Pinned env i s := .inl (by simp [h.gate])

theorem Whole.not_pinned (h : Whole env i s) (hj : j ≠ i) : ¬ Pinned env j s := by
  rintro (hgate | htxn | ⟨cls, hcls, hhold⟩)
  · exact hgate (Lock.hold_of_write h.gate hj)
  · exact hj (Lock.write_unique htxn h.txn)
  · exact hj (Lock.write_unique hhold (h.classes cls hcls))

/-! ### Classes in order -/

theorem Core.cell_runtime (h : t.cell cls = s.cell cls) : t.runtime cls = s.runtime cls :=
  congrArg Cell.runtime h

theorem Core.cell_route (h : t.cell cls = s.cell cls) : t.route cls = s.route cls :=
  congrArg Cell.route h

theorem Core.cell_entry (h : t.cell cls = s.cell cls) : t.entry cls = s.entry cls :=
  congrArg Cell.entry h

theorem Core.cell_hist (h : t.cell cls = s.cell cls) : t.hist cls = s.hist cls :=
  congrArg Cell.hist h

theorem Shown.congr {active : ActiveNode} (h : Shown cls active s) (hroute : t.route cls = s.route cls)
    (hentry : t.entry cls = s.entry cls) (hsubs : t.subscriptions = s.subscriptions) :
    Shown cls active t :=
  ⟨hroute ▸ h.nodeName, hroute ▸ h.socks, hroute ▸ h.http, hroute ▸ h.connections,
    by rw [hroute, hsubs]; exact h.subscription, by rw [hroute, hentry]; exact h.entry,
    hsubs ▸ h.member⟩

theorem ClassOk.kept (h : ClassOk cls s) (hactive : (t.runtime cls).active = (s.runtime cls).active)
    (hroute : t.route cls = s.route cls) (hentry : t.entry cls = s.entry cls)
    (hsubs : t.subscriptions = s.subscriptions)
    (hlast : lastActive (t.hist cls) = lastActive (s.hist cls))
    (hstreak : (t.runtime cls).healthFailures ≤ History.streak (t.hist cls)) : ClassOk cls t := by
  refine ⟨?_, ?_, hstreak⟩
  · intro active hactive'
    rw [hactive] at hactive'
    exact (h.shown active hactive').congr hroute hentry hsubs
  · rw [hactive, hlast]
    exact h.last

theorem ClassOk.congr (h : ClassOk cls s) (hcell : t.cell cls = s.cell cls)
    (hsubs : t.subscriptions = s.subscriptions) : ClassOk cls t := by
  have hruntime := Core.cell_runtime hcell
  have hhist := Core.cell_hist hcell
  refine h.kept (by rw [hruntime]) (Core.cell_route hcell) (Core.cell_entry hcell) hsubs (by rw [hhist]) ?_
  rw [hruntime, hhist]
  exact h.streak

/-- Thread `i` holds the class and finds it in order. -/
structure InClass (env : Env) (i : Nat) (cls : String) (c : Core) : Prop where
  mem : cls ∈ env.classes
  hold : c.hold i (.cls cls) = .write
  ok : ClassOk cls c

theorem InClass.pinned (h : InClass env i cls s) : Pinned env i s := .inr (.inr ⟨cls, h.mem, h.hold⟩)

theorem InClass.stays (h : InClass env i cls s) (hst : Stays env i s t) : InClass env i cls t :=
  ⟨h.mem, by rw [hst.hold _ (by simp)]; exact h.hold,
    h.ok.congr (hst.cell cls h.mem h.hold) (hst.subs h.pinned).1⟩

theorem InClass.sees (h : InClass env i cls s) (hst : Sees env i s t) : InClass env i cls t :=
  h.stays hst.stays

/-! ### Steps on the parts nobody's knowledge depends on -/

/-- Only jobs, reads, the log, the stamps, counted traffic and what the state says of nodes and sites differ; while the state is written, a reader of the gate keeps transactions out. -/
structure Unseen (s t : Core) : Prop where
  same : t = { s with
    state := t.state, ledger := t.ledger, jobs := t.jobs, reads := t.reads, log := t.log, stamps := t.stamps }
  classes : t.state.classes = s.state.classes
  active : t.state.activeSubscription = s.state.activeSubscription
  state : t.state = s.state ∨ ∃ k, s.hold k .reconfiguration = .read
  books : Books s.selected s.ledger s.selected t.ledger

/-- Such a step that leaves the state alone. -/
theorem Unseen.of_same (h : t = { s with jobs := t.jobs, reads := t.reads, log := t.log, stamps := t.stamps }) :
    Unseen s t := by
  rw [h]
  exact ⟨rfl, rfl, rfl, .inl rfl, .still⟩

theorem Unseen.of_eq (h : t = s) : Unseen s t := by
  rw [h]
  exact ⟨rfl, rfl, rfl, .inl rfl, .still⟩

theorem Unseen.hold (h : Unseen s t) (k : Nat) (name : LockName) : t.hold k name = s.hold k name := by
  rw [h.same]
  rfl

theorem Unseen.subscriptions (h : Unseen s t) : t.subscriptions = s.subscriptions := by
  rw [h.same]

theorem Unseen.selected (h : Unseen s t) : t.selected = s.selected := by
  rw [h.same]

theorem Unseen.cell (h : Unseen s t) (cls : String) : t.cell cls = s.cell cls := by
  have hentry : t.entry cls = s.entry cls := by rw [Core.entry, Core.entry, h.classes]
  rw [Core.cell, Core.cell, hentry, h.same]

theorem Unseen.bound (h : Unseen s t) (hs : s.Bound) : t.Bound := by
  refine ⟨?_, ?_⟩
  · rw [h.active, h.subscriptions]
    exact hs.state
  · rw [h.same]
    exact hs.traffic

theorem Unseen.sees (h : Unseen s t) : Sees env j s t where
  hold := h.hold j
  cell cls _ _ := h.cell cls
  subs _ := ⟨h.subscriptions, by rw [h.same]⟩
  published := by rw [h.same]
  era _ := h.subscriptions
  state hwhole := h.state.resolve_right fun ⟨_, hread⟩ => Lock.read_write hread hwhole.gate
  bound _ := h.bound
  hist cls := by rw [h.same]
  save := by rw [h.same]
  window := by rw [h.same]
  counted _ := h.selected
  selections := h.books.selections.1
  selected _ := h.selected

theorem Unseen.guar (h : Unseen s t) : Guar env i s t where
  others _ _ := h.sees
  files := .still (by rw [h.same]) (.inl (h.hold _ _)) (.inl (h.hold _ _))
  routes cls := .inl ⟨Core.cell_route (h.cell cls), by rw [Core.cell_hist (h.cell cls)]⟩
  replaces := .inl (by rw [h.same])
  selects := .inl h.selected
  books := by
    rw [h.selected]
    exact h.books

/-- The parts of the invariant that such a step must show again. -/
theorem Inv.unseen (hs : Inv env s) (h : Unseen s t)
    (hreads : t.reads.Pairwise (fun later earlier => earlier.2 ≤ later.2) ∧
      ∀ r ∈ t.reads, r.2 ≤ s.published)
    (hlog : ∀ obs ∈ t.log, obs.Fact)
    (hstamps : ∀ site node stamp, t.stamps site node = some stamp → stamp.Fact s.published)
    (hjobs : ∀ job ∈ t.jobs, job.Fact s.published) : Inv env t := by
  have hfree : ∀ {name}, t.Free name → s.Free name := fun ht k => h.hold k _ ▸ ht k
  have hsettled : ∀ cls ∈ env.classes, t.Free (.cls cls) → ClassOk cls t := fun cls hcls ht =>
    (hs.settled cls hcls (hfree ht)).congr (h.cell cls) h.subscriptions
  have hbound : t.Free .state → t.Bound := fun ht => h.bound (hs.bound (hfree ht))
  have hepochs : ∀ cls ∈ env.classes, t.Free (.route cls) → UpToDate cls t := fun cls hcls ht =>
    (hs.epochs cls hcls (hfree ht)).congr (h.cell cls) h.subscriptions (by rw [h.same]) h.selected
  have hsame := h.same
  rw [hsame] at hsettled hbound hepochs ⊢
  exact ⟨hsettled, hs.route, hs.count, hs.history, hs.era, hepochs, hreads, hlog, hstamps, hjobs, hbound,
    hs.replaced⟩

theorem Inv.note (hs : Inv env s) {obs : Obs} (h : obs.Fact) : Inv env { s with log := obs :: s.log } :=
  hs.unseen (.of_same rfl) hs.reads (List.forall_mem_cons.mpr ⟨h, hs.log⟩) hs.stamps hs.jobs

end

/-! ### Rules -/

section

variable {env : Env} {i : Nat} {α β : Type} {post : β → Core → Prop} {w : World}

/-- No program undoes what only grows. -/
theorem SafeFrom.later {p : Sup β} (h : SafeFrom env i post p w) :
    SafeFrom env i (fun a v => post a v ∧ Later w.core v) p w := by
  refine @Discipline.Safe.grows World Outside β (discipline env) i _ w (fun s t => Later s.core t.core)
    ?_ ?_ ?_ p h
  · exact fun hst htu => hst.trans htu
  · exact fun hst => Sees.later hst
  · exact fun hguar => hguar.sees.later

theorem safe_pure {value : β} (h : ∀ t : World, Sees env i w.core t.core → post value t.core) :
    SafeFrom env i post (pure value) w :=
  Discipline.Safe.pure fun t _ hst => h t hst

theorem safe_unseen {act : Outside → World → Option (α × World)} {k : α → Sup β} (R : α → Prop)
    (hact : ∀ o (t u : World) b, act o t = some (b, u) → Inv env t.core → Sees env i w.core t.core →
      Unseen t.core u.core ∧ Inv env u.core ∧ R b)
    (hk : ∀ b, R b → SafeFrom env i post (k b) w) : SafeFrom env i post (Prog.atomic act >>= k) w := by
  refine Discipline.Safe.quiet (R := R) ?_ hk
  intro t ht hst o b u h
  obtain ⟨hunseen, hu, hb⟩ := hact o t u b h ht hst
  exact ⟨hu, hunseen.guar, hunseen.sees, hb⟩

theorem safe_wait {act : Outside → World → Option (α × World)} {k : α → Sup β}
    (hact : ∀ o (t u : World) b, act o t = some (b, u) → u.core = t.core)
    (hk : ∀ b, SafeFrom env i post (k b) w) : SafeFrom env i post (Prog.atomic act >>= k) w := by
  refine safe_unseen (fun _ => True) ?_ fun b _ => hk b
  intro o t u b h ht _
  have hsame := hact o t u b h
  exact ⟨.of_eq hsame, hsame.symm ▸ ht, trivial⟩

theorem safe_act_same {f : Outside → World → α × World} {k : α → Sup β}
    (hf : ∀ o t, (f o t).2.core = t.core)
    (hk : ∀ o (t : World), Inv env t.core → Sees env i w.core t.core →
      SafeFrom env i post (k (f o t).1) w) : SafeFrom env i post (Sup.act f >>= k) w := by
  refine safe_unseen (fun b => SafeFrom env i post (k b) w) ?_ fun b hb => hb
  intro o t u b h ht hst
  obtain ⟨rfl, rfl⟩ := Prod.mk.inj (Option.some.inj h)
  exact ⟨.of_eq (hf o t), (hf o t).symm ▸ ht, hk o t ht hst⟩

theorem safe_modify_same {f : World → World} {k : Unit → Sup β} (hf : ∀ t, (f t).core = t.core)
    (hk : SafeFrom env i post (k ()) w) : SafeFrom env i post (Sup.modify f >>= k) w :=
  safe_act_same (fun _ t => hf t) fun _ _ _ _ => hk

theorem safe_look {f : World → α} {k : α → Sup β}
    (hk : ∀ t : World, Inv env t.core → Sees env i w.core t.core → SafeFrom env i post (k (f t)) w) :
    SafeFrom env i post (Sup.look f >>= k) w :=
  safe_act_same (fun _ _ => rfl) fun _ t ht hst => hk t ht hst

theorem safe_lookHere {f : World → α} {k : α → Sup β}
    (hk : ∀ t : World, Inv env t.core → Sees env i w.core t.core → SafeFrom env i post (k (f t)) t) :
    SafeFrom env i post (Sup.look f >>= k) w := by
  refine Discipline.Safe.atomic fun t ht hst o b u h => ?_
  obtain ⟨rfl, rfl⟩ := Prod.mk.inj (Option.some.inj h)
  exact ⟨ht, .refl, hk t ht hst⟩

theorem safe_ask {f : Outside → α} {k : α → Sup β} (hk : ∀ b, SafeFrom env i post (k b) w) :
    SafeFrom env i post (Sup.ask f >>= k) w :=
  safe_act_same (fun _ _ => rfl) fun o _ _ _ => hk (f o)

theorem safe_pushEvent {f : Outside → Event} {k : Unit → Sup β} (hk : SafeFrom env i post (k ()) w) :
    SafeFrom env i post (Sup.pushEvent f >>= k) w :=
  safe_act_same (fun _ _ => rfl) fun _ _ _ _ => hk

theorem safe_stopPlane {id : Nat} {k : Unit → Sup β} (hk : SafeFrom env i post (k ()) w) :
    SafeFrom env i post (Sup.stopPlane id >>= k) w :=
  safe_modify_same (fun _ => rfl) hk

/-- A section under the state mutex that a reader of the gate runs, on what the state says of nodes and sites. -/
theorem safe_lockState {f : Outside → StateFile → α × StateFile} {k : α → Sup β}
    (hgate : w.core.hold i .reconfiguration = .read) (hf : ∀ o st, (f o st).2.classes = st.classes)
    (hactive : ∀ o st, (f o st).2.activeSubscription = st.activeSubscription)
    (hk : ∀ o st, SafeFrom env i post (k (f o st).1) w) :
    SafeFrom env i post (Sup.lockState f >>= k) w := by
  refine safe_unseen (fun b => SafeFrom env i post (k b) w) ?_ fun b hb => hb
  intro o t u b h ht hst
  split at h
  · obtain ⟨rfl, rfl⟩ := Prod.mk.inj (Option.some.inj h)
    have hunseen : Unseen t.core (World.core { t with state := (f o t.state).2 }) :=
      ⟨rfl, hf o t.state, hactive o t.state, .inr ⟨i, (hst.hold _).trans hgate⟩, .still⟩
    exact ⟨hunseen, ht.unseen hunseen ht.reads ht.log ht.stamps ht.jobs, hk o t.state⟩
  · cases h

theorem safe_readHere {f : StateFile → α} {k : α → Sup β}
    (hk : ∀ t : World, Inv env t.core → Sees env i w.core t.core → t.locks .state = .free →
      SafeFrom env i post (k (f t.state)) t) :
    SafeFrom env i post (Sup.readState f >>= k) w := by
  refine Discipline.Safe.atomic fun t ht hst o b u h => ?_
  split at h
  · obtain ⟨rfl, rfl⟩ := Prod.mk.inj (Option.some.inj h)
    exact ⟨ht, .refl, hk t ht hst ‹_›⟩
  · cases h

theorem safe_readState {f : StateFile → α} {k : α → Sup β}
    (hk : ∀ st, SafeFrom env i post (k (f st)) w) : SafeFrom env i post (Sup.readState f >>= k) w := by
  refine safe_unseen (fun b => SafeFrom env i post (k b) w) ?_ fun b hb => hb
  intro o t u b h ht _
  split at h
  · obtain ⟨rfl, rfl⟩ := Prod.mk.inj (Option.some.inj h)
    exact ⟨.of_eq rfl, ht, hk t.state⟩
  · cases h

theorem safe_observe {f : World → α × Obs} {k : α → Sup β}
    (hf : ∀ t : World, Inv env t.core → Sees env i w.core t.core → (f t).2.Fact)
    (hk : ∀ t : World, Inv env t.core → Sees env i w.core t.core → SafeFrom env i post (k (f t).1) w) :
    SafeFrom env i post (Sup.observe f >>= k) w := by
  refine safe_unseen (fun b => SafeFrom env i post (k b) w) ?_ fun b hb => hb
  intro o t u b h ht hst
  obtain ⟨rfl, rfl⟩ := Prod.mk.inj (Option.some.inj h)
  exact ⟨.of_same rfl, ht.note (hf t ht hst), hk t ht hst⟩

theorem safe_scheduleDrain {old : ActiveNode} {k : Unit → Sup β} (hk : SafeFrom env i post (k ()) w) :
    SafeFrom env i post (Sup.scheduleDrain old >>= k) w := by
  refine safe_unseen (fun _ => True) ?_ fun _ _ => hk
  intro o t u b h ht _
  obtain ⟨rfl, rfl⟩ := Prod.mk.inj (Option.some.inj h)
  refine ⟨.of_same rfl, ht.unseen (.of_same rfl) ht.reads ht.log ht.stamps ?_, trivial⟩
  exact List.forall_mem_append.mpr ⟨ht.jobs, by simp [Job.Fact]⟩

/-! ### Locks -/

/-- The core after thread `i` changed its hold of one lock. -/
structure Relocked (i : Nat) (name : LockName) (s t : Core) : Prop where
  same : t = { s with locks := t.locks }
  others : ∀ j n, n ≠ name ∨ j ≠ i → t.hold j n = s.hold j n

theorem Relocked.later {name : LockName} {s t : Core} (h : Relocked i name s t) : Later s t := by
  rw [h.same]
  exact ⟨le_rfl, fun _ => List.suffix_rfl⟩

theorem Relocked.cell {name : LockName} {s t : Core} (h : Relocked i name s t) (cls : String) :
    t.cell cls = s.cell cls := by
  rw [h.same]
  rfl

theorem Relocked.subscriptions {name : LockName} {s t : Core} (h : Relocked i name s t) :
    t.subscriptions = s.subscriptions := by
  rw [h.same]

theorem Relocked.published {name : LockName} {s t : Core} (h : Relocked i name s t) :
    t.published = s.published := by
  rw [h.same]

theorem Relocked.state {name : LockName} {s t : Core} (h : Relocked i name s t) : t.state = s.state := by
  rw [h.same]

theorem Relocked.bound {name : LockName} {s t : Core} (h : Relocked i name s t) (hs : s.Bound) : t.Bound := by
  rw [h.same]
  exact ⟨hs.state, hs.traffic⟩

theorem Relocked.sees {name : LockName} {j : Nat} {s t : Core} (h : Relocked i name s t) (hj : j ≠ i) :
    Sees env j s t where
  hold n := h.others j n (.inr hj)
  cell cls _ _ := h.cell cls
  subs _ := ⟨h.subscriptions, h.published⟩
  published := h.published.ge
  era _ := h.subscriptions
  state _ := h.state
  bound _ := h.bound
  hist := h.later.hist
  save := by rw [h.same]
  window := by rw [h.same]
  counted _ := by rw [h.same]
  selections := by rw [h.same]
  selected _ := by rw [h.same]

theorem Relocked.stays {s t : Core} (h : Relocked i .state s t) : Stays env i s t where
  toLater := h.later
  hold name hname := h.others i name (.inl hname)
  cell cls _ _ := h.cell cls
  subs _ := ⟨h.subscriptions, h.published⟩
  state _ := h.state

theorem Relocked.idle {name : LockName} {s t : Core} {j : Nat} (h : Relocked i name s t) (hs : s.Idle j) :
    t.Idle j := by
  rw [h.same]
  exact hs

theorem Relocked.inClass {name : LockName} {cls : String} {s t : Core} (h : Relocked i name s t)
    (hname : name ≠ .cls cls) (hs : InClass env i cls s) : InClass env i cls t :=
  ⟨hs.mem, by rw [h.others i _ (.inl (Ne.symm hname))]; exact hs.hold,
    hs.ok.congr (h.cell cls) h.subscriptions⟩

/-- The invariant after a lock changed hands, if what became free is in order. -/
theorem Relocked.inv {name : LockName} {s t : Core} (h : Relocked i name s t) (hs : Inv env s)
    (hcls : ∀ cls ∈ env.classes, name = .cls cls → t.Free name → ClassOk cls s)
    (hroute : ∀ cls ∈ env.classes, name = .route cls → t.Free name → UpToDate cls s)
    (hbound : name = .state → t.Free name → s.Bound) : Inv env t := by
  have hfree : ∀ n, n ≠ name → t.Free n → s.Free n := fun n hn ht j => by
    rw [← h.others j n (.inl hn)]
    exact ht j
  have hsettled : ∀ cls ∈ env.classes, t.Free (.cls cls) → ClassOk cls t := by
    intro cls hmem ht
    refine ClassOk.congr ?_ (h.cell cls) h.subscriptions
    by_cases hn : LockName.cls cls = name
    · exact hcls cls hmem hn.symm (hn ▸ ht)
    · exact hs.settled cls hmem (hfree _ hn ht)
  have hepochs : ∀ cls ∈ env.classes, t.Free (.route cls) → UpToDate cls t := by
    intro cls hmem ht
    refine UpToDate.congr ?_ (h.cell cls) h.subscriptions h.published (by rw [h.same])
    by_cases hn : LockName.route cls = name
    · exact hroute cls hmem hn.symm (hn ▸ ht)
    · exact hs.epochs cls hmem (hfree _ hn ht)
  have hstate : t.Free .state → t.Bound := by
    intro ht
    by_cases hn : LockName.state = name
    · exact h.bound (hbound hn.symm (hn ▸ ht))
    · exact h.bound (hs.bound (hfree _ hn ht))
  rw [h.same] at hsettled hepochs hstate ⊢
  exact ⟨hsettled, hs.route, hs.count, hs.history, hs.era, hepochs, hs.reads, hs.log, hs.stamps, hs.jobs,
    hstate, hs.replaced⟩

theorem Relocked.guar {name : LockName} {s t : Core} (h : Relocked i name s t)
    (hgate : name = .reconfiguration → s.Idle i) (hstate : name = .state → s.files.saves i = none) :
    Guar env i s t where
  others _ hj := h.sees hj
  files := by
    refine .still (by rw [h.same]) ?_ ?_
    · by_cases hn : LockName.reconfiguration = name
      · exact .inr (hgate hn.symm)
      · exact .inl (h.others i _ (.inl hn))
    · by_cases hn : LockName.state = name
      · exact .inr (hstate hn.symm)
      · exact .inl (h.others i _ (.inl hn))
  routes cls := .inl ⟨Core.cell_route (h.cell cls), by rw [Core.cell_hist (h.cell cls)]⟩
  replaces := .inl (by rw [h.same])
  selects := .inl (by rw [h.same])
  books := by
    rw [h.same]
    exact .still

/-- Replacing one lock by one that only thread `i` sees differently. -/
theorem relocked_update {name : LockName} {lock : Lock} {t : World}
    (h : ∀ j, j ≠ i → lock.hold j = t.core.hold j name) :
    Relocked i name t.core (World.core { t with locks := Function.update t.locks name lock }) := by
  refine ⟨rfl, fun j n hn => ?_⟩
  by_cases hname : n = name
  · subst hname
    have hj : j ≠ i := hn.resolve_left (by simp)
    simp only [Core.hold, World.core, Function.update_self]
    exact h j hj
  · simp [Core.hold, World.core, Function.update_of_ne hname]

end

end Causeway

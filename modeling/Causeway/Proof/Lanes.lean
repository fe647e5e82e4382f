import Causeway.Proof.Daemon
import Causeway.Proof.Keys

/-!
# The request lanes of the dashboard

What the dashboard does is judged by what it has done before: every deed is allowed by the deeds before it. One turn keeps that, whatever replies have arrived and whatever key was pressed.
-/

namespace Causeway

namespace Dashboard

/-! ### Deeds -/

/-- After such a deed, the answer to an older status request is of another world. -/
def Deed.supersedes : Deed → Bool
  | focused _ | submitted _ _ | answered _ => true
  | _ => false

/-- Such a deed takes the snapshot off the display. -/
def Deed.replaces : Deed → Bool
  | applied _ _ _ | offline | focused _ => true
  | _ => false

def focusOf (first : String) : List Deed → String
  | [] => first
  | .focused cls :: _ => cls
  | _ :: deeds => focusOf first deeds

/-- The status request was for this class, and nothing has superseded it. -/
def Current (rx : Nat) (cls : String) (deeds : List Deed) : Prop :=
  ∃ since before, deeds = since ++ .asked rx cls :: before ∧ ∀ deed ∈ since, deed.supersedes = false

/-- The snapshot is the last one that was applied, and it has not been replaced. -/
def OnDisplay (snapshot : StatusSnapshot) (deeds : List Deed) : Prop :=
  ∃ since before rx cls, deeds = since ++ .applied rx cls snapshot :: before ∧ ∀ deed ∈ since, deed.replaces = false

/-- Every lost outcome has been reconciled since. -/
def Resolved (deeds : List Deed) : Prop :=
  ∀ since rx before, deeds = since ++ .lost rx :: before → ∃ message, .reconciled message ∈ since

def AllAnswered (deeds : List Deed) : Prop := ∀ rx kind, .submitted rx kind ∈ deeds → .answered rx ∈ deeds

def MutationKind.isSubscription : MutationKind → Bool
  | subscriptionSwitch _ _ _ => true
  | _ => false

/-- What lets the dashboard switch the subscription. -/
structure Licensed (before : List Deed) : Prop where
  outcome : Resolved before
  display : ∃ snapshot, OnDisplay snapshot before ∧ authoritativeSubscriptionStatus snapshot = true ∧
    snapshot.subscriptionTxnInProgress = some false

/-- What must have gone before a deed. -/
def Deed.Allowed (first : String) (before : List Deed) : Deed → Prop
  | applied rx cls _ => cls = focusOf first before ∧ Current rx cls before
  | submitted rx kind =>
      AllAnswered before ∧ (∀ kind, .submitted rx kind ∉ before) ∧ .answered rx ∉ before ∧
        (kind.isSubscription = true → Licensed before)
  | answered rx => (∃ kind, .submitted rx kind ∈ before) ∧ .answered rx ∉ before
  | _ => True

/-- Every deed was allowed when it was done. -/
def Orderly (first : String) : List Deed → Prop
  | [] => True
  | deed :: before => deed.Allowed first before ∧ Orderly first before

section

variable {first cls : String} {deeds : List Deed} {deed : Deed} {rx : Nat} {snapshot : StatusSnapshot}

theorem Current.asked : Current rx cls (.asked rx cls :: deeds) := ⟨[], deeds, rfl, nofun⟩

theorem Current.cons (h : Current rx cls deeds) (hdeed : deed.supersedes = false) : Current rx cls (deed :: deeds) := by
  obtain ⟨since, before, rfl, hsince⟩ := h
  exact ⟨deed :: since, before, rfl, List.forall_mem_cons.mpr ⟨hdeed, hsince⟩⟩

theorem OnDisplay.applied : OnDisplay snapshot (.applied rx cls snapshot :: deeds) := ⟨[], deeds, rx, cls, rfl, nofun⟩

theorem OnDisplay.cons (h : OnDisplay snapshot deeds) (hdeed : deed.replaces = false) :
    OnDisplay snapshot (deed :: deeds) := by
  obtain ⟨since, before, rx, cls, rfl, hsince⟩ := h
  exact ⟨deed :: since, before, rx, cls, rfl, List.forall_mem_cons.mpr ⟨hdeed, hsince⟩⟩

theorem Resolved.cons (h : Resolved deeds) (hdeed : ∀ rx, deed ≠ .lost rx) : Resolved (deed :: deeds) := by
  intro since rx before heq
  cases since with
  | nil => exact absurd (List.cons.inj heq).1 (hdeed rx)
  | cons head since =>
      obtain ⟨message, hmessage⟩ := h since rx before (List.cons.inj heq).2
      exact ⟨message, List.mem_cons_of_mem _ hmessage⟩

theorem Resolved.reconciled {message : String} : Resolved (.reconciled message :: deeds) := by
  intro since rx before heq
  cases since with
  | nil => exact absurd (List.cons.inj heq).1 nofun
  | cons head since =>
      rw [← (List.cons.inj heq).1]
      exact ⟨message, List.mem_cons_self⟩

end

/-! ### What the lanes rest on -/

/-- The part of the dashboard that the lanes depend on. -/
structure Lanes where
  cls : String
  statusFlight : Option InFlight
  mutationFlight : Option InFlight
  epoch : UInt64
  spawned : Nat
  outcome : Option SubscriptionOutcomeUnknown
  /-- The snapshot on display, if it came from a daemon that answers. -/
  live : Option StatusSnapshot
  deeds : List Deed

def App.lanes (app : App) : Lanes where
  cls := app.cls
  statusFlight := app.statusFlight
  mutationFlight := app.mutationFlight
  epoch := app.epoch
  spawned := app.spawned
  outcome := app.subscriptionOutcomeUnknown
  live := if app.connected then app.snapshot else none
  deeds := app.deeds

/-- The status request on its way has not been superseded, or a mutation submitted after it is still running. -/
def StatusOk (l : Lanes) (f : InFlight) : Prop :=
  f.cls = l.cls ∧
    (f.epoch = l.epoch ∧ Current f.rx f.cls l.deeds ∨ f.epoch + 1 = l.epoch ∧ l.mutationFlight.isSome)

/-- The mutation on its way, submitted and not answered. -/
def MutationOk (l : Lanes) (f : InFlight) : Prop :=
  f.cls = l.cls ∧ ∃ kind, f.kind = some kind ∧ .submitted f.rx kind ∈ l.deeds ∧ .answered f.rx ∉ l.deeds ∧
    (kind.isSubscription = true → Resolved l.deeds)

/-- A mutation that is not answered is on its way. -/
def Waiting (l : Lanes) : Prop :=
  ∀ rx kind, .submitted rx kind ∈ l.deeds → .answered rx ∈ l.deeds ∨ ∃ f, l.mutationFlight = some f ∧ f.rx = rx

structure Lanes.Ok (first : String) (l : Lanes) : Prop where
  orderly : Orderly first l.deeds
  focus : l.cls = focusOf first l.deeds
  status : ∀ f, l.statusFlight = some f → StatusOk l f
  mutation : ∀ f, l.mutationFlight = some f → MutationOk l f
  waiting : Waiting l
  fresh : ∀ rx, l.spawned ≤ rx → (∀ kind, .submitted rx kind ∉ l.deeds) ∧ .answered rx ∉ l.deeds
  display : ∀ snapshot, l.live = some snapshot → OnDisplay snapshot l.deeds
  outcome : l.outcome = none → Resolved l.deeds

/-! ### What one step does to the lanes -/

/-- The profile and the generation that a subscription request names are those of the snapshot. -/
def MutationKind.BasedOn (snapshot : StatusSnapshot) : MutationKind → Prop
  | subscriptionSwitch previous _ generationBefore =>
      snapshot.activeSubscription = some previous ∧ snapshot.subscriptionGeneration = some generationBefore
  | _ => True

namespace Lanes

variable (l : Lanes)

def ask : Lanes := { l with
  spawned := l.spawned + 1
  statusFlight := some { kind := none, cls := l.cls, epoch := l.epoch, rx := l.spawned }
  deeds := .asked l.spawned l.cls :: l.deeds }

/-- A snapshot may tell what became of a request whose outcome is not known. -/
def reconcile (snapshot : StatusSnapshot) : Lanes :=
  match l.outcome.bind fun pending => reconciliation pending snapshot with
  | none => l
  | some message => { l with outcome := none, deeds := .reconciled message :: l.deeds }

def present (rx : Nat) (snapshot : StatusSnapshot) : Lanes := { l.reconcile snapshot with
  statusFlight := none
  live := some snapshot
  deeds := .applied rx l.cls snapshot :: (l.reconcile snapshot).deeds }

/-- Nothing live is on display. -/
def hide : Lanes := { l with statusFlight := none, live := none, deeds := .offline :: l.deeds }

def submit (kind : MutationKind) : Lanes := { l with
  spawned := l.spawned + 1
  epoch := l.epoch + 1
  mutationFlight := some { kind := some kind, cls := l.cls, epoch := l.epoch + 1, rx := l.spawned }
  deeds := .submitted l.spawned kind :: l.deeds }

def answer (rx : Nat) : Lanes := { l with
  statusFlight := none
  mutationFlight := none
  epoch := l.epoch + 1
  deeds := .answered rx :: l.deeds }

/-- The outcome of the request just answered is not known. -/
def lose (rx : Nat) (pending : SubscriptionOutcomeUnknown) : Lanes :=
  { l with outcome := some pending, deeds := .lost rx :: l.deeds }

def focus (cls : String) : Lanes := { l with
  cls := cls
  statusFlight := none
  epoch := l.epoch + 1
  live := none
  deeds := .focused cls :: l.deeds }

@[simp] theorem deeds_hide : l.hide.deeds = .offline :: l.deeds := rfl

@[simp] theorem deeds_submit (kind : MutationKind) : (l.submit kind).deeds = .submitted l.spawned kind :: l.deeds := rfl

@[simp] theorem deeds_answer (rx : Nat) : (l.answer rx).deeds = .answered rx :: l.deeds := rfl

@[simp] theorem deeds_lose (rx : Nat) (pending : SubscriptionOutcomeUnknown) :
    (l.lose rx pending).deeds = .lost rx :: l.deeds := rfl

@[simp] theorem deeds_focus (cls : String) : (l.focus cls).deeds = .focused cls :: l.deeds := rfl

/-- What lets a subscription request be submitted: no outcome is unknown, and it names what is on display. -/
def Licenses (kind : MutationKind) : Prop :=
  l.outcome = none ∧ ∃ snapshot, l.live = some snapshot ∧ authoritativeSubscriptionStatus snapshot = true ∧
    snapshot.subscriptionTxnInProgress = some false ∧ kind.BasedOn snapshot

/-- The steps that a turn with these arrivals is made of. -/
inductive Step (arrivals : Nat → Arrival) : Lanes → Prop
  | spawn : Step arrivals { l with spawned := l.spawned + 1 }
  | ask : Step arrivals l.ask
  | drop : Step arrivals { l with statusFlight := none }
  | present {f : InFlight} {reply : Reply} {snapshot : StatusSnapshot} (flight : l.statusFlight = some f)
      (focus : f.cls = l.cls) (epoch : f.epoch = l.epoch) (arrived : arrivals f.rx = .received (.ok reply))
      (status : reply.status = some snapshot) : Step arrivals (l.present f.rx snapshot)
  | hide : Step arrivals l.hide
  | submit {kind : MutationKind} (idle : l.mutationFlight = none)
      (licensed : kind.isSubscription = true → l.Licenses kind) : Step arrivals (l.submit kind)
  /-- A reply about another class; there is none. -/
  | stray {f : InFlight} (flight : l.mutationFlight = some f) (stray : f.cls = l.cls → f.kind = none) :
      Step arrivals { l with mutationFlight := none }
  | answer {f : InFlight} (flight : l.mutationFlight = some f) : Step arrivals (l.answer f.rx)
  | succeed {f : InFlight} {kind : MutationKind} (flight : l.mutationFlight = some f) (about : f.kind = some kind)
      (subscription : kind.isSubscription = true) : Step arrivals { l.answer f.rx with outcome := none }
  | lose {f : InFlight} {previous requested : String} {generationBefore : UInt64} (flight : l.mutationFlight = some f)
      (about : f.kind = some (.subscriptionSwitch previous requested generationBefore)) :
      Step arrivals ((l.answer f.rx).lose f.rx ⟨previous, requested, generationBefore⟩)
  | focus {cls : String} (idle : l.mutationFlight = none) : Step arrivals (l.focus cls)

def Steps (arrivals : Nat → Arrival) : Lanes → Lanes → Prop := Relation.ReflTransGen (Step · arrivals)

end Lanes

/-! ### Every step keeps the lanes in order -/

namespace Lanes

variable {first : String} {l m : Lanes} {arrivals : Nat → Arrival}

/-- A deed that no lane depends on. -/
theorem Ok.note (h : l.Ok first) {deed : Deed} (hallowed : deed.Allowed first l.deeds)
    (hfocus : ∀ cls, deed ≠ .focused cls) (hcurrent : deed.supersedes = false) (hlost : ∀ rx, deed ≠ .lost rx)
    (hdisplay : deed.replaces = false) : Ok first { l with deeds := deed :: l.deeds } where
  orderly := ⟨hallowed, h.orderly⟩
  focus := by
    rw [h.focus]
    cases deed <;> first | rfl | exact absurd rfl (hfocus _)
  status f hf := by
    obtain ⟨hcls, hepoch⟩ := h.status f hf
    exact ⟨hcls, hepoch.imp_left fun ⟨hepoch, hcur⟩ => ⟨hepoch, hcur.cons hcurrent⟩⟩
  mutation f hf := by
    obtain ⟨hcls, kind, hkind, hsubmitted, hanswered, hresolved⟩ := h.mutation f hf
    refine ⟨hcls, kind, hkind, List.mem_cons_of_mem _ hsubmitted, ?_, fun hs => (hresolved hs).cons hlost⟩
    simp only [List.mem_cons, not_or]
    exact ⟨fun heq => by simp [← heq, Deed.supersedes] at hcurrent, hanswered⟩
  waiting rx kind hmem := by
    have hold : .submitted rx kind ∈ l.deeds := by
      rcases List.mem_cons.mp hmem with heq | hold
      · simp [← heq, Deed.supersedes] at hcurrent
      · exact hold
    exact (h.waiting rx kind hold).imp_left (List.mem_cons_of_mem _)
  fresh rx hrx := by
    obtain ⟨hsubmitted, hanswered⟩ := h.fresh rx hrx
    simp only [List.mem_cons, not_or]
    exact ⟨fun kind => ⟨fun heq => by simp [← heq, Deed.supersedes] at hcurrent, hsubmitted kind⟩,
      fun heq => by simp [← heq, Deed.supersedes] at hcurrent, hanswered⟩
  display snapshot hs := (h.display snapshot hs).cons hdisplay
  outcome ho := (h.outcome ho).cons hlost

theorem Ok.spawn (h : l.Ok first) : Ok first { l with spawned := l.spawned + 1 } :=
  ⟨h.orderly, h.focus, h.status, h.mutation, h.waiting, fun rx hrx => h.fresh rx (Nat.le_of_succ_le hrx), h.display,
    h.outcome⟩

theorem Ok.dropStatus (h : l.Ok first) : Ok first { l with statusFlight := none } :=
  ⟨h.orderly, h.focus, nofun, h.mutation, h.waiting, h.fresh, h.display, h.outcome⟩

theorem Ok.ask (h : l.Ok first) : l.ask.Ok first := by
  have hasked := h.spawn.note (show Deed.Allowed first l.deeds (.asked l.spawned l.cls) from trivial) nofun rfl nofun rfl
  refine { hasked with status := fun f hf => ?_ }
  rw [← Option.some.inj hf]
  exact ⟨rfl, .inl ⟨rfl, .asked⟩⟩

theorem Ok.shown {rx : Nat} {snapshot : StatusSnapshot} (h : l.Ok first) (hcurrent : Current rx l.cls l.deeds) :
    Ok first { l with live := some snapshot, deeds := .applied rx l.cls snapshot :: l.deeds } where
  orderly := ⟨⟨h.focus, hcurrent⟩, h.orderly⟩
  focus := h.focus
  status f hf := by
    obtain ⟨hcls, hepoch⟩ := h.status f hf
    exact ⟨hcls, hepoch.imp_left fun ⟨hepoch, hcur⟩ => ⟨hepoch, hcur.cons rfl⟩⟩
  mutation f hf := by
    obtain ⟨hcls, kind, hkind, hsubmitted, hanswered, hresolved⟩ := h.mutation f hf
    exact ⟨hcls, kind, hkind, List.mem_cons_of_mem _ hsubmitted, by simpa using hanswered,
      fun hs => (hresolved hs).cons nofun⟩
  waiting rx kind hmem := (h.waiting rx kind (by simpa using hmem)).imp_left (List.mem_cons_of_mem _)
  fresh rx hrx := by simpa using h.fresh rx hrx
  display shown hs := by
    rw [← Option.some.inj hs]
    exact .applied
  outcome ho := (h.outcome ho).cons nofun

theorem Ok.hide (h : l.Ok first) : l.hide.Ok first where
  orderly := ⟨trivial, h.orderly⟩
  focus := h.focus
  status := nofun
  mutation f hf := by
    obtain ⟨hcls, kind, hkind, hsubmitted, hanswered, hresolved⟩ := h.mutation f hf
    exact ⟨hcls, kind, hkind, List.mem_cons_of_mem _ hsubmitted, by simpa using hanswered,
      fun hs => (hresolved hs).cons nofun⟩
  waiting rx kind hmem := (h.waiting rx kind (by simpa using hmem)).imp_left (List.mem_cons_of_mem _)
  fresh rx hrx := by simpa using h.fresh rx hrx
  display := nofun
  outcome ho := (h.outcome ho).cons nofun

theorem Ok.reconcile (h : l.Ok first) (snapshot : StatusSnapshot) : (l.reconcile snapshot).Ok first ∧
    (l.reconcile snapshot).cls = l.cls ∧
      ∀ rx, Current rx l.cls l.deeds → Current rx l.cls (l.reconcile snapshot).deeds := by
  unfold Lanes.reconcile
  split
  · exact ⟨h, rfl, fun rx hrx => hrx⟩
  · rename_i message _
    have hnoted := h.note (show Deed.Allowed first l.deeds (.reconciled message) from trivial) nofun rfl nofun rfl
    exact ⟨{ hnoted with outcome := fun _ => .reconciled }, rfl, fun rx hrx => hrx.cons rfl⟩

/-- A snapshot that is still current comes on display. -/
theorem Ok.present {rx : Nat} {snapshot : StatusSnapshot} (h : l.Ok first) (hcurrent : Current rx l.cls l.deeds) :
    (l.present rx snapshot).Ok first := by
  obtain ⟨hok, hcls, hkeeps⟩ := h.reconcile snapshot
  have hcurrent := hkeeps rx hcurrent
  unfold Lanes.present
  rw [← hcls] at hcurrent ⊢
  exact (hok.shown hcurrent).dropStatus

/-- A mutation is submitted while none is running. -/
theorem Ok.submit {kind : MutationKind} (h : l.Ok first) (hidle : l.mutationFlight = none)
    (hlicenses : kind.isSubscription = true → l.Licenses kind) : (l.submit kind).Ok first := by
  have hlicensed : kind.isSubscription = true → Licensed l.deeds := fun hs =>
    have ⟨hnone, snapshot, hlive, hauthoritative, htxn, _⟩ := hlicenses hs
    ⟨h.outcome hnone, snapshot, h.display snapshot hlive, hauthoritative, htxn⟩
  obtain ⟨hunsubmitted, hunanswered⟩ := h.fresh l.spawned (Nat.le_refl _)
  have hanswered : AllAnswered l.deeds := fun rx kind hmem => by
    simpa [hidle] using h.waiting rx kind hmem
  refine ⟨⟨⟨hanswered, hunsubmitted, hunanswered, hlicensed⟩, h.orderly⟩, h.focus, fun f hf => ?_, fun f hf => ?_,
    fun rx other hmem => ?_, fun rx hrx => ?_, fun snapshot hs => (h.display snapshot hs).cons rfl,
    fun ho => (h.outcome ho).cons nofun⟩
  · obtain ⟨hcls, ⟨hepoch, _⟩ | ⟨_, hrunning⟩⟩ := h.status f hf
    · exact ⟨hcls, .inr ⟨congrArg (· + 1) hepoch, rfl⟩⟩
    · simp [hidle] at hrunning
  · rw [← Option.some.inj hf]
    exact ⟨rfl, kind, rfl, List.mem_cons_self, by simpa using hunanswered,
      fun hs => (hlicensed hs).outcome.cons nofun⟩
  · rcases List.mem_cons.mp hmem with heq | hmem
    · exact .inr ⟨_, rfl, (Deed.submitted.inj heq).1.symm⟩
    · exact .inl (List.mem_cons_of_mem _ (hanswered rx other hmem))
  · have hlater : l.spawned < rx := hrx
    obtain ⟨hsubmitted, hans⟩ := h.fresh rx hlater.le
    simp only [deeds_submit, List.mem_cons, not_or]
    exact ⟨fun other => ⟨fun heq => hlater.ne' (Deed.submitted.inj heq).1, hsubmitted other⟩, nofun, hans⟩

theorem Ok.answer {f : InFlight} (h : l.Ok first) (hf : l.mutationFlight = some f) : (l.answer f.rx).Ok first := by
  obtain ⟨_, kind, _, hsubmitted, hanswered, _⟩ := h.mutation f hf
  refine ⟨⟨⟨⟨kind, hsubmitted⟩, hanswered⟩, h.orderly⟩, h.focus, nofun, nofun, fun rx other hmem => ?_,
    fun rx hrx => ?_, fun snapshot hs => (h.display snapshot hs).cons rfl, fun ho => (h.outcome ho).cons nofun⟩
  · rcases h.waiting rx other (by simpa using hmem) with hans | ⟨g, hg, rfl⟩
    · exact .inl (List.mem_cons_of_mem _ hans)
    · rw [hf] at hg
      rw [Option.some.inj hg]
      exact .inl List.mem_cons_self
  · obtain ⟨hunsubmitted, hans⟩ := h.fresh rx hrx
    simp only [deeds_answer, List.mem_cons, not_or]
    refine ⟨fun kind => ⟨nofun, hunsubmitted kind⟩, fun heq => ?_, hans⟩
    rw [Deed.answered.inj heq] at hunsubmitted
    exact hunsubmitted kind hsubmitted

theorem Ok.lose {rx : Nat} {pending : SubscriptionOutcomeUnknown} (h : l.Ok first) (hidle : l.mutationFlight = none) :
    (l.lose rx pending).Ok first where
  orderly := ⟨trivial, h.orderly⟩
  focus := h.focus
  status f hf := by
    obtain ⟨hcls, hepoch⟩ := h.status f hf
    exact ⟨hcls, hepoch.imp_left fun ⟨hepoch, hcur⟩ => ⟨hepoch, hcur.cons rfl⟩⟩
  mutation f hf := absurd (hidle.symm.trans hf) nofun
  waiting rx kind hmem := (h.waiting rx kind (by simpa using hmem)).imp_left (List.mem_cons_of_mem _)
  fresh rx hrx := by simpa using h.fresh rx hrx
  display snapshot hs := (h.display snapshot hs).cons rfl
  outcome := nofun

/-- A subscription request was carried out. -/
theorem Ok.succeed (h : l.Ok first) (hresolved : Resolved l.deeds) : Ok first { l with outcome := none } :=
  { h with outcome := fun _ => hresolved }

theorem Ok.focused {cls : String} (h : l.Ok first) (hidle : l.mutationFlight = none) : (l.focus cls).Ok first where
  orderly := ⟨trivial, h.orderly⟩
  focus := rfl
  status := nofun
  mutation f hf := absurd (hidle.symm.trans hf) nofun
  waiting rx kind hmem := (h.waiting rx kind (by simpa using hmem)).imp_left (List.mem_cons_of_mem _)
  fresh rx hrx := by simpa using h.fresh rx hrx
  display := nofun
  outcome ho := (h.outcome ho).cons nofun

theorem Ok.step (h : l.Ok first) (hstep : Step l arrivals m) : m.Ok first := by
  cases hstep with
  | spawn => exact h.spawn
  | ask => exact h.ask
  | drop => exact h.dropStatus
  | present flight focus epoch arrived status =>
      obtain ⟨_, ⟨_, hcurrent⟩ | ⟨hold, _⟩⟩ := h.status _ flight
      · rw [focus] at hcurrent
        exact h.present hcurrent
      · have hsucc := hold.trans epoch.symm
        simp at hsucc
  | hide => exact h.hide
  | submit idle licensed => exact h.submit idle licensed
  | stray flight stray =>
      obtain ⟨hcls, kind, hkind, _⟩ := h.mutation _ flight
      rw [stray hcls] at hkind
      cases hkind
  | answer flight => exact h.answer flight
  | succeed flight about subscription =>
      obtain ⟨_, kind, hkind, _, _, hresolved⟩ := h.mutation _ flight
      obtain rfl := Option.some.inj (about.symm.trans hkind)
      exact (h.answer flight).succeed ((hresolved subscription).cons nofun)
  | lose flight about => exact (h.answer flight).lose rfl
  | focus idle => exact h.focused idle

theorem Ok.steps (h : l.Ok first) (hsteps : Steps arrivals l m) : m.Ok first := by
  induction hsteps with
  | refl => exact h
  | tail _ hstep ih => exact ih.step hstep

end Lanes

/-! ### What does not touch the lanes -/

section

variable {turn : Turn} {app : App} {level : MessageLevel} {message : String}

@[simp] theorem lanes_setMessage : (app.setMessage level message).lanes = app.lanes := rfl

@[simp] theorem lanes_rebuildOrder : (rebuildOrder turn app).lanes = app.lanes := rfl

theorem App.Restyled.lanes {app' : App} (h : app.Restyled app') : app'.lanes = app.lanes := by
  obtain ⟨_, _, _, _, rfl⟩ := h
  rfl

theorem lanes_filterEditKey {key : KeyCode} : (filterEditKey turn key app).lanes = app.lanes := by
  unfold filterEditKey
  split
  all_goals try rfl
  split <;> rfl

end

/-! ### One turn -/

section

variable {first : String} {turn : Turn} {app : App} {flight : InFlight} {result : ReplyResult}
  {arrivals : Nat → Arrival} {l : Lanes}

theorem steps_of_eq {m : Lanes} (h : m = l) : l.Steps arrivals m := h ▸ .refl

theorem eq_of_takeCompleted {lane : Option InFlight} (h : takeCompleted turn lane = some (flight, result)) :
    lane = some flight ∧ ∀ reply, result = .ok reply → turn.arrivals flight.rx = .received (.ok reply) := by
  unfold takeCompleted at h
  split at h
  · cases h
  · split at h
    · cases h
    all_goals
      obtain ⟨rfl, rfl⟩ := Prod.mk.inj (Option.some.inj h)
      refine ⟨rfl, fun reply hreply => ?_⟩
    · rename_i harrived
      rw [harrived, hreply]
    · cases hreply

theorem takeCompleted_isSome (h : turn.arrivals flight.rx ≠ .empty) :
    (takeCompleted turn (some flight)).isSome = true := by
  unfold takeCompleted
  dsimp only
  split
  · exact absurd ‹_› h
  · rfl
  · rfl

theorem lanes_reconcile {snapshot : StatusSnapshot} :
    (reconcileSubscriptionOutcome snapshot app).lanes = app.lanes.reconcile snapshot := by
  unfold reconcileSubscriptionOutcome Lanes.reconcile
  rw [show app.lanes.outcome = app.subscriptionOutcomeUnknown from rfl]
  cases app.subscriptionOutcomeUnknown.bind fun pending => reconciliation pending snapshot with
  | none => rfl
  | some message => rfl

/-- The flight of the reply does not matter to the lanes without it. -/
theorem present_drop {rx : Nat} {snapshot : StatusSnapshot} :
    ({ l with statusFlight := none } : Lanes).present rx snapshot = l.present rx snapshot := by
  unfold Lanes.present Lanes.reconcile
  dsimp only
  cases l.outcome.bind fun pending => reconciliation pending snapshot with
  | none => rfl
  | some message => rfl

theorem lanes_applyLiveSnapshot {rx : Nat} {snapshot : StatusSnapshot} (hidle : app.statusFlight = none) :
    ((applyLiveSnapshot snapshot app).note (.applied rx app.cls snapshot)).lanes = app.lanes.present rx snapshot := by
  unfold applyLiveSnapshot
  generalize hsubs : (if snapshot.availableNodes.isEmpty then app else { app with subs := snapshot.availableNodes }) = shown
  have hlanes : shown.lanes = app.lanes := by
    rw [← hsubs]
    split <;> rfl
  have hreconciled := @lanes_reconcile shown snapshot
  rw [hlanes] at hreconciled
  have hflight : (app.lanes.reconcile snapshot).statusFlight = none := by
    unfold Lanes.reconcile
    split <;> exact hidle
  rw [Lanes.present, ← hflight, ← hreconciled]
  rfl

theorem lanes_refreshFromFile :
    ((refreshFromFile turn { app with connected := false }).note .offline).lanes =
      { app.lanes with live := none, deeds := .offline :: app.deeds } := by
  unfold refreshFromFile
  split <;> rfl

theorem steps_pollStatus : app.lanes.Steps turn.arrivals (pollStatus turn app).lanes := by
  unfold pollStatus
  split
  · rename_i flight result htaken
    obtain ⟨hflight, harrived⟩ := eq_of_takeCompleted htaken
    unfold completeStatusReply
    split
    · exact .single .drop
    · rename_i hguard
      obtain ⟨hcls, hepoch⟩ := not_or.mp hguard
      split
      · rename_i reply hreply
        split
        · rename_i snapshot hsnapshot
          rw [lanes_rebuildOrder, lanes_applyLiveSnapshot rfl]
          have hresult : result = .ok reply := by
            cases result with
            | error error => simp [Except.toOption] at hreply
            | ok value =>
                obtain ⟨heq, _⟩ := Option.filter_eq_some_iff.mp hreply
                exact congrArg Except.ok (Option.some.inj heq)
          have hstep : app.lanes.Step turn.arrivals (app.lanes.present flight.rx snapshot) :=
            .present hflight (not_not.mp hcls) (not_not.mp hepoch) (harrived reply hresult) hsnapshot
          exact (@present_drop app.lanes flight.rx snapshot) ▸ .single hstep
        · exact .single .drop
      · rw [lanes_rebuildOrder, lanes_refreshFromFile]
        exact .single .hide
  · exact .refl

theorem lanes_pollEvents : (pollEvents turn app).lanes = app.lanes := by
  unfold pollEvents completeEventsReply
  split
  · split
    · rfl
    · split <;> rfl
  · rfl

/-- What the reply to a mutation does to the lanes: nothing, unless it is about the subscription and no failure. -/
theorem lanes_applyMutationReply (rx : Nat) (kind : MutationKind) :
    (applyMutationReply turn rx result app kind).lanes = app.lanes ∨
    (kind.isSubscription = true ∧ (applyMutationReply turn rx result app kind).lanes = { app.lanes with outcome := none }) ∨
    ∃ previous requested generationBefore, kind = .subscriptionSwitch previous requested generationBefore ∧
      (applyMutationReply turn rx result app kind).lanes = app.lanes.lose rx ⟨previous, requested, generationBefore⟩ := by
  cases kind with
  | nodeSwitch node => exact .inl rfl
  | probeAll requestedTag =>
      unfold applyMutationReply
      dsimp only
      split <;> exact .inl rfl
  | subscriptionSwitch previous requested generationBefore =>
      unfold applyMutationReply applySubscriptionReplyResult
      cases classifySubscriptionReply result with
      | success outcome => exact .inr (.inl ⟨rfl, rfl⟩)
      | failed message => exact .inl rfl
      | unknown message => exact .inr (.inr ⟨previous, requested, generationBefore, rfl, rfl⟩)

theorem steps_completeMutation (hflight : app.mutationFlight = some flight) :
    app.lanes.Steps arrivals (completeMutation turn flight result { app with mutationFlight := none }).lanes ∧
      (flight.cls = app.cls → flight.kind.isSome →
        .answered flight.rx ∈ (completeMutation turn flight result { app with mutationFlight := none }).deeds) := by
  unfold completeMutation
  split
  · rename_i hcls
    exact ⟨.single (.stray hflight fun heq => absurd heq hcls), fun heq => absurd heq hcls⟩
  · split
    · rename_i hkind
      exact ⟨.single (.stray hflight fun _ => hkind), fun _ hsome => by simp [hkind] at hsome⟩
    · rename_i kind hkind
      dsimp only
      generalize hnoted : ({ app with mutationFlight := none } : App).note (.answered flight.rx) = noted
      have hlanes : noted.lanes = { app.lanes with mutationFlight := none, deeds := .answered flight.rx :: app.deeds } := by
        rw [← hnoted]
        rfl
      generalize hlast : applyMutationReply turn flight.rx result noted kind = last
      -- The lane is cleared whatever the reply was.
      suffices hrest : app.lanes.Steps arrivals { last.lanes with epoch := last.lanes.epoch + 1, statusFlight := none } ∧
          .answered flight.rx ∈ last.lanes.deeds from ⟨hrest.1, fun _ _ => hrest.2⟩
      rcases @lanes_applyMutationReply turn noted result flight.rx kind with
        hsame | ⟨hsubscription, hdone⟩ | ⟨previous, requested, generationBefore, rfl, hlost⟩
      · rw [← hlast, hsame, hlanes]
        exact ⟨.single (.answer hflight), List.mem_cons_self⟩
      · rw [← hlast, hdone, hlanes]
        exact ⟨.single (.succeed hflight hkind hsubscription), List.mem_cons_self⟩
      · rw [← hlast, hlost, hlanes]
        exact ⟨.single (.lose hflight hkind), List.mem_cons_of_mem _ List.mem_cons_self⟩

theorem steps_pollMutation : app.lanes.Steps turn.arrivals (pollMutation turn app).lanes := by
  unfold pollMutation
  split
  · exact (steps_completeMutation (eq_of_takeCompleted ‹_›).1).1
  · exact .refl

theorem steps_pollFlights : app.lanes.Steps turn.arrivals (pollFlights turn app).lanes := by
  have hevents : app.lanes.Steps turn.arrivals (pollEvents turn (pollStatus turn app)).lanes := by
    rw [lanes_pollEvents]
    exact steps_pollStatus
  exact hevents.trans steps_pollMutation

theorem steps_maybeSpawnRefresh : app.lanes.Steps arrivals (maybeSpawnRefresh turn app).lanes := by
  have hevents : ∀ app : App, app.lanes.Steps arrivals
      (if shouldSpawnEvents turn app then spawnEvents turn app else app).lanes := by
    intro app
    split
    · exact .single .spawn
    · exact .refl
  have hstatus : app.lanes.Steps arrivals (if shouldSpawnStatus turn app then spawnStatus turn app else app).lanes := by
    split
    · exact .single .ask
    · exact .refl
  exact hstatus.trans (hevents _)

theorem steps_submitMutation {kind : MutationKind} (hlicensed : kind.isSubscription = true → app.lanes.Licenses kind) :
    app.lanes.Steps arrivals (submitMutation kind app).lanes := by
  unfold submitMutation
  split
  · exact .refl
  · rename_i hidle
    exact .single (.submit (show app.mutationFlight = none by simpa using hidle) hlicensed)

theorem active_of_authoritative {snapshot : StatusSnapshot} (h : authoritativeSubscriptionStatus snapshot = true) :
    snapshot.activeSubscription = some (snapshot.activeSubscription.getD "") := by
  unfold authoritativeSubscriptionStatus at h
  cases hactive : snapshot.activeSubscription with
  | none => simp [hactive] at h
  | some active => rfl

theorem steps_submitSubscription {name : String} : app.lanes.Steps arrivals (submitSubscription name app).lanes := by
  unfold submitSubscription
  split
  · exact .refl
  · rename_i hallowed
    dsimp only
    split
    · rename_i generationBefore hgeneration
      refine steps_submitMutation fun _ => ?_
      simp only [App.subscriptionMutationAllowed, Bool.not_eq_true, Bool.not_eq_false', Bool.and_eq_true] at hallowed
      obtain ⟨⟨hauthoritative, htxn⟩, houtcome⟩ := hallowed
      obtain ⟨snapshot, hsnapshot⟩ := Option.isSome_iff_exists.mp hauthoritative
      rw [App.authoritativeActiveSubscription, hsnapshot]
      rw [hsnapshot] at hgeneration
      unfold App.authoritativeSubscriptionSnapshot at hsnapshot
      split at hsnapshot
      · rename_i hconnected
        obtain ⟨hshown, hok⟩ := Option.filter_eq_some_iff.mp hsnapshot
        have hactive := active_of_authoritative hok
        refine ⟨Option.isNone_iff_eq_none.mp houtcome, snapshot, ?_, hok, ?_, ?_, hgeneration⟩
        · simp [App.lanes, hconnected, hshown]
        · simpa [hshown] using htxn
        · exact hactive
      · cases hsnapshot
    · exact .refl

theorem steps_unless {c : Prop} [Decidable c] {next : App} (hnext : ¬ c → app.lanes.Steps arrivals next.lanes) :
    app.lanes.Steps arrivals (if c then app else next).lanes := by
  split
  · exact .refl
  · exact hnext ‹_›

theorem steps_submitProbe {requestedTag : Option ProbeRoundTag} :
    app.lanes.Steps arrivals (submitMutation (.probeAll requestedTag) app).lanes :=
  steps_submitMutation nofun

theorem steps_switchSelected : app.lanes.Steps arrivals
    (match app.order[app.selected]? with
      | some node => submitMutation (.nodeSwitch node) app
      | none => app).lanes := by
  split
  · exact steps_submitMutation nofun
  · exact .refl

theorem steps_changeClass {forward : Bool} (hidle : app.mutationFlight = none) :
    app.lanes.Steps arrivals (changeClass turn forward app).lanes := by
  have hlive : (changeClass turn forward app).lanes.live = none := ite_self _
  have hlanes : (changeClass turn forward app).lanes =
      { app.lanes.focus (changeClass turn forward app).cls with live := (changeClass turn forward app).lanes.live } := rfl
  rw [hlanes, hlive]
  exact .single (.focus hidle)

theorem steps_dashboardKey {key : KeyCode} : app.lanes.Steps arrivals (dashboardKey turn key app).2.lanes := by
  have hquit : (quitKey app).2.lanes = app.lanes := by
    unfold quitKey
    split <;> rfl
  have hidle : ¬ (app.busy || app.cfgClasses.length < 2) = true → app.mutationFlight = none := by
    intro hfree
    rw [Bool.or_eq_true, not_or] at hfree
    simpa [App.busy] using hfree.1
  unfold dashboardKey
  split
  all_goals first
    | exact .refl
    | exact steps_of_eq hquit
    | exact steps_of_eq restyled_selectUp.lanes
    | exact steps_of_eq restyled_selectDown.lanes
    | exact steps_unless fun _ => .refl
    | exact steps_unless fun _ => steps_of_eq restyled_openSubscriptionPicker.lanes
    | exact steps_unless fun hfree => steps_changeClass (hidle hfree)
    | exact steps_unless fun _ => steps_submitProbe
    | exact steps_unless fun _ => steps_switchSelected

theorem steps_pressKey {key : KeyEvent} : app.lanes.Steps arrivals (pressKey turn key app).2.lanes := by
  unfold pressKey
  split
  · exact .refl
  · split
    · exact .refl
    · split
      · exact steps_of_eq lanes_filterEditKey
      · split
        · rename_i picker _
          have hkey := (@restyled_pickerKey turn app key.code picker).lanes
          split
          · rename_i heq
            rw [heq] at hkey
            exact hkey ▸ steps_submitSubscription
          · rename_i heq
            rw [heq] at hkey
            exact steps_of_eq hkey
        · have hkey := @steps_dashboardKey turn app arrivals key.code
          split
          · rename_i heq
            rw [heq] at hkey
            exact hkey
          · rename_i heq
            rw [heq] at hkey
            exact hkey

theorem steps_tuiTurn {last : App} (hturn : tuiTurn turn app = some last) : app.lanes.Steps turn.arrivals last.lanes := by
  have hpolled := @steps_pollFlights turn app
  unfold tuiTurn at hturn
  dsimp only at hturn
  split at hturn
  · rw [← Option.some.inj hturn]
    exact hpolled.trans steps_maybeSpawnRefresh
  · rename_i key _
    have hkey := @steps_pressKey turn (pollFlights turn app) turn.arrivals key
    split at hturn
    · cases hturn
    · rename_i heq
      rw [heq] at hkey
      rw [← Option.some.inj hturn]
      exact hpolled.trans hkey
    · rename_i heq
      rw [heq] at hkey
      rw [← Option.some.inj hturn]
      exact (hpolled.trans hkey).trans steps_maybeSpawnRefresh

theorem ok_tuiLoop {turns : List Turn} {last : App} (h : app.lanes.Ok first) (hrun : tuiLoop turns app = some last) :
    last.lanes.Ok first := by
  induction turns generalizing app with
  | nil => exact Option.some.inj hrun ▸ h
  | cons turn turns ih =>
      rw [tuiLoop, List.foldlM_cons] at hrun
      obtain ⟨next, hturn, hrest⟩ := Option.bind_eq_some_iff.mp hrun
      exact ih (h.steps (steps_tuiTurn hturn)) hrest

/-! ### The start -/

theorem lanes_refreshEvents {events : ReplyResult} :
    (refreshEvents events app).lanes = { app.lanes with spawned := app.spawned + 1 } := by
  unfold refreshEvents
  dsimp only
  split <;> rfl

theorem cls_present {rx : Nat} {snapshot : StatusSnapshot} : (l.present rx snapshot).cls = l.cls := by
  unfold Lanes.present Lanes.reconcile
  cases l.outcome.bind fun pending => reconciliation pending snapshot with
  | none => rfl
  | some message => rfl

theorem steps_refresh {status events : ReplyResult} (hidle : app.statusFlight = none)
    (harrived : ∀ reply, status = .ok reply → arrivals app.spawned = .received (.ok reply)) :
    app.lanes.ask.Steps arrivals (refresh turn status events app).lanes ∧
      (refresh turn status events app).cls = app.cls := by
  rw [show (refresh turn status events app).cls = (refresh turn status events app).lanes.cls from rfl, refresh,
    lanes_refreshEvents]
  suffices hrest : app.lanes.ask.Steps arrivals (refreshStatus turn status app).lanes ∧
      (refreshStatus turn status app).lanes.cls = app.cls from ⟨.tail hrest.1 .spawn, hrest.2⟩
  unfold refreshStatus
  dsimp only [spawnRequest]
  generalize hasked : App.note _ _ = asked
  have hlanes : asked.lanes = { app.lanes.ask with statusFlight := none } := by
    rw [← hasked, ← hidle]
    rfl
  have hflight : asked.statusFlight = none := congrArg Lanes.statusFlight hlanes
  split
  · rename_i snapshot hsnapshot
    obtain ⟨reply, hreply, hstatus⟩ := Option.bind_eq_some_iff.mp hsnapshot
    have hresult : status = .ok reply := by
      cases status with
      | error error => simp [Except.toOption] at hreply
      | ok value =>
          obtain ⟨heq, _⟩ := Option.filter_eq_some_iff.mp hreply
          exact congrArg Except.ok (Option.some.inj heq)
    have hpresented : ((applyLiveSnapshot snapshot asked).note (.applied app.spawned asked.cls snapshot)).lanes =
        app.lanes.ask.present app.spawned snapshot := by
      rw [← present_drop, ← hlanes, ← lanes_applyLiveSnapshot hflight]
    rw [hpresented]
    exact ⟨.single (@Lanes.Step.present app.lanes.ask arrivals ⟨none, app.cls, app.epoch, app.spawned⟩ reply snapshot rfl rfl
      rfl (harrived reply hresult) hstatus), cls_present⟩
  · rw [lanes_refreshFromFile, show asked.deeds = asked.lanes.deeds from rfl, hlanes]
    exact ⟨.single .hide, rfl⟩

/-- Before the first request. -/
theorem ok_new {cfg : Config} {cls : String} {hclasses : 0 < cfg.classes.keys.length} :
    (App.new turn cfg cls hclasses).lanes.Ok (App.new turn cfg cls hclasses).cls where
  orderly := trivial
  focus := rfl
  status := nofun
  mutation := nofun
  waiting := nofun
  fresh := fun rx _ => ⟨nofun, nofun⟩
  display := nofun
  outcome := fun _ since rx before heq => absurd heq (by simp [App.lanes, App.new])

theorem Opened.ok {cfg : Config} (h : Opened cfg app) : app.lanes.Ok app.cls := by
  obtain ⟨turn, cls, hclasses, status, events⟩ := h
  obtain ⟨hsteps, hcls⟩ := @steps_refresh turn (App.new turn cfg cls hclasses) (fun _ => .received status) status events rfl
    (fun reply hreply => congrArg Arrival.received hreply)
  rw [hcls]
  exact ok_new.ask.steps hsteps

theorem mutationFlight_pollStatus : (pollStatus turn app).mutationFlight = app.mutationFlight := by
  unfold pollStatus completeStatusReply applyLiveSnapshot reconcileSubscriptionOutcome refreshFromFile
  dsimp only
  repeat' split
  all_goals rfl

/-- A reply that is there is consumed by the next turn. -/
theorem answered_pollFlights {rx : Nat} {kind : MutationKind} (h : app.lanes.Ok first)
    (hsubmitted : .submitted rx kind ∈ app.deeds) (hunanswered : .answered rx ∉ app.deeds)
    (hthere : turn.arrivals rx ≠ .empty) : .answered rx ∈ (pollFlights turn app).deeds := by
  obtain ⟨flight, hflight, rfl⟩ := (h.waiting rx kind hsubmitted).resolve_left hunanswered
  have hpolled : (pollEvents turn (pollStatus turn app)).lanes.Ok first := by
    rw [lanes_pollEvents]
    exact h.steps steps_pollStatus
  have hlane : (pollEvents turn (pollStatus turn app)).mutationFlight = some flight := by
    rw [show (pollEvents turn (pollStatus turn app)).mutationFlight = (pollStatus turn app).mutationFlight from
      congrArg Lanes.mutationFlight lanes_pollEvents, mutationFlight_pollStatus]
    exact hflight
  obtain ⟨⟨taken, result⟩, htaken⟩ := Option.isSome_iff_exists.mp (takeCompleted_isSome hthere)
  rw [← Option.some.inj (eq_of_takeCompleted htaken).1] at htaken
  obtain ⟨hcls, kind, hkind, _⟩ := hpolled.mutation flight hlane
  unfold pollFlights pollMutation
  rw [hlane, htaken]
  exact (@steps_completeMutation turn (pollEvents turn (pollStatus turn app)) flight result turn.arrivals hlane).2 hcls (by simp [hkind])

end

/-- Over every run of the dashboard: an applied snapshot was asked for the class in focus and has not been superseded, mutations do not overlap and each reply is consumed once, as soon as it is there, and a subscription switch is submitted only while no outcome is unknown and a live authoritative snapshot without a transaction is on display. -/
theorem lanes_orderly {cfg : Config} {first last : App} (hopened : Opened cfg first) {turns : List Turn}
    (hrun : tuiLoop turns first = some last) : Orderly first.cls last.deeds ∧
      ∀ rx kind, .submitted rx kind ∈ last.deeds → .answered rx ∉ last.deeds → ∀ turn : Turn,
        turn.arrivals rx ≠ .empty → .answered rx ∈ (pollFlights turn last).deeds := by
  have hok := ok_tuiLoop hopened.ok hrun
  exact ⟨hok.orderly, fun rx kind hsubmitted hunanswered turn hthere =>
    answered_pollFlights hok hsubmitted hunanswered hthere⟩

namespace Sample

/-- A turn without a key, for which these replies are there. -/
def turn (arrivals : List (Nat × ReplyResult)) : Turn :=
  { arrivals := fun rx => match arrivals.lookup rx with
      | some result => .received result
      | none => .empty
    key := none, stateFile := none, profileNodeNames := fun _ _ => [], writeSubscriptionUrl := fun _ _ => .ok ()
    toLowercase := id, polledAt := 0, pressedAt := 0, refreshedAt := 0 }

def press (code : KeyCode) : Turn := { turn [] with key := some ⟨code, false⟩ }

def profiles : List SubscriptionSummary := [⟨"home", some 2⟩, ⟨"work", none⟩]

/-- What the daemon tells while a profile is active. -/
def shows (active : String) (generation : UInt64) : StatusSnapshot :=
  { cls := "web", activeNode := some "A", socksPort := none, httpPort := none, generation := 0, nodes := ∅
    traffic := ∅, activeConns := 0, activeSubscription := some active, subscriptionGeneration := some generation
    subscriptionTxnInProgress := some false, availableSubscriptions := profiles, availableNodes := ["A"], classes := [] }

def statusReply (active : String) (generation : UInt64) : ReplyResult :=
  .ok { ok := true, status := some (shows active generation) }

def opened : App :=
  refresh (turn []) (statusReply "home" 0) (.error "") (App.new (turn []) (Causeway.Sample.config Causeway.Sample.web) "web" (by decide))

/-- The picker opens, the second profile is chosen, the switch is answered, and so is a status request after it. -/
def switchTurns : List Turn :=
  [press (.char 's'), press .down, press .enter,
    turn [(2, .ok { ok := true, subscriptionSwitch := some ⟨"home", "work", 2, false⟩ })],
    turn [(3, statusReply "work" 1)]]

theorem opens : Opened (Causeway.Sample.config Causeway.Sample.web) opened := .intro _ _ _ _ _

end Sample

theorem lanes_orderly_switch : ∃ last, tuiLoop Sample.switchTurns Sample.opened = some last ∧
    last.message = "subscription home → work — 2 nodes" ∧ last.deeds.length = 6 ∧
    Orderly Sample.opened.cls last.deeds := by
  have hends : (tuiLoop Sample.switchTurns Sample.opened).any (fun last =>
      decide (last.message = "subscription home → work — 2 nodes") && decide (last.deeds.length = 6)) = true := by
    decide +kernel
  obtain ⟨last, hrun, hlast⟩ := (Option.any_eq_true _ _).mp hends
  simp only [Bool.and_eq_true, decide_eq_true_eq] at hlast
  exact ⟨last, hrun, hlast.1, hlast.2, (lanes_orderly Sample.opens hrun).1⟩

end Dashboard

end Causeway

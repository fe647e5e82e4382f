import Causeway.Proof.Session

/-!
# What the deeds of a dashboard say of its daemon

Every snapshot that was applied is an answer of a daemon, and a request that was sent on the sight of it is handled after that answer was given. Both hold of every session, whatever becomes of the messages.
-/

namespace Causeway

open Concurrent Prog Dashboard

namespace Dashboard

/-- The request whose outcome became unknown last. -/
def lostRequest : List Deed → Option Nat
  | [] => none
  | .lost rx :: _ => some rx
  | _ :: deeds => lostRequest deeds

/-- The snapshot on display is the answer to this status request. -/
def Displayed (rx : Nat) (snapshot : StatusSnapshot) (deeds : List Deed) : Prop :=
  ∃ since cls before, deeds = since ++ .applied rx cls snapshot :: before ∧ ∀ deed ∈ since, deed.replaces = false

theorem OnDisplay.displayed {snapshot : StatusSnapshot} {deeds : List Deed} (h : OnDisplay snapshot deeds) :
    ∃ rx, Displayed rx snapshot deeds := by
  obtain ⟨since, before, rx, cls, hdeeds, hsince⟩ := h
  exact ⟨rx, since, cls, before, hdeeds, hsince⟩

theorem Displayed.mem {rx : Nat} {snapshot : StatusSnapshot} {deeds : List Deed} (h : Displayed rx snapshot deeds) :
    ∃ cls, .applied rx cls snapshot ∈ deeds := by
  obtain ⟨since, cls, before, rfl, _⟩ := h
  exact ⟨cls, by simp⟩

end Dashboard

namespace Service

variable (v : Service)

def Shown (rx : Nat) (snapshot : StatusSnapshot) : Prop := ∃ reply, v.Replies rx reply ∧ reply.status = some snapshot

/-- A daemon that takes both requests is done with `base` before it begins with `rx`. -/
def Follows (base rx : Nat) : Prop :=
  ∀ n i j, v.fate base = .taken ⟨n, i⟩ → v.fate rx = .taken ⟨n, j⟩ →
    ∃ early late, (v.stint n).moves = early ++ late ∧ Pool.own i late = [] ∧ Pool.own j early = []

/-- The request is handled after the answers that were applied before. -/
def Answered (before : List Deed) (rx : Nat) : Prop :=
  ∀ base cls snapshot, .applied base cls snapshot ∈ before → v.Follows base rx

end Service

namespace Dashboard

/-- What the daemon has to show for a deed that was done after these. -/
def Deed.Backed (v : Service) (before : List Deed) : Deed → Prop
  | applied rx _ snapshot => v.Shown rx snapshot
  | asked rx _ => v.Answered before rx
  | submitted rx kind => v.Answered before rx ∧
      (kind.isSubscription = true → ∃ base snapshot, Displayed base snapshot before ∧ kind.BasedOn snapshot)
  | _ => True

def Backed (v : Service) : List Deed → Prop
  | [] => True
  | deed :: before => deed.Backed v before ∧ Backed v before

end Dashboard

section

variable {v u : Service} {deeds before since : List Deed} {deed : Deed} {rx base : Nat} {snapshot : StatusSnapshot}

theorem Dashboard.Backed.at (h : Backed v (since ++ deed :: before)) : deed.Backed v before := by
  induction since with
  | nil => exact h.1
  | cons head since ih => exact ih h.2

theorem Dashboard.Backed.shown {cls : String} (h : Backed v deeds) (hmem : .applied rx cls snapshot ∈ deeds) :
    v.Shown rx snapshot := by
  obtain ⟨since, before, rfl⟩ := List.append_of_mem hmem
  exact h.at

/-! ### What the daemon keeps -/

/-- Requests are taken by daemons that have started. -/
def Service.Bounded (v : Service) : Prop := ∀ rx desk, v.fate rx = .taken desk → desk.stint ≤ v.restarts

theorem Service.Shown.later (h : v.Shown rx snapshot) (hbounded : v.Bounded) (hlater : v.Later u) :
    u.Shown rx snapshot := by
  obtain ⟨reply, ⟨desk, hfate, hdone⟩, hstatus⟩ := h
  obtain ⟨_, _, _, hrun⟩ := hlater.stint desk.stint (hbounded rx desk hfate)
  exact ⟨reply, ⟨desk, (hlater.fate rx (by simp [hfate])).trans hfate, (idle_of_done hrun hdone).2⟩, hstatus⟩

theorem Service.Follows.step (h : v.Follows base rx) (hbounded : v.Bounded) (hshown : v.Shown base snapshot)
    (hstep : v.Step deeds u) : u.Follows base rx := by
  intro n i j hbase hrx
  obtain ⟨reply, ⟨desk, hfate, hdone⟩, -⟩ := hshown
  rw [hstep.later.fate base (by simp [hfate])] at hbase
  obtain rfl : desk = ⟨n, i⟩ := Fate.taken.inj (hfate.symm.trans hbase)
  by_cases hunderway : v.fate rx = .underway
  · -- It has just been taken, by a thread that has not begun.
    cases hstep with
    | work => exact absurd (hunderway.symm.trans hrx) nofun
    | restart => exact absurd (hunderway.symm.trans hrx) nofun
    | @lose other underway =>
        rcases eq_or_ne rx other with rfl | hne
        · exact absurd ((Function.update_self _ _ _).symm.trans hrx) nofun
        · exact absurd (hunderway.symm.trans ((Function.update_of_ne hne _ _).symm.trans hrx)) nofun
    | @take other thread _ _ underway mem sends runs idle vacant =>
        rcases eq_or_ne rx other with rfl | hne
        · obtain ⟨rfl, rfl⟩ := Desk.mk.inj (Fate.taken.inj ((Function.update_self _ _ _).symm.trans hrx))
          exact ⟨v.current.moves, [], (List.append_nil _).symm, rfl, idle⟩
        · exact absurd (hunderway.symm.trans ((Function.update_of_ne hne _ _).symm.trans hrx)) nofun
  · rw [hstep.later.fate rx hunderway] at hrx
    obtain ⟨early, late, hmoves, hlate, hearly⟩ := h n i j hbase hrx
    obtain ⟨_, others, hothers, hrun⟩ := hstep.later.stint n (hbounded base _ hbase)
    refine ⟨early, late ++ others, by rw [hothers, hmoves, List.append_assoc], ?_, hearly⟩
    rw [Pool.own_append, hlate, (idle_of_done hrun hdone).1, List.nil_append]

theorem Dashboard.Backed.step {log : List Deed} (h : Backed v log) (hbounded : v.Bounded) (hstep : v.Step deeds u) :
    Backed u log := by
  induction log with
  | nil => trivial
  | cons deed before ih =>
      obtain ⟨hdeed, hbefore⟩ := h
      have hfollows : ∀ rx, v.Answered before rx → u.Answered before rx := fun rx h base cls snapshot hmem =>
        (h base cls snapshot hmem).step hbounded (hbefore.shown hmem) hstep
      refine ⟨?_, ih hbefore⟩
      cases deed with
      | applied => exact hdeed.later hbounded hstep.later
      | asked rx => exact hfollows rx hdeed
      | submitted rx kind => exact ⟨hfollows rx hdeed.1, hdeed.2⟩
      | _ => trivial

end

/-! ### The invariant -/

/-- The requests sent by these deeds have the numbers below `sent`, each its own; daemons have taken only such requests, and do with them what they ask; and the outcome that is unknown is that of a request that was submitted. -/
structure Tracked (deeds : List Deed) (sent : Nat) (outcome : Option SubscriptionOutcomeUnknown) (v : Service) : Prop where
  taken : ∀ rx desk, v.fate rx = .taken desk → desk.stint ≤ v.restarts ∧ ∃ deed ∈ deeds, ∃ request,
    deed.Sends rx request ∧ request.Runs ((v.stint desk.stint).tasks desk.thread)
  below : ∀ deed ∈ deeds, ∀ rx request, deed.Sends rx request → rx < sent
  unique : ∀ deed ∈ deeds, ∀ other ∈ deeds, ∀ rx p q, deed.Sends rx p → other.Sends rx q → deed = other
  backed : Backed v deeds
  outcome : ∀ pending, outcome = some pending → ∃ rx, lostRequest deeds = some rx ∧
    .submitted rx (.subscriptionSwitch pending.previous pending.requested
      pending.subscriptionGenerationBeforeRequest) ∈ deeds

namespace Tracked

variable {deeds : List Deed} {sent : Nat} {outcome : Option SubscriptionOutcomeUnknown} {v u : Service} {deed : Deed}

theorem bounded (h : Tracked deeds sent outcome v) : v.Bounded := fun rx desk hrx => (h.taken rx desk hrx).1

theorem step (h : Tracked deeds sent outcome v) (hstep : v.Step deeds u) : Tracked deeds sent outcome u where
  taken rx desk hrx := by
    by_cases hunderway : v.fate rx = .underway
    · cases hstep with
      | work => exact absurd (hunderway.symm.trans hrx) nofun
      | restart => exact absurd (hunderway.symm.trans hrx) nofun
      | @lose other underway =>
          rcases eq_or_ne rx other with rfl | hne
          · exact absurd ((Function.update_self _ _ _).symm.trans hrx) nofun
          · exact absurd (hunderway.symm.trans ((Function.update_of_ne hne _ _).symm.trans hrx)) nofun
      | @take other thread deed request underway mem sends runs idle vacant =>
          rcases eq_or_ne rx other with rfl | hne
          · obtain rfl := Fate.taken.inj ((Function.update_self _ _ _).symm.trans hrx)
            exact ⟨le_rfl, deed, mem, request, sends, runs⟩
          · exact absurd (hunderway.symm.trans ((Function.update_of_ne hne _ _).symm.trans hrx)) nofun
    · rw [hstep.later.fate rx hunderway] at hrx
      obtain ⟨hle, hdeed⟩ := h.taken rx desk hrx
      rw [(hstep.later.stint desk.stint hle).1]
      exact ⟨hle.trans hstep.later.restarts, hdeed⟩
  below := h.below
  unique := h.unique
  backed := h.backed.step h.bounded hstep
  outcome := h.outcome

/-- One more deed: what it sends is new. -/
theorem cons {next : Nat} {unknown : Option SubscriptionOutcomeUnknown} (h : Tracked deeds sent outcome v)
    (hnext : sent ≤ next) (hsends : ∀ rx request, deed.Sends rx request → sent ≤ rx ∧ rx < next)
    (hbacked : deed.Backed v deeds) (hunknown : ∀ pending, unknown = some pending → ∃ rx,
      lostRequest (deed :: deeds) = some rx ∧ .submitted rx (.subscriptionSwitch pending.previous pending.requested
        pending.subscriptionGenerationBeforeRequest) ∈ deeds) : Tracked (deed :: deeds) next unknown v where
  taken rx desk hrx := by
    obtain ⟨hle, other, hmem, hrest⟩ := h.taken rx desk hrx
    exact ⟨hle, other, List.mem_cons_of_mem _ hmem, hrest⟩
  below := List.forall_mem_cons.mpr ⟨fun rx request hsent => (hsends rx request hsent).2, fun other hother rx request hsent =>
    (h.below other hother rx request hsent).trans_le hnext⟩
  unique := by
    have hnew : ∀ other ∈ deeds, ∀ rx p q, deed.Sends rx p → ¬ other.Sends rx q := fun other hother rx p q hp hq =>
      (h.below other hother rx q hq).not_ge (hsends rx p hp).1
    refine List.forall_mem_cons.mpr ⟨List.forall_mem_cons.mpr ⟨fun _ _ _ _ _ => rfl, fun other hother rx p q hp hq => ?_⟩,
      fun one hone => List.forall_mem_cons.mpr ⟨fun rx p q hp hq => ?_, h.unique one hone⟩⟩
    · exact absurd hq (hnew other hother rx p q hp)
    · exact absurd hp (hnew one hone rx q p hq)
  backed := ⟨hbacked, h.backed⟩
  outcome pending hpending := by
    obtain ⟨rx, hrx, hmem⟩ := hunknown pending hpending
    exact ⟨rx, hrx, List.mem_cons_of_mem _ hmem⟩

theorem kept (h : Tracked deeds sent outcome v) (hlost : ∀ rx, deed ≠ .lost rx) :
    ∀ pending, outcome = some pending → ∃ rx, lostRequest (deed :: deeds) = some rx ∧
      .submitted rx (.subscriptionSwitch pending.previous pending.requested
        pending.subscriptionGenerationBeforeRequest) ∈ deeds := by
  cases deed with
  | lost other => exact absurd rfl (hlost other)
  | _ => exact h.outcome

/-- A deed that sends nothing. -/
theorem note (deed : Deed) (h : Tracked deeds sent outcome v) (hsends : ∀ rx request, ¬ deed.Sends rx request)
    (hbacked : deed.Backed v deeds) (hlost : ∀ rx, deed ≠ .lost rx) : Tracked (deed :: deeds) sent outcome v :=
  h.cons le_rfl (fun rx request hsent => absurd hsent (hsends rx request)) hbacked (h.kept hlost)

/-- A deed that sends the next request. -/
theorem send (h : Tracked deeds sent outcome v) (hsends : ∀ rx request, deed.Sends rx request → rx = sent)
    (hbacked : deed.Backed v deeds) (hlost : ∀ rx, deed ≠ .lost rx) : Tracked (deed :: deeds) (sent + 1) outcome v :=
  h.cons (Nat.le_succ _) (fun rx request hsent => hsends rx request hsent ▸ ⟨le_rfl, Nat.lt_succ_self _⟩) hbacked
    (h.kept hlost)

/-- The outcome of a submitted subscription request is not known. -/
theorem lose {rx : Nat} {previous requested : String} {generationBefore : UInt64} (h : Tracked deeds sent outcome v)
    (hmem : .submitted rx (.subscriptionSwitch previous requested generationBefore) ∈ deeds) :
    Tracked (.lost rx :: deeds) sent (some ⟨previous, requested, generationBefore⟩) v :=
  h.cons le_rfl (fun _ _ hsent => hsent.elim) trivial fun _ hpending => Option.some.inj hpending ▸ ⟨rx, rfl, hmem⟩

theorem spawn (h : Tracked deeds sent outcome v) : Tracked deeds (sent + 1) outcome v :=
  ⟨h.taken, fun deed hmem rx request hsent => (h.below deed hmem rx request hsent).trans (Nat.lt_succ_self _), h.unique,
    h.backed, h.outcome⟩

theorem resolved (h : Tracked deeds sent outcome v) : Tracked deeds sent none v :=
  ⟨h.taken, h.below, h.unique, h.backed, nofun⟩

/-- No daemon has taken what has not been sent. -/
theorem answered (h : Tracked deeds sent outcome v) : v.Answered deeds sent := by
  intro base cls snapshot _ n i j _ htaken
  obtain ⟨_, deed, hmem, request, hsent, _⟩ := h.taken sent _ htaken
  exact absurd (h.below deed hmem sent request hsent) (Nat.lt_irrefl _)

/-! ### The dashboard keeps it -/

section

variable {first : String} {arrivals : Nat → Arrival} {l m : Lanes}

theorem lanes_step (h : Tracked l.deeds l.spawned l.outcome v) (hok : l.Ok first)
    (honest : ∀ rx reply, arrivals rx = .received (.ok reply) → v.Replies rx reply) (hstep : l.Step arrivals m) :
    Tracked m.deeds m.spawned m.outcome v := by
  cases hstep with
  | spawn => exact h.spawn
  | ask => exact h.send (fun _ _ hsent => hsent.1.symm) h.answered nofun
  | drop => exact h
  | @present f reply snapshot flight focus epoch arrived status =>
      have hshown : v.Shown f.rx snapshot := ⟨reply, honest f.rx reply arrived, status⟩
      have hreconciled : Tracked (l.reconcile snapshot).deeds l.spawned (l.reconcile snapshot).outcome v := by
        unfold Lanes.reconcile
        split
        · exact h
        · rename_i message _
          exact (h.note (.reconciled message) (fun _ _ => not_false) trivial nofun).resolved
      have hspawned : (l.present f.rx snapshot).spawned = l.spawned := by
        unfold Lanes.present Lanes.reconcile
        dsimp only
        split <;> rfl
      rw [hspawned]
      exact hreconciled.note (.applied f.rx l.cls snapshot) (fun _ _ => not_false) hshown nofun
  | hide => exact h.note .offline (fun _ _ => not_false) trivial nofun
  | @submit kind idle licensed =>
      refine h.send (fun _ _ hsent => hsent.1.symm) ⟨h.answered, fun hs => ?_⟩ nofun
      obtain ⟨_, snapshot, hlive, _, _, hbased⟩ := licensed hs
      obtain ⟨base, hdisplayed⟩ := (hok.display snapshot hlive).displayed
      exact ⟨base, snapshot, hdisplayed, hbased⟩
  | stray => exact h
  | @answer f => exact h.note (.answered f.rx) (fun _ _ => not_false) trivial nofun
  | @succeed f => exact (h.note (.answered f.rx) (fun _ _ => not_false) trivial nofun).resolved
  | @lose f previous requested generationBefore flight about =>
      obtain ⟨_, kind, hkind, hsubmitted, _⟩ := hok.mutation f flight
      obtain rfl := Option.some.inj (hkind.symm.trans about)
      exact (h.note (.answered f.rx) (fun _ _ => not_false) trivial nofun).lose (List.mem_cons_of_mem _ hsubmitted)
  | @focus cls => exact h.note (.focused cls) (fun _ _ => not_false) trivial nofun

theorem lanes_steps (h : Tracked l.deeds l.spawned l.outcome v) (hok : l.Ok first)
    (honest : ∀ rx reply, arrivals rx = .received (.ok reply) → v.Replies rx reply) (hsteps : l.Steps arrivals m) :
    Tracked m.deeds m.spawned m.outcome v := by
  induction hsteps with
  | refl => exact h
  | tail hsteps hstep ih => exact ih.lanes_step (hok.steps hsteps) honest hstep

end

end Tracked

/-- A session is in order: its dashboard and what it knows of the daemon. -/
structure Session.Sound (first : String) (s : Session) : Prop where
  lanes : s.app.lanes.Ok first
  tracked : Tracked s.app.deeds s.app.spawned s.app.subscriptionOutcomeUnknown s.service

section

variable {cfg : Config} {first : String} {s next : Session} {turn : Turn}

theorem Session.Opens.sound (h : s.Opens cfg) : s.Sound s.app.cls := by
  obtain @⟨turn, cls, hclasses, status, events, service, hfirst, honest⟩ := h
  have hopened : Opened cfg (refresh turn status events (App.new turn cfg cls hclasses)) := .intro _ _ _ _ _
  refine ⟨hopened.ok, ?_⟩
  obtain ⟨hsteps, -⟩ := @steps_refresh turn (App.new turn cfg cls hclasses)
    (fun rx => if rx = 0 then .received status else .empty) status events rfl
    (fun reply hreply => congrArg Arrival.received hreply)
  refine Tracked.lanes_steps ?_ ok_new.ask (fun rx reply harrived => ?_) hsteps
  · exact {
      taken := fun rx desk hrx => by
        obtain ⟨rfl, hle, hruns⟩ := hfirst rx desk hrx
        exact ⟨hle, _, List.mem_singleton_self _, _, ⟨rfl, rfl⟩, hruns⟩
      below := fun deed hmem rx request hsent => by
        cases List.mem_singleton.mp hmem
        obtain ⟨rfl, _⟩ : 0 = rx ∧ _ := hsent
        exact Nat.one_pos
      unique := fun deed hmem other hother _ _ _ _ _ => (List.mem_singleton.mp hmem).trans (List.mem_singleton.mp hother).symm
      backed := ⟨fun _ _ _ hmem => absurd hmem List.not_mem_nil, trivial⟩
      outcome := nofun }
  · split at harrived
    · rename_i hrx
      exact hrx ▸ honest reply (Arrival.received.inj harrived)
    · cases harrived

theorem Session.Sound.turns (h : s.Sound first) (hturns : s.Turns turn next) : next.Sound first := by
  obtain ⟨honest, turned⟩ := hturns
  have hsteps := steps_tuiTurn turned
  exact ⟨h.lanes.steps hsteps, h.tracked.lanes_steps h.lanes honest hsteps⟩

theorem Session.Sound.run (h : s.Sound first) (hrun : s.Run next) : next.Sound first := by
  induction hrun with
  | refl => exact h
  | tail _ step ih =>
      cases step with
      | serve step => exact ⟨ih.lanes, ih.tracked.step step⟩
      | turn turns => exact ih.turns turns

end

end Causeway

import Causeway.Proof.Outcomes
import Causeway.Proof.Tracking

/-!
# Requests whose reply was lost

The dashboard takes a status snapshot for proof of what has become of a subscription request whose reply was lost: the generation is still the one that it was sent on, or the next one. That tells the truth if the daemon that gives the snapshot is the one the request was sent to, has begun with it or never will, and has published nothing else in between.
-/

namespace Causeway

open Concurrent Prog Dashboard

/-- The moves before thread `i`, a finished status request, looks at the counter of mutations for the last time: three more steps follow. -/
def untilCount (i : Nat) (moves : List (Move World)) : List (Move World) := Pool.beforeOwn i 3 moves

/-- The moves from the last look at the generation of one finished status request to that of another. -/
def between (b i : Nat) (moves : List (Move World)) : List (Move World) :=
  (untilCheck i moves).drop (untilCheck b moves).length

/-- How often the request has published so far. -/
def Service.effect (v : Service) (rx : Nat) : Nat :=
  match v.fate rx with
  | .taken desk => publications ((v.stint desk.stint).moves.filter fun m => m.thread = desk.thread)
  | _ => 0

/-- In this turn the answer to the status request `rx` unlocks the dashboard, which shows this message. -/
structure Unlocks (turn : Turn) (app : App) (rx : Nat) (message : String) : Prop where
  locked : app.subscriptionOutcomeUnknown ≠ none
  flight : app.statusFlight.map (·.rx) = some rx
  unlocked : (pollStatus turn app).subscriptionOutcomeUnknown = none
  told : (pollStatus turn app).message = message

/-- The request `r` to switch from one profile to another has an outcome that is not known; it was sent on the answer to the status request `base`. -/
structure Pends (deeds : List Deed) (r base : Nat) (previous requested : String) : Prop where
  lost : lostRequest deeds = some r
  sent : ∃ since generation before snapshot,
    deeds = since ++ .submitted r (.subscriptionSwitch previous requested generation) :: before ∧
      Displayed base snapshot before

/-- What allows the answer to `rx` to tell what has become of `r`: it comes from the daemon that gave the answer to `base`, this daemon has begun with `r` when it looks at the counter for the last time, or `r` is lost, and it has published nothing else between the two answers. -/
structure Conclusive (v : Service) (r base rx n b i : Nat) : Prop where
  base : v.fate base = .taken ⟨n, b⟩
  answer : v.fate rx = .taken ⟨n, i⟩
  begun : v.fate r = .lost ∨ ∃ j, v.fate r = .taken ⟨n, j⟩ ∧ Pool.own j (untilCount i (v.stint n).moves) ≠ []
  alone : ∀ m ∈ between b i (v.stint n).moves, publishes m = true → v.fate r = .taken ⟨n, m.thread⟩

namespace Service

variable (v : Service)

/-- The daemon that answers the status request has this profile when it looks at the generation for the last time. -/
def Active (rx : Nat) (name : String) : Prop :=
  ∃ n i world rest, v.fate rx = .taken ⟨n, i⟩ ∧
    (v.stint n).moves = untilCheck i (v.stint n).moves ++ ⟨i, world, world⟩ :: rest ∧ world.subscriptions.active = name

/-- What was published last before that look is this profile, by the request `r`. -/
def MadeActive (r rx : Nat) (name : String) : Prop :=
  ∃ n i before m after, v.fate rx = .taken ⟨n, i⟩ ∧ v.fate r = .taken ⟨n, m.thread⟩ ∧
    untilCheck i (v.stint n).moves = before ++ m :: after ∧ publishes m = true ∧ m.after.subscriptions.active = name ∧
      ∀ k ∈ after, publishes k = false

end Service

/-- The request takes no effect any more, however the session goes on, and what the message says of it is so. -/
structure Truthful (s next : Session) (r rx : Nat) (previous requested message : String) : Prop where
  settled : ∀ later, next.Run later → later.service.effect r = s.service.effect r
  told :
    message = "previous subscription request reconciled: " ++ requested ++ " is active (reply was lost)" ∧
      s.service.Active rx requested ∧ s.service.MadeActive r rx requested ∨
    message = "previous subscription request reconciled: " ++ previous ++ " remains active" ∧
      s.service.Active rx previous ∧ s.service.effect r = 0

/-! ### Publications -/

section

variable {env : Env} {w : World} {tasks : Nat → Task} {moves before after : List (Move World)} {m : Move World}
  {last : Pool World Outside Reply} {i j : Nat}

theorem publications_append : publications (before ++ after) = publications before + publications after := List.countP_append

theorem publications_own_eq_zero (h : ∀ step ∈ Pool.own i moves, step.2.trail.published = step.1.trail.published) :
    publications (moves.filter fun m => m.thread = i) = 0 := by
  refine List.countP_eq_zero.mpr fun m hm => ?_
  obtain ⟨hmem, hthread⟩ := List.mem_filter.mp hm
  have hkept : m.after.trail.published = m.before.trail.published :=
    h (m.before, m.after) (of_decide_eq_true hthread ▸ Pool.mem_own hmem)
  simp [publishes, hkept]

/-- A thread publishes at most once. -/
theorem publications_own_le (h : Started env w) (run : (daemon env tasks w).Run moves last) (i : Nat) :
    publications (moves.filter fun m => m.thread = i) ≤ 1 := by
  have hstories : DaemonStories False env tasks w moves := daemon_stories h False.elim run
  obtain ⟨⟨l, story, -⟩, -⟩ := (run.chronicle hstories).2 i
  rcases Bool.eq_false_or_eq_true l.unpublished with hl | hl
  · exact (publications_own_eq_zero fun step hstep => (unissued_before story hl hstep).2).trans_le (Nat.zero_le 1)
  rcases Bool.eq_false_or_eq_true (tasks i).opening.unpublished with hk | hk
  · obtain ⟨first, step, rest, k, k', heq, hfirst, -, hrest, hbefore, hafter⟩ :=
      story.lost (X := fun k => k.unpublished = true) hk (by simp [hl])
    obtain ⟨before, after, rfl, rfl, rfl⟩ := Pool.own_eq_append heq
    rw [List.filter_append, publications_append, List.filter_cons_of_pos (by simp),
      publications_own_eq_zero fun step hstep => (unissued_before hfirst hbefore hstep).2, publications, List.countP_cons]
    have hlater := publications_own_eq_zero fun step hstep =>
      (unissued_after hrest (Bool.eq_false_iff.mpr hafter) hstep).2
    rw [publications] at hlater
    rw [hlater]
    split <;> omega
  · exact (publications_own_eq_zero fun step hstep => (unissued_after story hk hstep).2).trans_le (Nat.zero_le 1)

/-! ### Where requests look -/

/-- Where in a run a finished status request has looked for the last time at the subscription, at the counter and at the generation. -/
structure Looks (i : Nat) (moves : List (Move World)) (snapshot : StatusSnapshot) (subs count check : World)
    (past early gap rest : List (Move World)) : Prop where
  active : snapshot.activeSubscription = some subs.subscriptions.active
  generation : snapshot.subscriptionGeneration = some subs.subscriptions.generation
  unchanged : check.subscriptions.generation = subs.subscriptions.generation
  idle : snapshot.subscriptionTxnInProgress = some false → count.subscriptionTxnsInProgress = 0
  atCount : untilCount i moves = past ++ ⟨i, subs, subs⟩ :: early
  atCheck : untilCheck i moves = untilCount i moves ++ ⟨i, count, count⟩ :: gap
  all : moves = untilCheck i moves ++ ⟨i, check, check⟩ :: rest

theorem looks_of_done (run : (daemon env tasks w).Run moves last) {cls : String} {retries : Nat}
    (htask : tasks i = .status cls retries) {reply : Reply} (hdone : last.thread i = .done reply) {snapshot : StatusSnapshot}
    (hsnapshot : reply.status = some snapshot) :
    ∃ subs count check past early gap rest, Looks i moves snapshot subs count check past early gap rest := by
  have hpath := run.path i
  rw [hdone, show (daemon env tasks w).thread i = Sup.status env cls retries by simp [daemon, htask, Task.prog]] at hpath
  have hends := emits_status retries _ _ hpath snapshot hsnapshot
  rw [List.flatMap_singleton'] at hends
  obtain ⟨earlier, before, subs, state, again, count, check, counters, conns, hown, hread, hidle⟩ := hends
  have hlast : Pool.own i moves = (earlier ++ [before, subs, state, again, count].map fun u => (u, u)) ++
      (check, check) :: [(counters, counters), (conns, conns)] := by
    rw [hown]
    simp
  obtain ⟨front, rest, rfl, hfront, hrest⟩ := Pool.own_eq_append hlast
  have hcount : Pool.own i front = (earlier ++ [before, subs, state, again].map fun u => (u, u)) ++ (count, count) :: [] := by
    rw [hfront]
    simp
  obtain ⟨front, gap, rfl, hfront, hgap⟩ := Pool.own_eq_append hcount
  have hsubs : Pool.own i front = (earlier ++ [(before, before)]) ++ (subs, subs) :: [(state, state), (again, again)] := by
    rw [hfront]
    simp
  obtain ⟨past, early, rfl, -, -⟩ := Pool.own_eq_append hsubs
  have hcheck := @Pool.beforeOwn_eq World i ((past ++ ⟨i, subs, subs⟩ :: early) ++ ⟨i, count, count⟩ :: gap) rest check check
  have hcounted := @Pool.beforeOwn_eq World i (past ++ ⟨i, subs, subs⟩ :: early) (gap ++ ⟨i, check, check⟩ :: rest) count count
  simp only [Pool.own_append, Pool.own_cons_self, hgap, hrest, List.append_assoc, List.cons_append, List.nil_append,
    List.length_cons, List.length_nil] at hcheck hcounted
  refine ⟨subs, count, check, past, early, gap, rest, hread.active, hread.generation, hread.unchanged, hidle, ?_, ?_, ?_⟩
  · simpa [untilCount] using hcounted
  · simpa [untilCheck, untilCount, hcounted] using hcheck
  · simp [untilCheck, hcheck]

/-! ### From one answer to the next -/

theorem early_of_idle {rest : List (Move World)} (h : before ++ after = moves ++ m :: rest)
    (hidle : Pool.own m.thread after = []) : ∃ late, before = moves ++ m :: late := by
  rcases List.append_eq_append_iff.mp h with ⟨more, -, rfl⟩ | ⟨more, rfl, hmore⟩
  · simp [Pool.own] at hidle
  · cases more with
    | nil =>
        rw [List.nil_append] at hmore
        simp [← hmore, Pool.own] at hidle
    | cons head more =>
        obtain ⟨rfl, -⟩ := List.cons.inj hmore
        exact ⟨more, rfl⟩

theorem late_of_idle {rest : List (Move World)} (h : before ++ after = moves ++ m :: rest)
    (hidle : Pool.own m.thread before = []) : ∃ more, moves = before ++ more := by
  rcases List.append_eq_append_iff.mp h with ⟨more, rfl, -⟩ | ⟨more, rfl, hmore⟩
  · exact ⟨more, rfl⟩
  · cases more with
    | nil => exact ⟨[], by simp⟩
    | cons head more =>
        obtain ⟨rfl, -⟩ := List.cons.inj hmore
        simp [Pool.own] at hidle

/-- Two answers, the second one asked for when the first had been given: what they show, the last look `first` of the first one, and those of the second one. -/
structure Bracket (b i : Nat) (moves : List (Move World)) (shown snapshot : StatusSnapshot)
    (first subs count check : World) (mid early gap rest : List (Move World)) : Prop where
  basis : shown.subscriptionGeneration = some first.subscriptions.generation
  active : snapshot.activeSubscription = some subs.subscriptions.active
  generation : snapshot.subscriptionGeneration = some check.subscriptions.generation
  unchanged : subs.subscriptions.generation = check.subscriptions.generation
  idle : snapshot.subscriptionTxnInProgress = some false → count.subscriptionTxnsInProgress = 0
  stretch : between b i moves = ⟨b, first, first⟩ :: mid ++ ⟨i, subs, subs⟩ :: (early ++ ⟨i, count, count⟩ :: gap)
  atBase : moves = untilCheck b moves ++ (between b i moves ++ ⟨i, check, check⟩ :: rest)
  atCount : moves = untilCount i moves ++ ⟨i, count, count⟩ :: (gap ++ ⟨i, check, check⟩ :: rest)
  atCheck : untilCheck i moves = untilCheck b moves ++ between b i moves

variable {b : Nat} {shown snapshot : StatusSnapshot} {first subs count check subs' count' check' : World}
  {mid past early gap rest past' early' gap' rest' : List (Move World)}

theorem Looks.bracket (h : Looks b moves shown subs' count' check' past' early' gap' rest')
    (g : Looks i moves snapshot subs count check past early gap rest) (hmoves : moves = before ++ after)
    (hdone : Pool.own b after = []) (hfresh : Pool.own i before = []) :
    ∃ mid, Bracket b i moves shown snapshot check' subs count check mid early gap rest := by
  obtain ⟨late, hbefore⟩ := early_of_idle (hmoves.symm.trans h.all) hdone
  have hanswer : moves = past ++ ⟨i, subs, subs⟩ ::
      (early ++ ⟨i, count, count⟩ :: (gap ++ ⟨i, check, check⟩ :: rest)) := by
    conv_lhs => rw [g.all, g.atCheck, g.atCount]
    simp
  obtain ⟨more, hpast⟩ := late_of_idle (hmoves.symm.trans hanswer) hfresh
  -- The second answer begins after the first.
  have hcheck : untilCheck i moves = untilCheck b moves ++
      (⟨b, check', check'⟩ :: (late ++ more) ++ ⟨i, subs, subs⟩ :: (early ++ ⟨i, count, count⟩ :: gap)) := by
    rw [g.atCheck, g.atCount, hpast]
    conv_lhs => rw [hbefore]
    simp
  have hbetween : between b i moves =
      ⟨b, check', check'⟩ :: (late ++ more) ++ ⟨i, subs, subs⟩ :: (early ++ ⟨i, count, count⟩ :: gap) := by
    rw [between, hcheck, List.drop_left]
  exact ⟨late ++ more, {
    basis := h.generation.trans (congrArg some h.unchanged.symm)
    active := g.active
    generation := g.generation.trans (congrArg some g.unchanged.symm)
    unchanged := g.unchanged.symm
    idle := g.idle
    stretch := hbetween
    atBase := by
      conv_lhs => rw [g.all, hcheck]
      rw [hbetween, List.append_assoc]
    atCount := by
      conv_lhs => rw [g.all, g.atCheck]
      simp
    atCheck := by rw [hcheck, hbetween] }⟩

/-- What was published from one answer to the next is what the second generation is ahead; if that is at most one publication, the subscription that the second answer shows is there at its last look. -/
theorem Bracket.published (h : Started env w) (run : (daemon env tasks w).Run moves last)
    (g : Bracket b i moves shown snapshot first subs count check mid early gap rest) :
    check.subscriptions.generation = UInt64.ofNat (first.trail.published + publications (between b i moves)) ∧
      first.subscriptions.generation = UInt64.ofNat first.trail.published ∧
      (publications (between b i moves) ≤ 1 → check.subscriptions = subs.subscriptions) := by
  have hmoves := reachable_moves h run
  have hcounts := (tallied_run h.mutations run).2
  have hera : ∀ m ∈ moves, m.before.subscriptions.generation = UInt64.ofNat m.before.trail.published :=
    fun m hm => (hmoves m hm).1.era
  have hall := g.atBase
  rw [g.stretch] at hall ⊢
  -- The stretches from the first answer to the second, and from where that one reads the subscription.
  obtain ⟨atBase, _, hfromBase, rfl⟩ := run_at (hall ▸ run)
  obtain ⟨atCheck, hstretch, -, rfl⟩ := @run_at _ _ (⟨b, atBase.shared, atBase.shared⟩ :: (mid ++ ⟨i, subs, subs⟩ ::
    (early ++ ⟨i, count, count⟩ :: gap))) _ _ hfromBase
  obtain ⟨atSubs, hfirst, hsecond, rfl⟩ := @run_at _ _ (⟨b, atBase.shared, atBase.shared⟩ :: mid) _ _ hstretch
  have hmem : ∀ m ∈ (⟨b, atBase.shared, atBase.shared⟩ : Move World) :: (mid ++ ⟨i, atSubs.shared, atSubs.shared⟩ ::
      (early ++ ⟨i, count, count⟩ :: gap)), m ∈ moves := by
    intro m hm
    rw [hall]
    simp only [List.mem_append, List.mem_cons] at hm ⊢
    tauto
  have hlater : ∀ m ∈ (⟨i, atSubs.shared, atSubs.shared⟩ : Move World) :: (early ++ ⟨i, count, count⟩ :: gap), m ∈ moves :=
    fun m hm => hmem m (List.mem_cons_of_mem _ (List.mem_append_right _ hm))
  have htotal := published_run hstretch fun m hm => hcounts m (hmem m hm)
  have hrest := published_run hsecond fun m hm => hcounts m (hlater m hm)
  have hcheckEra : atCheck.shared.subscriptions.generation = UInt64.ofNat atCheck.shared.trail.published :=
    hera ⟨i, atCheck.shared, atCheck.shared⟩ (by rw [hall]; simp)
  have hbaseEra : atBase.shared.subscriptions.generation = UInt64.ofNat atBase.shared.trail.published :=
    hera ⟨b, atBase.shared, atBase.shared⟩ (hmem _ (by simp))
  have hsubsEra : atSubs.shared.subscriptions.generation = UInt64.ofNat atSubs.shared.trail.published :=
    hera ⟨i, atSubs.shared, atSubs.shared⟩ (hlater _ (by simp))
  refine ⟨hcheckEra.trans (congrArg UInt64.ofNat htotal), hbaseEra, fun hone => ?_⟩
  rw [publications_append] at hone
  have hsame : atSubs.shared.trail.published = atCheck.shared.trail.published := by
    refine era_inj (by omega) (by omega) ?_
    rw [← hsubsEra, ← hcheckEra]
    exact g.unchanged
  exact ((quiet_while_published hsecond fun m hm => (hmoves m (hlater m hm)).2.2).2 hsame.symm).1

/-- Until something else is published, the subscription is what a move has left. -/
theorem subscriptions_unpublished (h : Started env w) {k : Move World} {rest : List (Move World)}
    (run : (daemon env tasks w).Run ((before ++ m :: after) ++ k :: rest) last)
    (hquiet : ∀ k ∈ after, publishes k = false) : k.before.subscriptions = m.after.subscriptions := by
  have hmoves := reachable_moves h run
  have hcounts := (tallied_run h.mutations run).2
  have hall : (before ++ m :: after) ++ k :: rest = (before ++ [m]) ++ (after ++ k :: rest) := by simp
  rw [hall] at run
  obtain ⟨mid, hfirst, hsecond⟩ := run.split
  obtain ⟨last', hafter, -, hlast⟩ := run_at hsecond
  have hnone : publications after = 0 := List.countP_eq_zero.mpr fun k hk => by simp [hquiet k hk]
  have hpublished := published_run hafter fun k hk => hcounts k (by simp [hk])
  rw [hnone, Nat.add_zero] at hpublished
  rw [hfirst.after_eq, ← hlast]
  exact ((quiet_while_published hafter fun k hk => (hmoves k (by simp [hk])).2.2).2 hpublished).1

/-- A thread that begins after the first answer and has begun when the second one finds the counter at zero has published, and ever publishes, what was published in between. -/
theorem Bracket.publications (h : Started env w) (run : (daemon env tasks w).Run moves last)
    (g : Bracket b i moves shown snapshot first subs count check mid early gap rest)
    (hfresh : Pool.own j (untilCheck b moves) = []) (hbegun : Pool.own j (untilCount i moves) ≠ [])
    (hzero : count.subscriptionTxnsInProgress = 0) (halone : ∀ m ∈ between b i moves, publishes m = true → m.thread = j)
    {others : List (Move World)} {final : Pool World Outside Reply} (later : last.Run others final) :
    publications ((moves ++ others).filter fun m => m.thread = j) = publications (between b i moves) := by
  obtain ⟨atCount, huntil, hsince, rfl⟩ := run_at (g.atCount ▸ run)
  have hquiet := quiet_after_zero h huntil hbegun hzero (hsince.append later)
  have hnone : publications ((untilCheck b moves).filter fun m => m.thread = j) = 0 :=
    publications_own_eq_zero fun step hstep => absurd (hfresh ▸ hstep) List.not_mem_nil
  have hbetween : publications ((between b i moves).filter fun m => m.thread = j) = publications (between b i moves) := by
    rw [publications, publications, List.countP_filter]
    refine List.countP_congr fun m hm => ?_
    rw [Bool.and_eq_true, decide_eq_true_eq]
    exact ⟨And.left, fun hp => ⟨hp, halone m hm hp⟩⟩
  have hafter : publications ((⟨i, check, check⟩ :: rest ++ others).filter fun m => m.thread = j) = 0 := by
    refine List.countP_eq_zero.mpr fun m hm => ?_
    obtain ⟨hmem, hthread⟩ := List.mem_filter.mp hm
    have hmem' : m ∈ ⟨i, atCount.shared, atCount.shared⟩ :: (gap ++ ⟨i, check, check⟩ :: rest) ++ others := by
      simp only [List.mem_append, List.mem_cons] at hmem ⊢
      tauto
    simp [hquiet m hmem' (of_decide_eq_true hthread)]
  have hall : moves ++ others = untilCheck b moves ++ (between b i moves ++ (⟨i, check, check⟩ :: rest ++ others)) := by
    conv_lhs => rw [g.atBase]
    simp
  rw [hall, List.filter_append, List.filter_append, publications_append, publications_append, hnone, hafter, hbetween,
    Nat.zero_add, Nat.add_zero]

end

/-! ### What unlocks the dashboard -/

theorem reconciliation_inv {pending : SubscriptionOutcomeUnknown} {snapshot : StatusSnapshot} {message : String}
    (h : reconciliation pending snapshot = some message) :
    snapshot.subscriptionTxnInProgress = some false ∧ ∃ generation active,
      snapshot.subscriptionGeneration = some generation ∧ snapshot.activeSubscription = some active ∧
        (active = pending.requested ∧ generation = pending.subscriptionGenerationBeforeRequest + 1 ∧
            message = "previous subscription request reconciled: " ++ active ++ " is active (reply was lost)" ∨
          active = pending.previous ∧ generation = pending.subscriptionGenerationBeforeRequest ∧
            message = "previous subscription request reconciled: " ++ active ++ " remains active") := by
  unfold reconciliation at h
  split at h
  · cases h
  split at h
  · cases h
  rename_i hidle
  obtain ⟨generation, hgeneration, h⟩ := Option.bind_eq_some_iff.mp h
  obtain ⟨active, hactive, h⟩ := Option.bind_eq_some_iff.mp h
  refine ⟨not_not.mp hidle, generation, active, hgeneration, hactive, ?_⟩
  split at h
  · rename_i hrequested
    exact .inl ⟨hrequested.1, hrequested.2, (Option.some.inj h).symm⟩
  split at h
  · rename_i hprevious
    exact .inr ⟨hprevious.1, hprevious.2, (Option.some.inj h).symm⟩
  · cases h

section

variable {turn : Turn} {app : App} {snapshot : StatusSnapshot}

theorem outcome_refreshFromFile : (refreshFromFile turn app).subscriptionOutcomeUnknown = app.subscriptionOutcomeUnknown := by
  unfold refreshFromFile
  split <;> rfl

theorem unlocked_reconcile (hlocked : app.subscriptionOutcomeUnknown ≠ none)
    (hunlocked : (reconcileSubscriptionOutcome snapshot app).subscriptionOutcomeUnknown = none) :
    ∃ pending, app.subscriptionOutcomeUnknown = some pending ∧
      reconciliation pending snapshot = some (reconcileSubscriptionOutcome snapshot app).message := by
  unfold reconcileSubscriptionOutcome at hunlocked ⊢
  split at hunlocked
  · exact absurd hunlocked hlocked
  · rename_i message hbind
    exact Option.bind_eq_some_iff.mp hbind

theorem unlocked_applyLiveSnapshot (hlocked : app.subscriptionOutcomeUnknown ≠ none)
    (hunlocked : (applyLiveSnapshot snapshot app).subscriptionOutcomeUnknown = none) :
    ∃ pending, app.subscriptionOutcomeUnknown = some pending ∧
      reconciliation pending snapshot = some (applyLiveSnapshot snapshot app).message := by
  by_cases hempty : snapshot.availableNodes.isEmpty = true
  · simp only [applyLiveSnapshot, if_pos hempty] at hunlocked ⊢
    exact unlocked_reconcile hlocked hunlocked
  · simp only [applyLiveSnapshot, if_neg hempty] at hunlocked ⊢
    exact @unlocked_reconcile { app with subs := snapshot.availableNodes } snapshot hlocked hunlocked

theorem unlocked_completeStatusReply {flight : InFlight} {result : ReplyResult}
    (hlocked : app.subscriptionOutcomeUnknown ≠ none)
    (hunlocked : (completeStatusReply turn flight result app).subscriptionOutcomeUnknown = none) :
    ∃ pending snapshot reply, app.subscriptionOutcomeUnknown = some pending ∧
      reconciliation pending snapshot = some (completeStatusReply turn flight result app).message ∧ result = .ok reply ∧
      reply.status = some snapshot ∧ flight.epoch = app.epoch := by
  unfold completeStatusReply at hunlocked ⊢
  split at hunlocked
  · exact absurd hunlocked hlocked
  rename_i hguard
  rw [if_neg hguard]
  split at hunlocked
  · rename_i reply hreply
    split at hunlocked
    · rename_i snapshot hstatus
      obtain ⟨pending, hpending, htold⟩ := unlocked_applyLiveSnapshot hlocked hunlocked
      have hresult : result = .ok reply := by
        cases result with
        | error error => simp [Except.toOption] at hreply
        | ok value =>
            obtain ⟨heq, _⟩ := Option.filter_eq_some_iff.mp hreply
            exact congrArg Except.ok (Option.some.inj heq)
      exact ⟨pending, snapshot, reply, hpending, htold, hresult, hstatus, not_not.mp (not_or.mp hguard).2⟩
    · exact absurd hunlocked hlocked
  · exact absurd (outcome_refreshFromFile.symm.trans hunlocked) hlocked

theorem Unlocks.inv {rx : Nat} {message : String} (h : Unlocks turn app rx message) :
    ∃ pending snapshot reply flight, app.subscriptionOutcomeUnknown = some pending ∧
      reconciliation pending snapshot = some message ∧ turn.arrivals rx = .received (.ok reply) ∧
      reply.status = some snapshot ∧ app.statusFlight = some flight ∧ flight.rx = rx ∧ flight.epoch = app.epoch := by
  obtain ⟨hlocked, hrx, hunlocked, rfl⟩ := h
  obtain ⟨flight, hflight, rfl⟩ := Option.map_eq_some_iff.mp hrx
  unfold pollStatus at hunlocked ⊢
  split at hunlocked
  · rename_i taken result htaken
    obtain ⟨hsame, harrived⟩ := eq_of_takeCompleted htaken
    cases hflight.symm.trans hsame
    obtain ⟨pending, snapshot, reply, hpending, htold, rfl, hstatus, hepoch⟩ :=
      @unlocked_completeStatusReply turn { app with statusFlight := none } flight result hlocked hunlocked
    exact ⟨pending, snapshot, reply, flight, hpending, htold, harrived reply rfl, hstatus, hflight, rfl, hepoch⟩
  · exact absurd hunlocked hlocked

end

/-! ### The request and the answers around it -/

theorem asked_of_applied {first : String} {deeds : List Deed} {rx : Nat} {cls : String} {snapshot : StatusSnapshot}
    (h : Dashboard.Orderly first deeds) (hmem : .applied rx cls snapshot ∈ deeds) : .asked rx cls ∈ deeds := by
  induction deeds with
  | nil => cases hmem
  | cons deed before ih =>
      rcases List.mem_cons.mp hmem with rfl | hmem
      · obtain ⟨-, since, earlier, rfl, -⟩ : _ ∧ Dashboard.Current rx cls before := h.1
        simp
      · exact List.mem_cons_of_mem _ (ih h.2 hmem)

section

variable {first : String} {s : Session} {rx n i : Nat} {cls : String} {reply : Reply} {snapshot : StatusSnapshot}

/-- A status request that was answered with a snapshot has looked. -/
theorem Session.Sound.looks (h : s.Sound first) (hasked : .asked rx cls ∈ s.app.deeds)
    (hfate : s.service.fate rx = .taken ⟨n, i⟩) (hshown : s.service.Shown rx snapshot) :
    ∃ subs count check past early gap rest,
      Looks i (s.service.stint n).moves snapshot subs count check past early gap rest := by
  obtain ⟨reply, ⟨desk, hdesk, hdone⟩, hstatus⟩ := hshown
  cases hdesk.symm.trans hfate
  obtain ⟨_, deed, hmem, request, hsends, hruns⟩ := h.tracked.taken rx _ hfate
  obtain rfl := h.tracked.unique _ hasked deed hmem rx _ request ⟨rfl, rfl⟩ hsends
  obtain ⟨-, rfl⟩ := hsends
  generalize htask : (s.service.stint n).tasks i = task at hruns
  cases hruns with
  | status cls retries => exact looks_of_done (s.service.stint n).run htask hdone hstatus

/-- The answer to `rx` is to tell of the request `r`, which was sent on the answer to `base`. -/
structure Session.Traces (s : Session) (r base rx : Nat) (pending : SubscriptionOutcomeUnknown)
    (shown snapshot : StatusSnapshot) : Prop where
  pends : Pends s.app.deeds r base pending.previous pending.requested
  basis : shown.subscriptionGeneration = some pending.subscriptionGenerationBeforeRequest
  asked : ∃ cls, .asked base cls ∈ s.app.deeds
  shown : s.service.Shown base shown
  asks : ∃ cls, .asked rx cls ∈ s.app.deeds
  shows : s.service.Shown rx snapshot
  sent : s.service.Follows base r
  follows : s.service.Follows base rx

theorem Session.Sound.traces (h : s.Sound first) {turn : Turn} {message : String} (hunlocks : Unlocks turn s.app rx message)
    (honest : ∀ rx reply, turn.arrivals rx = .received (.ok reply) → s.service.Replies rx reply) :
    ∃ r base pending shown snapshot, s.Traces r base rx pending shown snapshot ∧
      reconciliation pending snapshot = some message := by
  obtain ⟨pending, snapshot, reply, flight, hpending, htold, harrived, hstatus, hflight, rfl, hepoch⟩ := hunlocks.inv
  obtain ⟨r, hlost, hsubmitted⟩ := h.tracked.outcome pending hpending
  have hcurrent : Dashboard.Current flight.rx flight.cls s.app.deeds := by
    obtain ⟨-, ⟨-, hcurrent⟩ | ⟨hold, -⟩⟩ := h.lanes.status flight hflight
    · exact hcurrent
    · have hsucc := hold.trans hepoch.symm
      simp at hsucc
  obtain ⟨since, before, hdeeds, hsince⟩ := hcurrent
  -- The status request was sent after the request that it tells of.
  have hbefore : .submitted r (.subscriptionSwitch pending.previous pending.requested
      pending.subscriptionGenerationBeforeRequest) ∈ before := by
    rw [hdeeds] at hsubmitted
    rcases List.mem_append.mp hsubmitted with hmem | hmem
    · exact Bool.noConfusion (hsince _ hmem)
    · exact (List.mem_cons.mp hmem).resolve_left nofun
  obtain ⟨since', older, rfl⟩ := List.append_of_mem hbefore
  have hbacked := h.tracked.backed
  rw [hdeeds] at hbacked
  have hasked : s.service.Answered _ flight.rx := hbacked.at
  rw [← List.cons_append, ← List.append_assoc] at hbacked hdeeds
  obtain ⟨hanswered, hbasis⟩ := hbacked.at
  obtain ⟨base, shown, hdisplayed, hbased⟩ := hbasis rfl
  obtain ⟨cls, happlied⟩ := hdisplayed.mem
  have hmem : .applied base cls shown ∈ s.app.deeds := by
    rw [hdeeds]
    simp [happlied]
  exact ⟨r, base, pending, shown, snapshot, {
    pends := ⟨hlost, _, _, older, shown, hdeeds, hdisplayed⟩
    basis := hbased.2
    asked := ⟨cls, asked_of_applied h.lanes.orderly hmem⟩
    shown := h.tracked.backed.shown hmem
    asks := ⟨flight.cls, by rw [hdeeds]; simp⟩
    shows := ⟨reply, honest _ _ harrived, hstatus⟩
    sent := hanswered base cls shown happlied
    follows := hasked base cls shown (by simp [happlied]) }, htold⟩

variable {r base b : Nat} {pending : SubscriptionOutcomeUnknown} {shown : StatusSnapshot}

theorem Service.effect_taken {v : Service} {desk : Desk} (h : v.fate r = .taken desk) :
    v.effect r = publications ((v.stint desk.stint).moves.filter fun m => m.thread = desk.thread) := by
  rw [Service.effect, h]

theorem Session.Traces.bracket (h : s.Traces r base rx pending shown snapshot) (hsound : s.Sound first)
    (hc : Conclusive s.service r base rx n b i) :
    ∃ look subs count check mid early gap rest,
      Bracket b i (s.service.stint n).moves shown snapshot look subs count check mid early gap rest := by
  obtain ⟨cls', hasked⟩ := h.asked
  obtain ⟨cls, hasks⟩ := h.asks
  obtain ⟨_, _, _, _, _, _, _, hbase⟩ := hsound.looks hasked hc.base h.shown
  obtain ⟨_, _, _, _, _, _, _, hanswer⟩ := hsound.looks hasks hc.answer h.shows
  obtain ⟨before, after, hmoves, hdone, hfresh⟩ := h.follows n b i hc.base hc.answer
  obtain ⟨mid, hbracket⟩ := hbase.bracket hanswer hmoves hdone hfresh
  exact ⟨_, _, _, _, mid, _, _, _, hbracket⟩

/-- Between the answers at most one thing was published, and it is all that the request ever publishes. -/
theorem Session.Traces.effect (h : s.Traces r base rx pending shown snapshot) (hsound : s.Sound first)
    (hc : Conclusive s.service r base rx n b i) (hidle : snapshot.subscriptionTxnInProgress = some false) :
    publications (between b i (s.service.stint n).moves) ≤ 1 ∧
      ∀ u, s.service.Later u → u.effect r = publications (between b i (s.service.stint n).moves) := by
  rcases hc.begun with hlost | ⟨j, htaken, hbegun⟩
  · have hnone : publications (between b i (s.service.stint n).moves) = 0 := by
      refine List.countP_eq_zero.mpr fun m hm hpublishes => ?_
      exact absurd (hlost.symm.trans (hc.alone m hm hpublishes)) nofun
    rw [hnone]
    refine ⟨Nat.zero_le 1, fun u hu => ?_⟩
    rw [Service.effect, hu.fate r (by simp [hlost]), hlost]
  · obtain ⟨_, _, _, _, _, _, _, _, hbracket⟩ := h.bracket hsound hc
    have halone : ∀ m ∈ between b i (s.service.stint n).moves, publishes m = true → m.thread = j := fun m hm hpublishes =>
      (Desk.mk.inj (Fate.taken.inj (htaken.symm.trans (hc.alone m hm hpublishes)))).2.symm
    have hfresh : Pool.own j (untilCheck b (s.service.stint n).moves) = [] := by
      obtain ⟨before, after, hmoves, hdone, hfresh⟩ := h.sent n b j hc.base htaken
      have hbase := hmoves.symm.trans hbracket.atBase
      rw [hbracket.stretch] at hbase
      obtain ⟨late, rfl⟩ := early_of_idle hbase hdone
      exact (List.append_eq_nil_iff.mp ((Pool.own_append _ _ _).symm.trans hfresh)).1
    have hcount := fun {others : List (Move World)} {final : Pool World Outside Reply}
        (later : (s.service.stint n).pool.Run others final) =>
      hbracket.publications (s.service.stint n).started (s.service.stint n).run hfresh hbegun (hbracket.idle hidle) halone later
    refine ⟨?_, fun u hu => ?_⟩
    · rw [← hcount (.refl _), List.append_nil]
      exact publications_own_le (s.service.stint n).started (s.service.stint n).run j
    · obtain ⟨_, others, hothers, hrun⟩ := hu.stint n (hsound.tracked.bounded r _ htaken)
      rw [Service.effect_taken ((hu.fate r (by simp [htaken])).trans htaken), hothers]
      exact hcount hrun

/-- The one publication in a stretch, if it is not followed by another. -/
theorem publication_of_one {moves : List (Move World)} (h : publications moves = 1) :
    ∃ before m after, moves = before ++ m :: after ∧ publishes m = true ∧ ∀ k ∈ after, publishes k = false := by
  obtain ⟨m, hm, hpublishes⟩ := List.countP_pos_iff.mp (h ▸ Nat.one_pos : 0 < publications moves)
  obtain ⟨before, after, rfl⟩ := List.append_of_mem hm
  rw [publications_append, publications, publications, List.countP_cons_of_pos hpublishes] at h
  refine ⟨before, m, after, rfl, hpublishes, fun k hk => ?_⟩
  simpa using List.countP_eq_zero.mp (show List.countP publishes after = 0 by omega) k hk

/-- What the message says is so. -/
theorem Session.Traces.told (h : s.Traces r base rx pending shown snapshot) (hsound : s.Sound first)
    (hc : Conclusive s.service r base rx n b i) {message : String} (htold : reconciliation pending snapshot = some message) :
    message = "previous subscription request reconciled: " ++ pending.requested ++ " is active (reply was lost)" ∧
      s.service.Active rx pending.requested ∧ s.service.MadeActive r rx pending.requested ∨
    message = "previous subscription request reconciled: " ++ pending.previous ++ " remains active" ∧
      s.service.Active rx pending.previous ∧ s.service.effect r = 0 := by
  obtain ⟨hidle, generation, active, hgeneration, hactive, hcases⟩ := reconciliation_inv htold
  obtain ⟨hone, heffect⟩ := h.effect hsound hc hidle
  obtain ⟨look, subs, count, check, mid, early, gap, rest, hbracket⟩ := h.bracket hsound hc
  obtain ⟨hcheck, hlook, hsame⟩ := hbracket.published (s.service.stint n).started (s.service.stint n).run
  have hall : (s.service.stint n).moves = untilCheck i (s.service.stint n).moves ++ ⟨i, check, check⟩ :: rest := by
    conv_lhs => rw [hbracket.atBase]
    rw [hbracket.atCheck, List.append_assoc]
  have hfound : check.subscriptions.active = active := by
    rw [hsame hone]
    exact Option.some.inj (hbracket.active.symm.trans hactive)
  have hsees : s.service.Active rx active := ⟨n, i, check, rest, hc.answer, hall, hfound⟩
  have hlater : generation = UInt64.ofNat (look.trail.published + publications (between b i (s.service.stint n).moves)) :=
    (Option.some.inj (hgeneration.symm.trans hbracket.generation)).trans hcheck
  have hearlier : pending.subscriptionGenerationBeforeRequest = UInt64.ofNat look.trail.published :=
    (Option.some.inj (h.basis.symm.trans hbracket.basis)).trans hlook
  rcases hcases with ⟨rfl, hnext, rfl⟩ | ⟨rfl, hstays, rfl⟩
  · have hpublished : publications (between b i (s.service.stint n).moves) = 1 := by
      by_contra hnone
      rw [hlater, hearlier, show publications (between b i (s.service.stint n).moves) = 0 by omega] at hnext
      simp at hnext
    obtain ⟨before, m, after, hbetween, hpublishes, hquiet⟩ := publication_of_one hpublished
    have hm : m ∈ between b i (s.service.stint n).moves := by simp [hbetween]
    have huntil : untilCheck i (s.service.stint n).moves = (untilCheck b (s.service.stint n).moves ++ before) ++ m :: after := by
      rw [hbracket.atCheck, hbetween, List.append_assoc]
    have hkept : check.subscriptions = m.after.subscriptions := by
      rw [huntil] at hall
      exact subscriptions_unpublished (s.service.stint n).started (hall ▸ (s.service.stint n).run) hquiet
    exact .inl ⟨rfl, hsees, n, i, _, m, after, hc.answer, hc.alone m hm hpublishes, huntil, hpublishes, hkept ▸ hfound, hquiet⟩
  · have hnone : publications (between b i (s.service.stint n).moves) = 0 := by
      by_contra hsome
      rw [hlater, hearlier, show publications (between b i (s.service.stint n).moves) = 1 by omega] at hstays
      simp at hstays
    exact .inr ⟨rfl, hsees, (heffect _ .refl).trans hnone⟩

end

/-- Whatever the dashboard, other clients and the daemon do, and whatever becomes of the messages: an answer that unlocks the dashboard is about the request whose outcome became unknown last, and if it can tell of it, what the dashboard then says is so and the request takes no effect any more. -/
theorem lost_reply_settled {cfg : Config} {first s next : Session} (hopens : first.Opens cfg) (hrun : first.Run s) {turn : Turn}
    (hturns : s.Turns turn next) {rx : Nat} {message : String} (hunlocks : Unlocks turn s.app rx message) :
    ∃ r base previous requested, Pends s.app.deeds r base previous requested ∧
      ∀ n b i, Conclusive s.service r base rx n b i → Truthful s next r rx previous requested message := by
  have hsound := hopens.sound.run hrun
  obtain ⟨honest, turned⟩ := hturns
  obtain ⟨r, base, pending, shown, snapshot, htraces, htold⟩ := hsound.traces hunlocks honest
  refine ⟨r, base, pending.previous, pending.requested, htraces.pends, fun n b i hc => ⟨fun later hlater => ?_,
    htraces.told hsound hc htold⟩⟩
  have heffect := (htraces.effect hsound hc (reconciliation_inv htold).1).2
  exact (heffect _ hlater.later).trans (heffect _ .refl).symm

/-! ### Two sessions -/

/-- Turns that find no reply but those that the daemon has given. -/
theorem Session.run_tuiLoop {turns : List Turn} {app last : App} {v : Service}
    (honest : ∀ turn ∈ turns, ∀ rx reply, turn.arrivals rx = .received (.ok reply) → v.Replies rx reply)
    (h : tuiLoop turns app = some last) : Session.Run ⟨app, v⟩ ⟨last, v⟩ := by
  induction turns generalizing app with
  | nil => exact Option.some.inj h ▸ .refl
  | cons turn turns ih =>
      rw [tuiLoop, List.foldlM_cons] at h
      obtain ⟨next, hturn, hrest⟩ := Option.bind_eq_some_iff.mp h
      refine .head (.turn (.intro (honest turn List.mem_cons_self) hturn)) (ih (fun other hother => ?_) hrest)
      exact honest other (List.mem_cons_of_mem _ hother)

namespace Sample

/-- A class gets its path; there are two status requests and a switch. -/
def lostTasks : Nat → Task := assign [.activateInitial "web", .status "web" 0, .status "web" 0, .switchSubscription "work"]

def asking : Pool World Outside Reply := daemon (env web) lostTasks (world web)

def stint {moves : List (Move World)} {last : Pool World Outside Reply} (run : asking.Run moves last) : Stint :=
  ⟨env web, world web, lostTasks, moves, last, started web, run⟩

/-- The daemon has answered the first status request, number 0. -/
def service {moves : List (Move World)} {last : Pool World Outside Reply} (run : asking.Run moves last) : Service :=
  ⟨0, fun _ => stint run, fun rx => if rx = 0 then .taken ⟨0, 1⟩ else .underway⟩

theorem has_classes : 0 < (config web).classes.keys.length := by decide

def opening (reply : Reply) : App :=
  Dashboard.refresh (Dashboard.Sample.turn []) (.ok reply) (.error "")
    (App.new (Dashboard.Sample.turn []) (config web) "web" has_classes)

/-- The picker opens, the second profile is chosen, and its request, number 2, times out. -/
def losing : List Turn :=
  [Dashboard.Sample.press (.char 's'), Dashboard.Sample.press .down, Dashboard.Sample.press .enter,
    Dashboard.Sample.turn [(2, .error "timed out")]]

/-- The answer to the status request that follows, number 3. -/
def answering (reply : Reply) : Turn := Dashboard.Sample.turn [(3, .ok reply)]

/-- The dashboard has one request out, number 2, whose reply was lost, and all that it has shown is the answer to request 0. -/
def lostDeeds (deeds : List Deed) : Bool :=
  decide (lostRequest deeds = some 2) &&
    deeds.any (fun deed => match deed with
      | .submitted .. => true
      | _ => false) &&
    deeds.any (fun deed => match deed with
      | .asked rx cls => rx = 3 && cls = "web"
      | _ => false) &&
    deeds.all fun deed => match deed with
      | .applied rx _ _ => rx = 0
      | .submitted rx (.subscriptionSwitch previous requested _) => rx = 2 && previous = "home" && requested = "work"
      | .submitted .. => false
      | _ => true

theorem of_lostDeeds {deeds : List Deed} (h : lostDeeds deeds = true) :
    lostRequest deeds = some 2 ∧ (∃ generation, .submitted 2 (.subscriptionSwitch "home" "work" generation) ∈ deeds) ∧
      .asked 3 "web" ∈ deeds ∧ (∀ rx cls snapshot, .applied rx cls snapshot ∈ deeds → rx = 0) ∧
      ∀ rx previous requested generation, .submitted rx (.subscriptionSwitch previous requested generation) ∈ deeds →
        previous = "home" ∧ requested = "work" := by
  simp only [lostDeeds, Bool.and_eq_true, decide_eq_true_eq, List.any_eq_true, List.all_eq_true] at h
  obtain ⟨⟨⟨hlost, sent, hsent, hsubmitted⟩, asked, hasked, hasks⟩, hall⟩ := h
  have hswitch : ∀ rx previous requested generation,
      .submitted rx (.subscriptionSwitch previous requested generation) ∈ deeds →
        rx = 2 ∧ previous = "home" ∧ requested = "work" := by
    intro rx previous requested generation hmem
    simpa [and_assoc] using hall _ hmem
  refine ⟨hlost, ?_, ?_, fun rx cls snapshot hmem => by simpa using hall _ hmem,
    fun rx previous requested generation hmem => (hswitch rx previous requested generation hmem).2⟩
  · cases sent with
    | submitted rx kind =>
        cases kind with
        | subscriptionSwitch previous requested generation =>
            obtain ⟨rfl, rfl, rfl⟩ := hswitch rx previous requested generation hsent
            exact ⟨generation, hsent⟩
        | _ => simpa using hall _ hsent
    | _ => cases hsubmitted
  · cases asked with
    | asked rx cls =>
        simp only [Bool.and_eq_true, decide_eq_true_eq] at hasks
        obtain ⟨rfl, rfl⟩ := hasks
        exact hasked
    | _ => cases hasks

/-- The dashboard loses the reply on the first answer, and the second answer unlocks it with this message. -/
def resolves (message : String) (first second : Reply) : Bool :=
  (tuiLoop losing (opening first)).any fun app =>
    lostDeeds app.deeds && app.subscriptionOutcomeUnknown.isSome && decide (app.statusFlight.map (·.rx) = some 3) &&
      (pollStatus (answering second) app).subscriptionOutcomeUnknown.isNone &&
      decide ((pollStatus (answering second) app).message = message) && (tuiTurn (answering second) app).isSome

theorem of_resolves {message : String} {first second : Reply} (h : resolves message first second = true) :
    ∃ app last, tuiLoop losing (opening first) = some app ∧ lostDeeds app.deeds = true ∧
      Unlocks (answering second) app 3 message ∧ tuiTurn (answering second) app = some last := by
  obtain ⟨app, happ, hunlocks⟩ := (Option.any_eq_true _ _).mp h
  simp only [Bool.and_eq_true, decide_eq_true_eq, Option.isSome_iff_exists, Option.isNone_iff_eq_none] at hunlocks
  obtain ⟨⟨⟨⟨⟨hdeeds, _, hlocked⟩, hflight⟩, hunlocked⟩, htold⟩, last, hlast⟩ := hunlocks
  exact ⟨app, last, happ, hdeeds, ⟨by simp [hlocked], hflight, hunlocked, htold⟩, hlast⟩

theorem arrives {results : List (Nat × ReplyResult)} {rx : Nat} {result : ReplyResult}
    (h : (Dashboard.Sample.turn results).arrivals rx = .received result) : results.lookup rx = some result := by
  dsimp only [Dashboard.Sample.turn] at h
  split at h
  · rename_i found hfound
    cases h
    exact hfound
  · cases h

section

variable {moves others : List (Move World)} {mid last : Pool World Outside Reply}

theorem opens (run : asking.Run moves mid) {reply : Reply} (hdone : mid.thread 1 = .done reply) :
    Session.Opens (config web) ⟨opening reply, service run⟩ := by
  refine .intro (fun rx desk hrx => ?_) fun other hother => Except.ok.inj hother ▸ ⟨⟨0, 1⟩, rfl, hdone⟩
  dsimp only [service] at hrx
  split at hrx
  · rename_i hzero
    cases hrx
    exact ⟨hzero, le_rfl, .status "web" 0⟩
  · cases hrx

theorem runs_losing {app : App} {v : Service} {reply : Reply} (h : tuiLoop losing (opening reply) = some app) :
    Session.Run ⟨opening reply, v⟩ ⟨app, v⟩ := by
  refine Session.run_tuiLoop (fun turn hturn rx found harrived => ?_) h
  -- What arrives is nothing or an error.
  have hnone : ∀ results : List (Nat × ReplyResult), results = [] ∨ results = [(2, .error "timed out")] →
      (Dashboard.Sample.turn results).arrivals rx ≠ .received (.ok found) := by
    intro results hresults hreceived
    have hfound := arrives hreceived
    rcases hresults with rfl | rfl
    · cases hfound
    · rw [List.lookup_cons] at hfound
      split at hfound <;> cases hfound
  simp only [losing, List.mem_cons, List.not_mem_nil, or_false] at hturn
  rcases hturn with rfl | rfl | rfl | rfl
  · exact absurd harrived (hnone [] (.inl rfl))
  · exact absurd harrived (hnone [] (.inl rfl))
  · exact absurd harrived (hnone [] (.inl rfl))
  · exact absurd harrived (hnone _ (.inr rfl))

/-- Thread 3 has taken the switch, thread 2 the status request that follows, and the daemon has worked on. -/
def served (run : asking.Run moves mid) (later : mid.Run others last) : Service :=
  Service.work (((service run).take 2 3).take 3 2) later

theorem runs_served (run : asking.Run moves mid) (later : mid.Run others last) {app : App}
    (hdeeds : lostDeeds app.deeds = true) (hfresh : ∀ m ∈ moves, m.thread ≤ 1) :
    Session.Run ⟨app, service run⟩ ⟨app, served run later⟩ := by
  obtain ⟨-, ⟨generation, hsubmitted⟩, hasked, -⟩ := of_lostDeeds hdeeds
  have hidle : ∀ i, 1 < i → Pool.own i moves = [] := by
    intro i hi
    rw [Pool.own, List.filter_eq_nil_iff.mpr fun m hm => by simpa using ((hfresh m hm).trans_lt hi).ne, List.map_nil]
  have hswitch : (service run).Step app.deeds ((service run).take 2 3) := by
    refine .take rfl hsubmitted ⟨rfl, "web", rfl⟩ (.switchSubscription "work") (hidle 3 (by decide)) fun other hother => ?_
    dsimp only [service] at hother
    split at hother <;> cases hother
  have hstatus : ((service run).take 2 3).Step app.deeds (((service run).take 2 3).take 3 2) := by
    refine .take rfl hasked ⟨rfl, rfl⟩ (.status "web" 0) (hidle 2 (by decide)) fun other hother => ?_
    by_cases htwo : other = 2
    · subst htwo
      cases hother
    · have hsame : ((service run).take 2 3).fate other = (service run).fate other := Function.update_of_ne htwo _ _
      rw [hsame] at hother
      dsimp only [service] at hother
      split at hother <;> cases hother
  exact .head (.serve hswitch) (.head (.serve hstatus)
    (.single (.serve (@Service.Step.work _ (((service run).take 2 3).take 3 2) _ _ later))))

/-- The dashboard loses the reply to the switch, and the answer of thread 2 unlocks it. -/
theorem session_resolves (run : asking.Run moves mid) (later : mid.Run others last) {message : String} {first second : Reply}
    (hfresh : ∀ m ∈ moves, m.thread ≤ 1) (hdone : last.thread 2 = .done second) (h : resolves message first second = true) :
    ∃ app final, Session.Run ⟨opening first, service run⟩ ⟨app, served run later⟩ ∧
      Session.Turns (answering second) ⟨app, served run later⟩ ⟨final, served run later⟩ ∧
      Unlocks (answering second) app 3 message ∧ lostDeeds app.deeds = true := by
  obtain ⟨app, final, hloop, hdeeds, hunlocks, hturn⟩ := of_resolves h
  refine ⟨app, final, (runs_losing hloop).trans (runs_served run later hdeeds hfresh), .intro (fun rx reply harrived => ?_) hturn,
    hunlocks, hdeeds⟩
  have hfound := arrives harrived
  rw [List.lookup_cons] at hfound
  split at hfound
  · rename_i hsame
    obtain rfl : rx = 3 := by simpa using hsame
    cases hfound
    exact ⟨⟨0, 2⟩, rfl, hdone⟩
  · cases hfound

end

/-- The switch was begun before the status request looked at the counter, and nothing but the switch was published after the first answer. -/
def handled (first : Reply) (moves : List (Move World)) (last : Pool World Outside Reply) : Bool :=
  !(Pool.own 3 (untilCount 2 moves)).isEmpty && ((between 1 2 moves).all fun m => !publishes m || m.thread = 3) &&
    answered 2 (resolves "previous subscription request reconciled: work is active (reply was lost)" first) last

def publishing (moves : List (Move World)) : Bool := moves.any fun m => publishes m && m.thread = 3

/-- The switch is still to come when the status request is answered. -/
def delayed (first : Reply) (last : Pool World Outside Reply) : Bool :=
  ((Pool.trace (steps 3 56 fine) last).any fun r => publishing r.1) &&
    answered 2 (resolves "previous subscription request reconciled: home remains active" first) last

end Sample

/-- The switch is handled in full before the status request is: the daemon has switched to the profile, and the dashboard says so. -/
theorem lost_reply_settled_published : ∃ first s next turn base, Session.Opens (Sample.config Sample.web) first ∧
    first.Run s ∧ s.Turns turn next ∧ Pends s.app.deeds 2 base "home" "work" ∧
    Truthful s next 2 3 "home" "work" "previous subscription request reconciled: work is active (reply was lost)" := by
  obtain ⟨moves, mid, run, hmid⟩ := Pool.trace_reaches (Sample.steps 0 28 Sample.fine ++ Sample.steps 1 8 Sample.fine)
    Sample.asking
    (fun moves mid => (moves.all fun m => m.thread ≤ 1) && Sample.answered 1 (fun first =>
      (Pool.trace (Sample.steps 3 56 Sample.fine ++ Sample.steps 2 8 Sample.fine) mid).any fun r =>
        Sample.handled first (moves ++ r.1) r.2) mid) (by decide +kernel)
  obtain ⟨hfresh, hanswered⟩ := Bool.and_eq_true_iff.mp hmid
  obtain ⟨first, hfirst, htrace⟩ := Sample.of_answered hanswered
  obtain ⟨others, last, later, hlast⟩ := Pool.trace_reaches _ _
    (fun others last => Sample.handled first (moves ++ others) last) htrace
  simp only [Sample.handled, Bool.and_eq_true, Bool.not_eq_true', List.isEmpty_eq_false_iff, List.all_eq_true,
    Bool.or_eq_true, decide_eq_true_eq] at hfresh hlast
  obtain ⟨⟨hbegun, halone⟩, hresolves⟩ := hlast
  obtain ⟨second, hsecond, hresolves⟩ := Sample.of_answered hresolves
  obtain ⟨app, final, hrun, hturns, hunlocks, hdeeds⟩ := Sample.session_resolves run later hfresh hsecond hresolves
  obtain ⟨hlost, -, -, happlied, hswitch⟩ := Sample.of_lostDeeds hdeeds
  obtain ⟨r, base, previous, requested, hpends, hconclusive⟩ :=
    lost_reply_settled (Sample.opens run hfirst) hrun hturns hunlocks
  obtain rfl : r = 2 := Option.some.inj (hpends.lost.symm.trans hlost)
  obtain ⟨since, generation, before, snapshot, hsent, hdisplayed⟩ := hpends.sent
  dsimp only at hsent
  obtain ⟨rfl, rfl⟩ := hswitch 2 previous requested generation (by simp [hsent])
  obtain ⟨cls, hmem⟩ := hdisplayed.mem
  obtain rfl : base = 0 := happlied base cls snapshot (by simp [hsent, hmem])
  refine ⟨_, _, _, _, 0, Sample.opens run hfirst, hrun, hturns, hpends, hconclusive 0 1 2
    ⟨rfl, rfl, .inr ⟨3, rfl, hbegun⟩, fun m hm hpublishes => ?_⟩⟩
  have hthread : m.thread = 3 := (halone m hm).resolve_left (by simp [hpublishes])
  rw [hthread]
  rfl

/-- The status request is handled first: the dashboard says that the previous profile remains active, and then the daemon switches to the other one. -/
theorem lost_reply_unlocked_early : ¬ ∀ (cfg : Config) (first s next : Session) (turn : Turn) (rx : Nat) (message : String),
    first.Opens cfg → first.Run s → s.Turns turn next → Unlocks turn s.app rx message →
    ∃ r base previous requested, Pends s.app.deeds r base previous requested ∧
      Truthful s next r rx previous requested message := by
  intro hall
  obtain ⟨moves, mid, run, hmid⟩ := Pool.trace_reaches (Sample.steps 0 28 Sample.fine ++ Sample.steps 1 8 Sample.fine)
    Sample.asking
    (fun moves mid => (moves.all fun m => m.thread ≤ 1) && Sample.answered 1 (fun first =>
      (Pool.trace (Sample.steps 2 8 Sample.fine) mid).any fun r => Sample.delayed first r.2) mid) (by decide +kernel)
  obtain ⟨hfresh, hanswered⟩ := Bool.and_eq_true_iff.mp hmid
  obtain ⟨first, hfirst, htrace⟩ := Sample.of_answered hanswered
  obtain ⟨others, last, later, hlast⟩ := Pool.trace_reaches _ _ (fun _ last => Sample.delayed first last) htrace
  simp only [List.all_eq_true, decide_eq_true_eq] at hfresh
  obtain ⟨hswitching, hresolves⟩ := Bool.and_eq_true_iff.mp hlast
  obtain ⟨second, hsecond, hresolves⟩ := Sample.of_answered hresolves
  obtain ⟨switching, ending, latest, hpublishing⟩ := Pool.trace_reaches _ _ (fun moves _ => Sample.publishing moves) hswitching
  obtain ⟨app, final, hrun, hturns, hunlocks, hdeeds⟩ := Sample.session_resolves run later hfresh hsecond hresolves
  obtain ⟨hlost, -⟩ := Sample.of_lostDeeds hdeeds
  obtain ⟨r, base, previous, requested, hpends, htruthful⟩ :=
    hall _ _ _ _ _ 3 _ (Sample.opens run hfirst) hrun hturns hunlocks
  obtain rfl : r = 2 := Option.some.inj (hpends.lost.symm.trans hlost)
  have hlate : Session.Run ⟨final, Sample.served run later⟩ ⟨final, Service.work (Sample.served run later) latest⟩ :=
    .single (.serve (@Service.Step.work _ (Sample.served run later) _ _ latest))
  -- After the answer the switch has published once more than before.
  have hover : publications (((moves ++ others) ++ switching).filter fun m => m.thread = 3) =
      publications ((moves ++ others).filter fun m => m.thread = 3) := htruthful.settled _ hlate
  rw [List.filter_append, publications_append, Nat.add_eq_left] at hover
  obtain ⟨m, hm, hpublishes⟩ := List.any_eq_true.mp hpublishing
  obtain ⟨hpublishes, hthread⟩ := Bool.and_eq_true_iff.mp hpublishes
  exact List.countP_eq_zero.mp hover m (List.mem_filter.mpr ⟨hm, hthread⟩) hpublishes

end Causeway

import Causeway.Proof.Scores
import Causeway.Proof.Sites
import Causeway.Proof.Tally

/-!
# Status snapshots

Everything a snapshot shows of the published subscription and of the state is read between two looks at the same generation, so it belongs to one publication. The traffic counters are read after the second look, and after a publication that comes in between they are those of the next one.
-/

namespace Causeway

open Concurrent Prog

/-- What the snapshot says is what the world shows of the class, all of it under one profile. -/
structure Shows (env : Env) (cls : String) (snapshot : StatusSnapshot) (u : World) : Prop where
  active : snapshot.activeSubscription = some u.subscriptions.active
  generation : snapshot.subscriptionGeneration = some u.subscriptions.generation
  availableNodes : snapshot.availableNodes = u.subscriptions.nodes.map (·.name)
  availableSubscriptions : snapshot.availableSubscriptions = u.subscriptions.view.availableSubscriptions
  state : u.state.view env cls = some
    ⟨⟨snapshot.activeNode, snapshot.socksPort, snapshot.httpPort, snapshot.generation⟩, snapshot.nodes,
      snapshot.classes⟩
  statistics : u.state.activeSubscription = some u.subscriptions.active
  /-- A class that nobody is changing shows the node of its path, which is one of the profile's. -/
  path : cls ∈ env.classes → u.locks (.cls cls) = .free → ∀ path, (u.runtime cls).active = some path →
    snapshot.activeNode = some path.node.name ∧ path.node ∈ u.subscriptions.nodes
  counters : u.traffic.subscription = some u.subscriptions.active

/-- The moves before thread `i`, a finished status request, reads the counters: one more step follows. -/
def untilCounters (i : Nat) (moves : List (Move World)) : List (Move World) := Pool.beforeOwn i 1 moves

/-- The moves before its last look at the generation. -/
def untilCheck (i : Nat) (moves : List (Move World)) : List (Move World) := Pool.beforeOwn i 2 moves

/-- There is a moment during the request of thread `i` at which the world shows all of the snapshot, and the counters in it are those of that moment's profile, read under the same publication. -/
def Coherent (env : Env) (i : Nat) (cls : String) (moves : List (Move World)) (snapshot : StatusSnapshot) : Prop :=
  ∃ past moment future, moves = past ++ moment :: future ∧ Pool.own i past ≠ [] ∧ Pool.own i (moment :: future) ≠ [] ∧
    Shows env cls snapshot moment.before ∧
    ∃ world rest, moves = untilCounters i moves ++ ⟨i, world, world⟩ :: rest ∧ snapshot.traffic = world.traffic.nodes ∧
      world.traffic.subscription = some moment.before.subscriptions.active ∧
      world.trail.published = moment.before.trail.published

/-- Nothing is published between the last look at the generation and the reading of the counters. -/
def Unpublished (i : Nat) (moves : List (Move World)) : Prop :=
  publications (untilCounters i moves) = publications (untilCheck i moves)

/-- Fewer than `2 ^ 64` publications fall within the steps of thread `i`. -/
def Near (i : Nat) (moves : List (Move World)) : Prop :=
  ∀ s ∈ Pool.own i moves, ∀ t ∈ Pool.own i moves, t.1.trail.published < s.1.trail.published + 2 ^ 64

instance (i : Nat) (moves : List (Move World)) : Decidable (Unpublished i moves) :=
  inferInstanceAs (Decidable (publications _ = publications _))

instance (i : Nat) (moves : List (Move World)) : Decidable (Near i moves) :=
  inferInstanceAs (Decidable (∀ s ∈ Pool.own i moves, ∀ t ∈ Pool.own i moves, _))

/-! ### What the request reads -/

section

variable {α β : Type} {post : List (World × World) → β → Prop}

theorem emits_look {f : World → α} {k : α → Sup β}
    (h : ∀ u, Emits (fun step => [step]) (fun rest b => post ((u, u) :: rest) b) (k (f u))) :
    Emits (fun step => [step]) post (Sup.look f >>= k) := by
  refine .atomic fun o s a t heq => ?_
  obtain ⟨rfl, rfl⟩ := Prod.mk.inj (Option.some.inj heq)
  exact h s

theorem emits_readState {f : StateFile → α} {k : α → Sup β}
    (h : ∀ u : World, u.locks .state = .free →
      Emits (fun step => [step]) (fun rest b => post ((u, u) :: rest) b) (k (f u.state))) :
    Emits (fun step => [step]) post (Sup.readState f >>= k) := by
  refine .atomic fun o s a t heq => ?_
  split at heq
  · obtain ⟨rfl, rfl⟩ := Prod.mk.inj (Option.some.inj heq)
    exact h s ‹_›
  · cases heq

end

/-- The worlds that the attempt that succeeded has read the subscription, the state, the generation for the last time, and the counters in. -/
structure Readings (env : Env) (cls : String) (snapshot : StatusSnapshot) (subs state check counters : World) : Prop where
  active : snapshot.activeSubscription = some subs.subscriptions.active
  generation : snapshot.subscriptionGeneration = some subs.subscriptions.generation
  availableNodes : snapshot.availableNodes = subs.subscriptions.nodes.map (·.name)
  availableSubscriptions : snapshot.availableSubscriptions = subs.subscriptions.view.availableSubscriptions
  free : state.locks .state = .free
  view : state.state.view env cls = some
    ⟨⟨snapshot.activeNode, snapshot.socksPort, snapshot.httpPort, snapshot.generation⟩, snapshot.nodes,
      snapshot.classes⟩
  unchanged : check.subscriptions.generation = subs.subscriptions.generation
  traffic : snapshot.traffic = counters.traffic.nodes

/-- The steps of a request end with the eight of the attempt that succeeded. -/
def EndsWith (env : Env) (cls : String) (steps : List (World × World)) (snapshot : StatusSnapshot) : Prop :=
  ∃ earlier before subs state again after check counters conns,
    steps = earlier ++
      [before, subs, state, again, after, check, counters, conns].map (fun u => (u, u)) ∧
    Readings env cls snapshot subs state check counters ∧
    (snapshot.subscriptionTxnInProgress = some false → after.subscriptionTxnsInProgress = 0)

theorem EndsWith.after {env : Env} {cls : String} {steps : List (World × World)} {snapshot : StatusSnapshot}
    (h : EndsWith env cls steps snapshot) (first : List (World × World)) :
    EndsWith env cls (first ++ steps) snapshot := by
  obtain ⟨earlier, before, subs, state, again, after, check, counters, conns, rfl, hread⟩ := h
  exact ⟨first ++ earlier, before, subs, state, again, after, check, counters, conns, by simp, hread⟩

section

variable {env : Env} {cls : String}

theorem emits_trySnapshot :
    Emits (fun step => [step]) (fun steps answer => ∀ snapshot, answer = some (some snapshot) →
      EndsWith env cls steps snapshot) (Sup.trySnapshot env cls) := by
  rw [Sup.trySnapshot]
  refine emits_look fun before => emits_look fun subs => emits_readState fun state hfree => ?_
  split
  · exact .pure fun _ h => by cases h
  rename_i view hview
  refine emits_look fun again => ?_
  split
  · exact .pure fun _ h => by cases h
  refine emits_look fun after => emits_look fun check => ?_
  split
  · exact .pure fun _ h => by cases h
  rename_i _ hsame
  refine emits_look fun counters => emits_look fun conns => .pure fun snapshot h => ?_
  cases h
  refine ⟨[], before, subs, state, again, after, check, counters, conns, rfl,
    ⟨rfl, rfl, rfl, rfl, hfree, hview, not_not.mp hsame, rfl⟩, fun hidle => ?_⟩
  simp only [Option.some.injEq, Bool.or_eq_false_iff, decide_eq_false_iff_not, not_not] at hidle
  exact hidle.2

theorem emits_classSnapshot (retries : Nat) :
    Emits (fun step => [step]) (fun steps answer => ∀ snapshot, answer = some (some snapshot) →
      EndsWith env cls steps snapshot) (Sup.classSnapshot env cls retries) := by
  induction retries with
  | zero => exact emits_trySnapshot
  | succ retries ih =>
      rw [Sup.classSnapshot]
      refine emits_trySnapshot.bind fun first answer hfirst => ?_
      cases answer with
      | none => exact ih.weaken fun steps answer h snapshot heq => (h snapshot heq).after first
      | some answer => exact .pure (by simpa using hfirst)

theorem emits_status (retries : Nat) :
    Emits (fun step => [step]) (fun steps reply => ∀ snapshot, reply.status = some snapshot →
      EndsWith env cls steps snapshot) (Sup.status env cls retries) := by
  rw [Sup.status]
  refine (emits_classSnapshot retries).bind fun steps answer hsteps => ?_
  split
  · refine .pure fun snapshot h => ?_
    cases h
    simpa using hsteps _ rfl
  · exact .pure fun _ h => by cases h
  · exact .pure fun _ h => by cases h

end

/-! ### One publication -/

/-- As long as nothing is published, the subscription stays and counters that are its own are not switched. -/
theorem quiet_while_published {env : Env} {first last : Pool World Outside Reply} {moves : List (Move World)}
    (run : first.Run moves last) (hguar : ∀ m ∈ moves, Guar env m.thread m.before.core m.after.core) :
    first.shared.trail.published ≤ last.shared.trail.published ∧
    (last.shared.trail.published = first.shared.trail.published →
      last.shared.subscriptions = first.shared.subscriptions ∧
      (first.shared.traffic.subscription = some first.shared.subscriptions.active →
        last.shared.traffic.subscription = some first.shared.subscriptions.active)) := by
  induction run with
  | refl => exact ⟨le_rfl, fun _ => ⟨rfl, id⟩⟩
  | @snoc mid last moves i e t run step ih =>
      obtain ⟨hle, hquiet⟩ := ih fun m hm => hguar m (List.mem_append_left _ hm)
      have hmove : Guar env i mid.shared.core t.core := hguar ⟨i, mid.shared, t⟩ (by simp)
      obtain ⟨running, taken⟩ := step
      have hsees := hmove.sees
      have hpublished : mid.shared.trail.published ≤ t.trail.published := hsees.published
      refine ⟨hle.trans hpublished, fun heq => ?_⟩
      have hmid : mid.shared.trail.published = first.shared.trail.published :=
        le_antisymm (heq ▸ hpublished) hle
      obtain ⟨hsubs, hcounters⟩ := hquiet hmid
      have hkept : t.subscriptions = mid.shared.subscriptions := hsees.era (heq.trans hmid.symm)
      refine ⟨hkept.trans hsubs, fun hfirst => ?_⟩
      rcases hmove.selects with h | h
      · exact h.trans (hcounters hfirst)
      · rw [← hsubs, ← hkept]
        exact h

/-- A moment of a run lies between two of its stretches. -/
theorem run_at {first last : Pool World Outside Reply} {past future : List (Move World)} {m : Move World}
    (run : first.Run (past ++ m :: future) last) :
    ∃ mid, first.Run past mid ∧ mid.Run (m :: future) last ∧ mid.shared = m.before := by
  obtain ⟨mid, hpast, hfuture⟩ := run.split
  exact ⟨mid, hpast, hfuture, hfuture.before_eq.symm⟩

/-- Where in a run the request has read what. -/
structure Timeline (env : Env) (cls : String) (i : Nat) (moves : List (Move World)) (snapshot : StatusSnapshot)
    (subs state check counters : World) (past early mid late rest : List (Move World)) : Prop
    extends Readings env cls snapshot subs state check counters where
  begun : Pool.own i past ≠ []
  atCheck : untilCheck i moves = (past ++ ⟨i, subs, subs⟩ :: early) ++ ⟨i, state, state⟩ :: mid
  atCounters : untilCounters i moves = untilCheck i moves ++ ⟨i, check, check⟩ :: late
  all : moves = untilCounters i moves ++ ⟨i, counters, counters⟩ :: rest

theorem timeline_of_path {env : Env} {cls : String} {i : Nat} {moves : List (Move World)} {retries : Nat} {reply : Reply}
    {snapshot : StatusSnapshot} (hpath : Prog.Path (Sup.status env cls retries) (Pool.own i moves) (.done reply))
    (hsnapshot : reply.status = some snapshot) :
    ∃ subs state check counters past early mid late rest,
      Timeline env cls i moves snapshot subs state check counters past early mid late rest := by
  have hends := emits_status retries _ _ hpath snapshot hsnapshot
  rw [List.flatMap_singleton'] at hends
  obtain ⟨earlier, before, subs, state, again, after, check, counters, conns, hown, hread, -⟩ := hends
  have hlast : Pool.own i moves =
      (earlier ++ [before, subs, state, again, after].map fun u => (u, u)) ++
        (check, check) :: [(counters, counters), (conns, conns)] := by
    rw [hown]
    simp
  obtain ⟨front, back, rfl, hfront, hback⟩ := Pool.own_eq_append hlast
  have hstate : Pool.own i front =
      (earlier ++ [(before, before), (subs, subs)]) ++ (state, state) :: [(again, again), (after, after)] := by
    rw [hfront]
    simp
  obtain ⟨start, mid, rfl, hstart, hmid⟩ := Pool.own_eq_append hstate
  have hsubs : Pool.own i start = (earlier ++ [(before, before)]) ++ (subs, subs) :: [] := by
    rw [hstart]
    simp
  obtain ⟨past, early, rfl, hpast, _⟩ := Pool.own_eq_append hsubs
  have hcounters : Pool.own i back = [] ++ (counters, counters) :: [(conns, conns)] := hback
  obtain ⟨late, rest, rfl, hlate, hrest⟩ := Pool.own_eq_append hcounters
  have hcheck := @Pool.beforeOwn_eq World i ((past ++ ⟨i, subs, subs⟩ :: early) ++ ⟨i, state, state⟩ :: mid)
    (late ++ ⟨i, counters, counters⟩ :: rest) check check
  have htraffic := @Pool.beforeOwn_eq World i
    (((past ++ ⟨i, subs, subs⟩ :: early) ++ ⟨i, state, state⟩ :: mid) ++ ⟨i, check, check⟩ :: late) rest
    counters counters
  simp only [Pool.own_append, Pool.own_cons_self, hlate, hrest, List.append_assoc, List.cons_append,
    List.nil_append, List.length_cons, List.length_nil] at hcheck htraffic
  refine ⟨subs, state, check, counters, past, early, mid, late, rest, hread, ?_, ?_, ?_, ?_⟩
  · simp [hpast]
  · simpa [untilCheck] using hcheck
  · simpa [untilCheck, untilCounters, hcheck] using htraffic
  · simp [untilCounters, htraffic]

section

variable {env : Env} {w : World} {tasks : Nat → Task} {moves : List (Move World)} {last : Pool World Outside Reply}
  {cls : String} {i : Nat} {snapshot : StatusSnapshot} {subs state check counters : World}
  {past early mid late rest : List (Move World)}

/-- Nothing is published from the reading of the subscription to the last look at the generation, and the counters are the profile's own there. -/
theorem Timeline.settled (h : Timeline env cls i moves snapshot subs state check counters past early mid late rest)
    (hstart : Started env w) (run : (daemon env tasks w).Run moves last) (hnear : Near i moves) :
    Shows env cls snapshot state ∧ state.trail.published = check.trail.published ∧
      state.subscriptions = check.subscriptions ∧ check.traffic.subscription = some check.subscriptions.active := by
  have hmoves := reachable_moves hstart run
  have hguar : ∀ m ∈ moves, Guar env m.thread m.before.core m.after.core := fun m hm => (hmoves m hm).2.2
  have hall := h.all
  rw [h.atCounters, h.atCheck] at hall
  simp only [List.append_assoc, List.cons_append] at hall
  have hsubsMem : (⟨i, subs, subs⟩ : Move World) ∈ moves := by simp [hall]
  have hstateMem : (⟨i, state, state⟩ : Move World) ∈ moves := by simp [hall]
  have hcheckMem : (⟨i, check, check⟩ : Move World) ∈ moves := by simp [hall]
  have hsubsEra : subs.subscriptions.generation = UInt64.ofNat subs.trail.published := (hmoves _ hsubsMem).1.era
  have hcheckEra : check.subscriptions.generation = UInt64.ofNat check.trail.published := (hmoves _ hcheckMem).1.era
  have hstateInv : Inv env state.core := (hmoves _ hstateMem).1
  -- The stretches from one reading to the next.
  obtain ⟨atSubs, _, hfromSubs, rfl⟩ := run_at (hall ▸ run)
  obtain ⟨atState, hearly, hfromState, rfl⟩ := @run_at _ _ (⟨i, atSubs.shared, atSubs.shared⟩ :: early) _ _ hfromSubs
  obtain ⟨atCheck, hmid, _, rfl⟩ := @run_at _ _ (⟨i, atState.shared, atState.shared⟩ :: mid) _ _ hfromState
  obtain ⟨hle, hquiet⟩ := quiet_while_published hearly fun m hm => hguar m (by
    rw [hall]
    simp only [List.mem_cons, List.mem_append] at hm ⊢
    tauto)
  obtain ⟨hle', hquiet'⟩ := quiet_while_published hmid fun m hm => hguar m (by
    rw [hall]
    simp only [List.mem_cons, List.mem_append] at hm ⊢
    tauto)
  have hnear' := hnear _ (Pool.mem_own hsubsMem) _ (Pool.mem_own hcheckMem)
  have hpublished : atSubs.shared.trail.published = atCheck.shared.trail.published := by
    refine era_inj (hle.trans hle') (by dsimp only at hnear'; omega) ?_
    rw [← hsubsEra, ← hcheckEra]
    exact h.unchanged.symm
  obtain ⟨hsubs, _⟩ := hquiet (by omega)
  obtain ⟨hcheck, hcounters⟩ := hquiet' (by omega)
  have hbound : atState.shared.core.Bound := hstateInv.bound (World.free h.free)
  refine ⟨?_, by omega, hcheck.symm, by rw [hcheck]; exact hcounters hbound.traffic⟩
  exact {
    active := by rw [h.active, hsubs]
    generation := by rw [h.generation, hsubs]
    availableNodes := by rw [h.availableNodes, hsubs]
    availableSubscriptions := by rw [h.availableSubscriptions, hsubs]
    state := h.view
    statistics := hbound.state
    path := fun hmem hfree path hpath => by
      have hshown : Shown cls path atState.shared.core :=
        (hstateInv.settled cls hmem (World.free hfree)).shown path hpath
      refine ⟨?_, hshown.member⟩
      obtain ⟨cs, hentry, hnode, _⟩ := hshown.entry
      have hentry : atState.shared.state.classes[cls]? = some cs := hentry
      have hview := h.view
      simp only [StateFile.view, hentry, Option.map_some, Option.some.injEq, StateView.mk.injEq] at hview
      rw [hview.1] at hnode
      exact hnode
    counters := hbound.traffic }

/-- A moment whose generation the snapshot has lies in the publication the request has read. -/
theorem Timeline.moment (h : Timeline env cls i moves snapshot subs state check counters past early mid late rest)
    (hstart : Started env w) (run : (daemon env tasks w).Run moves last) (hnear : Near i moves)
    {before future : List (Move World)} {m : Move World} (hall : moves = before ++ m :: future)
    (hbegun : Pool.own i before ≠ []) (hunfinished : Pool.own i (m :: future) ≠ [])
    (hgeneration : snapshot.subscriptionGeneration = some m.before.subscriptions.generation) :
    m.before.trail.published = check.trail.published := by
  have hmoves := reachable_moves hstart run
  have hguar : ∀ m ∈ moves, Guar env m.thread m.before.core m.after.core := fun m hm => (hmoves m hm).2.2
  have hcheckMem : (⟨i, check, check⟩ : Move World) ∈ moves := by
    rw [h.all, h.atCounters]
    simp
  obtain ⟨⟨start, start'⟩, begins, hbefore⟩ := List.exists_cons_of_ne_nil hbegun
  obtain ⟨⟨ending, ending'⟩, ends, hafter⟩ := List.exists_cons_of_ne_nil hunfinished
  have hbefore : Pool.own i before = [] ++ (start, start') :: begins := hbefore
  have hafter : Pool.own i (m :: future) = [] ++ (ending, ending') :: ends := hafter
  obtain ⟨front, middle, rfl, _, _⟩ := Pool.own_eq_append hbefore
  obtain ⟨middle', back, hrest, _, _⟩ := Pool.own_eq_append hafter
  have hstartMem : (⟨i, start, start'⟩ : Move World) ∈ moves := by simp [hall]
  have hendMem : (⟨i, ending, ending'⟩ : Move World) ∈ moves := by
    rw [hall, hrest]
    simp
  have hmem : m ∈ moves := by simp [hall]
  -- From the first step of the request to the moment, and on to its last step.
  rw [List.append_assoc] at hall
  obtain ⟨atStart, _, hfromStart, hatStart⟩ := run_at (hall ▸ run)
  obtain ⟨atMoment, hfirst, hfromMoment, hatMoment⟩ := @run_at _ _ (⟨i, start, start'⟩ :: middle) _ _ hfromStart
  rw [hrest] at hfromMoment
  obtain ⟨atEnd, hsecond, _, hatEnd⟩ := run_at hfromMoment
  have hle := (quiet_while_published hfirst fun m hm => hguar m (by
    rw [hall]
    simp only [List.mem_cons, List.mem_append] at hm ⊢
    tauto)).1
  have hle' := (quiet_while_published hsecond fun x hx => hguar x (by
    rw [hall, hrest]
    simp only [List.mem_cons, List.mem_append] at hx ⊢
    tauto)).1
  rw [hatStart, hatMoment] at hle
  rw [hatMoment, hatEnd] at hle'
  have hnear' := hnear _ (Pool.mem_own hstartMem) _ (Pool.mem_own hcheckMem)
  have hnear'' := hnear _ (Pool.mem_own hcheckMem) _ (Pool.mem_own hendMem)
  dsimp only at hle hle' hnear' hnear''
  have hera : UInt64.ofNat m.before.trail.published = UInt64.ofNat check.trail.published := by
    have hmoment : m.before.subscriptions.generation = UInt64.ofNat m.before.trail.published := (hmoves m hmem).1.era
    have hcheck : check.subscriptions.generation = UInt64.ofNat check.trail.published := (hmoves _ hcheckMem).1.era
    rw [← hmoment, ← hcheck, h.unchanged]
    exact Option.some.inj (hgeneration.symm.trans h.generation)
  rcases le_total m.before.trail.published check.trail.published with hearlier | hlater
  · exact era_inj hearlier (by omega) hera
  · exact (era_inj hlater (by omega) hera.symm).symm

/-- The stretch from the last look at the generation to the reading of the counters. -/
theorem Timeline.interval (h : Timeline env cls i moves snapshot subs state check counters past early mid late rest)
    (run : (daemon env tasks w).Run moves last) :
    ∃ atCheck atCounters : Pool World Outside Reply, atCheck.shared = check ∧ atCounters.shared = counters ∧
      atCheck.Run (⟨i, check, check⟩ :: late) atCounters ∧ ∀ m ∈ (⟨i, check, check⟩ : Move World) :: late, m ∈ moves := by
  have hall : moves = untilCheck i moves ++ ⟨i, check, check⟩ :: (late ++ ⟨i, counters, counters⟩ :: rest) := by
    conv_lhs => rw [h.all, h.atCounters]
    simp
  obtain ⟨atCheck, _, hfrom, hatCheck⟩ := run_at (hall ▸ run)
  obtain ⟨atCounters, hstretch, _, hatCounters⟩ := @run_at _ _ (⟨i, check, check⟩ :: late) _ _ hfrom
  refine ⟨atCheck, atCounters, hatCheck, hatCounters, hstretch, fun m hm => ?_⟩
  rw [hall]
  simp only [List.mem_cons, List.mem_append] at hm ⊢
  tauto

/-- Nothing is published in that stretch exactly if the counters are read under the publication of the last look. -/
theorem Timeline.unpublished_iff
    (h : Timeline env cls i moves snapshot subs state check counters past early mid late rest)
    (hstart : Started env w) (run : (daemon env tasks w).Run moves last) :
    Unpublished i moves ↔ counters.trail.published = check.trail.published := by
  obtain ⟨atCheck, atCounters, rfl, rfl, hstretch, hmem⟩ := h.interval run
  have hsteps := (tallied_run hstart.mutations run).2
  rw [published_run hstretch fun m hm => hsteps m (hmem m hm), Unpublished, h.atCounters, publications, publications,
    List.countP_append, publications]
  omega

/-- The counters of a coherent snapshot are read under the publication of the last look. -/
theorem Timeline.of_coherent (h : Timeline env cls i moves snapshot subs state check counters past early mid late rest)
    (hstart : Started env w) (run : (daemon env tasks w).Run moves last) (hnear : Near i moves)
    (hcoherent : Coherent env i cls moves snapshot) : counters.trail.published = check.trail.published := by
  obtain ⟨before, m, future, hall, hbegun, hunfinished, hshows, world, rest', hread, _, _, hsame⟩ := hcoherent
  -- There is one step that reads the counters.
  have hcounters : (⟨i, counters, counters⟩ : Move World) = ⟨i, world, world⟩ :=
    (List.cons.inj (List.append_cancel_left (h.all.symm.trans hread))).1
  obtain rfl : counters = world := congrArg Move.before hcounters
  exact hsame.trans (h.moment hstart run hnear hall hbegun hunfinished hshows.generation)

end

/-- A finished status request's snapshot is coherent exactly if nothing is published between its last look at the generation and its reading of the counters. -/
theorem snapshot_coherent_iff {env : Env} {w : World} (hstart : Started env w) {tasks : Nat → Task}
    {moves : List (Move World)} {last : Pool World Outside Reply} (run : (daemon env tasks w).Run moves last)
    {i : Nat} {cls : String} {retries : Nat} (htask : tasks i = .status cls retries) {reply : Reply}
    (hdone : last.thread i = .done reply) {snapshot : StatusSnapshot} (hsnapshot : reply.status = some snapshot)
    (hnear : Near i moves) : Coherent env i cls moves snapshot ↔ Unpublished i moves := by
  have hpath := run.path i
  rw [hdone, show (daemon env tasks w).thread i = Sup.status env cls retries by simp [daemon, htask, Task.prog]]
    at hpath
  obtain ⟨subs, state, check, counters, past, early, mid, late, rest, h⟩ := timeline_of_path hpath hsnapshot
  rw [h.unpublished_iff hstart run]
  obtain ⟨hshows, hpublished, hsubs, hselected⟩ := h.settled hstart run hnear
  constructor
  · exact h.of_coherent hstart run hnear
  · intro hquiet
    have hstate : moves = (past ++ ⟨i, subs, subs⟩ :: early) ++ ⟨i, state, state⟩ ::
        (mid ++ ⟨i, check, check⟩ :: (late ++ ⟨i, counters, counters⟩ :: rest)) := by
      conv_lhs => rw [h.all, h.atCounters, h.atCheck]
      simp
    obtain ⟨atCheck, atCounters, rfl, rfl, hstretch, hmem⟩ := h.interval run
    have hguar := fun m hm => (reachable_moves hstart run m (hmem m hm)).2.2
    have hkept := ((quiet_while_published hstretch hguar).2 hquiet).2 hselected
    refine ⟨_, _, _, hstate, by simp [h.begun], by simp, hshows, atCounters.shared, rest, h.all, h.traffic, ?_, ?_⟩
    · rw [hkept, hsubs]
    · exact hquiet.trans hpublished.symm

def Sample.statusTasks : List Task :=
  [.activateInitial "web", .status "web" 0, .switchSubscription "work", .connection "web" .http]

/-- The snapshot's profile, and what it says was relayed on the node A. -/
def Sample.shown (profile : String) (reply : Reply) : Bool :=
  reply.status.any fun snapshot =>
    snapshot.activeSubscription = some profile && snapshot.traffic["A"]? = some ⟨7, 9⟩

theorem Sample.of_shown {profile : String} {reply : Reply} (h : Sample.shown profile reply = true) :
    ∃ snapshot, reply.status = some snapshot ∧ snapshot.activeSubscription = some profile ∧
      snapshot.traffic["A"]? = some ⟨7, 9⟩ := by
  obtain ⟨snapshot, hsnapshot, hshown⟩ := (Option.any_eq_true _ _).mp h
  simp only [Bool.and_eq_true, decide_eq_true_eq] at hshown
  exact ⟨snapshot, hsnapshot, hshown⟩

/-- A request that comes after the publication and the connection. -/
theorem snapshot_coherent_later : ∃ moves last reply snapshot,
    (daemon (Sample.env Sample.web) (Sample.assign Sample.statusTasks) (Sample.world Sample.web)).Run moves last ∧
    last.thread 1 = .done reply ∧ reply.status = some snapshot ∧ snapshot.traffic["A"]? = some ⟨7, 9⟩ ∧
    Coherent (Sample.env Sample.web) 1 "web" moves snapshot := by
  obtain ⟨moves, last, run, hends⟩ := Pool.trace_reaches
    (Sample.steps 0 28 Sample.fine ++ Sample.steps 2 56 Sample.fine ++
      Sample.steps 3 8 { Sample.fine with relayed := (7, 9) } ++ Sample.steps 1 8 Sample.fine)
    (daemon (Sample.env Sample.web) (Sample.assign Sample.statusTasks) (Sample.world Sample.web))
    (fun moves last => Sample.answered 1 (Sample.shown "work") last && decide (Near 1 moves) &&
      decide (Unpublished 1 moves)) (by decide +kernel)
  simp only [Bool.and_eq_true, decide_eq_true_eq] at hends
  obtain ⟨⟨hanswered, hnear⟩, hquiet⟩ := hends
  obtain ⟨reply, hdone, hshown⟩ := Sample.of_answered hanswered
  obtain ⟨snapshot, hsnapshot, _, htraffic⟩ := Sample.of_shown hshown
  exact ⟨moves, last, reply, snapshot, run, hdone, hsnapshot, htraffic,
    (snapshot_coherent_iff (Sample.started Sample.web) run rfl hdone hsnapshot hnear).mpr hquiet⟩

/-- The profile changes between the last look at the generation and the reading of the counters: the snapshot shows what was relayed under the new one. -/
theorem snapshot_torn : ∃ moves last reply snapshot,
    (daemon (Sample.env Sample.web) (Sample.assign Sample.statusTasks) (Sample.world Sample.web)).Run moves last ∧
    last.thread 1 = .done reply ∧ reply.status = some snapshot ∧ snapshot.activeSubscription = some "home" ∧
    snapshot.traffic["A"]? = some ⟨7, 9⟩ ∧ ¬ Coherent (Sample.env Sample.web) 1 "web" moves snapshot := by
  obtain ⟨moves, last, run, hends⟩ := Pool.trace_reaches
    (Sample.steps 0 28 Sample.fine ++ Sample.steps 1 6 Sample.fine ++ Sample.steps 2 56 Sample.fine ++
      Sample.steps 3 8 { Sample.fine with relayed := (7, 9) } ++ Sample.steps 1 2 Sample.fine)
    (daemon (Sample.env Sample.web) (Sample.assign Sample.statusTasks) (Sample.world Sample.web))
    (fun moves last => Sample.answered 1 (Sample.shown "home") last && decide (Near 1 moves) &&
      !decide (Unpublished 1 moves)) (by decide +kernel)
  simp only [Bool.and_eq_true, Bool.not_eq_true', decide_eq_true_eq, decide_eq_false_iff_not] at hends
  obtain ⟨⟨hanswered, hnear⟩, hpublished⟩ := hends
  obtain ⟨reply, hdone, hshown⟩ := Sample.of_answered hanswered
  obtain ⟨snapshot, hsnapshot, hactive, htraffic⟩ := Sample.of_shown hshown
  refine ⟨moves, last, reply, snapshot, run, hdone, hsnapshot, hactive, htraffic, fun hcoherent => hpublished ?_⟩
  have hpath : Prog.Path (Sup.status (Sample.env Sample.web) "web" 0) (Pool.own 1 moves) (.done reply) :=
    hdone ▸ run.path 1
  obtain ⟨subs, state, check, counters, past, early, mid, late, rest, h⟩ := timeline_of_path hpath hsnapshot
  rw [h.unpublished_iff (Sample.started Sample.web) run]
  exact h.of_coherent (Sample.started Sample.web) run hnear hcoherent

end Causeway

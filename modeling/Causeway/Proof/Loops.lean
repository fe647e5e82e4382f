import Causeway.Proof.Transaction

/-!
# The background loops keep the discipline

A health tick remembers how far its samples came, through which path, and when the first was taken. A verdict is booked with that, so the history tells which verdicts are evidence against which path.
-/

namespace Causeway

open Concurrent History

section

variable {env : Env} {i : Nat} {cls : String} {α β : Type} {post : β → Core → Prop} {w : World}

/-! ### Samples -/

/-- What the captured route says of its profile, as long as that is selected. -/
structure Captured (profile : String) (capturedAt : Nat) (c : Core) : Prop where
  earlier : capturedAt ≤ c.ledger.selections
  current : capturedAt = c.ledger.selections → c.selected = some profile

theorem Captured.sees {profile : String} {capturedAt : Nat} {s t : Core} (h : Captured profile capturedAt s)
    (hst : Sees env i s t) : Captured profile capturedAt t where
  earlier := h.earlier.trans hst.selections
  current heq := by
    have hmid : capturedAt = s.ledger.selections := le_antisymm h.earlier (heq ▸ hst.selections)
    rw [hst.selected (heq.symm.trans hmid), h.current hmid]

theorem UpToDate.captured {proto : InboundProto} {c : Core} (h : UpToDate cls c) (hroute : ((c.route cls).upstream proto).isSome = true) :
    Captured (c.route cls).trafficSubscription c.ledger.selections c where
  earlier := le_rfl
  current _ := by
    rcases h.tag with hempty | htag
    · rw [hempty] at hroute
      cases proto <;> cases hroute
    · rw [h.selected, htag]

theorem safe_captureRoute {proto : InboundProto} {k : ClassRoute × Nat × Nat → Sup β} (hcls : cls ∈ env.classes)
    (hk : ∀ t u : World, Sees env i w.core t.core → Inv env u.core → u.core.hist cls = t.core.hist cls →
      Sees env i t.core u.core → (t.route cls).pathConnections = lastInstalled (t.core.hist cls) → UpToDate cls t.core →
      SafeFrom env i post (k (t.route cls, (t.core.hist cls).length, t.core.ledger.selections)) u) :
    SafeFrom env i post (Sup.captureRoute i cls proto >>= k) w := by
  refine Discipline.Safe.atomic fun t ht hst o b u h => ?_
  split at h
  · cases h
  · rename_i ids hlock
    obtain ⟨rfl, rfl⟩ := Prod.mk.inj (Option.some.inj h)
    have hfree : t.core.Free (.route cls) := fun j => by
      have hlock' : t.core.locks (.route cls) = .readers ids := hlock
      simp [Core.hold, hlock', Lock.hold_eq_write]
    have hcurrent := ht.epochs cls hcls hfree
    have hepoch : t.core.routeEpoch cls = t.core.published := hcurrent.epoch
    have hunseen : ∀ {c : Core}, c = { t.core with reads := (cls, t.trail.routeEpoch cls) :: t.trail.reads } →
        Unseen t.core c ∧ Inv env c := by
      rintro _ rfl
      refine ⟨.of_same rfl, ht.unseen (.of_same rfl) ⟨?_, ?_⟩ ht.log ht.stamps ht.jobs⟩
      · refine List.pairwise_cons.mpr ⟨fun r hr => ?_, ht.reads.1⟩
        exact (ht.reads.2 r hr).trans hepoch.ge
      · exact List.forall_mem_cons.mpr ⟨hepoch.le, ht.reads.2⟩
    obtain ⟨hsame, hinv⟩ := hunseen rfl
    exact ⟨hinv, hsame.guar, hk t _ hst hinv rfl hsame.sees (ht.route cls hcls) hcurrent⟩

/-- Every sample that came to the route went through the path it showed then, after the first sample was taken. -/
structure SamplesOk (cls : String) (samples : List Passage) (sampledAt : Option Nat) (c : Core) : Prop where
  through : ∀ path, .through path ∈ samples → ∃ seen, seen <:+ c.hist cls ∧ sampledAt.getD 0 ≤ seen.length ∧
    path = lastInstalled seen
  taken : sampledAt.getD 0 ≤ (c.hist cls).length
  first : sampledAt = none → samples = []

theorem SamplesOk.later {samples : List Passage} {sampledAt : Option Nat} {s t : Core}
    (h : SamplesOk cls samples sampledAt s) (hst : Later s t) : SamplesOk cls samples sampledAt t := by
  refine ⟨fun path hpath => ?_, h.taken.trans (hst.hist cls).length_le, h.first⟩
  obtain ⟨seen, hseen, hrest⟩ := h.through path hpath
  exact ⟨seen, hseen.trans (hst.hist cls), hrest⟩

/-- One more sample. -/
theorem SamplesOk.sample {samples : List Passage} {sampledAt : Option Nat} {c : Core}
    (h : SamplesOk cls samples sampledAt c) (sample : Passage)
    (hsample : ∀ path, .through path = sample → path = lastInstalled (c.hist cls)) :
    SamplesOk cls (samples ++ [sample]) (some (sampledAt.getD (c.hist cls).length)) c := by
  have htaken : sampledAt.getD (c.hist cls).length ≤ (c.hist cls).length := by
    cases sampledAt with
    | none => exact le_rfl
    | some taken => exact h.taken
  refine ⟨fun path hpath => ?_, htaken, fun hnone => nomatch hnone⟩
  rcases List.mem_append.mp hpath with hpath | hpath
  · cases sampledAt with
    | none =>
        rw [h.first rfl] at hpath
        cases hpath
    | some taken => exact h.through path hpath
  · exact ⟨_, List.suffix_rfl, htaken, hsample path (List.mem_singleton.mp hpath)⟩

/-- What a tick knows when its samples are taken. -/
def Sup.Sampled.Ok (sampled : Sup.Sampled) (cls : String) (c : Core) : Prop :=
  SamplesOk cls sampled.samples sampled.sampledAt c ∧ (sampled.verdict ≠ none → sampled.samples ≠ [])

theorem safe_takeSamples {url : String} {samples : List Passage} {sampledAt : Option Nat} {count : Nat}
    (hcls : cls ∈ env.classes) (hidle : w.core.Idle i) (h : SamplesOk cls samples sampledAt w.core)
    (hsome : samples ≠ [] ∨ 0 < count) :
    SafeFrom env i (fun (sampled : Sup.Sampled) v => v.Idle i ∧ sampled.Ok cls v ∧
        v.hold i .reconfiguration = w.core.hold i .reconfiguration)
      (Sup.takeSamples i cls url samples sampledAt count) w := by
  induction count generalizing w samples sampledAt with
  | zero =>
      refine safe_pure fun _ hst => ⟨hst.idle hidle, ⟨h.later hst.later, fun _ => ?_⟩, hst.hold _⟩
      exact hsome.resolve_right (Nat.lt_irrefl 0)
  | succ count ih =>
      rw [Sup.takeSamples]
      refine safe_look fun t _ _ => ?_
      cases t.shutdown with
      | true =>
          exact safe_pure fun _ hst =>
            ⟨hst.idle hidle, ⟨h.later hst.later, fun h => absurd rfl h⟩, hst.hold _⟩
      | false =>
          refine safe_ask fun reached => ?_
          cases reached with
          | false =>
              refine safe_lookHere fun t _ hst => safe_pure fun _ htu => ?_
              have hsampled := ((h.later hst.later).sample .unreached (by simp)).later htu.later
              exact ⟨htu.idle (hst.idle hidle), ⟨hsampled, fun _ => by simp⟩, (htu.hold _).trans (hst.hold _)⟩
          | true =>
              refine safe_captureRoute hcls fun t u hst hu hhist htu hroute _ => ?_
              have hidle := htu.idle (hst.idle hidle)
              have hsampled := ((h.later hst.later).sample (.through (t.route cls).pathConnections)
                fun path hpath => (Passage.through.inj hpath).trans hroute).later htu.later
              have hgate : u.core.hold i .reconfiguration = w.core.hold i .reconfiguration :=
                (htu.hold _).trans (hst.hold _)
              rw [← hgate]
              refine safe_ask fun checked => safe_modify_same (fun _ => rfl) ?_
              have hstop : ∀ verdict, SafeFrom env i (fun (sampled : Sup.Sampled) v => v.Idle i ∧
                    sampled.Ok cls v ∧ v.hold i .reconfiguration = u.core.hold i .reconfiguration)
                  (pure (Sup.Sampled.mk verdict (samples ++ [.through (t.route cls).pathConnections])
                    (some (sampledAt.getD (t.core.hist cls).length)))) u :=
                fun _ => safe_pure fun _ huv =>
                  ⟨huv.idle hidle, ⟨hsampled.later huv.later, fun _ => by simp⟩, huv.hold _⟩
              rcases checked with error | ⟨code, rtt⟩
              · exact hstop _
              · dsimp only
                split
                · exact ih hidle hsampled (.inl (by simp))
                · exact hstop _

/-! ### Booking a verdict -/

theorem safe_bookVerdict {ok : Bool} {sampled : Sup.Sampled} {k : Nat × Nat → Sup β}
    (hclass : InClass env i cls w.core) (hidle : w.core.Idle i) (hsampled : sampled.Ok cls w.core)
    (hverdict : sampled.verdict ≠ none)
    (hk : ∀ failures (u : World), Inv env u.core → Worked env i cls w.core u.core →
      failures ≤ streak (u.core.hist cls) →
      SafeFrom env i post (k (failures, (u.core.hist cls).length)) u) :
    SafeFrom env i post (Sup.bookVerdict cls ok sampled >>= k) w := by
  refine safe_ownAct hclass.mem hclass.hold fun o t u b hbu ht hst => ?_
  have hclass' := hclass.sees hst
  have hok := ht.cellOk hclass.mem
  have hsamples := hsampled.1.later hst.later
  have hevent : EventFact (env.law cls) (t.core.hist cls)
      (.booked sampled.samples (sampled.sampledAt.getD 0) ok) := ⟨hsampled.2 hverdict, hsamples.through⟩
  have hhist : u.core.hist cls =
      .booked sampled.samples (sampled.sampledAt.getD 0) ok :: t.core.hist cls := by
    cases hbu
    simp [World.core]
  have hruntime : u.core.runtime cls = { t.core.runtime cls with
      healthFailures := if ok then 0 else min ((t.core.runtime cls).healthFailures + 1) (2 ^ 32 - 1) } := by
    cases hbu
    simp [World.core]
  have hrest : u.core.route cls = t.core.route cls ∧ u.core.entry cls = t.core.entry cls ∧
      u.core.subscriptions = t.core.subscriptions ∧ u.core.routeEpoch cls = t.core.routeEpoch cls ∧
        u.core.log = t.core.log := by
    cases hbu
    exact ⟨rfl, rfl, rfl, rfl, rfl⟩
  obtain ⟨hroute, hentry, hsubs, hepoch, hlog⟩ := hrest
  have hstep : OwnStep cls t.core u.core := by
    cases hbu
    refine ⟨rfl, rfl, ?_, ?_⟩
    · intro other hother
      simp [Core.cell, Core.entry, World.core, Function.update_of_ne hother]
    · simp [World.core]
  have hstreak : (u.core.runtime cls).healthFailures ≤ streak (u.core.hist cls) := by
    have := hclass'.ok.streak
    rw [hruntime, hhist]
    cases ok with
    | true => exact Nat.zero_le _
    | false =>
        simp only [streak, Bool.false_eq_true, if_false]
        omega
  refine ⟨⟨hstep, ?_, .inl ⟨hepoch, hroute⟩, by rw [hlog]; exact ht.log, .inl ⟨hroute, by rw [hhist]; rfl⟩⟩, fun hu => ?_⟩
  · refine ⟨?_, ?_, ?_⟩
    · change (u.core.route cls).pathConnections = lastInstalled (u.core.hist cls)
      rw [hroute, hhist]
      exact hok.route
    · change (u.core.route cls).generation = UInt64.ofNat (installs (u.core.hist cls))
      rw [hroute, hhist]
      exact hok.count
    · change History.Fact _ (u.core.hist cls)
      rw [hhist]
      exact ⟨hevent, hok.history⟩
  · have hworked : Worked env i cls w.core u.core := by
      refine .of_step hclass hidle hst hstep (hclass'.ok.kept ?_ hroute hentry hsubs ?_ hstreak)
      · rw [hruntime]
      · rw [hhist]
        rfl
    have hb : b = ((u.core.runtime cls).healthFailures, (u.core.hist cls).length) := by
      rw [hruntime, hhist]
      cases hbu
      rfl
    rw [hb]
    exact hk _ u hu hworked hstreak

/-- What a tick knows after booking: a failing verdict that reaches the threshold justifies a recovery. -/
structure Booked (env : Env) (i : Nat) (cls : String) (ok : Bool) (booked : Nat × Nat) (c : Core) : Prop where
  gate : c.hold i .reconfiguration = .read
  justified : ok = false → env.cfg.health.failThreshold ≤ booked.1 →
    Justified env.cfg.health.failThreshold (c.hist cls) booked.2

theorem booked_lasting {ok : Bool} : LastingInGate i (Booked env i cls ok) :=
  fun _ _ _ hst hgate h =>
    ⟨hgate.trans h.gate, fun hok hreached => (h.justified hok hreached).later (hst.hist cls)⟩

theorem safe_recordHealthOutcome {ok : Bool} {sampled : Sup.Sampled} (hclass : InClass env i cls w.core)
    (hidle : w.core.Idle i) (hgate : w.core.hold i .reconfiguration = .read) (hsampled : sampled.Ok cls w.core)
    (hverdict : sampled.verdict ≠ none) :
    SafeFrom env i (fun booked v => InClass env i cls v ∧ v.Idle i ∧ Booked env i cls ok booked v)
      (Sup.recordHealthOutcome env cls ok sampled) w := by
  rw [Sup.recordHealthOutcome]
  refine safe_activeName hclass ?_
  cases hactive : (w.runtime cls).active with
  | none =>
      -- A class without a path asks for recovery whatever its streak is.
      refine safe_look fun t _ hst => ?_
      have hhist : t.trail.hist cls = w.core.hist cls :=
        Core.cell_hist (hst.cell cls hclass.mem hclass.hold)
      rw [hhist]
      refine safe_pure fun v hwv => ⟨hclass.sees hwv, hwv.idle hidle, (hwv.hold _).trans hgate, fun _ _ => ?_⟩
      have hlast : lastInstalled (w.core.hist cls) = none := by
        rw [lastInstalled, ← hclass.ok.last]
        exact congrArg (Option.map (·.pathConnections)) hactive
      refine Justified.later ⟨le_rfl, .inl ?_⟩ (hwv.hist cls)
      rwa [atCount_of_suffix List.suffix_rfl]
  | some active =>
      refine safe_lockState hgate (fun _ _ => rfl) (fun _ _ => rfl) fun _ _ => ?_
      refine safe_bookVerdict hclass hidle hsampled hverdict fun failures u _ hworked hstreak => ?_
      have hdone : SafeFrom env i (fun booked v => InClass env i cls v ∧ v.Idle i ∧ Booked env i cls ok booked v)
          (pure (failures, (u.core.hist cls).length)) u := by
        refine safe_pure fun v huv => ?_
        have hworked := hworked.sees huv
        refine ⟨hworked.inClass, hworked.idle, (hworked.hold _ (by simp)).trans hgate, fun _ hreached => ?_⟩
        refine Justified.later ⟨le_rfl, .inr ?_⟩ (huv.hist cls)
        rw [atCount_of_suffix List.suffix_rfl]
        exact hreached.trans hstreak
      dsimp only
      split
      · exact safe_pushEvent hdone
      · exact hdone

/-! ### Ticks and rounds -/

theorem safe_healthTick (hcls : cls ∈ env.classes) (hidle : w.core.Idle i) :
    SafeFrom env i (fun _ v => v.Idle i) (Sup.healthTick env i cls) w := by
  rw [Sup.healthTick]
  refine safe_inGate hidle fun u hu _ hidle hgate => ?_
  have hstart : SamplesOk cls [] none u.core := ⟨by simp, Nat.zero_le _, fun _ => rfl⟩
  refine (safe_takeSamples hcls hidle hstart (.inr (by omega))).bind hu ?_
  rintro sampled v hv ⟨hidle, hsampled, hgate'⟩
  cases hverdict : sampled.verdict with
  | none => exact safe_pure fun _ hst => hst.idle hidle
  | some ok =>
      refine safe_look fun t _ _ => ?_
      cases t.shutdown with
      | true => exact safe_pure fun _ hst => hst.idle hidle
      | false =>
          have hrecord := @safe_withClass env i (Nat × Nat) v (Sup.recordHealthOutcome env cls ok sampled)
            (Booked env i cls ok) cls hcls hidle booked_lasting fun x _ hvx hidle hclass hgate'' =>
              safe_recordHealthOutcome hclass hidle (hgate''.trans (hgate'.trans hgate))
                ⟨hsampled.1.later hvx, hsampled.2⟩ (by simp [hverdict])
          refine hrecord.bind hv ?_
          rintro ⟨failures, bookedAt⟩ x hx ⟨hidle, hbooked⟩
          dsimp only
          split
          · rename_i hfailed
            simp only [Bool.and_eq_true, Bool.not_eq_true', decide_eq_true_eq] at hfailed
            refine safe_look fun t _ _ => ?_
            split
            · refine (safe_recoverAfterHealthFailure hcls hidle hbooked.gate
                (hbooked.justified hfailed.1 hfailed.2)).bind hx ?_
              exact fun _ _ _ hidle => safe_pure fun _ hst => hst.idle hidle
            · exact safe_pure fun _ hst => hst.idle hidle
          · exact safe_pure fun _ hst => hst.idle hidle

theorem updateStats_rest {nodes : List Node} {f : Node → NodeStats → NodeStats} {st : StateFile} :
    (nodes.foldl (fun st node => st.updateStats node.name (f node)) st).classes = st.classes ∧
      (nodes.foldl (fun st node => st.updateStats node.name (f node)) st).activeSubscription =
        st.activeSubscription := by
  induction nodes generalizing st with
  | nil => exact ⟨rfl, rfl⟩
  | cons node nodes ih => exact ih

theorem safe_probeCycle {source : String} (hidle : w.core.Idle i) :
    SafeFrom env i (fun _ v => v.Idle i) (Sup.probeCycle env i source) w := by
  rw [Sup.probeCycle]
  refine safe_inGate hidle fun u hu _ hidle hhold => ?_
  refine safe_pool (.inl (by simp [hhold])) (safe_ask fun rtts => ?_)
  refine safe_lockState hhold (fun _ _ => updateStats_rest.1) (fun _ _ => updateStats_rest.2) fun _ _ => ?_
  refine (safe_saveState hidle).bind hu fun _ v _ h => ?_
  exact safe_pushEvent (k := pure) (safe_pure fun _ hst => hst.idle h.2)

theorem safe_findChallenger (hcls : cls ∈ env.classes) (hidle : w.core.Idle i) :
    SafeFrom env i (fun _ v => v.Idle i) (Sup.findChallenger env i cls) w := by
  rw [Sup.findChallenger]
  refine safe_inClass hcls hidle fun u _ _ hidle hclass _ => ?_
  refine safe_activeName hclass ?_
  split
  · exact safe_pure fun _ hst => ⟨hclass.sees hst, hst.idle hidle⟩
  · refine safe_pool hclass.pinned ?_
    dsimp only
    rw [← bind_pure (Sup.readState _)]
    refine safe_readState fun _ => ?_
    exact safe_pure fun _ hst => ⟨hclass.sees hst, hst.idle hidle⟩

theorem safe_shouldSwitch {current challenger : String} {k : Bool × Challenge → Sup β}
    (hk : ∀ challenge : Challenge,
      SafeFrom env i post (k (challenge.won env.cfg.selection.hysteresis, challenge)) w) :
    SafeFrom env i post (Sup.shouldSwitch env current challenger >>= k) w :=
  safe_readState fun _ => hk _

theorem safe_hysteresisStep (hcls : cls ∈ env.classes) (hw : Inv env w.core) (hidle : w.core.Idle i) :
    SafeFrom env i (fun _ v => v.Idle i) (Sup.hysteresisStep env i cls) w := by
  rw [Sup.hysteresisStep]
  refine (safe_findChallenger hcls hidle).bind hw fun found u _ hidle => ?_
  have hstop : SafeFrom env i (fun _ v => v.Idle i) (pure ()) u := safe_pure fun _ hst => hst.idle hidle
  rcases found with _ | ⟨current, challenger⟩
  · exact hstop
  · dsimp only
    split
    · rename_i hauto
      refine safe_shouldSwitch fun challenge => ?_
      dsimp only
      split
      · exact safe_switchNode hcls hidle hauto ‹_›
      · exact hstop
    · exact hstop

theorem safe_forEach {body : α → Sup Unit} {items : List α} (hw : Inv env w.core) (hidle : w.core.Idle i)
    (hbody : ∀ item ∈ items, ∀ u : World, Inv env u.core → u.core.Idle i →
      SafeFrom env i (fun _ v => v.Idle i) (body item) u) :
    SafeFrom env i (fun _ v => v.Idle i) (Sup.forEach body items) w := by
  induction items generalizing w with
  | nil => exact safe_pure fun _ hst => hst.idle hidle
  | cons item items ih =>
      obtain ⟨hitem, hrest⟩ := List.forall_mem_cons.mp hbody
      exact (hitem w hw hidle).bind hw fun _ u hu hidle => ih hu hidle hrest

theorem safe_rounds {body : Sup Bool} {count : Nat} (hw : Inv env w.core) (hidle : w.core.Idle i)
    (hbody : ∀ u : World, Inv env u.core → u.core.Idle i → SafeFrom env i (fun _ v => v.Idle i) body u) :
    SafeFrom env i (fun _ v => v.Idle i) (Sup.rounds body count) w := by
  induction count generalizing w with
  | zero => exact safe_pure fun _ hst => hst.idle hidle
  | succ count ih =>
      rw [Sup.rounds]
      refine (hbody w hw hidle).bind hw fun again u hu hidle => ?_
      cases again with
      | true => exact ih hu hidle
      | false => exact safe_pure fun _ hst => hst.idle hidle

theorem safe_probeRound (hw : Inv env w.core) (hidle : w.core.Idle i) :
    SafeFrom env i (fun _ v => v.Idle i) (Sup.probeRound env i) w := by
  rw [Sup.probeRound]
  refine safe_look fun t _ _ => ?_
  split
  · exact safe_pure fun _ hst => hst.idle hidle
  · refine (safe_probeCycle hidle).bind hw fun _ u hu hidle => ?_
    refine (safe_forEach hu hidle fun cls hcls v hv hidle => safe_hysteresisStep hcls hv hidle).bind hu ?_
    exact fun _ v _ hidle => safe_pure fun _ hst => hst.idle hidle

theorem safe_egressRound (hw : Inv env w.core) (hidle : w.core.Idle i) :
    SafeFrom env i (fun _ v => v.Idle i) (Sup.egressRound env i) w := by
  rw [Sup.egressRound]
  refine safe_look fun t _ _ => ?_
  split
  · exact safe_pure fun _ hst => hst.idle hidle
  · refine (safe_forEach hw hidle fun cls hcls v _ hidle =>
      safe_rebuildCurrentAfterEgressChange hcls hidle).bind hw ?_
    exact fun _ v _ hidle => safe_pure fun _ hst => hst.idle hidle

/-! ### Initial activation -/

theorem safe_activateFirst {chosenAt : Nat} {candidates : List Node} (hw : Inv env w.core)
    (hclass : InClass env i cls w.core) (hidle : w.core.Idle i)
    (hcandidates : ∀ node ∈ candidates, node ∈ w.core.subscriptions.nodes ∧ Eligible env cls node)
    (hchosen : chosenAt = w.core.published) :
    SafeFrom env i (fun _ v => Worked env i cls w.core v)
      (Sup.activateFirst env i cls chosenAt candidates) w := by
  induction candidates with
  | nil => exact safe_pure fun _ hst => .of_sees hclass hidle hst
  | cons candidate candidates ih =>
      obtain ⟨⟨hmember, heligible⟩, hrest⟩ := List.forall_mem_cons.mp hcandidates
      rw [Sup.activateFirst]
      refine safe_quiet quiet_tryActivate hw fun attempt hattempt => ?_
      cases attempt with
      | elapsed => exact ih hrest
      | failed error => exact ih hrest
      | activated active =>
          have hnode := hattempt active rfl
          exact safe_installActive hclass hidle (hnode ▸ hmember) ⟨hnode ▸ heligible, fun _ h => nomatch h⟩
            hchosen

theorem safe_activateInitial (hcls : cls ∈ env.classes) (hidle : w.core.Idle i) :
    SafeFrom env i (fun _ v => v.Idle i) (Sup.activateInitial env i cls) w := by
  rw [Sup.activateInitial]
  refine safe_inClass hcls hidle fun u hu _ hidle hclass _ => ?_
  refine safe_readState fun st => safe_pool hclass.pinned (safe_readState fun st' => ?_)
  refine (safe_activateFirst hu hclass hidle ?_ rfl).weaken fun _ _ h => ⟨h.inClass, h.idle⟩
  exact fun node hnode => mem_profileCandidates hnode

/-! ### Jobs and connections -/

theorem safe_awaitDrain {path : Nat} {timer : DrainTimer} {enough : World → Bool} {k : Unit → Sup β}
    (hk : SafeFrom env i post (k ()) w) : SafeFrom env i post (Sup.awaitDrain path timer enough >>= k) w := by
  refine safe_wait ?_ fun _ => hk
  intro o t u b h
  split at h
  · obtain ⟨rfl, rfl⟩ := Prod.mk.inj (Option.some.inj h)
    rfl
  · split at h
    · obtain ⟨rfl, rfl⟩ := Prod.mk.inj (Option.some.inj h)
      rfl
    · cases h

theorem safe_drainPath {active : ActiveNode} (hidle : w.core.Idle i) :
    SafeFrom env i (fun _ v => v.Idle i) (Sup.drainPath active) w := by
  rw [Sup.drainPath]
  refine safe_awaitDrain (safe_awaitDrain ?_)
  exact safe_modify_same (k := pure) (fun _ => rfl) (safe_pure fun _ hst => hst.idle hidle)

theorem safe_takeJob {k : Job → Sup β}
    (hk : ∀ job (u : World), Inv env u.core → Sees env i w.core u.core → job.Fact u.core.published →
      SafeFrom env i post (k job) u) :
    SafeFrom env i post (Sup.takeJob i >>= k) w := by
  refine Discipline.Safe.atomic fun t ht hst o b u h => ?_
  obtain ⟨job, hjob, heq⟩ := Option.map_eq_some_iff.mp h
  obtain ⟨rfl, rfl⟩ := Prod.mk.inj heq
  have hunseen : ∀ {c : Core}, c = { t.core with jobs := t.jobs.eraseIdx o.choice } →
      Unseen t.core c ∧ Inv env c := by
    rintro _ rfl
    refine ⟨.of_same rfl, ht.unseen (.of_same rfl) ht.reads ht.log ht.stamps fun other hother => ?_⟩
    exact ht.jobs other (List.mem_of_mem_eraseIdx hother)
  obtain ⟨hsame, hinv⟩ := hunseen rfl
  refine ⟨hinv, hsame.guar, hk job _ hinv (hst.trans hsame.sees) ?_⟩
  exact ht.jobs job (List.mem_of_getElem? hjob)

theorem safe_runJob (hidle : w.core.Idle i) :
    SafeFrom env i (fun _ v => v.Idle i) (Sup.runJob env i) w := by
  rw [Sup.runJob]
  refine safe_takeJob fun job u hu hwu hjob => ?_
  cases job with
  | probe request index node era cls takenAt readAt => exact safe_probeJob hu (hwu.idle hidle) hjob
  | site request node site url takenAt => exact safe_siteJob hu (hwu.idle hidle) hjob
  | drain active => exact safe_drainPath (hwu.idle hidle)

theorem safe_addTraffic {route : ClassRoute} {up down capturedAt : Nat} {k : Unit → Sup β}
    (h : Captured route.trafficSubscription capturedAt w.core) (hk : SafeFrom env i post (k ()) w) :
    SafeFrom env i post (Sup.addTraffic route up down capturedAt >>= k) w := by
  refine safe_unseen (fun _ => True) ?_ fun _ _ => hk
  intro o t u b hbu ht hst
  have hcaptured := h.sees hst
  have hunseen : Unseen t.core u.core := by
    cases hbu
    refine ⟨?_, rfl, rfl, .inl rfl, ?_⟩
    · simp only [World.core]
      split
      · unfold TrafficState.add
        split <;> rfl
      · rfl
    · have hnodes := apply_ite TrafficState.nodes (route.nodeName ≠ "")
        (t.traffic.add route.trafficSubscription route.nodeName up down) t.traffic
      show Books t.core.selected t.core.ledger t.core.selected
        ⟨(if route.nodeName ≠ "" then t.traffic.add route.trafficSubscription route.nodeName up down else t.traffic).nodes,
          t.trail.selections, _⟩
      rw [hnodes]
      exact Books.carry ⟨route.nodeName, route.trafficSubscription, up, down, capturedAt⟩ hcaptured.earlier hcaptured.current
  refine ⟨hunseen, ?_, trivial⟩
  cases hbu
  exact ht.unseen hunseen ht.reads ht.log ht.stamps ht.jobs

theorem safe_handleConn {proto : InboundProto} (hcls : cls ∈ env.classes) (hidle : w.core.Idle i) :
    SafeFrom env i (fun _ v => v.Idle i) (Sup.handleConn i cls proto) w := by
  have hclose : ∀ u : World, u.core.Idle i →
      SafeFrom env i (fun _ v => v.Idle i) (Sup.countConns (· - 1)) u :=
    fun _ hidle => safe_modify_same (k := pure) (fun _ => rfl) (safe_pure fun _ hst => hst.idle hidle)
  rw [Sup.handleConn]
  refine safe_modify_same (fun _ => rfl) (safe_ask fun known => ?_)
  split
  · refine safe_captureRoute hcls fun t u hst _ _ htu _ hcurrent => ?_
    have hidle := htu.idle (hst.idle hidle)
    dsimp only
    split
    · rename_i hupstream
      have hcaptured := (hcurrent.captured hupstream).sees htu
      have hrelease : SafeFrom env i (fun _ v => v.Idle i) (do
          Sup.releaseConnection i (t.route cls) proto
          Sup.countConns (· - 1)) u := safe_modify_same (fun _ => rfl) (hclose u hidle)
      refine safe_ask fun ok => ?_
      split
      · exact safe_ask fun relayed => safe_addTraffic hcaptured hrelease
      · exact hrelease
    · exact hclose u hidle
  · exact hclose w hidle

/-! ### Status requests -/

theorem safe_trySnapshot (hidle : w.core.Idle i) :
    SafeFrom env i (fun _ v => v.Idle i) (Sup.trySnapshot env cls) w := by
  rw [Sup.trySnapshot]
  refine safe_look fun _ _ _ => safe_look fun _ _ _ => safe_readState fun st => ?_
  split
  · exact safe_pure fun _ hst => hst.idle hidle
  · refine safe_look fun _ _ _ => ?_
    split
    · exact safe_pure fun _ hst => hst.idle hidle
    · refine safe_look fun _ _ _ => safe_look fun _ _ _ => ?_
      split
      · exact safe_pure fun _ hst => hst.idle hidle
      · exact safe_look fun _ _ _ => safe_look fun _ _ _ => safe_pure fun _ hst => hst.idle hidle

theorem safe_classSnapshot {retries : Nat} (hw : Inv env w.core) (hidle : w.core.Idle i) :
    SafeFrom env i (fun _ v => v.Idle i) (Sup.classSnapshot env cls retries) w := by
  induction retries generalizing w with
  | zero => exact safe_trySnapshot hidle
  | succ retries ih =>
      refine (safe_trySnapshot hidle).bind hw fun answer u hu hidle => ?_
      cases answer with
      | none => exact ih hu hidle
      | some answer => exact safe_pure fun _ hst => hst.idle hidle

theorem safe_status {retries : Nat} (hw : Inv env w.core) (hidle : w.core.Idle i) :
    SafeFrom env i (fun _ v => v.Idle i) (Sup.status env cls retries) w := by
  refine (safe_classSnapshot hw hidle).bind hw fun answer u _ hidle => ?_
  rcases answer with _ | _ | snapshot <;> exact safe_pure fun _ hst => hst.idle hidle

end

end Causeway

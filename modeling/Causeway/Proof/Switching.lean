import Causeway.Proof.Installing

/-!
# Switches keep the discipline

Recoveries, hysteresis switches, manual switches and egress rebuilds: each takes the class, works on it and leaves it in order.
-/

namespace Causeway

open Concurrent History

section

variable {env : Env} {i : Nat} {cls : String} {β : Type} {post : β → Core → Prop} {w : World}

theorem safe_activeName {k : Option String → Sup β} (hclass : InClass env i cls w.core)
    (hk : SafeFrom env i post (k ((w.runtime cls).active.map (·.node.name))) w) :
    SafeFrom env i post (Sup.activeName cls >>= k) w := by
  refine safe_look fun t _ hst => ?_
  have hruntime : t.runtime cls = w.runtime cls :=
    Core.cell_runtime (hst.cell cls hclass.mem hclass.hold)
  rwa [hruntime]

theorem safe_pool {k : List Node × Nat → Sup β} (hpinned : Pinned env i w.core)
    (hk : SafeFrom env i post (k (w.subscriptions.nodes, w.trail.published)) w) :
    SafeFrom env i post (Sup.pool >>= k) w := by
  refine safe_look fun t _ hst => ?_
  obtain ⟨hsubs, hpublished⟩ := hst.subs hpinned
  have hnodes : t.subscriptions.nodes = w.subscriptions.nodes := congrArg SubscriptionRuntime.nodes hsubs
  have hpublished' : t.trail.published = w.trail.published := hpublished
  rwa [hnodes, hpublished']

/-! ### Automatic switches -/

theorem safe_switchNodeLocked {causeAt : SwitchField → Cause} (hw : Inv env w.core)
    (hclass : InClass env i cls w.core) (hidle : w.core.Idle i)
    (hgate : w.core.hold i .reconfiguration = .read)
    (hcause : ∀ field candidates, field.active = (w.core.runtime cls).active.map (·.node.name) →
      candidates.map (·.name) <+: field.ranking env cls → (∀ node ∈ candidates, Eligible env cls node) →
      CausesFact env cls candidates (causeAt field) w.core)
    (hrecovery : ∀ field bookedAt, (causeAt field).recovery = some bookedAt →
      Justified env.cfg.health.failThreshold (w.core.hist cls) bookedAt) :
    SafeFrom env i (fun _ v => Worked env i cls w.core v) (Sup.switchNodeLocked env i cls causeAt) w := by
  rw [Sup.switchNodeLocked]
  refine safe_activeName hclass (safe_pool hclass.pinned (safe_readState fun st => ?_))
  refine (safe_tryCandidates hw hclass hidle hgate ?_ (hcause _ _ rfl ?_ ?_) rfl).bind hw ?_
  · intro node hnode
    exact mem_of_mem_rankedCandidates (List.mem_filter.mp (List.mem_of_mem_take hnode)).1
  · exact (List.take_prefix _ _).map _
  · intro node hnode
    exact inRegions_of_mem_rankedCandidates (List.mem_filter.mp (List.mem_of_mem_take hnode)).1
  · rintro result u hu ⟨hworked, hfailed⟩
    cases result with
    | ok _ => exact safe_pure fun _ hst => hworked.sees hst
    | error error =>
        refine safe_look fun t _ _ => ?_
        cases t.drainShutdown with
        | true => exact safe_pure fun _ hst => hworked.sees hst
        | false =>
            simp only [Bool.false_eq_true, if_false]
            cases hnode : ((w.runtime cls).active.map (·.node.name)).bind fun name =>
                w.subscriptions.nodes.find? fun node => node.name = name with
            | none => exact safe_pure fun _ hst => hworked.sees hst
            | some node =>
                obtain ⟨name, hname, hfind⟩ := Option.bind_eq_some_iff.mp hnode
                have hmember : ∀ other ∈ [node], other ∈ u.core.subscriptions.nodes := by
                  intro other hother
                  rw [List.mem_singleton.mp hother, hworked.subs]
                  exact List.mem_of_find?_eq_some hfind
                have hsame : node.name = name := by simpa using List.find?_some hfind
                have hlast : ∀ field, ∀ other ∈ [node],
                    CauseFact env cls other (.pathRecovery (causeAt field)) w.core := by
                  intro field other hother
                  rw [List.mem_singleton.mp hother]
                  exact ⟨hname.trans (congrArg some hsame.symm), hrecovery _⟩
                have hgate' := (hworked.hold _ (by simp)).trans hgate
                refine (safe_tryCandidates hu hworked.inClass hworked.idle hgate' hmember
                  ((CausesFact.of_forall (fun _ => rfl) (hlast _)).congr (hfailed error rfl)) hworked.era.symm).bind hu ?_
                rintro result v _ ⟨hworked', _⟩
                cases result with
                | ok _ => exact safe_pure fun _ hst => (hworked.trans hworked').sees hst
                | error _ => exact safe_pure fun _ hst => (hworked.trans hworked').sees hst

theorem safe_recordRecoveryFailure (hclass : InClass env i cls w.core) (hidle : w.core.Idle i) :
    SafeFrom env i (fun _ v => Worked env i cls w.core v) (Sup.recordRecoveryFailure cls) w := by
  refine safe_ownAct (k := pure) hclass.mem hclass.hold fun o t u b hbu ht hst => ?_
  obtain ⟨rfl, rfl⟩ := Prod.mk.inj (Option.some.inj hbu)
  have hok := ht.cellOk hclass.mem
  have hclass' := hclass.sees hst
  have hstep : OwnStep cls t.core (World.core { t with
      runtime := Function.update t.runtime cls { t.runtime cls with
        autoRecovery := (t.runtime cls).autoRecovery.recordFailureAt o.instant } }) := by
    refine ⟨rfl, rfl, ?_, List.suffix_rfl⟩
    intro other hother
    simp [Core.cell, Core.entry, World.core, Function.update_of_ne hother]
  refine ⟨⟨hstep, ⟨hok.route, hok.count, hok.history⟩, .inl ⟨rfl, rfl⟩, ht.log, .inl ⟨rfl, rfl⟩⟩, fun _ => ?_⟩
  refine safe_pure fun v huv => (Worked.of_step hclass hidle hst hstep ?_).sees huv
  refine hclass'.ok.kept ?_ rfl rfl rfl rfl ?_
  · simp [World.core]
  · simpa [World.core] using hclass'.ok.streak

theorem safe_recoverAfterHealthFailure {bookedAt : Nat} (hcls : cls ∈ env.classes) (hidle : w.core.Idle i)
    (hgate : w.core.hold i .reconfiguration = .read)
    (hjustified : Justified env.cfg.health.failThreshold (w.core.hist cls) bookedAt) :
    SafeFrom env i (fun _ v => v.Idle i) (Sup.recoverAfterHealthFailure env i cls bookedAt) w := by
  rw [Sup.recoverAfterHealthFailure]
  refine safe_inClass hcls hidle fun u hu hlater hidle hclass hgate' => ?_
  have hrecovery : ∀ booked, (Cause.healthFailures bookedAt).recovery = some booked →
      Justified env.cfg.health.failThreshold (u.core.hist cls) booked := by
    rintro booked ⟨⟩
    exact hjustified.later (hlater.hist cls)
  rw [Sup.recoveryAllowed]
  refine safe_act_same (fun _ _ => ?_) fun o t _ hst => ?_
  · dsimp only
    split <;> rfl
  split
  · exact safe_pure fun _ hst => ⟨hclass.sees hst, hst.idle hidle⟩
  · rename_i hallowed
    have hruntime : t.runtime cls = u.runtime cls := Core.cell_runtime (hst.cell cls hclass.mem hclass.hold)
    have hauto : (u.core.runtime cls).active.isSome → env.cfg.classAutoSwitch cls := by
      intro hactive
      have hactive' : (t.runtime cls).active.isSome = true := by rw [hruntime]; exact hactive
      simp only [hactive', Bool.true_and, Bool.not_not, Bool.not_eq_true', Bool.not_eq_false,
        Bool.and_eq_true] at hallowed
      exact hallowed.1
    refine (safe_switchNodeLocked hu hclass hidle (hgate'.trans hgate) ?_ fun _ => hrecovery).bind hu fun moved v hv hworked => ?_
    · exact fun _ candidates _ _ heligible => CausesFact.of_forall (fun _ => rfl) fun node hnode =>
        ⟨⟨heligible node hnode, hauto⟩, hrecovery⟩
    cases moved with
    | true => exact safe_pure fun _ hst => ⟨(hworked.sees hst).inClass, (hworked.sees hst).idle⟩
    | false =>
        exact (safe_recordRecoveryFailure hworked.inClass hworked.idle).weaken
          fun _ _ h => ⟨h.inClass, h.idle⟩

theorem missed_challengerWins {challenge : Challenge} {field : SwitchField} {failed : List String} (nodes : List Node) :
    nodes.foldl (fun cause node => cause.missed node.name) (Cause.challengerWins challenge field failed) =
      .challengerWins challenge field (failed ++ nodes.map (·.name)) := by
  induction nodes generalizing failed with
  | nil => simp
  | cons node nodes ih => rw [List.foldl_cons, Cause.missed, ih, List.append_assoc, List.map_cons, List.singleton_append]

theorem safe_switchNode {challenge : Challenge} (hcls : cls ∈ env.classes) (hidle : w.core.Idle i)
    (hauto : env.cfg.classAutoSwitch cls) (hwon : challenge.won env.cfg.selection.hysteresis) :
    SafeFrom env i (fun _ v => v.Idle i) (Sup.switchNode env i cls challenge) w := by
  rw [Sup.switchNode]
  refine safe_inGate hidle fun u _ _ hidle hgate => ?_
  refine safe_inClass hcls hidle fun v hv _ hidle hclass hgate' => ?_
  have hcause : ∀ (field : SwitchField) (candidates : List Node), field.active = (v.core.runtime cls).active.map (·.node.name) →
      candidates.map (·.name) <+: field.ranking env cls → (∀ node ∈ candidates, Eligible env cls node) →
      CausesFact env cls candidates (.challengerWins challenge field []) v.core := by
    rintro field candidates hactive hranking heligible failed node rest rfl
    rw [missed_challengerWins]
    refine ⟨⟨heligible node (by simp), hauto, hwon, hactive.symm, ?_⟩, fun _ h => nomatch h⟩
    refine List.IsPrefix.trans ?_ hranking
    simp
  refine (safe_switchNodeLocked hv hclass hidle (hgate'.trans hgate) hcause fun _ _ h => nomatch h).bind hv
    fun _ x _ hworked => ?_
  exact safe_pure fun _ hst => ⟨(hworked.sees hst).inClass, (hworked.sees hst).idle⟩

/-! ### Manual switches -/

/-- What a request knows of the verdict it goes by. -/
def Requester.Fact (requester : Requester) (c : Core) : Prop :=
  ∀ nodeBefore site stamp, requester = .site nodeBefore site (some stamp) → stamp.Fact c.published

theorem Requester.Fact.later {requester : Requester} {s t : Core} (h : requester.Fact s) (hst : Later s t) :
    requester.Fact t :=
  fun _ _ _ hr => (h _ _ _ hr).later hst.published

theorem safe_requestedFrom {requested : String} {requester : Requester} {k : Option String → Sup β}
    (hclass : InClass env i cls w.core) (hrequester : requester.Fact w.core)
    (hk : SafeFrom env i post (k ((w.runtime cls).active.map (·.node.name))) w) :
    SafeFrom env i post (Sup.requestedFrom i cls requested requester >>= k) w := by
  cases requester with
  | operator => exact safe_activeName hclass hk
  | site nodeBefore site stamp =>
      refine safe_observe ?_ fun t _ hst => ?_
      · rintro t _ hst verdict rfl
        exact (hrequester _ _ _ rfl).later hst.published
      · have hruntime : t.runtime cls = w.runtime cls :=
          Core.cell_runtime (hst.cell cls hclass.mem hclass.hold)
        rwa [hruntime]

theorem requester_cause {requester : Requester} {candidates : List Node} {c : Core} :
    CausesFact env cls candidates (requester.cause ((c.runtime cls).active.map (·.node.name))) c := by
  cases requester with
  | operator => exact .of_forall (fun _ => rfl) fun _ _ => ⟨trivial, fun _ h => nomatch h⟩
  | site nodeBefore site stamp => exact .of_forall (fun _ => rfl) fun _ _ => ⟨rfl, fun _ h => nomatch h⟩

theorem safe_switchToLocked {requested : String} {requester : Requester} (hw : Inv env w.core)
    (hclass : InClass env i cls w.core) (hidle : w.core.Idle i)
    (hgate : w.core.hold i .reconfiguration = .read) (hrequester : requester.Fact w.core) :
    SafeFrom env i (fun _ v => Worked env i cls w.core v)
      (Sup.switchToLocked env i cls requested requester) w := by
  have hleave : ∀ reply, SafeFrom env i (fun _ v => Worked env i cls w.core v)
      (pure reply : Sup (Except String SwitchOutcome)) w :=
    fun _ => safe_pure fun _ hst => .of_sees hclass hidle hst
  rw [Sup.switchToLocked]
  refine safe_pool hclass.pinned ?_
  dsimp only
  cases hnode : w.subscriptions.nodes.find? fun node => node.name = requested with
  | none => exact hleave _
  | some node =>
      refine safe_requestedFrom hclass hrequester ?_
      split
      · exact hleave _
      · have hmember : ∀ other ∈ [node], other ∈ w.core.subscriptions.nodes := by
          intro other hother
          rw [List.mem_singleton.mp hother]
          exact List.mem_of_find?_eq_some hnode
        refine (safe_tryCandidates hw hclass hidle hgate hmember requester_cause rfl).bind hw ?_
        rintro result u hu ⟨hworked, hfailed⟩
        cases result with
        | ok installed => exact safe_pure fun _ hst => hworked.sees hst
        | error error =>
            refine safe_readState fun st => ?_
            refine (safe_tryCandidates hu hworked.inClass hworked.idle ((hworked.hold _ (by simp)).trans hgate) ?_
              (requester_cause.congr (hfailed error rfl)) hworked.era.symm).bind hu ?_
            · intro other hother
              rw [hworked.subs]
              exact mem_of_mem_rankedCandidates (List.mem_filter.mp (List.mem_of_mem_take hother)).1
            · rintro result v _ ⟨hworked', _⟩
              cases result with
              | ok installed => exact safe_pure fun _ hst => (hworked.trans hworked').sees hst
              | error error =>
                  refine safe_look fun _ _ _ => ?_
                  exact safe_pure fun _ hst => (hworked.trans hworked').sees hst

theorem safe_switchTo {requested : String} {requester : Requester} (hcls : cls ∈ env.classes)
    (hidle : w.core.Idle i) (hrequester : requester.Fact w.core) :
    SafeFrom env i (fun _ v => v.Idle i) (Sup.switchTo env i cls requested requester) w := by
  rw [Sup.switchTo]
  refine safe_inGate hidle fun u _ hwu hidle hgate => ?_
  refine safe_inClass hcls hidle fun v hv huv hidle hclass hgate' => ?_
  exact (safe_switchToLocked hv hclass hidle (hgate'.trans hgate) (hrequester.later (hwu.trans huv))).weaken
    fun _ _ h => ⟨h.inClass, h.idle⟩

/-! ### Egress rebuilds -/

theorem safe_rebuildLocked (hw : Inv env w.core) (hclass : InClass env i cls w.core) (hidle : w.core.Idle i) :
    SafeFrom env i (fun _ v => Worked env i cls w.core v) (Sup.rebuildLocked env i cls) w := by
  have hleave : SafeFrom env i (fun _ v => Worked env i cls w.core v) (pure ()) w :=
    safe_pure fun _ hst => .of_sees hclass hidle hst
  rw [Sup.rebuildLocked, Sup.rebuildUnwanted]
  refine safe_look fun t _ _ => ?_
  split
  · exact hleave
  · refine safe_look fun t _ hst => ?_
    have hruntime : t.runtime cls = w.runtime cls :=
      Core.cell_runtime (hst.cell cls hclass.mem hclass.hold)
    have hchosen : t.trail.published = w.core.published := (hst.subs hclass.pinned).2
    rw [hruntime]
    cases hactive : (w.runtime cls).active with
    | none => exact hleave
    | some active =>
        refine safe_quiet quiet_tryActivate hw fun attempt hattempt => ?_
        cases attempt with
        | elapsed => exact hleave
        | failed error => exact hleave
        | activated replacement =>
            refine safe_ask fun current => safe_look fun t _ _ => ?_
            split
            · exact safe_stopPlane (k := pure) hleave
            · have hnode := hattempt replacement rfl
              have hcause : CauseFact env cls replacement.node .egressChange w.core := by
                refine ⟨?_, fun _ h => nomatch h⟩
                have hactive' : (w.core.runtime cls).active = some active := hactive
                rw [hnode, hactive']
                rfl
              refine safe_installActive hclass hidle ?_ hcause hchosen
              rw [hnode]
              exact (hclass.ok.shown active hactive).member

theorem safe_rebuildCurrentAfterEgressChange (hcls : cls ∈ env.classes) (hidle : w.core.Idle i) :
    SafeFrom env i (fun _ v => v.Idle i) (Sup.rebuildCurrentAfterEgressChange env i cls) w := by
  have hleave : ∀ {u : World}, u.core.Idle i → SafeFrom env i (fun _ v => v.Idle i) (pure ()) u :=
    fun hidle => safe_pure fun _ hst => hst.idle hidle
  rw [Sup.rebuildCurrentAfterEgressChange, Sup.rebuildUnwanted]
  refine safe_look fun t _ _ => ?_
  split
  · exact hleave hidle
  · refine safe_tryAcquireWrite (.of_idle hidle) (hleave hidle) fun s u _ hws _ hsu _ hu => ?_
    have hidle := hsu.idle (hws.idle hidle)
    refine safe_releasing (by simp) (by simp) (by simp) hu (safe_look fun t _ _ => ?_)
    split
    · exact hleave hidle
    · refine safe_tryAcquireWrite (.of_idle hidle) (hleave hidle) fun s v _ hws _ hsv _ hv => ?_
      have hidle := hsv.idle (hws.idle hidle)
      refine safe_releasing (by simp) (by simp) (by simp) hv ?_
      refine safe_tryAcquireWrite (.of_idle hidle) (hleave hidle) fun s x hs hws hfree hsx hhold hx => ?_
      have hclass : InClass env i cls x.core :=
        ⟨hcls, hhold, (hs.settled cls hcls hfree).congr (hsx.cell cls) hsx.subscriptions⟩
      refine (safe_rebuildLocked hx hclass (hsx.idle (hws.idle hidle))).bind hx fun _ y _ hworked => ?_
      exact (safe_releaseClass (fun _ _ _ _ _ (_ : True) => trivial) hworked.inClass hworked.idle
        trivial).weaken fun _ _ h => h.1

end

end Causeway

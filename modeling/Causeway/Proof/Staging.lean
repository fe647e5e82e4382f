import Causeway.Proof.Probing

/-!
# Preparing a transaction

Up to its save a transaction changes nothing a thread relies on. What it prepares is complete: one planned path for every class, on a node of the new pool, with the next generation of the class's route, and a next state that names them all.
-/

namespace Causeway

open Concurrent History

section

variable {env : Env} {i : Nat}

/-! ### Opening -/

theorem quiet_subscriptionFailure {profile message : String} :
    QuietTo env i (fun reply => reply.ok = false) (Sup.subscriptionFailure profile message) := by
  rw [Sup.subscriptionFailure]
  exact quiet_pushEvent (quiet_pure rfl)

theorem quiet_prepareSubscription {profile : SubscriptionProfileConfig} {allowCachedFallback : Bool}
    {confirmedSlot : Option String} :
    QuietTo env i (fun _ => True)
      (Sup.prepareSubscription env profile allowCachedFallback confirmedSlot) := by
  rw [Sup.prepareSubscription, Sup.fetchProfile]
  refine quiet_ask fun fetched => ?_
  rcases fetched with _ | _ | prepared
  · exact quiet_pure trivial
  · dsimp only
    split
    · rw [Sup.loadConfirmed]
      refine quiet_act (fun _ _ => rfl) fun nodes => ?_
      cases nodes with
      | nil => exact quiet_pure trivial
      | cons node nodes => exact quiet_pure trivial
    · exact quiet_pure trivial
  · exact quiet_pure trivial

theorem quiet_openTransaction {target : String} {catalog : SubscriptionsConfig}
    {allowCachedFallback isReload : Bool} :
    QuietTo env i (fun opened => ∀ request, opened = .ok request → request.target = target)
      (Sup.openTransaction env target catalog allowCachedFallback isReload) := by
  rw [Sup.openTransaction]
  split
  · exact quiet_pure fun _ h => nomatch h
  · split
    · exact quiet_pure fun _ h => nomatch h
    · refine quiet_act (fun _ _ => rfl) fun _ => quiet_readState fun _ => quiet_prepareSubscription.bind fun prepared _ => ?_
      have hfail : ∀ message, QuietTo env i
          (fun opened : Except Reply Request => ∀ request, opened = .ok request → request.target = target) (do
            return .error (← Sup.subscriptionFailure target message)) := fun _ =>
        quiet_subscriptionFailure.bind fun _ _ => quiet_pure fun _ h => nomatch h
      rcases prepared with _ | _ | prepared
      · exact hfail _
      · exact hfail _
      · dsimp only
        split
        · exact hfail _
        · split
          · exact hfail _
          · split
            · refine quiet_look fun _ => ?_
              split
              · exact quiet_pure fun _ h => nomatch h
              · exact quiet_pure fun _ h => by cases h; rfl
            · exact quiet_pure fun _ h => by cases h; rfl

/-! ### Staging -/

theorem quiet_stopStaged {α : Type} {result : α → Prop} {staged : List ActiveNode} {k : Unit → Sup α}
    (hk : QuietTo env i result (k ())) : QuietTo env i result (Sup.stopStaged staged >>= k) := by
  induction staged with
  | nil => exact hk
  | cons active staged ih => exact quiet_stopPlane ih

theorem quiet_stageFirst {cls : String} {candidates : List Node} :
    QuietTo env i (fun attempt => ∀ active, attempt = .activated active → active.node ∈ candidates)
      (Sup.stageFirst env i cls candidates) := by
  induction candidates with
  | nil => exact quiet_pure fun _ h => nomatch h
  | cons candidate candidates ih =>
      rw [Sup.stageFirst]
      refine quiet_tryActivate.bind fun attempt hattempt => ?_
      cases attempt with
      | elapsed => exact quiet_pure fun _ h => nomatch h
      | failed error =>
          exact ih.weaken fun _ h active hactive => List.mem_cons_of_mem _ (h active hactive)
      | activated active =>
          refine quiet_pure ?_
          rintro _ ⟨⟩
          exact hattempt active rfl ▸ List.mem_cons_self

/-- A node that a transaction may stage for a class: a refresh keeps the region allowlist. -/
structure Stageable (env : Env) (request : Request) (cls : String) (node : Node) : Prop where
  member : node ∈ request.prepared.nodes
  eligible : request.refreshed → Eligible env cls node

theorem quiet_stagingCandidates {request : Request} {stats : Option (BTreeMap NodeStats)} {cls : String} :
    QuietTo env i (fun candidates => ∀ node ∈ candidates, Stageable env request cls node)
      (Sup.stagingCandidates env request stats cls) := by
  have hcandidates : ∀ preferred regions, (request.refreshed → regions = env.cfg.classRegions cls) →
      ∀ node ∈ (profileCandidates request.prepared.nodes stats preferred regions).take maxSwitchCandidates,
      Stageable env request cls node := by
    intro preferred regions hregions node hnode
    obtain ⟨hmember, hallowed⟩ := mem_profileCandidates (List.mem_of_mem_take hnode)
    refine ⟨hmember, fun hrefreshed => ?_⟩
    rwa [Eligible, ← hregions hrefreshed]
  rw [Sup.stagingCandidates]
  split
  · exact quiet_look fun _ => quiet_pure (hcandidates _ _ fun _ => rfl)
  · rename_i hfresh
    exact quiet_pure (hcandidates _ _ fun hrefreshed => absurd hrefreshed hfresh)

theorem quiet_stageClasses {request : Request} {stats : Option (BTreeMap NodeStats)}
    (ready : List String) {classes : List String} {staged : List ActiveNode} (hlength : staged.length = ready.length)
    (hstaged : ∀ pair ∈ ready.zip staged, Stageable env request pair.1 pair.2.node) :
    QuietTo env i (fun result => ∀ paths, result = .ok paths → paths.length = (ready ++ classes).length ∧
        ∀ pair ∈ (ready ++ classes).zip paths, Stageable env request pair.1 pair.2.node)
      (Sup.stageClasses env i request stats classes staged) := by
  induction classes generalizing ready staged with
  | nil =>
      refine quiet_pure ?_
      rintro _ ⟨⟩
      rw [List.append_nil]
      exact ⟨hlength, hstaged⟩
  | cons cls classes ih =>
      rw [Sup.stageClasses]
      refine quiet_stagingCandidates.bind fun candidates hcandidates => ?_
      refine quiet_stageFirst.bind fun attempt hattempt => ?_
      cases attempt with
      | elapsed => exact quiet_stopStaged (quiet_pure fun _ h => nomatch h)
      | failed error => exact quiet_stopStaged (quiet_pure fun _ h => nomatch h)
      | activated active =>
          have hmore : ∀ pair ∈ (ready ++ [cls]).zip (staged ++ [active]),
              Stageable env request pair.1 pair.2.node := by
            rw [List.zip_append hlength.symm]
            refine List.forall_mem_append.mpr ⟨hstaged, ?_⟩
            simpa using hcandidates _ (hattempt active rfl)
          refine (ih (ready ++ [cls]) (by simp [hlength]) hmore).weaken ?_
          intro result h paths hpaths
          simpa using h paths hpaths

/-! ### Committing the cache -/

theorem quiet_writeAllCache {inode fuel offset : Nat} {bytes : Bytes} :
    QuietTo env i (fun _ => True) (Sup.writeAllCache inode fuel offset bytes) := by
  induction fuel generalizing offset bytes with
  | zero => cases bytes <;> exact quiet_pure trivial
  | succ fuel ih =>
      cases bytes with
      | nil => exact quiet_pure trivial
      | cons byte bytes =>
          rw [Sup.writeAllCache, Sup.writeCache]
          · refine quiet_act ?_ fun written => ?_
            · intro o t
              split <;> rfl
            · cases written with
              | none => exact quiet_pure trivial
              | some count => exact ih
          · simp

theorem quiet_savePrivateCache {path : Path} {bytes : Bytes} :
    QuietTo env i (fun _ => True) (Sup.savePrivateCache path bytes) := by
  rw [Sup.savePrivateCache, Sup.createCacheTmp]
  refine quiet_ask fun ok => ?_
  cases ok with
  | false => exact quiet_pure trivial
  | true =>
      refine quiet_act ?_ fun inode => ?_
      · intro o t
        split <;> rfl
      · cases inode with
        | none => exact quiet_pure trivial
        | some inode =>
            refine quiet_writeAllCache.bind fun written _ => ?_
            cases written with
            | false => exact quiet_pure trivial
            | true =>
                refine quiet_ask fun ok => ?_
                cases ok with
                | false => exact quiet_pure trivial
                | true =>
                    refine quiet_act ?_ fun renamed => ?_
                    · intro o t
                      split <;> rfl
                    · cases renamed with
                      | false => exact quiet_pure trivial
                      | true => exact quiet_ask (k := pure) fun _ => quiet_pure trivial

theorem quiet_commitPreparedCache {prepared : PreparedSubscription} {confirmedSlot : Option String} :
    QuietTo env i (fun committed => ∀ p, committed = some p → p.1.nodes = prepared.nodes)
      (Sup.commitPreparedCache prepared confirmedSlot) := by
  cases prepared with
  | cached nodes =>
      refine quiet_pure ?_
      rintro _ ⟨⟩
      rfl
  | fresh fresh =>
      have hslot : QuietTo env i (fun committed => ∀ p, committed = some p → p.nodes = fresh.nodes)
          (Sup.commitCacheSlot fresh confirmedSlot) := by
        rw [Sup.commitCacheSlot]
        split
        · refine quiet_pure ?_
          rintro _ ⟨⟩
          rfl
        · split
          · exact quiet_pure fun _ h => nomatch h
          · refine quiet_savePrivateCache.bind fun saved _ => ?_
            cases saved with
            | false => exact quiet_pure fun _ h => nomatch h
            | true =>
                refine quiet_pure ?_
                rintro _ ⟨⟩
                rfl
      rw [Sup.commitPreparedCache]
      refine hslot.bind fun committed hcommitted => ?_
      cases committed with
      | none => exact quiet_pure fun _ h => nomatch h
      | some committed =>
          refine quiet_pure ?_
          rintro _ ⟨⟩
          exact hcommitted committed rfl

end

/-! ### The next state -/

namespace StateFile

variable {st : StateFile} {target : String}

theorem activateSubscription_active : (st.activateSubscription target).2.activeSubscription = some target := by
  unfold activateSubscription migrateForSubscription
  split
  · rename_i h
    split at h
    · cases h
    · cases h
      rfl
  · rename_i h
    split at h
    · obtain ⟨-, rfl⟩ := Prod.mk.inj h
      split
      · assumption
      · rfl
    · cases h

end StateFile

section

variable {planned : List Planned} {st : StateFile}

theorem planState_active {p : Planned} : (planState st p).activeSubscription = st.activeSubscription := rfl

theorem planStates_active : (planned.foldl planState st).activeSubscription = st.activeSubscription := by
  induction planned generalizing st with
  | nil => rfl
  | cons p planned ih => exact ih.trans planState_active

/-- The entry a plan leaves in the next state. -/
def Planned.entry (p : Planned) : ClassState :=
  { activeNode := some p.active.node.name, socksPort := none, httpPort := none, generation := p.generation }

theorem planState_self {p : Planned} : (planState st p).classes[p.cls]? = some p.entry := by
  simp [planState, StateFile.resetHealthFailures, StateFile.updateClass, Planned.entry]

theorem planState_of_ne {p : Planned} {cls : String} (h : p.cls ≠ cls) :
    (planState st p).classes[cls]? = st.classes[cls]? := by
  simp [planState, StateFile.resetHealthFailures, StateFile.updateClass, BTreeMap.getElem?_upsert_of_ne _ _ h]

theorem planStates_of_not_mem {cls : String} (h : cls ∉ planned.map (·.cls)) :
    (planned.foldl planState st).classes[cls]? = st.classes[cls]? := by
  induction planned generalizing st with
  | nil => rfl
  | cons p planned ih =>
      simp only [List.map_cons, List.mem_cons, not_or] at h
      exact (ih h.2).trans (planState_of_ne (Ne.symm h.1))

/-- Every planned class is in the next state, if no class is planned twice. -/
theorem planStates_mem (hnodup : (planned.map (·.cls)).Nodup) {p : Planned} (hp : p ∈ planned) :
    (planned.foldl planState st).classes[p.cls]? = some p.entry := by
  induction planned generalizing st with
  | nil => cases hp
  | cons head planned ih =>
      rw [List.map_cons, List.nodup_cons] at hnodup
      rcases List.mem_cons.mp hp with rfl | hp
      · exact (planStates_of_not_mem hnodup.1).trans planState_self
      · exact ih hnodup.2 hp

end

/-- What a transaction may rely on when it saves and publishes. -/
structure Sup.Prepared.Ok (prepared : Sup.Prepared) (env : Env) (request : Request) (c : Core) : Prop where
  cloned : c.state = prepared.cloned
  next : ∃ fresh committedSlot, nextState env request fresh committedSlot prepared.planned prepared.now
    prepared.cloned = some prepared.next
  classes : prepared.planned.map (·.cls) = env.classes
  generation : ∀ p ∈ prepared.planned, p.generation = (c.route p.cls).generation + 1
  member : ∀ p ∈ prepared.planned, p.active.node ∈ prepared.nodes
  eligible : request.refreshed → ∀ p ∈ prepared.planned, Eligible env p.cls p.active.node
  active : prepared.next.activeSubscription = some request.target
  entry : ∀ p ∈ prepared.planned, prepared.next.classes[p.cls]? = some p.entry

theorem classes_nodup {env : Env} : env.classes.Nodup := Std.ExtTreeMap.nodup_keys

theorem nextState_ok {env : Env} {request : Request} {fresh : Bool} {committedSlot : Option String}
    {planned : List Planned} {now : Int} {st next : StateFile} (hnodup : (planned.map (·.cls)).Nodup)
    (h : nextState env request fresh committedSlot planned now st = some next) :
    next.activeSubscription = some request.target ∧
      ∀ p ∈ planned, next.classes[p.cls]? = some p.entry := by
  obtain ⟨identities, _, rfl⟩ := Option.map_eq_some_iff.mp h
  refine ⟨?_, fun p hp => planStates_mem hnodup hp⟩
  refine planStates_active.trans ?_
  cases committedSlot <;> exact StateFile.activateSubscription_active

section

variable {env : Env} {i : Nat} {β : Type} {post : β → Core → Prop} {w : World}

theorem safe_planClasses {pairs : List (String × ActiveNode)} {k : List Planned → Sup β}
    (hheld : ∀ pair ∈ pairs, pair.1 ∈ env.classes ∧ w.core.hold i (.cls pair.1) = .write)
    (hk : SafeFrom env i post
      (k (pairs.map fun pair => ⟨pair.1, pair.2, (w.route pair.1).generation + 1⟩)) w) :
    SafeFrom env i post (Sup.planClasses pairs >>= k) w := by
  induction pairs generalizing k with
  | nil => exact hk
  | cons pair pairs ih =>
      obtain ⟨cls, active⟩ := pair
      obtain ⟨⟨hcls, hhold⟩, hrest⟩ := List.forall_mem_cons.mp hheld
      simp only [Sup.planClasses, bind_assoc]
      refine safe_unseen (fun generation => generation = (w.route cls).generation) ?_ ?_
      · intro o t u b h ht hst
        split at h
        · cases h
        · obtain ⟨rfl, rfl⟩ := Prod.mk.inj (Option.some.inj h)
          exact ⟨.of_eq rfl, ht, congrArg ClassRoute.generation (Core.cell_route (hst.cell cls hcls hhold))⟩
      · rintro _ rfl
        exact ih hrest hk

theorem safe_readWhole {α : Type} {f : StateFile → α} {k : α → Sup β} (hwhole : Whole env i w.core)
    (hk : SafeFrom env i post (k (f w.state)) w) : SafeFrom env i post (Sup.readState f >>= k) w :=
  safe_readHere fun t _ hst _ => by
    have hstate : t.state = w.state := hst.state hwhole
    rw [hstate]
    exact hk.mono hst

/-- How staging ends: nothing has changed, and what was prepared is complete. -/
def Staged (env : Env) (i : Nat) (request : Request) (s : Core)
    (result : Except String (List ActiveNode × Sup.Prepared)) (v : Core) : Prop :=
  Sees env i s v ∧ ∀ staged prepared, result = .ok (staged, prepared) → prepared.Ok env request s

theorem safe_stageTransaction {request : Request} (hw : Inv env w.core)
    (hwhole : Whole env i w.core) :
    SafeFrom env i (Staged env i request w.core) (Sup.stageTransaction env i request) w := by
  have hfail : ∀ error, SafeFrom env i (Staged env i request w.core) (pure (Except.error error)) w :=
    fun _ => safe_pure fun _ hst => ⟨hst, fun _ _ h => nomatch h⟩
  have hstop : ∀ staged error, SafeFrom env i (Staged env i request w.core)
      (Sup.stopStaged staged >>= fun _ => pure (Except.error error)) w := by
    intro staged error
    induction staged with
    | nil => exact hfail _
    | cons active staged ih => exact safe_stopPlane ih
  rw [Sup.stageTransaction]
  refine safe_readState fun st => ?_
  refine safe_quiet (quiet_stageClasses [] rfl (by simp)) hw fun staged hstaged => ?_
  cases staged with
  | error message => exact hfail _
  | ok staged =>
      obtain ⟨hlength, hnodes⟩ : staged.length = env.classes.length ∧ _ := hstaged staged rfl
      refine safe_ask fun elapsed => ?_
      cases elapsed with
      | true => exact hstop _ _
      | false =>
          refine safe_quiet quiet_commitPreparedCache hw fun committed hcommitted => ?_
          rcases committed with _ | ⟨prepared, commit⟩
          · exact hstop _ _
          · refine safe_ask fun now => safe_planClasses ?_ (safe_readWhole hwhole ?_)
            · rintro ⟨cls, active⟩ hpair
              have hcls := (List.of_mem_zip hpair).1
              exact ⟨hcls, hwhole.classes cls hcls⟩
            · have hclasses : ((env.classes.zip staged).map fun pair =>
                  (⟨pair.1, pair.2, (w.route pair.1).generation + 1⟩ : Planned)).map (·.cls) = env.classes := by
                rw [List.map_map]
                exact List.map_fst_zip (by simpa using hlength.ge)
              dsimp only
              split
              · exact hstop _ _
              · rename_i next hnext
                obtain ⟨hactive, hentry⟩ := nextState_ok (by rw [hclasses]; exact classes_nodup) hnext
                refine safe_pure fun _ hst => ⟨hst, ?_⟩
                rintro _ _ ⟨⟩
                refine ⟨rfl, ⟨_, _, hnext⟩, hclasses, ?_, ?_, ?_, hactive, hentry⟩
                · rintro p hp
                  obtain ⟨pair, _, rfl⟩ := List.mem_map.mp hp
                  rfl
                · rintro p hp
                  obtain ⟨pair, hpair, rfl⟩ := List.mem_map.mp hp
                  rw [hcommitted _ rfl]
                  exact (hnodes pair hpair).member
                · rintro hrefreshed p hp
                  obtain ⟨pair, hpair, rfl⟩ := List.mem_map.mp hp
                  exact (hnodes pair hpair).eligible hrefreshed

end

end Causeway

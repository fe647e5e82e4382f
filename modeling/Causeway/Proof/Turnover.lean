import Causeway.Proof.Handover

/-!
# The planes of a transaction

A transaction stages a plane for every class and owns all of them until it publishes; from then on it owns the old ones, and hands them to the drains. Every failure before that stops what is staged.
-/

namespace Causeway

open Concurrent Prog

section

variable {env : Env} {i : Nat} {mine : List Nat} {base : Fleet} {w : World}

/-! ### Every class is taken -/

def Lockless (i : Nat) (c : Fleet) : Prop := ∀ cls, (c.locks cls).hold i = .none

theorem keeps_lockClasses (classes : List String) (hw : w.fleet.Sound) (hkept : Kept i mine base w.fleet) :
    Keeps i (fun taken c => ∃ locks : String → Lock,
      (∀ cls, cls ∉ classes → (locks cls).hold i = (base.locks cls).hold i) ∧
      (taken = true → ∀ cls ∈ classes, (locks cls).hold i = .write) ∧ Kept i mine { base with locks := locks } c)
      (Sup.lockClasses i classes) w := by
  induction classes generalizing base w with
  | nil => exact .pure fun c hst => ⟨base.locks, fun _ _ => rfl, by simp, hkept.spared hst⟩
  | cons cls classes ih =>
      refine .acquireClassBy hkept ?_ fun u hu hnone hkept => (ih hu hkept).weaken fun taken c h => ?_
      · exact .pure fun c hst => ⟨base.locks, fun _ _ => rfl, by simp, hkept.spared hst⟩
      · obtain ⟨locks, hothers, htaken, hkept⟩ := h
        refine ⟨locks, fun other hother => ?_, fun ht other hmem => ?_, hkept⟩
        · rw [List.mem_cons, not_or] at hother
          exact (hothers other hother.2).trans (base.taking_hold_of_ne hother.1)
        · by_cases hrest : other ∈ classes
          · exact htaken ht other hrest
          · obtain rfl : other = cls := (List.mem_cons.mp hmem).resolve_right hrest
            exact (hothers other hrest).trans (base.taking_hold i other)

theorem keeps_releaseAll (classes : List String) (locks : String → Lock) (hw : w.fleet.Sound)
    (hnone : ∀ cls ∈ classes, (base.locks cls).hold i = .none)
    (hothers : ∀ cls, cls ∉ classes → (locks cls).hold i = (base.locks cls).hold i)
    (hkept : Kept i mine { base with locks := locks } w.fleet) :
    Keeps i (fun _ c => Kept i mine base c) (Sup.releaseAll i (classes.map .cls)) w := by
  induction classes generalizing locks w with
  | nil =>
      refine .pure fun c hst => ?_
      have hnow := hkept.spared hst
      exact hnow.relock fun cls => (hnow.hold cls).trans (hothers cls List.not_mem_nil)
  | cons cls classes ih =>
      refine .releaseClass (Function.update locks cls .free) hkept (by simp) (fun other hother => ?_) fun u hu hkept => ?_
      · exact (hold_update_of_ne hother).symm
      · refine ih (Function.update locks cls .free) hu (fun other hmem => hnone other (List.mem_cons_of_mem _ hmem)) ?_ hkept
        intro other hother
        by_cases heq : other = cls
        · subst heq
          simp [hnone other List.mem_cons_self]
        · rw [hold_update_of_ne heq]
          exact hothers other (by simp [heq, hother])

/-! ### Staging -/

def stagedPaths : Except String (List ActiveNode) → List ActiveNode
  | .ok staged => staged
  | .error _ => []

theorem Paths.perm {paths others : List ActiveNode} {c : Fleet} {ids : List Nat} (h : Paths i paths ids base c)
    (hstraight : ∀ path ∈ others, path.pathConnections = path.handle.id)
    (hperm : List.Perm (paths.map (·.handle.id) ++ ids) (others.map (·.handle.id) ++ mine)) :
    Paths i others mine base c :=
  ⟨hstraight, h.kept.perm hperm⟩

/-- One more path is staged. -/
theorem Paths.snoc {staged : List ActiveNode} {active : ActiveNode} {c : Fleet}
    (hstaged : ∀ path ∈ staged, path.pathConnections = path.handle.id)
    (h : Paths i [active] (staged.map (·.handle.id) ++ mine) base c) : Paths i (staged ++ [active]) mine base c := by
  refine h.perm (fun path hmem => ?_) ?_
  · rcases List.mem_append.mp hmem with hmem | hmem
    · exact hstaged path hmem
    · exact h.straight path hmem
  · rw [List.map_append, List.append_assoc]
    exact List.perm_append_comm_assoc _ _ _

theorem keeps_stageClasses {request : Request} {stats : Option (BTreeMap NodeStats)} (classes : List String)
    (staged : List ActiveNode) (hw : w.fleet.Sound) (hpaths : Paths i staged mine base w.fleet) :
    Keeps i (fun r c => (∀ paths, r = .ok paths → paths.length = staged.length + classes.length) ∧
      Paths i (stagedPaths r) mine base c) (Sup.stageClasses env i request stats classes staged) w := by
  induction classes generalizing staged w with
  | nil =>
      refine .pure fun c hst => ⟨fun paths h => ?_, hpaths.spared hst⟩
      cases h
      rfl
  | cons cls classes ih =>
      have hfailed : ∀ (error : String) (u : World), u.fleet.Sound →
        Paths i [] (staged.map (·.handle.id) ++ mine) base u.fleet →
          Keeps i (fun r c => (∀ paths, r = .ok paths → paths.length = staged.length + (cls :: classes).length) ∧
            Paths i (stagedPaths r) mine base c) (do
              Sup.stopStaged staged
              return .error error) u := by
        intro error u hu hnone
        refine (keeps_stopStaged staged hu hnone.kept).bind hu fun _ v hv hkept => .pure fun c hst => ⟨fun _ h => ?_, ?_⟩
        · cases h
        · exact (hkept.spared hst).paths
      refine .still within_stagingCandidates fun candidates => ?_
      refine (keeps_stageFirst candidates hw hpaths.kept).bind hw fun attempt u hu hattempt => ?_
      cases attempt with
      | elapsed => exact hfailed timedOut u hu hattempt
      | failed error => exact hfailed error u hu hattempt
      | activated active =>
          refine (ih (staged ++ [active]) hu (.snoc hpaths.straight hattempt)).weaken
            fun r c h => ⟨fun paths hr => ?_, h.2⟩
          rw [h.1 paths hr, List.length_append, List.length_singleton, List.length_cons]
          omega

/-! ### The cache and the plan -/

theorem still_subscriptionFailure {profile message : String} : (Sup.subscriptionFailure profile message).Within Still :=
  within_subscriptionFailure fun _ => still_pushEvent

theorem still_commitPreparedCache {prepared : PreparedSubscription} {confirmedSlot : Option String} :
    (Sup.commitPreparedCache prepared confirmedSlot).Within Still := by
  refine within_commitPreparedCache (within_act fun o w => ?_) (fun _ _ _ => within_act fun o w => ?_)
    fun _ _ => within_act fun o w => ?_
  all_goals split <;> rfl

/-- The plan is for the staged paths, each on its class. -/
theorem Keeps.planned {α : Type} {post : α → Fleet → Prop} {staged : List (String × ActiveNode)}
    {k : List Planned → Sup α}
    (hk : ∀ planned, (planned.map fun plan => (plan.cls, plan.active)) = staged → Keeps i post (k planned) w) :
    Keeps i post (Sup.planClasses staged >>= k) w := by
  induction staged generalizing k with
  | nil => exact hk [] rfl
  | cons plan staged ih =>
      obtain ⟨cls, active⟩ := plan
      rw [Sup.planClasses, bind_assoc]
      refine .still (within_atomic fun o s b t heq => ?_) fun generation => ?_
      · split at heq <;> cases heq
        rfl
      rw [bind_assoc]
      exact ih fun planned hplanned => hk _ (by rw [List.map_cons, hplanned])

/-- A transaction that is ready to be saved owns a path for every class. -/
structure Readied (env : Env) (i : Nat) (staged : List ActiveNode) (planned : List Planned) (mine : List Nat)
    (base c : Fleet) :
    Prop where
  paths : Paths i staged mine base c
  actives : planned.map (·.active) = staged
  classes : ∀ plan ∈ planned, plan.cls ∈ env.classes

/-- What staging leaves: a path for every class, or none. -/
def stagedFor (env : Env) (i : Nat) (mine : List Nat) (base : Fleet) :
    Except String (List ActiveNode × Sup.Prepared) → Fleet → Prop
  | .ok (staged, prepared), c => Readied env i staged prepared.planned mine base c
  | .error _, c => Kept i mine base c

theorem keeps_stageTransaction {request : Request} (hw : w.fleet.Sound) (hkept : Kept i mine base w.fleet) :
    Keeps i (stagedFor env i mine base) (Sup.stageTransaction env i request) w := by
  refine .still within_readState fun stats => ?_
  refine (keeps_stageClasses env.classes [] hw hkept.paths).bind hw fun r u hu ⟨hlength, hpaths⟩ => ?_
  cases r with
  | error message => exact .pure fun c hst => hpaths.kept.spared hst
  | ok staged =>
      have hfailed : ∀ (message : String), Keeps i (stagedFor env i mine base) (do
          Sup.stopStaged staged
          return .error message) u := fun message =>
        (keeps_stopStaged staged hu hpaths.kept).bind hu fun _ v hv hkept => .pure fun c hst => hkept.spared hst
      refine .still within_ask fun elapsed => ?_
      split
      · exact hfailed timedOut
      refine .still still_commitPreparedCache fun committed => ?_
      cases committed with
      | none => exact hfailed "subscription cache commit failed"
      | some committed =>
          refine .still within_ask fun now => .planned fun planned hplanned => ?_
          refine .still within_readState fun ⟨cloned, next⟩ => ?_
          cases next with
          | none => exact hfailed "invalid subscription source identity"
          | some next =>
              have hzip : env.classes.length = staged.length := by simpa using (hlength staged rfl).symm
              refine .pure fun c hst => ⟨hpaths.spared hst, ?_, fun plan hmem => ?_⟩
              · have hsnd := congrArg (List.map Prod.snd) hplanned
                rwa [List.map_map, List.map_snd_zip hzip.ge] at hsnd
              · have hpair : (plan.cls, plan.active) ∈ env.classes.zip staged := hplanned ▸ List.mem_map_of_mem hmem
                exact (List.of_mem_zip hpair).1

/-! ### Publication -/

/-- A class of the batch: the path and the route change in one step. -/
theorem Keeps.publishClass {α : Type} {post : α → Fleet → Prop} {target : String} {refreshed : Bool} {plan : Planned}
    {k : Option ActiveNode → Sup α} (hlock : Holding i plan.cls base)
    (hpath : plan.active.pathConnections = plan.active.handle.id)
    (hkept : Kept i (plan.active.handle.id :: mine) base w.fleet)
    (hk : ∀ old (u : World), u.fleet.Sound → Paths i old.toList mine base u.fleet → Keeps i post (k old) u) :
    Keeps i post (Sup.publishClass i target refreshed plan >>= k) w := by
  refine .step fun o t u a hact ht hst => ?_
  have hnow := hkept.spared hst
  let mid : Fleet := { t.fleet with
    active := Function.update t.fleet.active plan.cls (some plan.active)
    planes := swapPlanes i plan.cls plan.active (t.fleet.active plan.cls) t.fleet.planes }
  obtain ⟨rfl, hfleet⟩ : t.fleet.active plan.cls = a ∧
      u.fleet = { mid with path := Function.update mid.path plan.cls (some plan.active.handle.id) } := by
    cases hact
    refine ⟨rfl, ?_⟩
    rw [World.fleet, active_update, path_update, ← hpath]
    rfl
  have hrepath : Repathed i plan.cls (some plan.active) t.fleet mid :=
    repathed_swap ht ((hnow.hold plan.cls).trans hlock) ((hnow.owed _).mpr List.mem_cons_self)
      (hnow.unrouted _ List.mem_cons_self) hpath rfl
  have hmid := hrepath.sound ht
  have hswapped := hnow.repathed ht hrepath
  obtain ⟨hu, hconducts⟩ := route_step hmid hswapped.active hfleet
  refine ⟨hu, (hrepath.conducts ht).then_route hconducts (by rw [hfleet]) (by rw [hfleet]) (by rw [hfleet]), fun hu => ?_⟩
  exact hk _ u hu (hswapped.routed hmid hfleet)

theorem keeps_publishClasses {target : String} {refreshed : Bool} (planned : List Planned)
    (hlock : ∀ plan ∈ planned, Holding i plan.cls base) (hw : w.fleet.Sound)
    (hpaths : Paths i (planned.map (·.active)) mine base w.fleet) :
    Keeps i (fun old c => Paths i old mine base c) (Sup.publishClasses i target refreshed planned) w := by
  induction planned generalizing mine w with
  | nil => exact .pure fun c hst => hpaths.spared hst
  | cons plan planned ih =>
      have hstraight := hpaths.straight
      rw [List.map_cons, List.forall_mem_cons] at hstraight
      refine .publishClass (hlock plan List.mem_cons_self) hstraight.1 hpaths.kept fun old u hu hold => ?_
      have hrest : Paths i (planned.map (·.active)) (old.toList.map (·.handle.id) ++ mine) base u.fleet :=
        hold.perm hstraight.2 (List.perm_append_comm_assoc _ _ _)
      refine (ih (fun other hmem => hlock other (List.mem_cons_of_mem _ hmem)) hu hrest).bind hu fun others v hv hothers => ?_
      refine .pure fun c hst => (hothers.spared hst).perm (fun path hmem => ?_) ?_
      · rcases List.mem_append.mp hmem with hmem | hmem
        · exact hold.straight path hmem
        · exact hothers.straight path hmem
      · rw [List.map_append, List.append_assoc]
        exact List.perm_append_comm_assoc _ _ _

theorem still_releaseRoutes (classes : List String) : (Sup.releaseAll i (classes.map .route)).Within Still := by
  refine within_releaseAll fun name hmem => ?_
  obtain ⟨cls, -, rfl⟩ := List.mem_map.mp hmem
  exact still_of_minor (minor_release (by simp))

theorem still_lockRoutes (classes : List String) : (Sup.lockRoutes i classes).Within Still :=
  within_lockRoutes (fun _ => still_of_minor (minor_acquireWrite (by simp))) classes

theorem still_pushSwitched {now : Int} {refreshed : Bool} (planned : List Planned) :
    (Sup.pushSwitched now refreshed planned).Within Still :=
  within_pushSwitched (fun _ => still_pushEvent) planned

def HoldingAll (env : Env) (i : Nat) (c : Fleet) : Prop := ∀ cls ∈ env.classes, Holding i cls c

theorem keeps_publish {request : Request} {nodes : List Node} {planned : List Planned} {staged : List ActiveNode}
    {cloned next : StateFile} (hlock : HoldingAll env i base) (hw : w.fleet.Sound)
    (hready : Readied env i staged planned mine base w.fleet) :
    Keeps i (fun old c => Paths i old mine base c) (Sup.publish env i request nodes planned cloned next) w := by
  refine .still (still_lockRoutes _) fun _ => .still (still_of_minor (minor_acquireWrite (by simp))) fun _ => ?_
  refine .still (within_modify fun _ => rfl) fun _ => ?_
  have hpaths := hready.paths
  rw [← hready.actives] at hpaths
  refine (keeps_publishClasses planned (fun plan hmem => hlock plan.cls (hready.classes plan hmem)) hw hpaths).bind hw ?_
  intro old u hu hold
  refine .still (within_modify fun _ => rfl) fun _ => .still (within_modify fun _ => rfl) fun _ => ?_
  refine .still (still_of_minor (minor_release (by simp))) fun _ => .still (still_releaseRoutes _) fun _ => ?_
  exact .pure fun c hst => hold.spared hst

theorem returns_transact {request : Request} : Returns (HoldingAll env i) i (Sup.transact env i request) := by
  intro mine base w hlock hw hkept
  refine (keeps_stageTransaction hw hkept).bind hw fun r u hu hr => ?_
  have hfailed : ∀ (message : String) (v : World), Kept i mine base v.fleet →
      Keeps i (fun _ c => Kept i mine base c) (Sup.subscriptionFailure request.target message) v := by
    intro message v hkept
    rw [← Prog.bind_pure (Sup.subscriptionFailure request.target message)]
    exact .still still_subscriptionFailure fun _ => .pure fun c hst => hkept.spared hst
  rcases r with message | ⟨staged, prepared⟩
  · exact hfailed message u hr
  · refine .still (still_of_minor minor_saveAtomic) fun saved => ?_
    cases saved with
    | none =>
        refine (keeps_stopStaged staged hu hr.paths.kept).bind hu fun _ v hv hkept => ?_
        exact hfailed "subscription state commit failed" v hkept
    | some outcome =>
        refine (keeps_publish hlock hu hr).bind hu fun old v hv hold => ?_
        refine .still still_saveState fun _ => .still (still_pushSwitched _) fun _ => .still still_pushEvent fun _ => ?_
        exact (keeps_drainAll old hv hold).bind hv fun _ x hx hkept => .pure fun c hst => hkept.spared hst

/-! ### Requests -/

theorem still_openTransaction {target : String} {catalog : SubscriptionsConfig} {allowCachedFallback isReload : Bool} :
    (Sup.openTransaction env target catalog allowCachedFallback isReload).Within Still :=
  within_openTransaction (fun _ => still_pushEvent) fun _ => rfl

theorem returns_switchSubscriptionLocked {target : String} {catalog : SubscriptionsConfig}
    {allowCachedFallback isReload : Bool} :
    Returns (Lockless i) i (Sup.switchSubscriptionLocked env i target catalog allowCachedFallback isReload) := by
  refine .still_bind still_openTransaction fun opened => ?_
  cases opened with
  | error reply => exact .pure _
  | ok request =>
      refine .still_bind (still_acquireWriteBy (by simp)) fun taken => ?_
      split
      · refine returns_releasing (by simp) fun mine base w hfree hw hkept => ?_
        refine (keeps_lockClasses env.classes hw hkept).bind hw fun locked u hu ⟨locks, hothers, htaken, hkept⟩ => ?_
        have hend : ∀ (reply : Reply) (v : World), v.fleet.Sound → Kept i mine { base with locks := locks } v.fleet →
            Keeps i (fun _ c => Kept i mine base c) (do
              Sup.releaseAll i (env.classes.map .cls)
              return reply) v := fun reply v hv hkept =>
          (keeps_releaseAll env.classes locks hv (fun cls _ => hfree cls) hothers hkept).bind hv fun _ x hx hkept =>
            .pure fun c hst => hkept.spared hst
        dsimp only
        split
        · rename_i hlocked
          exact (returns_transact mine { base with locks := locks } u (htaken hlocked) hu hkept).bind hu hend
        · exact .still still_subscriptionFailure fun reply => hend reply u hu hkept
      · exact .of_still still_subscriptionFailure

theorem still_countTransaction {f : Nat → Nat} : (Sup.countTransaction f).Within Still := within_modify fun _ => rfl

theorem returns_switchSubscription {target : String} : Returns (Lockless i) i (Sup.switchSubscription env i target) := by
  refine .still_bind still_countTransaction fun _ => .bind (returns_withWrite (by simp) ?_) fun reply => ?_
  · exact .still_bind within_look fun catalog => returns_switchSubscriptionLocked
  · exact .still_bind still_countTransaction fun _ => .pure _

theorem returns_reload : Returns (Lockless i) i (Sup.reload env i) := by
  have hfailed : ∀ {detail : String}, (Sup.reloadFailed detail).Within Still := .bind still_pushEvent fun _ => trivial
  refine .still_bind still_countTransaction fun _ => .bind (returns_withWrite (by simp) ?_) fun reply => ?_
  · refine .still_bind within_ask fun candidate => ?_
    cases candidate with
    | none => exact .of_still hfailed
    | some cfg =>
        dsimp only
        split
        · exact .still_bind hfailed fun _ => .pure _
        refine .still_bind within_look fun active => ?_
        split
        · exact .still_bind hfailed fun _ => .pure _
        refine returns_switchSubscriptionLocked.bind fun outcome => ?_
        split
        · exact .still_bind hfailed fun _ => .pure _
        · exact .still_bind still_pushEvent fun _ => .pure _
  · exact .still_bind still_countTransaction fun _ => .pure _

end

end Causeway

import Causeway.Proof.Atomicity

/-!
# The stages of a mutation

A subscription mutation takes its mutex and settles which profile it is for, begins under a catalog, and puts a manifest in place under that catalog only. Once the state file is in place it puts a new path of the profile in the route of every class, and only then it publishes. What else it does moves no cache file and publishes nothing.
-/

namespace Causeway

open Concurrent Prog History

/-- A step that moves no cache file and publishes nothing. -/
structure Inward (s t : World) : Prop where
  files : t.cacheDir.files = s.cacheDir.files
  published : t.trail.published = s.trail.published

/-- Nor does it touch what a transaction goes by. -/
structure Passing (s t : World) : Prop extends Inward s t where
  mutex : t.locks .subscriptionTxn = s.locks .subscriptionTxn
  subscriptions : t.subscriptions = s.subscriptions
  catalog : t.trail.catalog = s.trail.catalog

instance : Std.Refl Passing := ⟨fun _ => ⟨⟨rfl, rfl⟩, rfl, rfl, rfl⟩⟩

/-- A path of the profile is installed in the class's route, for the publication to come. -/
structure Flips (target cls : String) (s t : World) : Prop where
  installed : installs (t.trail.hist cls) = installs (s.trail.hist cls) + 1
  tag : (t.route cls).trafficSubscription = target
  epoch : t.trail.routeEpoch cls = s.trail.published + 1

/-- How far a mutation is: waiting for its mutex, holding it, aimed at a profile, in a transaction under a catalog, past the point where it can fail, with the number of publications so far and the classes whose routes it has changed, and done with all of that. -/
inductive Stage where
  | outside
  | entered
  | aimed (target : String)
  | begun (target : String) (catalog : SubscriptionsConfig)
  | flipping (target : String) (published : Nat) (flipped : List String)
  | ended

/-- One step of a task of thread `i`; one that is no mutation is over from the start. -/
inductive Advances (env : Env) (i : Nat) (task : Task) : Stage → World → World → Stage → Prop
  | passes {k : Stage} {s t : World} (passing : Passing s t) : Advances env i task k s t k
  | enters {s t : World} (inward : Inward s t) (mutex : t.Transacting i) : Advances env i task .outside s t .entered
  | aims {target : String} {s : World} (aim : task.target s.subscriptions.active = some target) :
      Advances env i task .entered s s (.aimed target)
  | begins {target : String} {catalog : SubscriptionsConfig} {s : World} :
      Advances env i task (.aimed target) s { s with trail := { s.trail with catalog := some catalog } }
        (.begun target catalog)
  | places {target slot : String} {catalog : SubscriptionsConfig} {base path : Path} {inode : Nat} {s : World}
      (configured : (catalog.profile target).bind (·.cacheFile) = some base) (chosen : cacheSlotPath base slot = some path) :
      Advances env i task (.begun target catalog) s { s with cacheDir := s.cacheDir.rename inode path } (.begun target catalog)
  | replaces {target : String} {catalog : SubscriptionsConfig} {s t : World} (passing : Passing s t) :
      Advances env i task (.begun target catalog) s t (.flipping target s.trail.published [])
  | flips {target cls : String} {published : Nat} {flipped : List String} {s t : World} (flip : Flips target cls s t)
      (passing : Passing s t) :
      Advances env i task (.flipping target published flipped) s t (.flipping target published (cls :: flipped))
  | publishes {target : String} {published : Nat} {flipped : List String} {s t : World}
      (all : ∀ cls ∈ env.classes, cls ∈ flipped) (files : t.cacheDir.files = s.cacheDir.files)
      (issued : t.trail.published = s.trail.published + 1) (active : t.subscriptions.active = target) :
      Advances env i task (.flipping target published flipped) s t .ended
  | rests {k : Stage} {s t : World} (inward : Inward s t) : Advances env i task k s t .ended
  | aside {s t : World} (other : task.target "" = none) : Advances env i task .ended s t .ended

/-- What the stage of thread `i` says of the world it has come to. -/
def Stage.Fact (i : Nat) (task : Task) (w : World) : Stage → Prop
  | .entered => w.Transacting i
  | .aimed target => w.Transacting i ∧ task.target w.subscriptions.active = some target
  | .begun target catalog =>
      w.Transacting i ∧ task.target w.subscriptions.active = some target ∧ w.trail.catalog = some catalog
  | .flipping _ published _ => w.Transacting i ∧ w.trail.published = published
  | .outside | .ended => True

section

variable {env : Env} {i : Nat} {task : Task} {α β : Type} {k : Stage} {post : β → Stage → Prop} {s t : World}

/-! ### Steps on one stage -/

theorem Modest.passing (h : Modest s t) : Passing s t :=
  ⟨⟨by rw [h.cache], h.published⟩, h.mutex, h.subscriptions, h.catalog⟩

theorem passing_of_modest {p : Sup α} (h : p.Within Modest) : p.Within Passing := h.mono fun _ _ => Modest.passing

theorem passing_of_untouched {p : Sup α} (h : p.Within Untouched) : p.Within Passing :=
  passing_of_modest (modest_of_untouched h)

theorem inward_of_passing {p : Sup α} (h : p.Within Passing) : p.Within Inward := h.mono fun _ _ => Passing.toInward

theorem tells_passing {p : Sup α} (hp : p.Within Passing) : p.Tells (Advances env i task) (fun _ l => l = k) k :=
  .within hp rfl fun other _ _ hk hst => ⟨other, .passes hst, hk⟩

theorem passing_bind {p : Sup α} {q : α → Sup β} (hp : p.Within Passing)
    (hq : ∀ a, (q a).Tells (Advances env i task) post k) : (p >>= q).Tells (Advances env i task) post k :=
  (tells_passing hp).bind fun a _ hl => hl ▸ hq a

/-- An early return. -/
theorem passing_guard {p : Sup Bool} {q : Sup β} {value : β} (hp : p.Within Passing) (hvalue : post value k)
    (hq : q.Tells (Advances env i task) post k) :
    (p >>= fun ok => if !ok then pure value else q).Tells (Advances env i task) post k :=
  passing_bind hp fun ok => by
    cases ok with
    | true => exact hq
    | false => exact .pure hvalue

/-- Nothing is left to tell. -/
theorem tells_inward {p : Sup α} (hp : p.Within Inward) : p.Tells (Advances env i task) (fun _ _ => True) k :=
  .within hp trivial fun _ _ _ _ hst => ⟨.ended, .rests hst, trivial⟩

theorem passing_stopPlane {id : Nat} : (Sup.stopPlane id).Within Passing :=
  within_modify fun _ => ⟨⟨rfl, rfl⟩, rfl, rfl, rfl⟩

theorem passing_pushEvent {f : Outside → Event} : (Sup.pushEvent f).Within Passing :=
  passing_of_untouched untouched_pushEvent

theorem passing_tryActivate {cls : String} {node : Node} {fused : Bool} :
    (Sup.tryActivate env i cls node fused).Within Passing := by
  refine within_tryActivate (fun _ => within_act fun o w => ?_) (fun _ => passing_stopPlane) fun _ =>
    passing_of_untouched untouched_observe
  split
  · exact ⟨⟨rfl, rfl⟩, rfl, rfl, rfl⟩
  · exact Std.Refl.refl w

theorem passing_saveAtomic {kind : SaveKind} {st : StateFile} : (Sup.saveAtomic env i kind st).Within Passing :=
  within_saveAtomic (fun _ => within_modify fun _ => ⟨⟨rfl, rfl⟩, rfl, rfl, rfl⟩)
    (fun _ => passing_of_modest modest_saveSteps) fun _ => within_modify fun _ => ⟨⟨rfl, rfl⟩, rfl, rfl, rfl⟩

theorem passing_saveState : (Sup.saveState env i).Within Passing :=
  .bind (passing_of_untouched (untouched_acquireWrite (by simp))) fun _ => .bind within_look fun _ =>
    .bind passing_saveAtomic fun _ => passing_of_untouched (untouched_release (by simp))

/-! ### Preparation -/

theorem stages_prepareSubscription {profile : SubscriptionProfileConfig} {cached : Bool} {slot : Option String} :
    (Sup.prepareSubscription env profile cached slot).Tells (Advances env i task)
      (fun r l => l = k ∧ ∀ prepared, r = some (some prepared) → Sourced profile prepared) k := by
  refine .atomic fun o s b t hact => ⟨k, ?_⟩
  cases hact
  refine ⟨.passes (Std.Refl.refl s), ?_⟩
  dsimp only
  split
  · exact .pure ⟨rfl, fun _ h => nomatch h⟩
  · rename_i prepared hfetched
    refine .pure ⟨rfl, fun other h => ?_⟩
    cases h
    split at hfetched
    · cases hfetched
    · exact sourced_prepareProfile (Option.some.inj hfetched)
  · split
    · refine passing_bind (within_act fun _ w => Std.Refl.refl w) fun nodes => ?_
      cases nodes with
      | nil => exact .pure ⟨rfl, fun _ h => nomatch h⟩
      | cons node nodes =>
          refine .pure ⟨rfl, fun other h => ?_⟩
          cases h
          exact ⟨rfl, fun _ _ _ h => nomatch h⟩
    · exact .pure ⟨rfl, fun _ h => nomatch h⟩

/-- A transaction that was not answered has begun under the catalog, with a manifest of the target's source there. -/
def BegunFor (target : String) (catalog : SubscriptionsConfig) (r : Except Reply Request) (k : Stage) : Prop :=
  ∀ request, r = .ok request → k = .begun target catalog ∧ request.target = target ∧
    ∃ profile, catalog.profile target = some profile ∧ Sourced profile request.prepared

theorem begunFor_error {target : String} {catalog : SubscriptionsConfig} {reply : Reply} :
    BegunFor target catalog (.error reply) k := by
  rintro _ ⟨⟩

theorem stages_openTransaction {target : String} {catalog : SubscriptionsConfig} {cached isReload : Bool} :
    (Sup.openTransaction env target catalog cached isReload).Tells (Advances env i task) (BegunFor target catalog)
      (.aimed target) := by
  have hfail {message : String} {k : Stage} : (do
      return .error (← Sup.subscriptionFailure target message) : Sup (Except Reply Request)).Tells (Advances env i task)
        (BegunFor target catalog) k :=
    passing_bind (within_subscriptionFailure fun _ => passing_pushEvent) fun _ => .pure begunFor_error
  rw [Sup.openTransaction]
  split
  · exact .pure begunFor_error
  split
  · exact .pure begunFor_error
  rename_i profile hprofile _ sourceIdentity _
  refine .atomic fun o s before t hact => ?_
  cases hact
  refine ⟨_, .begins, passing_bind within_readState fun confirmed => ?_⟩
  refine stages_prepareSubscription.bind fun prepared l hl => ?_
  obtain ⟨rfl, hsourced⟩ := hl
  rcases prepared with _ | _ | prepared
  · exact hfail
  · exact hfail
  dsimp only
  split
  · exact hfail
  split
  · exact hfail
  have hopened {request : Request} (haim : request.target = target) (hsource : request.prepared = prepared) :
      BegunFor target catalog (.ok request) (.begun target catalog) := by
    rintro _ ⟨⟩
    exact ⟨rfl, haim, profile, hprofile, hsource ▸ hsourced _ rfl⟩
  split
  · refine passing_bind within_look fun active => ?_
    split
    · exact .pure begunFor_error
    · exact .pure (hopened rfl rfl)
  · exact .pure (hopened rfl rfl)

/-! ### Staging -/

theorem stages_stageClasses {request : Request} {stats : Option (BTreeMap NodeStats)} (classes : List String)
    (staged : List ActiveNode) :
    (Sup.stageClasses env i request stats classes staged).Tells (Advances env i task)
      (fun r l => l = k ∧ ∀ paths, r = .ok paths → paths.length = staged.length + classes.length) k := by
  induction classes generalizing staged with
  | nil =>
      refine .pure ⟨rfl, fun paths h => ?_⟩
      cases h
      rfl
  | cons cls classes ih =>
      have hfailed {error : String} : (do
          Sup.stopStaged staged
          return .error error : Sup (Except String (List ActiveNode))).Tells (Advances env i task)
            (fun r l => l = k ∧ ∀ paths, r = .ok paths → paths.length = staged.length + (cls :: classes).length) k :=
        passing_bind (within_stopStaged (fun _ => passing_stopPlane) staged) fun _ => .pure ⟨rfl, fun _ h => nomatch h⟩
      refine passing_bind within_stagingCandidates fun candidates => ?_
      refine passing_bind (within_stageFirst (fun _ => passing_tryActivate) candidates) fun attempt => ?_
      cases attempt with
      | elapsed => exact hfailed
      | failed error => exact hfailed
      | activated active =>
          refine (ih (staged ++ [active])).weaken fun r l h => ⟨h.1, fun paths hr => ?_⟩
          rw [h.2 paths hr, List.length_append, List.length_singleton, List.length_cons]
          omega

theorem stages_planClasses (staged : List (String × ActiveNode)) :
    (Sup.planClasses staged).Tells (Advances env i task) (fun planned l => l = k ∧ planned.map (·.cls) = staged.map (·.1))
      k := by
  induction staged with
  | nil => exact .pure ⟨rfl, rfl⟩
  | cons entry staged ih =>
      refine passing_bind (within_atomic fun o s b t heq => ?_) fun generation => ?_
      · split at heq <;> cases heq
        exact Std.Refl.refl s
      · exact ih.bind fun planned l hl => .pure ⟨hl.1, by rw [List.map_cons, List.map_cons, hl.2]⟩

theorem stages_savePrivateCache {target slot : String} {catalog : SubscriptionsConfig} {base path : Path} {bytes : Bytes}
    (hbase : (catalog.profile target).bind (·.cacheFile) = some base) (hpath : cacheSlotPath base slot = some path) :
    (Sup.savePrivateCache path bytes).Tells (Advances env i task) (fun _ l => l = .begun target catalog)
      (.begun target catalog) := by
  refine passing_guard within_ask rfl (passing_bind (within_act fun o w => ?_) fun created => ?_)
  · split
    · exact ⟨⟨rfl, rfl⟩, rfl, rfl, rfl⟩
    · exact Std.Refl.refl w
  cases created with
  | none => exact .pure rfl
  | some inode =>
      refine passing_guard (within_writeAllCache fun _ _ => within_act fun o w => ?_) rfl (passing_guard within_ask rfl ?_)
      · split
        · exact ⟨⟨rfl, rfl⟩, rfl, rfl, rfl⟩
        · exact Std.Refl.refl w
      refine .atomic fun o s placed t hact => ⟨.begun target catalog, ?_⟩
      replace hact := Option.some.inj hact
      dsimp only at hact
      split at hact
      · cases hact
        exact ⟨.places hbase hpath, tells_passing within_ask⟩
      · cases hact
        exact ⟨.passes (Std.Refl.refl s), .pure rfl⟩

theorem stages_commitPreparedCache {prepared : PreparedSubscription} {slot : Option String} {target : String}
    {catalog : SubscriptionsConfig} {profile : SubscriptionProfileConfig} (hlisted : catalog.profile target = some profile)
    (hsourced : Sourced profile prepared) :
    (Sup.commitPreparedCache prepared slot).Tells (Advances env i task) (fun _ l => l = .begun target catalog)
      (.begun target catalog) := by
  cases prepared with
  | cached nodes => exact .pure rfl
  | fresh fresh =>
      have hcommit : (Sup.commitCacheSlot fresh slot).Tells (Advances env i task) (fun _ l => l = .begun target catalog)
          (.begun target catalog) := by
        rw [Sup.commitCacheSlot]
        split
        · exact .pure rfl
        rename_i base bytes hpending
        split
        · exact .pure rfl
        rename_i path hpath
        have hbase : (catalog.profile target).bind (·.cacheFile) = some base := by
          rw [hlisted]
          exact hsourced.pending fresh base bytes rfl hpending
        refine (stages_savePrivateCache hbase hpath).bind fun ok l hl => ?_
        split <;> exact .pure hl
      refine hcommit.bind fun committed l hl => ?_
      cases committed <;> exact .pure hl

/-- A staged transaction has a plan for every class. -/
def PlansAll (env : Env) (target : String) (catalog : SubscriptionsConfig)
    (r : Except String (List ActiveNode × Sup.Prepared)) (k : Stage) : Prop :=
  k = .begun target catalog ∧
    ∀ staged prepared, r = .ok (staged, prepared) → prepared.planned.map (·.cls) = env.classes

theorem stages_stageTransaction {request : Request} {target : String} {catalog : SubscriptionsConfig}
    {profile : SubscriptionProfileConfig} (hlisted : catalog.profile target = some profile)
    (hsourced : Sourced profile request.prepared) :
    (Sup.stageTransaction env i request).Tells (Advances env i task) (PlansAll env target catalog)
      (.begun target catalog) := by
  have hstop {staged : List ActiveNode} {message : String} : (do
      Sup.stopStaged staged
      return .error message : Sup (Except String (List ActiveNode × Sup.Prepared))).Tells (Advances env i task)
        (PlansAll env target catalog) (.begun target catalog) :=
    passing_bind (within_stopStaged (fun _ => passing_stopPlane) staged) fun _ => .pure ⟨rfl, fun _ _ h => nomatch h⟩
  refine passing_bind within_readState fun stats => (stages_stageClasses env.classes []).bind fun staged l hl => ?_
  obtain ⟨rfl, hlength⟩ := hl
  cases staged with
  | error message => exact .pure ⟨rfl, fun _ _ h => nomatch h⟩
  | ok staged =>
      have hzip : (env.classes.zip staged).map (·.1) = env.classes := by
        refine List.map_fst_zip ?_
        rw [hlength staged rfl]
        simp
      refine passing_bind within_ask fun elapsed => ?_
      cases elapsed with
      | true => exact hstop
      | false =>
          refine (stages_commitPreparedCache hlisted hsourced).bind fun committed l hl => ?_
          subst hl
          rcases committed with _ | ⟨prepared, commit⟩
          · exact hstop
          refine passing_bind within_ask fun now => (stages_planClasses _).bind fun planned l hl => ?_
          obtain ⟨rfl, hplanned⟩ := hl
          refine passing_bind within_readState fun read => ?_
          obtain ⟨cloned, next⟩ := read
          cases next with
          | none => exact hstop
          | some next =>
              refine .pure ⟨rfl, fun staged prepared h => ?_⟩
              cases h
              exact hplanned.trans hzip

/-! ### Publication -/

theorem stages_publishClasses {target : String} {published : Nat} {refreshed : Bool} (planned : List Planned)
    (flipped : List String) :
    (Sup.publishClasses i target refreshed planned).Tells (Advances env i task)
      (fun _ l => ∃ later, l = .flipping target published later ∧
        ∀ cls, cls ∈ flipped ∨ cls ∈ planned.map (·.cls) → cls ∈ later)
      (.flipping target published flipped) := by
  induction planned generalizing flipped with
  | nil => exact .pure ⟨flipped, rfl, fun cls h => h.resolve_right List.not_mem_nil⟩
  | cons plan planned ih =>
      refine .atomic fun o s b t hact => ?_
      cases hact
      refine ⟨.flipping target published (plan.cls :: flipped), .flips ⟨?_, ?_, ?_⟩ ⟨⟨rfl, rfl⟩, rfl, rfl, rfl⟩,
        (ih _).bind fun _ l hl => .pure ?_⟩
      · simp [installs]
      · simp
      · simp
      · obtain ⟨later, rfl, hlater⟩ := hl
        refine ⟨later, rfl, fun cls h => hlater cls ?_⟩
        simp only [List.map_cons, List.mem_cons] at h ⊢
        tauto

theorem stages_publish {request : Request} {nodes : List Node} {planned : List Planned} {cloned next : StateFile}
    {catalog : SubscriptionsConfig} (hplanned : planned.map (·.cls) = env.classes) :
    (Sup.publish env i request nodes planned cloned next).Tells (Advances env i task) (fun _ _ => True)
      (.begun request.target catalog) := by
  have hacquire {name : LockName} (hname : LockName.subscriptionTxn ≠ name) : (Sup.acquireWrite i name).Within Passing :=
    passing_of_untouched (untouched_acquireWrite hname)
  refine passing_bind (within_lockRoutes (fun _ => hacquire (by simp)) env.classes) fun _ => ?_
  refine passing_bind (hacquire (by simp)) fun _ => .atomic fun o s b t hact => ?_
  cases hact
  refine ⟨_, .replaces ⟨⟨rfl, rfl⟩, rfl, rfl, rfl⟩, (stages_publishClasses planned []).bind fun old l hl => .atomic fun o s b t hact => ?_⟩
  obtain ⟨flipped, rfl, hflipped⟩ := hl
  cases hact
  refine ⟨.ended, .publishes (fun cls hcls => hflipped cls (.inr (hplanned ▸ hcls))) rfl rfl rfl, tells_inward ?_⟩
  refine .bind (within_modify fun _ => ⟨rfl, rfl⟩) fun _ => .bind ?_ fun _ => .bind ?_ fun _ => trivial
  · exact inward_of_passing (passing_of_untouched (untouched_release (by simp)))
  · exact inward_of_passing (passing_of_untouched (untouched_releaseAll (by simp)))

theorem stages_transact {request : Request} {catalog : SubscriptionsConfig} {profile : SubscriptionProfileConfig}
    (hlisted : catalog.profile request.target = some profile) (hsourced : Sourced profile request.prepared) :
    (Sup.transact env i request).Tells (Advances env i task) (fun _ _ => True) (.begun request.target catalog) := by
  have hfailure {message : String} : (Sup.subscriptionFailure request.target message).Within Inward :=
    inward_of_passing (within_subscriptionFailure fun _ => passing_pushEvent)
  have hpush {f : Outside → Event} : (Sup.pushEvent f).Within Inward := inward_of_passing passing_pushEvent
  refine (stages_stageTransaction hlisted hsourced).bind fun staged l hl => ?_
  obtain ⟨rfl, hplanned⟩ := hl
  rcases staged with message | ⟨staged, prepared⟩
  · exact tells_inward hfailure
  refine passing_bind passing_saveAtomic fun outcome => ?_
  cases outcome with
  | none =>
      exact tells_inward (.bind (inward_of_passing (within_stopStaged (fun _ => passing_stopPlane) staged)) fun _ => hfailure)
  | some outcome =>
      refine (stages_publish (hplanned staged prepared rfl)).bind fun old l _ => tells_inward ?_
      refine .bind (inward_of_passing passing_saveState) fun _ => .bind (within_pushSwitched (fun _ => hpush) _) fun _ => ?_
      exact .bind hpush fun _ => .bind (within_drainAll (fun _ => within_modify fun _ => ⟨rfl, rfl⟩) old) fun _ => trivial

/-! ### Under the mutex -/

theorem stages_switchSubscriptionLocked {target : String} {catalog : SubscriptionsConfig} {cached isReload : Bool} :
    (Sup.switchSubscriptionLocked env i target catalog cached isReload).Tells (Advances env i task) (fun _ _ => True)
      (.aimed target) := by
  have hfailure {message : String} : (Sup.subscriptionFailure target message).Within Inward :=
    inward_of_passing (within_subscriptionFailure fun _ => passing_pushEvent)
  refine stages_openTransaction.bind fun opened l hl => ?_
  rcases opened with reply | request
  · exact .pure trivial
  obtain ⟨rfl, rfl, profile, hlisted, hsourced⟩ := hl request rfl
  refine passing_bind (passing_of_untouched (untouched_acquireWriteBy (by simp))) fun taken => ?_
  cases taken with
  | false => exact tells_inward hfailure
  | true =>
      have hrelease {names : List LockName} (hnames : LockName.subscriptionTxn ∉ names) :
          (Sup.releaseAll i names).Within Inward := inward_of_passing (passing_of_untouched (untouched_releaseAll hnames))
      have hgate : (Sup.release i .reconfiguration).Within Inward :=
        inward_of_passing (passing_of_untouched (untouched_release (by simp)))
      have hend {p : Sup Reply} (hp : p.Tells (Advances env i task) (fun _ _ => True) (.begun request.target catalog)) :
          (Sup.releasing i .reconfiguration p).Tells (Advances env i task) (fun _ _ => True) (.begun request.target catalog) :=
        hp.bind fun reply l _ => tells_inward (.bind hgate fun _ => trivial)
      refine hend (passing_bind (passing_of_untouched (untouched_lockClasses env.classes)) fun held => ?_)
      cases held with
      | false => exact tells_inward (.bind hfailure fun _ => .bind (hrelease (by simp)) fun _ => trivial)
      | true =>
          refine (stages_transact hlisted hsourced).bind fun reply l _ => tells_inward (.bind (hrelease (by simp)) fun _ => trivial)

theorem stages_mutation {body : Sup Reply} (hbody : body.Tells (Advances env i task) (fun _ _ => True) .entered) :
    (do
      Sup.countTransaction (· + 1)
      let reply ← Sup.withWrite i .subscriptionTxn body
      Sup.countTransaction (· - 1)
      return reply : Sup Reply).Tells (Advances env i task) (fun _ _ => True) .outside := by
  have hend {f : World → World} {reply : Reply} (hf : ∀ w, Inward w (f w)) :
      (Sup.modify f >>= fun _ => pure reply : Sup Reply).Within Inward := .bind (within_modify hf) fun _ => trivial
  have hheld : (Sup.withWrite i .subscriptionTxn body).Tells (Advances env i task) (fun _ _ => True) .outside := by
    refine .atomic fun o s b t hact => ?_
    obtain ⟨lock, hlock, hact⟩ := Option.map_eq_some_iff.mp hact
    obtain ⟨-, rfl⟩ := Lock.acquireWrite_eq hlock
    cases hact
    refine ⟨.entered, .enters ⟨rfl, rfl⟩ (by simp [World.Transacting, Lock.hold_eq_write]), ?_⟩
    exact hbody.bind fun reply l _ => tells_inward (hend fun _ => ⟨rfl, rfl⟩)
  refine passing_bind (within_modify fun _ => ⟨⟨rfl, rfl⟩, rfl, rfl, rfl⟩) fun _ => ?_
  exact hheld.bind fun reply l _ => tells_inward (hend fun _ => ⟨rfl, rfl⟩)

theorem stages_switchSubscription {target : String} :
    (Sup.switchSubscription env i target).Tells (Advances env i (.switchSubscription target)) (fun _ _ => True) .outside := by
  refine stages_mutation (.atomic fun o s catalog t hact => ?_)
  cases hact
  exact ⟨.aimed target, .aims rfl, stages_switchSubscriptionLocked⟩

theorem stages_reload : (Sup.reload env i).Tells (Advances env i .reload) (fun _ _ => True) .outside := by
  have hfail {detail : String} : (Sup.reloadFailed detail).Within Inward :=
    .bind (inward_of_passing passing_pushEvent) fun _ => trivial
  refine stages_mutation (passing_bind within_ask fun config => ?_)
  cases config with
  | none => exact tells_inward hfail
  | some cfg =>
      dsimp only
      split
      · exact tells_inward hfail
      refine .atomic fun o s active t hact => ?_
      cases hact
      refine ⟨.aimed s.subscriptions.active, .aims rfl, ?_⟩
      split
      · exact tells_inward hfail
      refine stages_switchSubscriptionLocked.bind fun outcome l _ => ?_
      split
      · exact tells_inward hfail
      · exact tells_inward (.bind (inward_of_passing passing_pushEvent) fun _ => trivial)

/-! ### Tasks -/

/-- The stage that a task is at when the daemon starts. -/
def Task.stage : Task → Stage
  | .switchSubscription _ | .reload => .outside
  | _ => .ended

theorem stages_prog (task : Task) : (task.prog env i).Tells (Advances env i task) (fun _ _ => True) task.stage := by
  have hother {task : Task} (htarget : task.target "" = none) (hstage : task.stage = .ended) :
      (task.prog env i).Tells (Advances env i task) (fun _ _ => True) task.stage := by
    rw [hstage]
    generalize task.prog env i = p
    induction p with
    | done reply => trivial
    | step act next ih => exact fun _ _ b _ _ => ⟨.ended, .aside htarget, ih b⟩
  cases task with
  | switchSubscription name => exact stages_switchSubscription
  | reload => exact stages_reload
  | _ => exact hother rfl rfl

/-! ### One step -/

theorem Passing.transacting (h : Passing s t) (hs : s.Transacting i) : t.Transacting i := by
  rw [World.Transacting, h.mutex]
  exact hs

theorem Advances.fact {l : Stage} (h : Advances env i task k s t l) (hk : k.Fact i task s) : l.Fact i task t := by
  cases h with
  | passes passing =>
      cases k with
      | outside => trivial
      | entered => exact passing.transacting hk
      | aimed target => exact ⟨passing.transacting hk.1, passing.subscriptions ▸ hk.2⟩
      | begun target catalog =>
          exact ⟨passing.transacting hk.1, passing.subscriptions ▸ hk.2.1, passing.catalog.trans hk.2.2⟩
      | flipping target published flipped => exact ⟨passing.transacting hk.1, passing.published.trans hk.2⟩
      | ended => trivial
  | enters inward mutex => exact mutex
  | aims aim => exact ⟨hk, aim⟩
  | begins => exact ⟨hk.1, hk.2, rfl⟩
  | places configured chosen => exact hk
  | replaces passing => exact ⟨passing.transacting hk.1, passing.published⟩
  | flips flip passing => exact ⟨passing.transacting hk.1, passing.published.trans hk.2⟩
  | publishes => trivial
  | rests => trivial
  | aside => trivial

/-- A mutation moves a cache file only to a slot of the one that its profile has in the catalog of the transaction. -/
theorem Advances.moved {l : Stage} {path : Path} (h : Advances env i task k s t l) (hk : k.Fact i task s)
    (htask : task.target "" ≠ none) (hmoved : t.cacheDir.files path ≠ s.cacheDir.files path) :
    ∃ target catalog base slot, task.target s.subscriptions.active = some target ∧ s.trail.catalog = some catalog ∧
      (catalog.profile target).bind (·.cacheFile) = some base ∧ cacheSlotPath base slot = some path := by
  cases h with
  | @places target slot catalog base place inode _ configured chosen =>
      refine ⟨target, catalog, base, slot, hk.2.1, hk.2.2, configured, ?_⟩
      by_contra hne
      refine hmoved (Function.update_of_ne (fun heq => hne ?_) _ _)
      rw [chosen, heq]
  | passes passing => exact absurd (congrFun passing.files path) hmoved
  | enters inward => exact absurd (congrFun inward.files path) hmoved
  | aims => exact absurd rfl hmoved
  | begins => exact absurd rfl hmoved
  | replaces passing => exact absurd (congrFun passing.files path) hmoved
  | flips _ passing => exact absurd (congrFun passing.files path) hmoved
  | publishes _ files => exact absurd (congrFun files path) hmoved
  | rests inward => exact absurd (congrFun inward.files path) hmoved
  | aside other => exact absurd other htask

/-- It publishes only when it has changed the route of every class. -/
theorem Advances.issued {l : Stage} (h : Advances env i task k s t l) (htask : task.target "" ≠ none)
    (hissued : t.trail.published ≠ s.trail.published) :
    ∃ target published flipped, k = .flipping target published flipped ∧ (∀ cls ∈ env.classes, cls ∈ flipped) ∧
      t.trail.published = s.trail.published + 1 ∧ t.subscriptions.active = target := by
  cases h with
  | @publishes target published flipped _ _ all files issued active =>
      exact ⟨target, published, flipped, rfl, all, issued, active⟩
  | passes passing => exact absurd passing.published hissued
  | enters inward => exact absurd inward.published hissued
  | aims => exact absurd rfl hissued
  | begins => exact absurd rfl hissued
  | places => exact absurd rfl hissued
  | replaces passing => exact absurd passing.published hissued
  | flips _ passing => exact absurd passing.published hissued
  | rests inward => exact absurd inward.published hissued
  | aside other => exact absurd other htask

/-- The route of the class is among those that were changed for the publication to come. -/
def Stage.Flipped (target : String) (published : Nat) (cls : String) (k : Stage) : Prop :=
  ∃ flipped, k = .flipping target published flipped ∧ cls ∈ flipped

theorem Advances.flipped {l : Stage} {target cls : String} {published : Nat} (h : Advances env i task k s t l)
    (hk : k.Fact i task s) (hbefore : ¬ k.Flipped target published cls) (hafter : l.Flipped target published cls) :
    Flips target cls s t ∧ s.trail.published = published := by
  obtain ⟨flipped, rfl, hmem⟩ := hafter
  cases h with
  | passes => exact absurd ⟨flipped, rfl, hmem⟩ hbefore
  | replaces => cases hmem
  | @flips _ other _ flipped _ _ flip passing =>
      rcases List.mem_cons.mp hmem with rfl | hmem
      · exact ⟨flip, hk.2⟩
      · exact absurd ⟨flipped, rfl, hmem⟩ hbefore

end

/-! ### Runs -/

section

variable {env : Env} {w : World} {tasks : Nat → Task} {moves before after : List (Move World)} {m : Move World}
  {last : Pool World Outside Reply}

/-- The stages of a run of the daemon. -/
theorem daemon_stages (h : Started env w) (run : (daemon env tasks w).Run moves last) :
    Pool.Chronicle (fun i => Advances env i (tasks i)) (fun _ _ _ => True) (fun i => (tasks i).stage) (fun _ => True)
      (fun i k u => k.Fact i (tasks i) u) (daemon env tasks w) moves where
  tells i := stages_prog (tasks i)
  shared := trivial
  threads i := by
    cases tasks i <;> trivial
  own m _ k l hstep _ hk := ⟨trivial, hstep.fact hk⟩
  others m hm i hi j k l _ _ hk := by
    have hmutex : m.before.Transacting i → m.after.Transacting i := fun hmine =>
      (((reachable_moves h run m hm).2.2.others i hi).hold .subscriptionTxn).trans hmine
    have hchore : m.before.Transacting i → Chore m.before m.after ∧ m.after.trail.catalog = m.before.trail.catalog :=
      chore_of_transacting h run hm hi
    cases k with
    | outside => trivial
    | entered => exact hmutex hk
    | aimed target => exact ⟨hmutex hk.1, (hchore hk.1).1.subscriptions ▸ hk.2⟩
    | begun target catalog =>
        exact ⟨hmutex hk.1, (hchore hk.1).1.subscriptions ▸ hk.2.1, (hchore hk.1).2.trans hk.2.2⟩
    | flipping target published flipped => exact ⟨hmutex hk.1, (hchore hk.1).1.published.trans hk.2⟩
    | ended => trivial

theorem placed_under_catalog (h : Started env w) (run : (daemon env tasks w).Run (before ++ m :: after) last)
    (htask : (tasks m.thread).target "" ≠ none) {path : Path}
    (hmoved : m.after.cacheDir.files path ≠ m.before.cacheDir.files path) :
    ∃ target catalog base slot, (tasks m.thread).target m.before.subscriptions.active = some target ∧
      m.before.trail.catalog = some catalog ∧ (catalog.profile target).bind (·.cacheFile) = some base ∧
        cacheSlotPath base slot = some path := by
  have hstages := daemon_stages h run
  obtain ⟨⟨l, story, -⟩, -⟩ := (run.chronicle hstages).2 m.thread
  obtain ⟨-, j, k, -, hfact, hstep, -⟩ := run.chapter hstages story
  exact hstep.moved hfact htask hmoved

/-- Before a mutation publishes, it has put a path of the profile in the route of every class, for this publication. -/
theorem flipped_before (h : Started env w) (run : (daemon env tasks w).Run (before ++ m :: after) last)
    (htask : (tasks m.thread).target "" ≠ none) (hissued : m.after.trail.published ≠ m.before.trail.published) :
    ∀ cls ∈ env.classes, ∃ n ∈ before, n.thread = m.thread ∧ Flips m.after.subscriptions.active cls n.before n.after ∧
      n.after.trail.routeEpoch cls = m.after.trail.published := by
  have hstages := daemon_stages h run
  obtain ⟨⟨l, story, -⟩, -⟩ := (run.chronicle hstages).2 m.thread
  obtain ⟨-, j, k, hfirst, hfact, hstep, -⟩ := run.chapter hstages story
  obtain ⟨target, published, flipped, rfl, hall, hnext, rfl⟩ := hstep.issued htask hissued
  obtain ⟨mid, hbefore, -⟩ := run.split
  have hstart : ∀ cls, ¬ ((tasks m.thread).stage).Flipped m.after.subscriptions.active published cls := by
    rintro cls ⟨flipped, heq, -⟩
    cases htask : tasks m.thread <;> rw [htask] at heq <;> cases heq
  intro cls hcls
  obtain ⟨first, step, rest, j, k, heq, -, ⟨hj, hstep⟩, hnot, hnow, -⟩ :=
    (hbefore.owned hstages.earlier hfirst).gained (hstart cls) ⟨flipped, rfl, hall cls hcls⟩
  have hown : step ∈ Pool.own m.thread before := by
    rw [heq]
    simp
  obtain ⟨n, hn, hthread, rfl⟩ := Pool.of_mem_own hown
  obtain ⟨hflip, hpublished⟩ := hstep.flipped hj hnot hnow
  refine ⟨n, hn, hthread, hflip, ?_⟩
  rw [hflip.epoch, hpublished, hnext, hfact.2]

end

end Causeway

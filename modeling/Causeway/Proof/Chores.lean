import Causeway.Proof.Progress
import Causeway.Model.Restart
import Causeway.Proof.Profiles

/-!
# Chores

Every task but the two subscription mutations, step by step: whatever it probes, installs, books or records, it does nothing that belongs to a mutation, and what it saves is the state it has seen.
-/

namespace Causeway

open Concurrent Prog

/-! ### Steps -/

theorem Tended.refl (st : StateFile) : Tended st st := rfl

theorem Tended.trans {st other last : StateFile} (h : Tended st other) (g : Tended other last) : Tended st last := by
  rw [Tended] at h g ⊢
  rw [g, h]

/-- A chore that saves nothing. -/
structure Tends (s t : World) : Prop extends Chore s t where
  passed : t.trail.passed = s.trail.passed
  catalog : t.trail.catalog = s.trail.catalog

instance : Std.Refl Tends := ⟨fun s => ⟨Std.Refl.refl s, rfl, rfl⟩⟩

/-- One that leaves the mutex alone as well. -/
structure Modest (s t : World) : Prop extends Tends s t where
  mutex : t.locks .subscriptionTxn = s.locks .subscriptionTxn

instance : Std.Refl Modest := ⟨fun s => ⟨Std.Refl.refl s, rfl⟩⟩

theorem Untouched.modest {s t : World} (h : Untouched s t) : Modest s t :=
  ⟨⟨⟨by rw [h.state]; exact .refl _, h.subscriptions, by rw [h.traffic], h.cache, h.published⟩, h.passed, h.catalog⟩, h.mutex⟩

/-- A step that keeps the state, the subscriptions, the traffic and the cache. -/
theorem Tends.of_eq {s t : World} (hstate : t.state = s.state) (hsubs : t.subscriptions = s.subscriptions)
    (hselected : t.traffic.subscription = s.traffic.subscription) (hcache : t.cacheDir = s.cacheDir)
    (hpublished : t.trail.published = s.trail.published) (hpassed : t.trail.passed = s.trail.passed)
    (hcatalog : t.trail.catalog = s.trail.catalog) : Tends s t :=
  ⟨⟨by rw [hstate]; exact .refl _, hsubs, hselected, hcache, hpublished⟩, hpassed, hcatalog⟩

/-- A step on the state alone. -/
theorem Tends.of_state {s : World} {st : StateFile} (h : Tended s.state st) : Tends s { s with state := st } :=
  ⟨⟨h, rfl, rfl, rfl, rfl⟩, rfl, rfl⟩

/-- The task has nothing to withhold. -/
def Plainly (holding : Bool) (k : Progress) : Prop := ∃ seen, k = .plain holding seen

section

variable {env : Env} {i : Nat} {task : Task} {holding : Bool} {seen later : List World} {s t : World}

theorem proceeds_plain (hchore : Chore s t) (hmutex : t.locks .subscriptionTxn = s.locks .subscriptionTxn)
    (hpasses : Passes env seen s t) (hlearns : Learns seen s later) (hcatalog : t.trail.catalog = s.trail.catalog) :
    Proceeds env i task (.plain holding seen) s t (.plain holding later) := by
  cases holding with
  | true => exact .finishing ⟨⟨hmutex, hchore.cache, .inl hchore.state, hpasses⟩, hchore.subscriptions,
    hchore.published⟩ hlearns
  | false => exact .apart hchore hpasses hlearns hcatalog

theorem learns_seen : Learns seen s (s :: seen) := fun _ hu => (List.mem_cons.mp hu).symm

end

/-! ### Programs -/

/-- The program of a task that is no mutation. -/
def Minds (env : Env) (i : Nat) (task : Task) {α : Type} (p : Sup α) : Prop :=
  ∀ seen, p.Tells (Proceeds env i task) (fun _ l => Plainly false l) (.plain false seen)

section

variable {env : Env} {i : Nat} {task : Task} {α β : Type} {holding : Bool} {k : Progress}

theorem tells_modest {p : Sup α} (hp : p.Within Modest) (hk : Plainly holding k) :
    p.Tells (Proceeds env i task) (fun _ l => Plainly holding l) k := by
  refine .within hp hk fun k s t hk hst => ?_
  obtain ⟨seen, rfl⟩ := hk
  exact ⟨_, proceeds_plain hst.toChore hst.mutex (.inl hst.passed) learns_seen hst.catalog, _, rfl⟩

namespace Minds

theorem pure {value : α} : Minds env i task (Pure.pure value : Sup α) := fun seen => .pure ⟨seen, rfl⟩

theorem bind {p : Sup α} {q : α → Sup β} (hp : Minds env i task p) (hq : ∀ a, Minds env i task (q a)) :
    Minds env i task (p >>= q) := by
  intro seen
  refine (hp seen).bind fun a l hl => ?_
  obtain ⟨later, rfl⟩ := hl
  exact hq a later

theorem tends {p : Sup α} (hp : p.Within Tends) : Minds env i task p := by
  intro seen
  refine .within hp ⟨seen, rfl⟩ fun k s t hk hst => ?_
  obtain ⟨seen, rfl⟩ := hk
  exact ⟨_, .apart hst.toChore (.inl hst.passed) learns_seen hst.catalog, _, rfl⟩

theorem tends_bind {p : Sup α} {q : α → Sup β} (hp : p.Within Tends) (hq : ∀ a, Minds env i task (q a)) :
    Minds env i task (p >>= q) :=
  (tends hp).bind hq

end Minds

end

/-! ### Saves -/

section

variable {env : Env} {i : Nat} {task : Task} {holding : Bool} {k : Progress}

theorem untouched_openTmp : (Sup.openTmp i).Within Untouched := by
  refine within_act fun o w => ?_
  split
  · refine ⟨⟨rfl, rfl, rfl, rfl, rfl, ?_, rfl⟩, rfl, rfl, rfl, rfl, rfl, rfl⟩
    rw [StateDir.openTmp]
    split <;> rfl
  · exact Std.Refl.refl w

theorem untouched_writeSome {inode offset : Nat} {bytes : Bytes} : (Sup.writeSome i inode offset bytes).Within Untouched := by
  refine within_act fun o w => ?_
  split
  · exact ⟨⟨rfl, rfl, rfl, rfl, rfl, rfl, rfl⟩, rfl, rfl, rfl, rfl, rfl, rfl⟩
  · exact Std.Refl.refl w

theorem modest_renameTmp {kind : SaveKind} : (Sup.renameTmp i kind).Within Modest := by
  refine within_act fun o w => ?_
  split
  · exact ⟨.of_eq rfl rfl rfl rfl rfl rfl rfl, rfl⟩
  · exact Std.Refl.refl w

theorem modest_of_untouched {α : Type} {p : Sup α} (h : p.Within Untouched) : p.Within Modest :=
  h.mono fun _ _ => Untouched.modest

theorem modest_saveSteps {kind : SaveKind} {content : Bytes} : (Sup.saveSteps i kind content).Within Modest :=
  within_saveSteps (modest_of_untouched untouched_openTmp) (fun _ _ _ => modest_of_untouched untouched_writeSome) modest_renameTmp

theorem tells_saveState (hk : Plainly holding k) :
    (Sup.saveState env i).Tells (Proceeds env i task) (fun _ l => Plainly holding l) k := by
  have hstill : ∀ {w : World} {lock : Lock}, Modest w { w with locks := Function.update w.locks .state lock } := by
    intro w lock
    have hname : LockName.subscriptionTxn ≠ .state := by simp
    exact ⟨.of_eq rfl rfl rfl rfl rfl rfl rfl, Function.update_of_ne hname lock w.locks⟩
  have hacquire : (Sup.acquireWrite i .state).Within Modest := by
    refine within_atomic fun o s b t heq => ?_
    obtain ⟨lock, _, heq⟩ := Option.map_eq_some_iff.mp heq
    cases heq
    exact hstill
  have hrelease : (Sup.release i .state).Within Modest := within_modify fun _ => hstill
  refine (tells_modest hacquire hk).bind fun _ l hl => ?_
  obtain ⟨seen, rfl⟩ := hl
  -- The look at the state is what makes the saved one a seen one.
  refine .atomic fun o u st t hact => ?_
  cases hact
  refine ⟨.plain holding (u :: seen), proceeds_plain (Std.Refl.refl u) rfl (.inl rfl) learns_seen rfl, ?_⟩
  suffices hsaved : (Sup.saveAtomic env i .shared u.state).Tells (Proceeds env i task) (fun _ l => Plainly holding l)
    (.plain holding (u :: seen)) from hsaved.bind fun _ l hl => tells_modest hrelease hl
  refine .atomic fun o v ready t hact => ?_
  cases hact
  refine ⟨.plain holding (u :: seen), proceeds_plain (Std.Refl.refl v) rfl (.inl rfl) (fun _ hw => .inl hw) rfl, ?_⟩
  dsimp only
  split
  · exact .pure ⟨u :: seen, rfl⟩
  · split
    · exact .pure ⟨u :: seen, rfl⟩
    · rename_i content _
      refine .atomic fun o v _ t hact => ?_
      cases hact
      refine ⟨.plain holding (u :: seen), proceeds_plain ⟨.refl _, rfl, rfl, rfl, rfl⟩ rfl ?_ (fun _ hw => .inl hw) rfl, ?_⟩
      · exact .inr ⟨u, List.mem_cons_self, u.state, rfl, .inl rfl⟩
      · refine (tells_modest modest_saveSteps ⟨_, rfl⟩).bind fun outcome l hl => ?_
        have hend : (Sup.endSave i .shared outcome.isSome).Within Modest :=
          within_modify fun _ => ⟨.of_eq rfl rfl rfl rfl rfl rfl rfl, rfl⟩
        exact (tells_modest hend hl).bind fun _ l hl => .pure hl

theorem minds_saveState : Minds env i task (Sup.saveState env i) := fun seen => tells_saveState ⟨seen, rfl⟩

end

/-! ### Locks, planes and counters -/

section

variable {env : Env} {i : Nat} {task : Task} {name : LockName} {cls site : String} {α : Type}

theorem tends_acquireWrite : (Sup.acquireWrite i name).Within Tends := by
  refine within_atomic fun o s b t heq => ?_
  obtain ⟨lock, _, heq⟩ := Option.map_eq_some_iff.mp heq
  cases heq
  exact .of_eq rfl rfl rfl rfl rfl rfl rfl

theorem tends_acquireRead : (Sup.acquireRead i name).Within Tends := by
  refine within_atomic fun o s b t heq => ?_
  obtain ⟨lock, _, heq⟩ := Option.map_eq_some_iff.mp heq
  cases heq
  exact .of_eq rfl rfl rfl rfl rfl rfl rfl

theorem tends_tryAcquireWrite : (Sup.tryAcquireWrite i name).Within Tends := by
  refine within_atomic fun o s b t heq => ?_
  split at heq <;> cases heq <;> exact .of_eq rfl rfl rfl rfl rfl rfl rfl

theorem tends_release : (Sup.release i name).Within Tends := within_modify fun _ => .of_eq rfl rfl rfl rfl rfl rfl rfl

theorem minds_releasing {body : Sup α} (h : Minds env i task body) : Minds env i task (Sup.releasing i name body) :=
  h.bind fun _ => .tends_bind tends_release fun _ => .pure

theorem minds_withWrite {body : Sup α} (h : Minds env i task body) : Minds env i task (Sup.withWrite i name body) :=
  .tends_bind tends_acquireWrite fun _ => minds_releasing h

theorem minds_withRead {body : Sup α} (h : Minds env i task body) : Minds env i task (Sup.withRead i name body) :=
  .tends_bind tends_acquireRead fun _ => minds_releasing h

theorem tends_of_untouched {p : Sup α} (h : p.Within Untouched) : p.Within Tends :=
  h.mono fun _ _ hst => hst.modest.toTends

theorem tends_pushEvent {f : Outside → Event} : (Sup.pushEvent f).Within Tends := tends_of_untouched untouched_pushEvent

theorem tends_observe {f : World → α × Obs} : (Sup.observe f).Within Tends := tends_of_untouched untouched_observe

theorem tends_stopPlane {id : Nat} : (Sup.stopPlane id).Within Tends :=
    within_modify fun _ => .of_eq rfl rfl rfl rfl rfl rfl rfl

theorem tends_spawnPlane {spec : Sup.StartSpec} : (Sup.spawnPlane i spec).Within Tends := by
  refine within_act fun o w => ?_
  split <;> exact .of_eq rfl rfl rfl rfl rfl rfl rfl

theorem tends_tryActivate {node : Node} {fused : Bool} : (Sup.tryActivate env i cls node fused).Within Tends :=
  within_tryActivate (fun _ => tends_spawnPlane) (fun _ => tends_stopPlane) fun _ => tends_observe

/-! ### Installing and switching -/

theorem tends_scheduleDrain {old : ActiveNode} : (Sup.scheduleDrain old).Within Tends :=
  within_modify fun _ => .of_eq rfl rfl rfl rfl rfl rfl rfl

theorem minds_installActive {newActive : ActiveNode} {cause : Cause} {chosenAt : Nat} :
    Minds env i task (Sup.installActive env i cls newActive cause chosenAt) := by
  refine .tends_bind within_look fun subscription => .tends_bind (within_act fun _ _ => .of_eq rfl rfl rfl rfl rfl rfl rfl) fun old => ?_
  refine .tends_bind (within_atomic fun o s b t heq => ?_) fun generation => ?_
  · split at heq <;> cases heq
    exact .of_eq rfl rfl rfl rfl rfl rfl rfl
  refine .tends_bind (within_lockState fun _ _ => .of_state rfl) fun _ => ?_
  refine .tends_bind (within_modify fun _ => .of_eq rfl rfl rfl rfl rfl rfl rfl) fun _ => minds_saveState.bind fun _ => ?_
  refine .tends_bind tends_pushEvent fun _ => ?_
  cases old with
  | none => exact .pure
  | some old => exact .tends tends_scheduleDrain

theorem tends_recordFailedCandidate {node : String} : (Sup.recordFailedCandidate env cls node).Within Tends := by
  unfold Sup.recordFailedCandidate
  split
  · exact within_lockState fun _ _ => .of_state rfl
  · trivial

theorem minds_tryCandidates {cause : Cause} {chosenAt : Nat} {lastCause : Option String} {candidates : List Node} :
    Minds env i task (Sup.tryCandidates env i cls cause chosenAt lastCause candidates) := by
  induction candidates generalizing cause lastCause with
  | nil => exact .pure
  | cons candidate candidates ih =>
      refine .tends_bind within_look fun stopping => ?_
      split
      · exact .pure
      refine .tends_bind tends_tryActivate fun attempt => ?_
      cases attempt with
      | elapsed => exact .pure
      | activated active => exact minds_installActive.bind fun _ => .pure
      | failed error => exact .tends_bind tends_recordFailedCandidate fun _ => .tends_bind tends_pushEvent fun _ => ih

theorem minds_switchNodeLocked {causeAt : SwitchField → Cause} :
    Minds env i task (Sup.switchNodeLocked env i cls causeAt) := by
  refine .tends_bind within_look fun current => .tends_bind within_look fun pool => ?_
  refine .tends_bind within_readState fun field => minds_tryCandidates.bind fun outcome => ?_
  cases outcome with
  | ok installed => exact .pure
  | error error =>
      refine .tends_bind within_look fun stopping => ?_
      split
      · exact .pure
      · split
        · exact .pure
        · refine minds_tryCandidates.bind fun outcome => ?_
          cases outcome <;> exact .pure

theorem minds_recoverAfterHealthFailure {bookedAt : Nat} :
    Minds env i task (Sup.recoverAfterHealthFailure env i cls bookedAt) := by
  refine minds_withWrite (.tends_bind (within_act fun o w => ?_) fun allowed => ?_)
  · dsimp only
    split <;> exact .of_eq rfl rfl rfl rfl rfl rfl rfl
  split
  · exact .pure
  · refine minds_switchNodeLocked.bind fun switched => ?_
    split
    · exact .pure
    · exact .tends (within_act fun _ _ => .of_eq rfl rfl rfl rfl rfl rfl rfl)

theorem minds_switchTo {requested : String} {requester : Requester} :
    Minds env i task (Sup.switchTo env i cls requested requester) := by
  refine minds_withRead (minds_withWrite (.tends_bind within_look fun pool => ?_))
  dsimp only
  split
  · exact .pure
  refine .tends_bind ?_ fun current => ?_
  · cases requester with
    | operator => exact within_look
    | site nodeBefore site stamp => exact tends_observe
  split
  · exact .pure
  refine minds_tryCandidates.bind fun outcome => ?_
  cases outcome with
  | ok installed => exact .pure
  | error error =>
      refine .tends_bind within_readState fun candidates => minds_tryCandidates.bind fun outcome => ?_
      cases outcome with
      | ok installed => exact .pure
      | error error => exact .tends_bind within_look fun _ => .pure

theorem minds_rebuildCurrentAfterEgressChange : Minds env i task (Sup.rebuildCurrentAfterEgressChange env i cls) := by
  have hlocked : Minds env i task (Sup.rebuildLocked env i cls) := by
    refine .tends_bind within_look fun unwanted => ?_
    split
    · exact .pure
    refine .tends_bind within_look fun active => ?_
    split
    · exact .pure
    refine .tends_bind tends_tryActivate fun attempt => ?_
    cases attempt with
    | elapsed => exact .pure
    | failed error => exact .pure
    | activated replacement =>
        refine .tends_bind within_ask fun current => .tends_bind within_look fun unwanted => ?_
        split
        · exact .tends_bind tends_stopPlane fun _ => .pure
        · exact minds_installActive
  refine .tends_bind within_look fun unwanted => ?_
  split
  · exact .pure
  refine .tends_bind tends_tryAcquireWrite fun taken => ?_
  split
  · refine minds_releasing (.tends_bind within_look fun unwanted => ?_)
    split
    · exact .pure
    refine .tends_bind tends_tryAcquireWrite fun taken => ?_
    split
    · refine minds_releasing (.tends_bind tends_tryAcquireWrite fun taken => ?_)
      split
      · exact minds_releasing hlocked
      · exact .pure
    · exact .pure
  · exact .pure

end

end Causeway

import Causeway.Proof.Custody
import Causeway.Model.Teardown

/-!
# Hand-overs

The operations that give planes away: an install makes its own plane a class's path and hands the old one to the drains, a transaction does so for every class at once, and a drain stops what it was handed. Between the install and the flip of the route the old plane is the installer's, and still the one that is published.
-/

namespace Causeway

open Concurrent Prog

/-! ### The locks of classes -/

theorem hold_update_of_ne {locks : String → Lock} {lock : Lock} {i : Nat} {cls other : String} (h : other ≠ cls) :
    (Function.update locks cls lock other).hold i = (locks other).hold i := by
  rw [Function.update_of_ne h]

/-- With the class taken by thread `i`. -/
def Fleet.taking (c : Fleet) (i : Nat) (cls : String) : Fleet :=
  { c with locks := Function.update c.locks cls (.writer i) }

theorem Fleet.taking_hold (c : Fleet) (i : Nat) (cls : String) : Holding i cls (c.taking i cls) := by
  simp [Holding, Fleet.taking, Lock.hold]

theorem Fleet.taking_hold_of_ne (c : Fleet) {i : Nat} {cls other : String} (h : other ≠ cls) :
    ((c.taking i cls).locks other).hold i = (c.locks other).hold i :=
  hold_update_of_ne h

theorem fleet_lock (w : World) (cls : String) (lock : Lock) :
    ({ w with locks := Function.update w.locks (.cls cls) lock } : World).fleet =
      { w.fleet with locks := Function.update w.fleet.locks cls lock } := by
  have hlocks : Function.update w.locks (.cls cls) lock ∘ LockName.cls = Function.update (w.locks ∘ .cls) cls lock :=
    Function.update_comp_eq_of_injective w.locks (fun _ _ h => LockName.cls.inj h) cls lock
  have hfun : (fun other => Function.update w.locks (.cls cls) lock (.cls other)) =
      Function.update (fun other => w.locks (.cls other)) cls lock := hlocks
  rw [World.fleet, hfun]
  rfl

section

variable {i : Nat} {cls : String} {α : Type} {mine : List Nat} {base : Fleet} {w : World} {post : α → Fleet → Prop}

theorem still_lock {name : LockName} (hname : ∀ cls, LockName.cls cls ≠ name) (lock : Lock) :
    Still w { w with locks := Function.update w.locks name lock } :=
  Minor.still ⟨rfl, fun cls => Function.update_of_ne (hname cls) _ _, fun _ => rfl, fun _ => rfl⟩

theorem still_tryAcquireWrite {name : LockName} (hname : ∀ cls, LockName.cls cls ≠ name) :
    (Sup.tryAcquireWrite i name).Within Still := by
  refine within_atomic fun o s b t heq => ?_
  split at heq <;> cases heq
  · exact still_lock hname _
  · rfl

theorem still_acquireWriteBy {name : LockName} (hname : ∀ cls, LockName.cls cls ≠ name) :
    (Sup.acquireWriteBy i name).Within Still := by
  refine within_atomic fun o s b t heq => ?_
  split at heq
  · cases heq
    rfl
  · obtain ⟨lock, _, heq⟩ := Option.map_eq_some_iff.mp heq
    cases heq
    exact still_lock hname lock

/-- The class is free when it is taken. -/
theorem taken_step {t : World} {lock : Lock} (hlock : (t.locks (.cls cls)).acquireWrite i = some lock)
    (ht : t.fleet.Sound) (hkept : Kept i mine base t.fleet) :
    let u : World := { t with locks := Function.update t.locks (.cls cls) lock }
    u.fleet.Sound ∧ Conducts i t.fleet u.fleet ∧ (base.locks cls).hold i = .none ∧
      Kept i mine (base.taking i cls) u.fleet := by
  intro u
  obtain ⟨hfree, rfl⟩ := Lock.acquireWrite_eq hlock
  have hnow : ∀ j, (t.fleet.locks cls).hold j = .none := fun j => by
    show (t.locks (.cls cls)).hold j = .none
    rw [hfree, Lock.hold_free]
  have hu : u.fleet = { t.fleet with locks := Function.update t.fleet.locks cls (.writer i) } := fleet_lock t cls _
  have hothers : ∀ j, j ≠ i → (Lock.writer i).hold j = (t.fleet.locks cls).hold j := fun j hj => by
    rw [hnow, Lock.hold, if_neg (Ne.symm hj)]
  obtain ⟨hsound, hconducts⟩ := locked_step ht hothers hu
  refine ⟨hsound, hconducts, (hkept.hold cls).symm.trans (hnow i), ?_⟩
  rw [hu]
  refine ⟨⟨⟨hkept.drains, fun other => ?_, hkept.entered, hkept.ended⟩, hkept.owed, hkept.once⟩, hkept.unrouted⟩
  by_cases hother : other = cls
  · subst hother
    simp [Fleet.taking]
  · rw [Fleet.taking_hold_of_ne base hother]
    exact (hold_update_of_ne hother).trans (hkept.hold other)

namespace Keeps

theorem acquireClass {k : Unit → Sup α} (hkept : Kept i mine base w.fleet)
    (hk : ∀ u : World, u.fleet.Sound → (base.locks cls).hold i = .none → Kept i mine (base.taking i cls) u.fleet →
      Keeps i post (k ()) u) : Keeps i post (Sup.acquireWrite i (.cls cls) >>= k) w := by
  refine .step fun o t u a hact ht hst => ?_
  obtain ⟨lock, hlock, heq⟩ := Option.map_eq_some_iff.mp hact
  cases heq
  obtain ⟨hu, hconducts, hnone, hnow⟩ := taken_step hlock ht (hkept.spared hst)
  exact ⟨hu, hconducts, fun hu => hk _ hu hnone hnow⟩

theorem tryAcquireClass {k : Bool → Sup α} (hkept : Kept i mine base w.fleet) (hbusy : Keeps i post (k false) w)
    (hk : ∀ u : World, u.fleet.Sound → (base.locks cls).hold i = .none → Kept i mine (base.taking i cls) u.fleet →
      Keeps i post (k true) u) : Keeps i post (Sup.tryAcquireWrite i (.cls cls) >>= k) w := by
  refine .step fun o t u a hact ht hst => ?_
  split at hact
  · rename_i lock hlock
    cases hact
    obtain ⟨hu, hconducts, hnone, hnow⟩ := taken_step hlock ht (hkept.spared hst)
    exact ⟨hu, hconducts, fun hu => hk _ hu hnone hnow⟩
  · cases hact
    exact ⟨ht, .refl, fun _ => hbusy.mono hst⟩

theorem acquireClassBy {k : Bool → Sup α} (hkept : Kept i mine base w.fleet) (hlate : Keeps i post (k false) w)
    (hk : ∀ u : World, u.fleet.Sound → (base.locks cls).hold i = .none → Kept i mine (base.taking i cls) u.fleet →
      Keeps i post (k true) u) : Keeps i post (Sup.acquireWriteBy i (.cls cls) >>= k) w := by
  refine .step fun o t u a hact ht hst => ?_
  split at hact
  · cases hact
    exact ⟨ht, .refl, fun _ => hlate.mono hst⟩
  · obtain ⟨lock, hlock, heq⟩ := Option.map_eq_some_iff.mp hact
    cases heq
    obtain ⟨hu, hconducts, hnone, hnow⟩ := taken_step hlock ht (hkept.spared hst)
    exact ⟨hu, hconducts, fun hu => hk _ hu hnone hnow⟩

theorem releaseClass {k : Unit → Sup α} (locks : String → Lock) (hkept : Kept i mine base w.fleet)
    (hnone : (locks cls).hold i = .none) (hsame : ∀ other, other ≠ cls → (base.locks other).hold i = (locks other).hold i)
    (hk : ∀ u : World, u.fleet.Sound → Kept i mine { base with locks := locks } u.fleet → Keeps i post (k ()) u) :
    Keeps i post (Sup.release i (.cls cls) >>= k) w := by
  refine .step fun o t u a hact ht hst => ?_
  cases hact
  have hu := fleet_lock t cls ((t.locks (.cls cls)).release i)
  have hnow := hkept.spared hst
  obtain ⟨hsound, hconducts⟩ := locked_step ht (fun j hj => Lock.release_hold_of_ne hj) hu
  refine ⟨hsound, hconducts, fun hu' => hk _ hu' ?_⟩
  rw [hu]
  refine ⟨⟨⟨hnow.drains, fun other => ?_, hnow.entered, hnow.ended⟩, hnow.owed, hnow.once⟩, hnow.unrouted⟩
  by_cases hother : other = cls
  · subst hother
    simp [hnone]
  · exact (hold_update_of_ne hother).trans ((hnow.hold other).trans (hsame other hother))

end Keeps

variable {pre : Fleet → Prop}

theorem returns_releasingClass {body : Sup α} (hbody : Returns (Holding i cls) i body) (hw : w.fleet.Sound)
    (hnone : (base.locks cls).hold i = .none) (hkept : Kept i mine (base.taking i cls) w.fleet) :
    Keeps i (fun _ c => Kept i mine base c) (Sup.releasing i (.cls cls) body) w := by
  refine (hbody mine _ w (base.taking_hold i cls) hw hkept).bind hw fun value u hu hkept => ?_
  refine .releaseClass base.locks hkept hnone (fun other hother => base.taking_hold_of_ne hother) fun v hv hkept => ?_
  exact .pure fun c hst => hkept.spared hst

theorem returns_withClass {body : Sup α} (hbody : Returns (Holding i cls) i body) :
    Returns pre i (Sup.withWrite i (.cls cls) body) :=
  fun _ _ _ _ _ hkept => .acquireClass hkept fun _ hu hnone hkept => returns_releasingClass hbody hu hnone hkept

end

/-! ### Installs -/

/-- Thread `i` has given the class a new path and has the plane of the old one, which the class's own route may still name. -/
structure Swapped (i : Nat) (cls : String) (new : ActiveNode) (old : Option ActiveNode) (mine : List Nat)
    (base c : Fleet) :
    Prop extends Owes i (old.toList.map (·.handle.id) ++ mine) base c where
  active : c.active cls = some new
  straight : ∀ path ∈ old.toList, path.pathConnections = path.handle.id
  stale : ∀ path ∈ old.toList, ∀ other, c.path other = some path.handle.id → other = cls
  unrouted : ∀ id ∈ mine, c.Unrouted id

section

variable {i : Nat} {cls : String} {mine : List Nat} {base s t : Fleet} {new : ActiveNode} {old : Option ActiveNode}

theorem Swapped.spared (h : Swapped i cls new old mine base s) (hlock : Holding i cls base) (hst : Spares i s t) :
    Swapped i cls new old mine base t where
  toOwes := h.toOwes.spared hst
  active := (hst.active cls ((h.hold cls).trans hlock)).trans h.active
  straight := h.straight
  stale path hpath other hrouted := by
    have hown := (h.owed path.handle.id).mpr (List.mem_append_left _ (List.mem_map_of_mem hpath))
    exact h.stale path hpath other (hst.unrouted _ other hown hrouted)
  unrouted id hid other hrouted := by
    have hown := (h.owed id).mpr (List.mem_append_right _ hid)
    exact h.unrouted id hid other (hst.unrouted id other hown hrouted)

/-- The planes that thread `i` owns after the change of paths. -/
theorem Repathed.owed (h : Repathed i cls (some new) s t) (hs : s.Sound) (hkept : Kept i (new.handle.id :: mine) base s)
    (id : Nat) : t.planes id = some (.task i) ↔ id ∈ (s.active cls).toList.map (·.handle.id) ++ mine := by
  obtain ⟨hnew, _⟩ := List.nodup_cons.mp hkept.once
  have hold : id ∈ (s.active cls).toList.map (·.handle.id) ↔ s.planes id = some (.active cls) := by
    constructor
    · intro hmem
      obtain ⟨path, hpath, rfl⟩ := List.mem_map.mp hmem
      exact (hs.active cls path (Option.mem_toList.mp hpath)).1
    · intro hown
      obtain ⟨path, hpath, rfl⟩ := hs.slot cls id hown
      exact List.mem_map_of_mem (Option.mem_toList.mpr hpath)
  rw [List.mem_append, hold]
  have howed := hkept.owed id
  rw [List.mem_cons] at howed
  rcases h.cases hs id with ⟨path, hpath, rfl, hbefore, hafter⟩ | ⟨hbefore, hafter⟩ | ⟨hsame, hnot⟩
  · cases hpath
    simp [hbefore, hafter, hnew]
  · simp [hbefore, hafter]
  · have hne : id ≠ new.handle.id := by
      rintro rfl
      obtain ⟨hbefore, _, _, hafter⟩ := h.gains new rfl
      simp [hbefore, hafter] at hsame
    rw [hsame, howed]
    simp [hne, hnot]

theorem Kept.repathed (hkept : Kept i (new.handle.id :: mine) base s) (hs : s.Sound) (h : Repathed i cls (some new) s t) :
    Swapped i cls new (s.active cls) mine base t := by
  have hpath : t.path = s.path := by rw [h.same]
  have hactive : ∀ path ∈ (s.active cls).toList,
      s.planes path.handle.id = some (.active cls) ∧ path.pathConnections = path.handle.id := fun path hmem =>
    hs.active cls path (Option.mem_toList.mp hmem)
  have hdrains : ∀ id, t.planes id = some (.draining (some i)) ↔ s.planes id = some (.draining (some i)) := fun id =>
    h.owner_iff hs (by simp) (by simp)
  refine ⟨⟨hkept.toAside.moved ?_ hdrains, h.owed hs hkept, ?_⟩, ?_, fun path hmem => (hactive path hmem).2,
    fun path hmem other hrouted => ?_, fun id hid => ?_⟩
  · rw [h.same]
  · refine List.nodup_append.mpr ⟨?_, (List.nodup_cons.mp hkept.once).2, ?_⟩
    · cases s.active cls <;> simp
    · rintro id hid _ hmine rfl
      obtain ⟨path, hmem, rfl⟩ := List.mem_map.mp hid
      have hown := (hkept.owed path.handle.id).mpr (List.mem_cons_of_mem _ hmine)
      simp [(hactive path hmem).1] at hown
  · rw [h.active, Function.update_self]
  · rw [hpath] at hrouted
    rcases hs.routed other _ hrouted with hown | ⟨j, hown⟩ | ⟨hown, _⟩ <;> simp [(hactive path hmem).1] at hown
    exact hown.symm
  · rw [Fleet.Unrouted, hpath]
    exact hkept.unrouted id (List.mem_cons_of_mem _ hid)

/-- The flip of the route takes the last name of the old plane. -/
theorem Swapped.routed (h : Swapped i cls new old mine base s) (hs : s.Sound)
    (ht : t = { s with path := Function.update s.path cls (some new.handle.id) }) : Paths i old.toList mine base t := by
  refine ⟨h.straight, ?_⟩
  have hunrouted : ∀ id ∈ old.toList.map (·.handle.id) ++ mine, t.Unrouted id := by
    intro id hid other hrouted
    rw [ht] at hrouted
    by_cases hother : other = cls
    · subst hother
      have hself : Function.update s.path other (some new.handle.id) other = some id := hrouted
      rw [Function.update_self] at hself
      cases hself
      have hown := (h.owed _).mpr hid
      simp [(hs.active other new h.active).1] at hown
    · have hbefore : s.path other = some id := (Function.update_of_ne hother _ _).symm.trans hrouted
      rcases List.mem_append.mp hid with hid | hid
      · obtain ⟨path, hmem, rfl⟩ := List.mem_map.mp hid
        exact hother (h.stale path hmem other hbefore)
      · exact h.unrouted id hid other hbefore
  rw [ht] at hunrouted ⊢
  exact ⟨⟨h.toAside.moved rfl fun _ => .rfl, h.owed, h.once⟩, hunrouted⟩

end

section

variable {env : Env} {i : Nat} {cls : String} {α : Type} {mine : List Nat} {base : Fleet} {w : World}
variable {post : α → Fleet → Prop}

theorem active_update (w : World) (runtime : ClassRuntime) :
    (fun other => (Function.update w.runtime cls runtime other).active) =
      Function.update w.fleet.active cls runtime.active :=
  Function.comp_update ClassRuntime.active w.runtime cls runtime

theorem path_update (w : World) (route : ClassRoute) :
    (fun other => (Function.update w.route cls route other).pathConnections) =
      Function.update w.fleet.path cls route.pathConnections :=
  Function.comp_update ClassRoute.pathConnections w.route cls route

/-- An old path goes to the drains. -/
theorem Keeps.drain {old : ActiveNode} {k : Unit → Sup α} (hpath : old.pathConnections = old.handle.id)
    (hkept : Kept i (old.handle.id :: mine) base w.fleet)
    (hk : ∀ u : World, u.fleet.Sound → Kept i mine base u.fleet → Keeps i post (k ()) u) :
    Keeps i post (Sup.scheduleDrain old >>= k) w := by
  refine .step fun o t u a hact ht hst => ?_
  have hnow := hkept.spared hst
  have hfleet : u.fleet = { t.fleet with
      planes := Function.update t.fleet.planes old.handle.id (some (.draining none))
      drains := t.fleet.drains ++ [old] } := by
    cases hact
    rw [World.fleet, List.filterMap_append]
    rfl
  obtain ⟨hu, hconducts⟩ := queue_step ht ((hnow.owed _).mpr List.mem_cons_self)
    (hnow.unrouted _ List.mem_cons_self) hpath hfleet
  refine ⟨hu, hconducts, fun hu => hk u hu ?_⟩
  exact hfleet ▸ hnow.gave (by simp) (by simp) rfl

theorem keeps_drainAll (paths : List ActiveNode) (hw : w.fleet.Sound) (hpaths : Paths i paths mine base w.fleet) :
    Keeps i (fun _ c => Kept i mine base c) (Sup.drainAll paths) w := by
  induction paths generalizing w with
  | nil => exact .pure fun c hst => hpaths.kept.spared hst
  | cons path paths ih =>
      refine .drain (hpaths.straight path List.mem_cons_self) hpaths.kept fun u hu hkept => ?_
      exact ih hu ⟨fun other hmem => hpaths.straight other (List.mem_cons_of_mem _ hmem), hkept⟩

theorem Keeps.replaceActive {new : ActiveNode} {k : Option ActiveNode → Sup α} (hlock : Holding i cls base)
    (hpath : new.pathConnections = new.handle.id) (hkept : Kept i (new.handle.id :: mine) base w.fleet)
    (hk : ∀ old (u : World), u.fleet.Sound → Swapped i cls new old mine base u.fleet → Keeps i post (k old) u) :
    Keeps i post (Sup.replaceActive i cls new >>= k) w := by
  refine .step fun o t u a hact ht hst => ?_
  have hnow := hkept.spared hst
  obtain ⟨rfl, hfleet⟩ : t.fleet.active cls = a ∧ u.fleet = { t.fleet with
      active := Function.update t.fleet.active cls (some new)
      planes := swapPlanes i cls new (t.fleet.active cls) t.fleet.planes } := by
    cases hact
    refine ⟨rfl, ?_⟩
    rw [World.fleet, active_update]
    rfl
  have hrepath := repathed_swap ht ((hnow.hold cls).trans hlock) ((hnow.owed _).mpr List.mem_cons_self)
    (hnow.unrouted _ List.mem_cons_self) hpath hfleet
  exact ⟨hrepath.sound ht, hrepath.conducts ht, fun hu => hk _ _ hu (hnow.repathed ht hrepath)⟩

theorem Keeps.flipRoute {new : ActiveNode} {old : Option ActiveNode} {subscription : String} {cause : Cause}
    {chosenAt : Nat} {k : UInt64 → Sup α} (hlock : Holding i cls base) (hpath : new.pathConnections = new.handle.id)
    (hswapped : Swapped i cls new old mine base w.fleet)
    (hk : ∀ generation (u : World), u.fleet.Sound → Paths i old.toList mine base u.fleet →
      Keeps i post (k generation) u) :
    Keeps i post (Sup.flipRoute i cls new old subscription cause chosenAt >>= k) w := by
  refine .step fun o t u a hact ht hst => ?_
  have hnow := hswapped.spared hlock hst
  have hfleet : u.fleet = { t.fleet with path := Function.update t.fleet.path cls (some new.handle.id) } := by
    split at hact
    · cases hact
      rw [World.fleet, path_update, ← hpath]
      rfl
    · cases hact
  obtain ⟨hu, hconducts⟩ := route_step ht hnow.active hfleet
  exact ⟨hu, hconducts, fun hu => hk a u hu (hnow.routed ht hfleet)⟩

theorem still_lockState {f : Outside → StateFile → α × StateFile} : (Sup.lockState f).Within Still :=
  within_lockState fun _ _ => rfl

theorem still_pushEvent {f : Outside → Event} : (Sup.pushEvent f).Within Still := still_of_minor minor_pushEvent

theorem still_saveState : (Sup.saveState env i).Within Still := still_of_minor minor_saveState

theorem keeps_installActive {new : ActiveNode} {cause : Cause} {chosenAt : Nat} (hlock : Holding i cls base)
    (hpath : new.pathConnections = new.handle.id) (hkept : Kept i (new.handle.id :: mine) base w.fleet) :
    Keeps i (fun _ c => Kept i mine base c) (Sup.installActive env i cls new cause chosenAt) w := by
  refine .still within_look fun subscription => .replaceActive hlock hpath hkept fun old u hu hswapped => ?_
  refine .flipRoute hlock hpath hswapped fun generation v hv hpaths => ?_
  refine .still still_lockState fun _ => .still (still_of_minor minor_resetClassFailures) fun _ => ?_
  refine .still still_saveState fun _ => .still still_pushEvent fun _ => ?_
  cases old with
  | none => exact .pure fun c hst => hpaths.kept.spared hst
  | some old =>
      show Keeps i _ (Sup.scheduleDrain old) v
      rw [← Prog.bind_pure (Sup.scheduleDrain old)]
      exact .drain (hpaths.straight old (by simp)) hpaths.kept fun x hx hkept => .pure fun c hst => hkept.spared hst

end

/-! ### Switches -/

section

variable {pre : Fleet → Prop} {env : Env} {i : Nat} {cls : String}

theorem still_recordFailedCandidate {name : String} : (Sup.recordFailedCandidate env cls name).Within Still := by
  rw [Sup.recordFailedCandidate]
  exact within_if still_lockState trivial

theorem returns_tryCandidates {cause : Cause} {chosenAt : Nat} {lastCause : Option String} {candidates : List Node} :
    Returns (Holding i cls) i (Sup.tryCandidates env i cls cause chosenAt lastCause candidates) := by
  induction candidates generalizing cause lastCause with
  | nil => exact .pure _
  | cons candidate candidates ih =>
      refine .still_bind within_look fun stopping => ?_
      split
      · exact .pure _
      intro mine base w hlock hw hkept
      refine (keeps_tryActivate hw hkept).bind hw fun attempt u hu hpaths => ?_
      cases attempt with
      | elapsed => exact .pure fun c hst => hpaths.kept.spared hst
      | activated active =>
          refine (keeps_installActive hlock (hpaths.straight active (by simp [Attempt.paths])) hpaths.kept).bind hu ?_
          exact fun _ v hv hkept => .pure fun c hst => hkept.spared hst
      | failed error =>
          refine .still still_recordFailedCandidate fun _ => .still still_pushEvent fun _ => ?_
          exact ih mine base u hlock hu hpaths.kept

theorem returns_switchNodeLocked {causeAt : SwitchField → Cause} :
    Returns (Holding i cls) i (Sup.switchNodeLocked env i cls causeAt) := by
  refine .still_bind within_look fun current => .still_bind within_look fun pool => ?_
  refine .still_bind within_readState fun field => returns_tryCandidates.bind fun outcome => ?_
  cases outcome with
  | ok installed => exact .pure _
  | error error =>
      refine .still_bind within_look fun stopping => ?_
      split
      · exact .pure _
      · split
        · exact .pure _
        · refine returns_tryCandidates.bind fun outcome => ?_
          cases outcome <;> exact .pure _

theorem still_recoveryAllowed : (Sup.recoveryAllowed env cls).Within Still := by
  refine within_act fun o w => ?_
  dsimp only
  split <;> rfl

theorem still_recordRecoveryFailure : (Sup.recordRecoveryFailure cls).Within Still :=
  within_act fun o w => by
    show World.fleet _ = w.fleet
    rw [World.fleet, active_update, show (w.runtime cls).active = w.fleet.active cls from rfl, Function.update_eq_self]
    rfl

theorem returns_recoverAfterHealthFailure {bookedAt : Nat} :
    Returns pre i (Sup.recoverAfterHealthFailure env i cls bookedAt) := by
  refine returns_withClass (.still_bind still_recoveryAllowed fun allowed => ?_)
  split
  · exact .pure _
  refine returns_switchNodeLocked.bind fun switched => ?_
  split
  · exact .pure _
  · exact .of_still still_recordRecoveryFailure

theorem returns_switchNode {challenge : Challenge} : Returns pre i (Sup.switchNode env i cls challenge) :=
  returns_withRead (by simp) (returns_withClass (returns_switchNodeLocked.bind fun _ => .pure _))

theorem still_requestedFrom {requested : String} {requester : Requester} :
    (Sup.requestedFrom i cls requested requester).Within Still := by
  cases requester with
  | operator => exact within_look
  | site nodeBefore site stamp => exact still_observe

theorem returns_switchTo {requested : String} {requester : Requester} :
    Returns pre i (Sup.switchTo env i cls requested requester) := by
  refine returns_withRead (by simp) (returns_withClass (.still_bind within_look fun pool => ?_))
  dsimp only
  split
  · exact .pure _
  refine .still_bind still_requestedFrom fun current => ?_
  split
  · exact .pure _
  refine returns_tryCandidates.bind fun outcome => ?_
  cases outcome with
  | ok installed => exact .pure _
  | error error =>
      refine .still_bind within_readState fun candidates => returns_tryCandidates.bind fun outcome => ?_
      cases outcome with
      | ok installed => exact .pure _
      | error error => exact .still_bind within_look fun _ => .pure _

theorem returns_rebuildLocked : Returns (Holding i cls) i (Sup.rebuildLocked env i cls) := by
  refine .still_bind within_look fun unwanted => ?_
  split
  · exact .pure _
  refine .still_bind within_look fun active => ?_
  split
  · exact .pure _
  intro mine base w hlock hw hkept
  refine (keeps_tryActivate hw hkept).bind hw fun attempt u hu hpaths => ?_
  cases attempt with
  | elapsed => exact .pure fun c hst => hpaths.kept.spared hst
  | failed error => exact .pure fun c hst => hpaths.kept.spared hst
  | activated replacement =>
      refine .still within_ask fun current => .still within_look fun unwanted => ?_
      split
      · exact .stop hpaths.kept fun v hv hkept => .pure fun c hst => hkept.spared hst
      · exact keeps_installActive hlock (hpaths.straight replacement (by simp [Attempt.paths])) hpaths.kept

theorem returns_rebuildCurrentAfterEgressChange :
    Returns pre i (Sup.rebuildCurrentAfterEgressChange env i cls) := by
  refine .still_bind within_look fun unwanted => ?_
  split
  · exact .pure _
  refine .still_bind (still_tryAcquireWrite (by simp)) fun taken => ?_
  split
  · refine returns_releasing (by simp) (.still_bind within_look fun unwanted => ?_)
    split
    · exact .pure _
    refine .still_bind (still_tryAcquireWrite (by simp)) fun taken => ?_
    split
    · refine returns_releasing (by simp) fun mine base w hpre hw hkept => ?_
      refine .tryAcquireClass hkept (.pure fun c hst => hkept.spared hst) fun u hu hnone hkept => ?_
      exact returns_releasingClass returns_rebuildLocked hu hnone hkept
    · exact .pure _
  · exact .pure _

theorem returns_activateFirst {chosenAt : Nat} {candidates : List Node} :
    Returns (Holding i cls) i (Sup.activateFirst env i cls chosenAt candidates) := by
  induction candidates with
  | nil => exact .pure _
  | cons candidate candidates ih =>
      intro mine base w hlock hw hkept
      refine (keeps_tryActivate hw hkept).bind hw fun attempt u hu hpaths => ?_
      cases attempt with
      | activated active =>
          exact keeps_installActive hlock (hpaths.straight active (by simp [Attempt.paths])) hpaths.kept
      | elapsed => exact ih mine base u hlock hu hpaths.kept
      | failed error => exact ih mine base u hlock hu hpaths.kept

theorem returns_activateInitial : Returns pre i (Sup.activateInitial env i cls) :=
  returns_withClass (.still_bind within_readState fun _ => .still_bind within_look fun _ =>
    .still_bind within_readState fun _ => returns_activateFirst)

end

end Causeway

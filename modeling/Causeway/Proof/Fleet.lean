import Causeway.Proof.Frames

/-!
# The fleet of data planes

Every running plane has one owner: a task, a class it is active on, or a drain. `Fleet` is what the accounts are kept by, `Sound` says that they are right, and `Transfer` lists the ways a plane changes hands. A thread relies on others to leave alone what it owns, and to route nothing to it.
-/

namespace Causeway

open Concurrent

/-- What the accounts of the running planes depend on. -/
structure Fleet where
  locks : String → Lock
  active : String → Option ActiveNode
  path : String → Option Nat
  planes : Nat → Option Owner
  next : Nat
  drains : List ActiveNode
  connections : Nat → Nat
  leases : List (Nat × Nat)
  timers : List (Nat × DrainTimer)
  drainShutdown : Bool
  entered : List Nat
  closed : Bool

/-- The path a queued drain is for. -/
def Job.drained : Job → Option ActiveNode
  | .drain active => some active
  | _ => none

def World.fleet (w : World) : Fleet where
  locks cls := w.locks (.cls cls)
  active cls := (w.runtime cls).active
  path cls := (w.route cls).pathConnections
  planes := w.planes
  next := w.nextPlane
  drains := w.jobs.filterMap Job.drained
  connections := w.connections
  leases := w.trail.leases
  timers := w.trail.timers
  drainShutdown := w.drainShutdown
  entered := w.entered
  closed := w.closed

namespace Fleet

variable (c : Fleet)

def leased (id : Nat) : List (Nat × Nat) := c.leases.filter fun lease => lease.2 = id

def Unrouted (id : Nat) : Prop := ∀ cls, c.path cls ≠ some id

/-- Every task that shutdown waits for is over, and no other begins. -/
def Ended : Prop := c.closed = true ∧ c.entered = []

/-- The drain of the plane may stop it: at shutdown, after the hard cap, or after the grace period without an open connection. -/
def Due (id : Nat) : Prop :=
  c.drainShutdown = true ∨ (id, .cap) ∈ c.timers ∨ (id, .grace) ∈ c.timers ∧ ∀ lease ∈ c.leases, lease.2 ≠ id

/-- The owner of a plane is who holds it. -/
structure Sound : Prop where
  active : ∀ cls path, c.active cls = some path →
    c.planes path.handle.id = some (.active cls) ∧ path.pathConnections = path.handle.id
  slot : ∀ cls id, c.planes id = some (.active cls) → ∃ path, c.active cls = some path ∧ path.handle.id = id
  queued : ∀ path ∈ c.drains, c.planes path.handle.id = some (.draining none) ∧ path.pathConnections = path.handle.id
  drain : ∀ id, c.planes id = some (.draining none) → ∃ path ∈ c.drains, path.handle.id = id
  once : (c.drains.map (·.handle.id)).Nodup
  fresh : ∀ id, c.next ≤ id → c.planes id = none ∧ c.Unrouted id
  routed : ∀ cls id, c.path cls = some id →
    c.planes id = some (.active cls) ∨ (∃ j, c.planes id = some (.task j)) ∨ c.planes id = none ∧ c.Ended
  counted : ∀ id, c.connections id = c.leases.countP fun lease => lease.2 = id

end Fleet

/-- The ways a plane changes hands in a step of thread `i`. -/
inductive Transfer (i id : Nat) (s t : Fleet) : Prop
  | kept (same : t.planes id = s.planes id)
  | started (before : s.planes id = none) (after : t.planes id = some (.task i)) (fresh : s.next ≤ id)
  | installed (cls : String) (before : s.planes id = some (.task i)) (after : t.planes id = some (.active cls))
      (locked : (s.locks cls).hold i = .write)
  | replaced (cls : String) (before : s.planes id = some (.active cls)) (after : t.planes id = some (.task i))
      (locked : (s.locks cls).hold i = .write)
      (successor : ∃ path, t.active cls = some path ∧ path.handle.id ≠ id)
  | retired (cls : String) (before : s.planes id = some (.active cls)) (after : t.planes id = some (.task i))
      (locked : (s.locks cls).hold i = .write) (teardown : i = 0) (ended : s.Ended)
  | queued (before : s.planes id = some (.task i)) (after : t.planes id = some (.draining none))
  | taken (before : s.planes id = some (.draining none)) (after : t.planes id = some (.draining (some i)))
  | discarded (before : s.planes id = some (.task i)) (after : t.planes id = none)
  | drained (before : s.planes id = some (.draining (some i))) (after : t.planes id = none) (due : s.Due id)

/-- What thread `i` may see others do. -/
structure Spares (i : Nat) (s t : Fleet) : Prop where
  owed : ∀ id, t.planes id = some (.task i) ↔ s.planes id = some (.task i)
  drains : ∀ id, t.planes id = some (.draining (some i)) ↔ s.planes id = some (.draining (some i))
  unrouted : ∀ id cls, s.planes id = some (.task i) → t.path cls = some id → s.path cls = some id
  hold : ∀ cls, (t.locks cls).hold i = (s.locks cls).hold i
  active : ∀ cls, (s.locks cls).hold i = .write → t.active cls = s.active cls
  leases : ∀ id, (i, id) ∈ s.leases → (i, id) ∈ t.leases
  connections : ∀ id, s.planes id = some (.draining (some i)) → t.connections id ≤ s.connections id
  entered : i ∈ t.entered ↔ i ∈ s.entered
  closed : s.closed = true → t.closed = true
  ended : s.Ended → t.Ended
  timers : ∀ timer ∈ s.timers, timer ∈ t.timers
  shutdown : s.drainShutdown = true → t.drainShutdown = true

theorem Spares.refl {i : Nat} {s : Fleet} : Spares i s s :=
  ⟨fun _ => .rfl, fun _ => .rfl, fun _ _ _ h => h, fun _ => rfl, fun _ _ => rfl, fun _ h => h, fun _ _ => le_rfl,
    .rfl, fun h => h, fun h => h, fun _ h => h, fun h => h⟩

theorem Spares.trans {i : Nat} {s t u : Fleet} (h : Spares i s t) (g : Spares i t u) : Spares i s u where
  owed id := (g.owed id).trans (h.owed id)
  drains id := (g.drains id).trans (h.drains id)
  unrouted id cls hown hpath := h.unrouted id cls hown (g.unrouted id cls ((h.owed id).mpr hown) hpath)
  hold cls := (g.hold cls).trans (h.hold cls)
  active cls hhold := (g.active cls ((h.hold cls).trans hhold)).trans (h.active cls hhold)
  leases id hmem := g.leases id (h.leases id hmem)
  connections id hown := (g.connections id ((h.drains id).mpr hown)).trans (h.connections id hown)
  entered := g.entered.trans h.entered
  closed hs := g.closed (h.closed hs)
  ended hs := g.ended (h.ended hs)
  timers timer hmem := g.timers timer (h.timers timer hmem)
  shutdown hs := g.shutdown (h.shutdown hs)

/-- What every step of thread `i` keeps. -/
structure Abides (i : Nat) (s t : Fleet) : Prop where
  others : ∀ j, j ≠ i → Spares j s t
  transfer : ∀ id, Transfer i id s t
  /-- A new connection is on a path that is routed, and some task that shutdown waits for runs. -/
  leased : ∀ id, (t.leased id).Sublist (s.leased id) ∨ (∃ cls, s.path cls = some id) ∧ ¬ s.Ended
  next : s.next ≤ t.next

/-- What a step inside a task keeps: it neither begins one nor ends it. -/
structure Conducts (i : Nat) (s t : Fleet) : Prop extends Abides i s t where
  entered : t.entered = s.entered

theorem Conducts.refl {i : Nat} {s : Fleet} : Conducts i s s :=
  ⟨⟨fun _ _ => .refl, fun _ => .kept rfl, fun _ => .inl (.refl _), le_rfl⟩, rfl⟩

/-- The discipline of who owns which plane. -/
def custody : Discipline World where
  inv w := w.fleet.Sound
  guar i w u := Abides i w.fleet u.fleet
  rely i w u := Spares i w.fleet u.fleet
  refl _ _ := .refl
  trans h g := h.trans g
  compat hij _ _ h := h.others _ (Ne.symm hij)

/-- The same, for what runs inside a task. -/
def service : Discipline World where
  inv w := w.fleet.Sound
  guar i w u := Conducts i w.fleet u.fleet
  rely i w u := Spares i w.fleet u.fleet
  refl _ _ := .refl
  trans h g := h.trans g
  compat hij _ _ h := h.others _ (Ne.symm hij)

/-! ### Steps that move no plane -/

section

variable {i : Nat} {s t : Fleet}

/-- Only locks, connections, timers and the stage of the daemon differ. -/
def Parked (s t : Fleet) : Prop :=
  t = { s with
    locks := t.locks, connections := t.connections, leases := t.leases, timers := t.timers
    drainShutdown := t.drainShutdown, entered := t.entered, closed := t.closed }

theorem Parked.sound (h : Parked s t) (hs : s.Sound) (hended : s.Ended → t.Ended)
    (hcounted : ∀ id, t.connections id = t.leases.countP fun lease => lease.2 = id) : t.Sound := by
  rw [h] at hended hcounted ⊢
  exact ⟨hs.active, hs.slot, hs.queued, hs.drain, hs.once, hs.fresh,
    fun cls id hpath => (hs.routed cls id hpath).imp_right (Or.imp_right fun ⟨hnone, hs⟩ => ⟨hnone, hended hs⟩),
    hcounted⟩

theorem Parked.transfer (h : Parked s t) (id : Nat) : Transfer i id s t := .kept (by rw [h])

theorem Parked.spares {j : Nat} (h : Parked s t) (hold : ∀ cls, (t.locks cls).hold j = (s.locks cls).hold j)
    (leases : ∀ id, (j, id) ∈ s.leases → (j, id) ∈ t.leases)
    (connections : ∀ id, s.planes id = some (.draining (some j)) → t.connections id ≤ s.connections id)
    (entered : j ∈ t.entered ↔ j ∈ s.entered) (closed : s.closed = true → t.closed = true)
    (ended : s.Ended → t.Ended) (timers : ∀ timer ∈ s.timers, timer ∈ t.timers)
    (shutdown : s.drainShutdown = true → t.drainShutdown = true) : Spares j s t :=
  ⟨fun id => by rw [h], fun id => by rw [h], fun id cls _ hpath => by rw [h] at hpath; exact hpath, hold,
    fun cls _ => by rw [h], leases, connections, entered, closed, ended, timers, shutdown⟩

theorem locked_step {cls : String} {lock : Lock} (hs : s.Sound)
    (hlock : ∀ j, j ≠ i → lock.hold j = (s.locks cls).hold j)
    (ht : t = { s with locks := Function.update s.locks cls lock }) :
    t.Sound ∧ Conducts i s t := by
  subst ht
  refine ⟨Parked.sound rfl hs id hs.counted, ⟨fun j hj => ?_, Parked.transfer rfl, fun _ => .inl (.refl _), le_rfl⟩, rfl⟩
  refine Parked.spares rfl (fun other => ?_) (fun _ h => h) (fun _ _ => le_rfl) .rfl id id (fun _ h => h) id
  by_cases hother : other = cls
  · subst hother
    simpa using hlock j hj
  · simp [Function.update_of_ne hother]

theorem enter_step (hs : s.Sound) (hopen : s.closed = false) (ht : t = { s with entered := i :: s.entered }) :
    t.Sound ∧ Abides i s t := by
  have hended : s.Ended → t.Ended := fun h => absurd h.1 (by simp [hopen])
  subst ht
  refine ⟨Parked.sound rfl hs hended hs.counted, fun j hj => ?_, Parked.transfer rfl, fun _ => .inl (.refl _), le_rfl⟩
  exact Parked.spares rfl (fun _ => rfl) (fun _ h => h) (fun _ _ => le_rfl) (by simp [hj]) id hended
    (fun _ h => h) id

theorem leave_step (hs : s.Sound) (ht : t = { s with entered := s.entered.erase i }) :
    t.Sound ∧ Abides i s t := by
  have hended : s.Ended → t.Ended := fun h => by
    subst ht
    exact ⟨h.1, by simp [h.2]⟩
  subst ht
  refine ⟨Parked.sound rfl hs hended hs.counted, fun j hj => ?_, Parked.transfer rfl, fun _ => .inl (.refl _), le_rfl⟩
  exact Parked.spares rfl (fun _ => rfl) (fun _ h => h) (fun _ _ => le_rfl) (List.mem_erase_of_ne hj) id hended
    (fun _ h => h) id

/-- A timer runs out, the servers close, or the drains are told not to wait. -/
theorem stage_step {timers : List (Nat × DrainTimer)} {drainShutdown closed : Bool} (hs : s.Sound)
    (htimers : ∀ timer ∈ s.timers, timer ∈ timers) (hshutdown : s.drainShutdown = true → drainShutdown = true)
    (hclosed : s.closed = true → closed = true)
    (ht : t = { s with timers := timers, drainShutdown := drainShutdown, closed := closed }) :
    t.Sound ∧ Conducts i s t ∧ Spares i s t := by
  have hended : s.Ended → t.Ended := fun h => by
    subst ht
    exact ⟨hclosed h.1, h.2⟩
  have hspares : ∀ j, Spares j s t := fun j => by
    subst ht
    exact Parked.spares rfl (fun _ => rfl) (fun _ h => h) (fun _ _ => le_rfl) .rfl hclosed hended htimers hshutdown
  subst ht
  exact ⟨Parked.sound rfl hs hended hs.counted,
    ⟨⟨fun j _ => hspares j, Parked.transfer rfl, fun _ => .inl (.refl _), le_rfl⟩, rfl⟩, hspares i⟩

/-! ### Connections -/

theorem Fleet.Sound.not_draining (hs : s.Sound) {cls : String} {id : Nat} {owner : Option Nat}
    (hpath : s.path cls = some id) :
    s.planes id ≠ some (.draining owner) := by
  intro hown
  rcases hs.routed cls id hpath with h | ⟨j, h⟩ | ⟨h, _⟩ <;> simp [hown] at h

theorem lease_step {cls : String} {id : Nat} (hs : s.Sound) (hpath : s.path cls = some id) (hentered : i ∈ s.entered)
    (ht : t = { s with
      connections := Function.update s.connections id (s.connections id + 1)
      leases := (i, id) :: s.leases }) :
    t.Sound ∧ Conducts i s t ∧ Spares i s t := by
  have hcounted : ∀ other, t.connections other = t.leases.countP fun lease => lease.2 = other := by
    intro other
    subst ht
    by_cases hother : other = id
    · subst hother
      simp [hs.counted]
    · simp [Function.update_of_ne hother, hs.counted, Ne.symm hother]
  have hspares : ∀ j, Spares j s t := fun j => by
    subst ht
    refine Parked.spares rfl (fun _ => rfl) (fun _ h => List.mem_cons_of_mem _ h) (fun other hown => ?_) .rfl
      (fun h => h) (fun h => h) (fun _ h => h) (fun h => h)
    have hother : other ≠ id := by
      rintro rfl
      exact hs.not_draining hpath hown
    simp [Function.update_of_ne hother]
  subst ht
  refine ⟨Parked.sound rfl hs (fun h => h) hcounted,
    ⟨⟨fun j _ => hspares j, Parked.transfer rfl, fun other => ?_, le_rfl⟩, rfl⟩, hspares i⟩
  by_cases hother : other = id
  · subst hother
    refine .inr ⟨⟨cls, hpath⟩, fun hended => ?_⟩
    simp [hended.2] at hentered
  · exact .inl (by simp [Fleet.leased, Ne.symm hother])

theorem unlease_step {id : Nat} (hs : s.Sound) (hlease : (i, id) ∈ s.leases)
    (ht : t = { s with
      connections := Function.update s.connections id (s.connections id - 1)
      leases := s.leases.erase (i, id) }) :
    t.Sound ∧ Conducts i s t := by
  have hcounted : ∀ other, t.connections other = t.leases.countP fun lease => lease.2 = other := by
    intro other
    have hcount := (List.perm_cons_erase hlease).countP_eq fun lease => lease.2 = other
    rw [← hs.counted other] at hcount
    subst ht
    by_cases hother : other = id
    · subst hother
      simp [hcount]
    · simp [Function.update_of_ne hother, hcount, Ne.symm hother]
  have hless : ∀ other, t.connections other ≤ s.connections other := by
    intro other
    subst ht
    by_cases hother : other = id
    · subst hother
      simp
    · simp [Function.update_of_ne hother]
  subst ht
  refine ⟨Parked.sound rfl hs (fun h => h) hcounted,
    ⟨fun j hj => ?_, Parked.transfer rfl, fun _ => .inl (List.erase_sublist.filter _), le_rfl⟩, rfl⟩
  refine Parked.spares rfl (fun _ => rfl) (fun other h => ?_) (fun other _ => hless other) .rfl (fun h => h) (fun h => h)
    (fun _ h => h) (fun h => h)
  exact (List.mem_erase_of_ne (by simp [hj])).mpr h

end

/-! ### Steps that move planes -/

section

variable {i id : Nat} {owner : Option Owner} {s t : Fleet}

theorem planes_update_ne {planes : Nat → Option Owner} {other : Nat} {was : Owner} (h : planes other = some was)
    (hid : planes id ≠ some was) : Function.update planes id owner other = some was := by
  have hother : other ≠ id := by
    rintro rfl
    exact hid h
  rw [Function.update_of_ne hother, h]

theorem of_planes_update {planes : Nat → Option Owner} {other : Nat} {now : Owner}
    (h : Function.update planes id owner other = some now)
    (howner : owner ≠ some now) : planes other = some now := by
  by_cases hother : other = id
  · subst hother
    rw [Function.update_self] at h
    exact absurd h howner
  · rwa [Function.update_of_ne hother] at h

/-- A plane that no class is active on gets another owner, which is no class either. -/
structure Reowned (id : Nat) (owner : Option Owner) (s t : Fleet) : Prop where
  same : t = { s with planes := Function.update s.planes id owner, next := t.next, drains := t.drains }
  before : ∀ cls, s.planes id ≠ some (.active cls)
  after : ∀ cls, owner ≠ some (.active cls)
  next : s.next ≤ t.next ∧ id < t.next
  routed : s.Unrouted id ∨ (∃ j, owner = some (.task j)) ∨ owner = none ∧ s.Ended

theorem Reowned.sound (h : Reowned id owner s t) (hs : s.Sound)
    (hqueued : ∀ path ∈ t.drains, t.planes path.handle.id = some (.draining none) ∧ path.pathConnections = path.handle.id)
    (hdrain : ∀ other, t.planes other = some (.draining none) → ∃ path ∈ t.drains, path.handle.id = other)
    (honce : (t.drains.map (·.handle.id)).Nodup) : t.Sound := by
  have hnext := h.next
  rw [h.same] at hqueued hdrain honce hnext ⊢
  refine ⟨fun cls path hactive => ?_, fun cls other hown => ?_, hqueued, hdrain, honce, fun other hle => ?_,
    fun cls other hpath => ?_, hs.counted⟩
  · exact ⟨planes_update_ne (hs.active cls path hactive).1 (h.before cls), (hs.active cls path hactive).2⟩
  · exact hs.slot cls other (of_planes_update hown (h.after cls))
  · have hfresh := hs.fresh other (hnext.1.trans hle)
    have hother : other ≠ id := by
      rintro rfl
      exact absurd hnext.2 (Nat.not_lt.mpr hle)
    exact ⟨(Function.update_of_ne hother _ _).trans hfresh.1, hfresh.2⟩
  · by_cases hother : other = id
    · subst hother
      rcases h.routed with hnone | ⟨j, rfl⟩ | ⟨rfl, hended⟩
      · exact absurd hpath (hnone cls)
      · exact .inr (.inl ⟨j, Function.update_self _ _ _⟩)
      · exact .inr (.inr ⟨Function.update_self _ _ _, hended⟩)
    · simp only [Function.update_of_ne hother]
      exact hs.routed cls other hpath

theorem Reowned.sound_same (h : Reowned id owner s t) (hs : s.Sound) (hdrains : t.drains = s.drains)
    (hbefore : s.planes id ≠ some (.draining none)) (hafter : owner ≠ some (.draining none)) : t.Sound := by
  refine h.sound hs (fun path hmem => ?_) (fun other hown => ?_) (hdrains ▸ hs.once)
  · rw [hdrains] at hmem
    rw [h.same]
    exact ⟨planes_update_ne (hs.queued path hmem).1 hbefore, (hs.queued path hmem).2⟩
  · rw [h.same] at hown
    rw [hdrains]
    exact hs.drain other (of_planes_update hown hafter)

theorem Reowned.conducts (h : Reowned id owner s t)
    (htask : ∀ j, j ≠ i → s.planes id ≠ some (.task j) ∧ owner ≠ some (.task j))
    (hdrain : ∀ j, j ≠ i → s.planes id ≠ some (.draining (some j)) ∧ owner ≠ some (.draining (some j)))
    (htransfer : Transfer i id s t) : Conducts i s t := by
  refine ⟨⟨fun j hj => ?_, fun other => ?_, fun other => .inl (by rw [h.same]; exact .refl _), h.next.1⟩, by rw [h.same]⟩
  · rw [h.same]
    exact {
      owed := fun other => ⟨fun hown => of_planes_update hown (htask j hj).2,
        fun hown => planes_update_ne hown (htask j hj).1⟩
      drains := fun other => ⟨fun hown => of_planes_update hown (hdrain j hj).2,
        fun hown => planes_update_ne hown (hdrain j hj).1⟩
      unrouted := fun _ _ _ hpath => hpath
      hold := fun _ => rfl
      active := fun _ _ => rfl
      leases := fun _ hmem => hmem
      connections := fun _ _ => le_rfl
      entered := .rfl
      closed := fun hs => hs
      ended := fun hs => hs
      timers := fun _ hmem => hmem
      shutdown := fun hs => hs }
  · by_cases hother : other = id
    · exact hother ▸ htransfer
    · have hsame : t.planes = Function.update s.planes id owner := by rw [h.same]
      exact .kept (by rw [hsame, Function.update_of_ne hother])

theorem start_step (hs : s.Sound)
    (ht : t = { s with planes := Function.update s.planes s.next (some (.task i)), next := s.next + 1 }) :
    t.Sound ∧ Conducts i s t := by
  have hnone := (hs.fresh s.next le_rfl).1
  have hre : Reowned s.next (some (.task i)) s t := by
    subst ht
    exact ⟨rfl, by simp [hnone], by simp, ⟨Nat.le_succ _, Nat.lt_succ_self _⟩, .inr (.inl ⟨i, rfl⟩)⟩
  refine ⟨hre.sound_same hs (by rw [ht]) (by simp [hnone]) (by simp), hre.conducts ?_ ?_ ?_⟩
  · exact fun j hj => ⟨by simp [hnone], by simp [Ne.symm hj]⟩
  · exact fun j hj => ⟨by simp [hnone], by simp⟩
  · exact .started hnone (by simp [ht]) le_rfl

/-- A thread stops a plane of its own that no route names, or after every task has ended. -/
theorem stop_step (hs : s.Sound) (hown : s.planes id = some (.task i)) (hrouted : s.Unrouted id ∨ s.Ended)
    (ht : t = { s with planes := Function.update s.planes id none }) : t.Sound ∧ Conducts i s t := by
  have hlt : id < s.next := by
    by_contra hle
    simp [(hs.fresh id (Nat.not_lt.mp hle)).1] at hown
  have hre : Reowned id none s t := by
    subst ht
    exact ⟨rfl, by simp [hown], by simp, ⟨le_rfl, hlt⟩, hrouted.imp_right fun h => .inr ⟨rfl, h⟩⟩
  refine ⟨hre.sound_same hs (by rw [ht]) (by simp [hown]) (by simp), hre.conducts ?_ ?_ ?_⟩
  · exact fun j hj => ⟨by simp [hown, Ne.symm hj], by simp⟩
  · exact fun j hj => ⟨by simp [hown], by simp⟩
  · exact .discarded hown (by simp [ht])

theorem queue_step {old : ActiveNode} (hs : s.Sound) (hown : s.planes old.handle.id = some (.task i))
    (hrouted : s.Unrouted old.handle.id) (hpath : old.pathConnections = old.handle.id)
    (ht : t = { s with
      planes := Function.update s.planes old.handle.id (some (.draining none)), drains := s.drains ++ [old] }) :
    t.Sound ∧ Conducts i s t := by
  have hlt : old.handle.id < s.next := by
    by_contra hle
    simp [(hs.fresh _ (Nat.not_lt.mp hle)).1] at hown
  have hre : Reowned old.handle.id (some (.draining none)) s t := by
    subst ht
    exact ⟨rfl, by simp [hown], by simp, ⟨le_rfl, hlt⟩, .inl hrouted⟩
  have hne : ∀ path ∈ s.drains, path.handle.id ≠ old.handle.id := by
    intro path hmem heq
    have hqueued := (hs.queued path hmem).1
    simp [heq, hown] at hqueued
  refine ⟨hre.sound hs (fun path hmem => ?_) (fun other hother => ?_) ?_, hre.conducts ?_ ?_ ?_⟩
  · subst ht
    rcases List.mem_append.mp hmem with hmem | hmem
    · exact ⟨(Function.update_of_ne (hne path hmem) _ _).trans (hs.queued path hmem).1, (hs.queued path hmem).2⟩
    · cases List.mem_singleton.mp hmem
      exact ⟨Function.update_self _ _ _, hpath⟩
  · subst ht
    by_cases hid : other = old.handle.id
    · exact ⟨old, by simp, hid.symm⟩
    · obtain ⟨path, hmem, hpath⟩ := hs.drain other ((Function.update_of_ne hid _ _).symm.trans hother)
      exact ⟨path, by simp [hmem], hpath⟩
  · subst ht
    rw [List.map_append, List.nodup_append]
    refine ⟨hs.once, by simp, fun a ha b hb => ?_⟩
    obtain ⟨path, hmem, rfl⟩ := List.mem_map.mp ha
    cases List.mem_singleton.mp hb
    exact hne path hmem
  · exact fun j hj => ⟨by simp [hown, Ne.symm hj], by simp⟩
  · exact fun j hj => ⟨by simp [hown], by simp⟩
  · exact .queued hown (by simp [ht])

theorem take_step {old : ActiveNode} {before after : List ActiveNode} (hs : s.Sound)
    (hdrains : s.drains = before ++ old :: after)
    (ht : t = { s with
      planes := Function.update s.planes old.handle.id (some (.draining (some i))), drains := before ++ after }) :
    t.Sound ∧ Conducts i s t := by
  have hown := (hs.queued old (by simp [hdrains])).1
  have hlt : old.handle.id < s.next := by
    by_contra hle
    simp [(hs.fresh _ (Nat.not_lt.mp hle)).1] at hown
  have hre : Reowned old.handle.id (some (.draining (some i))) s t := by
    subst ht
    exact ⟨rfl, by simp [hown], by simp, ⟨le_rfl, hlt⟩, .inl fun cls hpath => hs.not_draining hpath hown⟩
  have honce := hs.once
  rw [hdrains, List.map_append, List.map_cons, List.nodup_middle, List.nodup_cons] at honce
  have hne : ∀ path ∈ before ++ after, path.handle.id ≠ old.handle.id := by
    intro path hmem heq
    refine honce.1 ?_
    rw [← heq, ← List.map_append]
    exact List.mem_map_of_mem hmem
  refine ⟨hre.sound hs (fun path hmem => ?_) (fun other hother => ?_) ?_, hre.conducts ?_ ?_ ?_⟩
  · subst ht
    have hqueued := hs.queued path (by rw [hdrains]; simp at hmem ⊢; tauto)
    exact ⟨(Function.update_of_ne (hne path hmem) _ _).trans hqueued.1, hqueued.2⟩
  · subst ht
    by_cases hid : other = old.handle.id
    · subst hid
      simp at hother
    · obtain ⟨path, hmem, rfl⟩ := hs.drain other ((Function.update_of_ne hid _ _).symm.trans hother)
      refine ⟨path, ?_, rfl⟩
      rw [hdrains] at hmem
      rcases List.mem_append.mp hmem with hmem | hmem
      · exact List.mem_append_left _ hmem
      · rcases List.mem_cons.mp hmem with rfl | hmem
        · exact absurd rfl hid
        · exact List.mem_append_right _ hmem
  · subst ht
    rw [List.map_append]
    exact honce.2
  · exact fun j hj => ⟨by simp [hown], by simp⟩
  · exact fun j hj => ⟨by simp [hown], by simp [Ne.symm hj]⟩
  · exact .taken hown (by simp [ht])

theorem drain_step (hs : s.Sound) (hown : s.planes id = some (.draining (some i))) (hdue : s.Due id)
    (ht : t = { s with planes := Function.update s.planes id none }) : t.Sound ∧ Conducts i s t := by
  have hlt : id < s.next := by
    by_contra hle
    simp [(hs.fresh id (Nat.not_lt.mp hle)).1] at hown
  have hre : Reowned id none s t := by
    subst ht
    exact ⟨rfl, by simp [hown], by simp, ⟨le_rfl, hlt⟩, .inl fun cls hpath => hs.not_draining hpath hown⟩
  refine ⟨hre.sound_same hs (by rw [ht]) (by simp [hown]) (by simp), hre.conducts ?_ ?_ ?_⟩
  · exact fun j hj => ⟨by simp [hown], by simp⟩
  · exact fun j hj => ⟨by simp [hown, Ne.symm hj], by simp⟩
  · exact .drained hown (by simp [ht]) hdue

end

/-! ### Steps that change a class's path -/

/-- Thread `i` gives a class another path, or none at teardown, and gets the plane of the old one. -/
structure Repathed (i : Nat) (cls : String) (new : Option ActiveNode) (s t : Fleet) : Prop where
  same : t = { s with active := Function.update s.active cls new, planes := t.planes }
  lock : (s.locks cls).hold i = .write
  gains : ∀ path, new = some path → s.planes path.handle.id = some (.task i) ∧ s.Unrouted path.handle.id ∧
    path.pathConnections = path.handle.id ∧ t.planes path.handle.id = some (.active cls)
  gives : ∀ path, s.active cls = some path → t.planes path.handle.id = some (.task i)
  others : ∀ id, (∀ path, new = some path → path.handle.id ≠ id) →
    (∀ path, s.active cls = some path → path.handle.id ≠ id) →
    t.planes id = s.planes id
  ended : new = none → i = 0 ∧ s.Ended

section

variable {i : Nat} {cls : String} {new : Option ActiveNode} {s t : Fleet}

/-- A plane is that of the new path, that of the old one, or another. -/
theorem Repathed.cases (h : Repathed i cls new s t) (hs : s.Sound) (id : Nat) :
    (∃ path, new = some path ∧ path.handle.id = id ∧ s.planes id = some (.task i) ∧ t.planes id = some (.active cls)) ∨
    (s.planes id = some (.active cls) ∧ t.planes id = some (.task i)) ∨
    t.planes id = s.planes id ∧ s.planes id ≠ some (.active cls) := by
  by_cases hnew : ∃ path, new = some path ∧ path.handle.id = id
  · obtain ⟨path, hpath, rfl⟩ := hnew
    obtain ⟨hown, _, _, hafter⟩ := h.gains path hpath
    exact .inl ⟨path, hpath, rfl, hown, hafter⟩
  · by_cases hold : s.planes id = some (.active cls)
    · obtain ⟨path, hpath, rfl⟩ := hs.slot cls id hold
      exact .inr (.inl ⟨hold, h.gives path hpath⟩)
    · refine .inr (.inr ⟨h.others id (fun path hpath heq => hnew ⟨path, hpath, heq⟩) fun path hpath heq => hold ?_, hold⟩)
      exact heq ▸ (hs.active cls path hpath).1

theorem Repathed.owner_iff (h : Repathed i cls new s t) (hs : s.Sound) {id : Nat} {owner : Owner}
    (htask : owner ≠ .task i) (hactive : owner ≠ .active cls) : t.planes id = some owner ↔ s.planes id = some owner := by
  rcases h.cases hs id with ⟨_, _, _, hbefore, hafter⟩ | ⟨hbefore, hafter⟩ | ⟨hsame, _⟩
  · simp [hbefore, hafter, Ne.symm htask, Ne.symm hactive]
  · simp [hbefore, hafter, Ne.symm htask, Ne.symm hactive]
  · rw [hsame]

theorem Repathed.active (h : Repathed i cls new s t) : t.active = Function.update s.active cls new := by
  rw [h.same]

theorem Repathed.sound (h : Repathed i cls new s t) (hs : s.Sound) : t.Sound := by
  have hpath : t.path = s.path := by rw [h.same]
  have hdrains : t.drains = s.drains := by rw [h.same]
  refine ⟨fun other path hactive => ?_, fun other id hown => ?_, fun path hmem => ?_, fun id hown => ?_, ?_,
    fun id hle => ?_, fun other id hrouted => ?_, ?_⟩
  · rw [h.active] at hactive
    by_cases hcls : other = cls
    · subst hcls
      rw [Function.update_self] at hactive
      obtain ⟨_, _, hconnections, hafter⟩ := h.gains path hactive
      exact ⟨hafter, hconnections⟩
    · rw [Function.update_of_ne hcls] at hactive
      obtain ⟨hown, hconnections⟩ := hs.active other path hactive
      exact ⟨(h.owner_iff hs (by simp) (by simp [hcls])).mpr hown, hconnections⟩
  · rw [h.active]
    by_cases hcls : other = cls
    · subst hcls
      rw [Function.update_self]
      rcases h.cases hs id with ⟨path, hpath, hid, _⟩ | ⟨_, hafter⟩ | ⟨hsame, hnot⟩
      · exact ⟨path, hpath, hid⟩
      · simp [hafter] at hown
      · exact absurd (hsame.symm.trans hown) hnot
    · rw [Function.update_of_ne hcls]
      exact hs.slot other id ((h.owner_iff hs (by simp) (by simp [hcls])).mp hown)
  · rw [hdrains] at hmem
    obtain ⟨hown, hconnections⟩ := hs.queued path hmem
    exact ⟨(h.owner_iff hs (by simp) (by simp)).mpr hown, hconnections⟩
  · rw [hdrains]
    exact hs.drain id ((h.owner_iff hs (by simp) (by simp)).mp hown)
  · rw [hdrains]
    exact hs.once
  · have hfresh := hs.fresh id (by rw [h.same] at hle; exact hle)
    refine ⟨?_, fun other => by rw [hpath]; exact hfresh.2 other⟩
    rcases h.cases hs id with ⟨_, _, _, hbefore, _⟩ | ⟨hbefore, _⟩ | ⟨hsame, _⟩
    · simp [hfresh.1] at hbefore
    · simp [hfresh.1] at hbefore
    · rw [hsame, hfresh.1]
  · rw [hpath] at hrouted
    rcases h.cases hs id with ⟨path, hnew, rfl, _⟩ | ⟨_, hafter⟩ | ⟨hsame, _⟩
    · exact absurd hrouted ((h.gains path hnew).2.1 other)
    · exact .inr (.inl ⟨i, hafter⟩)
    · rw [hsame]
      refine (hs.routed other id hrouted).imp_right (Or.imp_right fun ⟨hnone, hended⟩ => ⟨hnone, ?_⟩)
      rw [h.same]
      exact hended
  · rw [h.same]
    exact hs.counted

theorem Repathed.conducts (h : Repathed i cls new s t) (hs : s.Sound) : Conducts i s t := by
  refine ⟨⟨fun j hj => ?_, fun id => ?_, fun id => .inl (by rw [h.same]; exact .refl _), by rw [h.same]⟩, by rw [h.same]⟩
  · have howed : ∀ id, t.planes id = some (.task j) ↔ s.planes id = some (.task j) := fun id =>
      h.owner_iff hs (by simp [hj]) (by simp)
    have hdrains : ∀ id, t.planes id = some (.draining (some j)) ↔ s.planes id = some (.draining (some j)) :=
      fun id => h.owner_iff hs (by simp) (by simp)
    have hactive : ∀ other, (s.locks other).hold j = .write → t.active other = s.active other := by
      intro other hhold
      rw [h.active]
      refine Function.update_of_ne ?_ _ _
      rintro rfl
      exact hj (Lock.write_unique hhold h.lock)
    rw [h.same] at howed hdrains hactive ⊢
    exact ⟨howed, hdrains, fun _ _ _ hpath => hpath, fun _ => rfl, hactive, fun _ hmem => hmem, fun _ _ => le_rfl,
      .rfl, fun hs => hs, fun hs => hs, fun _ hmem => hmem, fun hs => hs⟩
  · rcases h.cases hs id with ⟨_, _, _, hbefore, hafter⟩ | ⟨hbefore, hafter⟩ | ⟨hsame, _⟩
    · exact .installed cls hbefore hafter h.lock
    · cases new with
      | none => exact .retired cls hbefore hafter h.lock (h.ended rfl).1 (h.ended rfl).2
      | some path =>
          refine .replaced cls hbefore hafter h.lock ⟨path, by simp [h.active], ?_⟩
          rintro rfl
          simp [(h.gains path rfl).1] at hbefore
    · exact .kept hsame

theorem repathed_swap {path : ActiveNode} (hs : s.Sound) (hlock : (s.locks cls).hold i = .write)
    (hown : s.planes path.handle.id = some (.task i)) (hunrouted : s.Unrouted path.handle.id)
    (hpath : path.pathConnections = path.handle.id)
    (ht : t = { s with
      active := Function.update s.active cls (some path), planes := swapPlanes i cls path (s.active cls) s.planes }) :
    Repathed i cls (some path) s t := by
  subst ht
  refine ⟨rfl, hlock, fun other hother => ?_, fun old hold => ?_, fun id hnew hold => ?_, fun h => by cases h⟩
  · cases hother
    exact ⟨hown, hunrouted, hpath, Function.update_self _ _ _⟩
  · have hne : old.handle.id ≠ path.handle.id := by
      intro heq
      simp [← heq, (hs.active cls old hold).1] at hown
    simp [swapPlanes, hold, Function.update_of_ne hne]
  · have hne : id ≠ path.handle.id := Ne.symm (hnew path rfl)
    cases hactive : s.active cls with
    | none => simp [swapPlanes, Function.update_of_ne hne]
    | some old => simp [swapPlanes, Function.update_of_ne hne, Function.update_of_ne (Ne.symm (hold old hactive))]

theorem repathed_take {old : ActiveNode} (hlock : (s.locks cls).hold i = .write) (hteardown : i = 0) (hended : s.Ended)
    (hactive : s.active cls = some old)
    (ht : t = { s with
      active := Function.update s.active cls none
      planes := Function.update s.planes old.handle.id (some (.task i)) }) : Repathed i cls none s t := by
  subst ht
  refine ⟨rfl, hlock, fun _ h => (by cases h), fun path hpath => ?_, fun id _ hold => ?_, fun _ => ⟨hteardown, hended⟩⟩
  · cases hactive.symm.trans hpath
    exact Function.update_self _ _ _
  · exact Function.update_of_ne (Ne.symm (hold old hactive)) _ _

theorem route_step {path : ActiveNode} (hs : s.Sound) (hactive : s.active cls = some path)
    (ht : t = { s with path := Function.update s.path cls (some path.handle.id) }) : t.Sound ∧ Conducts i s t := by
  have hown := (hs.active cls path hactive).1
  have hpath : ∀ other id, t.path other = some id → s.path other = some id ∨ other = cls ∧ id = path.handle.id := by
    intro other id hrouted
    rw [ht] at hrouted
    by_cases hcls : other = cls
    · subst hcls
      exact .inr ⟨rfl, Option.some.inj (hrouted.symm.trans (Function.update_self _ _ _))⟩
    · exact .inl ((Function.update_of_ne hcls _ _).symm.trans hrouted)
  have hfresh : ∀ id, s.next ≤ id → t.Unrouted id := by
    intro id hle other hrouted
    obtain ⟨hnone, hunrouted⟩ := hs.fresh id hle
    rcases hpath other id hrouted with h | ⟨_, rfl⟩
    · exact hunrouted other h
    · simp [hnone] at hown
  have hrouted : ∀ other id, t.path other = some id →
      s.planes id = some (.active other) ∨ (∃ j, s.planes id = some (.task j)) ∨ s.planes id = none ∧ s.Ended := by
    intro other id hrouted
    rcases hpath other id hrouted with h | ⟨rfl, rfl⟩
    · exact hs.routed other id h
    · exact .inl hown
  have hspares : ∀ j id other, s.planes id = some (.task j) → t.path other = some id → s.path other = some id := by
    intro j id other htask hrouted
    rcases hpath other id hrouted with h | ⟨_, rfl⟩
    · exact h
    · simp [hown] at htask
  subst ht
  refine ⟨⟨hs.active, hs.slot, hs.queued, hs.drain, hs.once, fun id hle => ⟨(hs.fresh id hle).1, hfresh id hle⟩,
    hrouted, hs.counted⟩, ⟨fun j hj => ?_, fun id => .kept rfl, fun _ => .inl (.refl _), le_rfl⟩, rfl⟩
  exact ⟨fun _ => .rfl, fun _ => .rfl, hspares j, fun _ => rfl, fun _ _ => rfl, fun _ hmem => hmem, fun _ _ => le_rfl,
    .rfl, fun hs => hs, fun hs => hs, fun _ hmem => hmem, fun hs => hs⟩

theorem Conducts.then_route {mid : Fleet} (h : Conducts i s mid) (g : Conducts i mid t) (hplanes : t.planes = mid.planes)
    (hactive : t.active = mid.active) (hleases : t.leases = mid.leases) : Conducts i s t := by
  have hleased : ∀ id, t.leased id = mid.leased id := fun id => by rw [Fleet.leased, hleases, Fleet.leased]
  refine ⟨⟨fun j hj => (h.others j hj).trans (g.others j hj), fun id => ?_, fun id => hleased id ▸ h.leased id,
    h.next.trans g.next⟩, g.entered.trans h.entered⟩
  have htransfer := h.transfer id
  have hmid : mid.planes id = t.planes id := by rw [hplanes]
  cases htransfer with
  | kept same => exact .kept (hmid ▸ same)
  | started before after fresh => exact .started before (hmid ▸ after) fresh
  | installed cls before after locked => exact .installed cls before (hmid ▸ after) locked
  | replaced cls before after locked successor => exact .replaced cls before (hmid ▸ after) locked (hactive ▸ successor)
  | retired cls before after locked teardown ended => exact .retired cls before (hmid ▸ after) locked teardown ended
  | queued before after => exact .queued before (hmid ▸ after)
  | taken before after => exact .taken before (hmid ▸ after)
  | discarded before after => exact .discarded before (hmid ▸ after)
  | drained before after due => exact .drained before (hmid ▸ after) due

end

end Causeway

import Causeway.Proof.Fleet

/-!
# Operations give back what they take

An operation may own planes while it runs. `Kept` says which ones it owns at some moment, and that everything else is as it was when it began; an operation that returns with what it began with can be put anywhere. What remains is the hand-over itself: a plane that an operation has started becomes a class's path, joins the drains, or is stopped.
-/

namespace Causeway

open Concurrent Prog

/-- What thread `i` has besides planes of its own is as it was. -/
structure Aside (i : Nat) (base c : Fleet) : Prop where
  drains : ∀ id, c.planes id = some (.draining (some i)) ↔ base.planes id = some (.draining (some i))
  hold : ∀ cls, (c.locks cls).hold i = (base.locks cls).hold i
  entered : i ∈ c.entered ↔ i ∈ base.entered
  ended : base.Ended → c.Ended

/-- The planes that thread `i` owns are these, and the rest is as it was. -/
structure Owes (i : Nat) (mine : List Nat) (base c : Fleet) : Prop extends Aside i base c where
  owed : ∀ id, c.planes id = some (.task i) ↔ id ∈ mine
  once : mine.Nodup

/-- And no route names them. -/
structure Kept (i : Nat) (mine : List Nat) (base c : Fleet) : Prop extends Owes i mine base c where
  unrouted : ∀ id ∈ mine, c.Unrouted id

/-- Thread `i` runs the program and keeps the accounts. -/
def Keeps (i : Nat) {α : Type} (post : α → Fleet → Prop) (p : Sup α) (w : World) : Prop :=
  service.Safe i (fun a u => post a u.fleet) p w

/-- A step that does not touch the accounts. -/
def Still (s t : World) : Prop := t.fleet = s.fleet

instance : Std.Refl Still := ⟨fun _ => rfl⟩

theorem Minor.still {s t : World} (h : Minor s t) : Still s t := by
  have hlocks : (fun cls => t.locks (.cls cls)) = fun cls => s.locks (.cls cls) := funext h.locks
  have hactive : (fun cls => (t.runtime cls).active) = fun cls => (s.runtime cls).active := funext h.active
  rw [Still, World.fleet, hlocks, hactive, h.same]
  rfl

section

variable {i : Nat} {mine : List Nat} {base s t : Fleet}

theorem Aside.spared (h : Aside i base s) (hst : Spares i s t) : Aside i base t where
  drains id := (hst.drains id).trans (h.drains id)
  hold cls := (hst.hold cls).trans (h.hold cls)
  entered := hst.entered.trans h.entered
  ended hs := hst.ended (h.ended hs)

theorem Aside.moved (h : Aside i base s)
    (ht : t = { s with active := t.active, path := t.path, planes := t.planes, next := t.next, drains := t.drains })
    (hdrains : ∀ id, t.planes id = some (.draining (some i)) ↔ s.planes id = some (.draining (some i))) :
    Aside i base t := by
  rw [ht] at hdrains ⊢
  exact ⟨fun id => (hdrains id).trans (h.drains id), h.hold, h.entered, h.ended⟩

theorem Owes.spared (h : Owes i mine base s) (hst : Spares i s t) : Owes i mine base t where
  toAside := h.toAside.spared hst
  owed id := (hst.owed id).trans (h.owed id)
  once := h.once

theorem Kept.spared (h : Kept i mine base s) (hst : Spares i s t) : Kept i mine base t where
  toOwes := h.toOwes.spared hst
  unrouted id hid cls hpath := h.unrouted id hid cls (hst.unrouted id cls ((h.owed id).mpr hid) hpath)

theorem Kept.perm {others : List Nat} (h : Kept i mine base s) (hperm : List.Perm mine others) :
    Kept i others base s :=
  ⟨⟨h.toAside, fun id => (h.owed id).trans hperm.mem_iff, hperm.nodup_iff.mp h.once⟩,
    fun id hid => h.unrouted id (hperm.mem_iff.mpr hid)⟩

/-- The locks that thread `i` holds are others than at the beginning. -/
theorem Kept.relock {locks : String → Lock} (h : Kept i mine base s)
    (hhold : ∀ cls, (s.locks cls).hold i = (locks cls).hold i) : Kept i mine { base with locks := locks } s :=
  ⟨⟨⟨h.drains, hhold, h.entered, h.ended⟩, h.owed, h.once⟩, h.unrouted⟩

theorem Kept.started (h : Kept i mine base s) (hs : s.Sound)
    (ht : t = { s with planes := Function.update s.planes s.next (some (.task i)), next := s.next + 1 }) :
    Kept i (s.next :: mine) base t := by
  obtain ⟨hnone, hunrouted⟩ := hs.fresh s.next le_rfl
  have hnew : s.next ∉ mine := fun hmem => by simp [(h.owed s.next).mpr hmem] at hnone
  have hdrains : ∀ id, t.planes id = some (.draining (some i)) ↔ s.planes id = some (.draining (some i)) := by
    intro id
    by_cases hid : id = s.next
    · simp [ht, hid, hnone]
    · simp [ht, Function.update_of_ne hid]
  refine ⟨⟨h.toAside.moved (by rw [ht]) hdrains, fun id => ?_, List.nodup_cons.mpr ⟨hnew, h.once⟩⟩, fun id hid => ?_⟩
  · by_cases hid : id = s.next
    · simp [ht, hid]
    · simp [ht, hid, h.owed]
  · rw [ht]
    rcases List.mem_cons.mp hid with rfl | hid
    · exact hunrouted
    · exact h.unrouted id hid

theorem Owes.gave {id : Nat} {owner : Option Owner} (h : Owes i (id :: mine) base s) (howner : owner ≠ some (.task i))
    (hdraining : owner ≠ some (.draining (some i)))
    (ht : t = { s with planes := Function.update s.planes id owner, drains := t.drains }) : Owes i mine base t := by
  obtain ⟨hnew, hnodup⟩ := List.nodup_cons.mp h.once
  have hown := (h.owed id).mpr (List.mem_cons_self)
  have hplanes : t.planes = Function.update s.planes id owner := by rw [ht]
  have hdrains : ∀ other, t.planes other = some (.draining (some i)) ↔ s.planes other = some (.draining (some i)) := by
    intro other
    by_cases hother : other = id
    · simp [hplanes, hother, hown, hdraining]
    · simp [hplanes, Function.update_of_ne hother]
  refine ⟨h.toAside.moved (by rw [ht]) hdrains, fun other => ?_, hnodup⟩
  by_cases hother : other = id
  · simp [hplanes, hother, howner, hnew]
  · simp [hplanes, h.owed, hother]

theorem Kept.gave {id : Nat} {owner : Option Owner} (h : Kept i (id :: mine) base s) (howner : owner ≠ some (.task i))
    (hdraining : owner ≠ some (.draining (some i)))
    (ht : t = { s with planes := Function.update s.planes id owner, drains := t.drains }) : Kept i mine base t := by
  refine ⟨h.toOwes.gave howner hdraining ht, fun other hother => ?_⟩
  rw [ht]
  exact h.unrouted other (List.mem_cons_of_mem _ hother)

end

/-! ### Rules -/

section

variable {i : Nat} {α β : Type} {post : β → Fleet → Prop} {w : World}

theorem still_of_minor {p : Sup α} (h : p.Within Minor) : p.Within Still := h.mono fun _ _ => Minor.still

namespace Keeps

theorem weaken {mid post : α → Fleet → Prop} {p : Sup α} (h : Keeps i mid p w) (himp : ∀ a c, mid a c → post a c) :
    Keeps i post p w :=
  Discipline.Safe.weaken h fun a u _ => himp a u.fleet

theorem bind {mid : α → Fleet → Prop} {p : Sup α} {k : α → Sup β} (hp : Keeps i mid p w) (hw : w.fleet.Sound)
    (hk : ∀ a (u : World), u.fleet.Sound → mid a u.fleet → Keeps i post (k a) u) : Keeps i post (p >>= k) w :=
  Discipline.Safe.bind hp hw fun a u hu ha => hk a u hu ha

theorem pure {value : β} (h : ∀ c, Spares i w.fleet c → post value c) : Keeps i post (Pure.pure value) w :=
  Discipline.Safe.pure fun t _ hst => h t.fleet hst

theorem still {p : Sup α} {k : α → Sup β} (hp : p.Within Still) (hk : ∀ a, Keeps i post (k a) w) :
    Keeps i post (p >>= k) w := by
  refine Discipline.Safe.quiet_bind hp (fun t u ht htu => ?_) hk
  have hsame : u.fleet = t.fleet := htu
  show u.fleet.Sound ∧ Conducts i t.fleet u.fleet ∧ Spares i t.fleet u.fleet
  rw [hsame]
  exact ⟨ht, .refl, .refl⟩

theorem mono {p : Sup α} {mid : α → Fleet → Prop} {u : World} (h : Keeps i mid p w) (hwu : Spares i w.fleet u.fleet) :
    Keeps i mid p u :=
  Discipline.Safe.mono h hwu

theorem step {act : Outside → World → Option (α × World)} {k : α → Sup β}
    (h : ∀ o (t u : World) a, act o t = some (a, u) → t.fleet.Sound → Spares i w.fleet t.fleet →
      u.fleet.Sound ∧ Conducts i t.fleet u.fleet ∧ (u.fleet.Sound → Keeps i post (k a) u)) :
    Keeps i post (Prog.atomic act >>= k) w := by
  refine Discipline.Safe.atomic fun t ht hst o a u hact => ?_
  obtain ⟨hu, hconducts, hk⟩ := h o t u a hact ht hst
  exact ⟨hu, hconducts, hk hu⟩

end Keeps

/-- From wherever the precondition holds of the beginning, the operation ends with the planes it began with. -/
def Returns (pre : Fleet → Prop) (i : Nat) (p : Sup α) : Prop :=
  ∀ mine base (w : World), pre base → w.fleet.Sound → Kept i mine base w.fleet →
    Keeps i (fun _ c => Kept i mine base c) p w

def Anytime (_ : Fleet) : Prop := True

def Holding (i : Nat) (cls : String) (c : Fleet) : Prop := (c.locks cls).hold i = .write

/-- Shutdown waits for the thread. -/
def Alive (i : Nat) (c : Fleet) : Prop := i ∈ c.entered

namespace Returns

variable {pre : Fleet → Prop}

theorem weaken {other : Fleet → Prop} {p : Sup α} (h : Returns other i p) (himp : ∀ c, pre c → other c) :
    Returns pre i p :=
  fun mine base w hpre => h mine base w (himp base hpre)

theorem pure (value : α) : Returns pre i (Pure.pure value : Sup α) :=
  fun _ _ _ _ _ hkept => .pure fun _ hst => hkept.spared hst

theorem bind {p : Sup α} {k : α → Sup β} (hp : Returns pre i p) (hk : ∀ a, Returns pre i (k a)) :
    Returns pre i (p >>= k) :=
  fun mine base w hpre hw hkept =>
    (hp mine base w hpre hw hkept).bind hw fun a u hu hkept => hk a mine base u hpre hu hkept

theorem of_still {p : Sup α} (h : p.Within Still) : Returns pre i p := by
  intro mine base w _ _ hkept
  rw [← Prog.bind_pure p]
  exact .still h fun a => .pure fun c hst => hkept.spared hst

theorem of_minor {p : Sup α} (h : p.Within Minor) : Returns pre i p := of_still (still_of_minor h)

theorem still_bind {p : Sup α} {k : α → Sup β} (hp : p.Within Still) (hk : ∀ a, Returns pre i (k a)) :
    Returns pre i (p >>= k) :=
  (of_still hp).bind hk

theorem minor_bind {p : Sup α} {k : α → Sup β} (hp : p.Within Minor) (hk : ∀ a, Returns pre i (k a)) :
    Returns pre i (p >>= k) :=
  (of_minor hp).bind hk

end Returns

end

/-! ### Starting and stopping -/

section

variable {env : Env} {i : Nat} {α : Type} {mine : List Nat} {base : Fleet} {w : World} {post : α → Fleet → Prop}

theorem Keeps.spawn {spec : Sup.StartSpec} {k : Except String Handle → Sup α} (hkept : Kept i mine base w.fleet)
    (herror : ∀ error, Keeps i post (k (.error error)) w)
    (hok : ∀ (handle : Handle) (u : World), u.fleet.Sound → Kept i (handle.id :: mine) base u.fleet →
      Keeps i post (k (.ok handle)) u) : Keeps i post (Sup.spawnPlane i spec >>= k) w := by
  refine .step fun o t u a hact ht hst => ?_
  cases hok' : o.ok with
  | false =>
      simp only [hok'] at hact
      cases hact
      exact ⟨ht, .refl, fun _ => (herror _).mono hst⟩
  | true =>
      simp only [hok'] at hact
      cases hact
      obtain ⟨hu, hconducts⟩ := start_step (i := i) ht rfl
      exact ⟨hu, hconducts, fun hu => hok _ _ hu ((hkept.spared hst).started ht rfl)⟩

theorem Keeps.stop {id : Nat} {k : Unit → Sup α} (hkept : Kept i (id :: mine) base w.fleet)
    (hk : ∀ u : World, u.fleet.Sound → Kept i mine base u.fleet → Keeps i post (k ()) u) :
    Keeps i post (Sup.stopPlane id >>= k) w := by
  refine .step fun o t u a hact ht hst => ?_
  cases hact
  have hnow := hkept.spared hst
  obtain ⟨hu, hconducts⟩ := stop_step ht ((hnow.owed id).mpr List.mem_cons_self)
    (.inl (hnow.unrouted id List.mem_cons_self)) rfl
  exact ⟨hu, hconducts, fun hu => hk _ hu (hnow.gave (by simp) (by simp) rfl)⟩

theorem keeps_stopStaged (staged : List ActiveNode) (hw : w.fleet.Sound)
    (hkept : Kept i (staged.map (·.handle.id) ++ mine) base w.fleet) :
    Keeps i (fun _ c => Kept i mine base c) (Sup.stopStaged staged) w := by
  induction staged generalizing w with
  | nil => exact .pure fun c hst => hkept.spared hst
  | cons active staged ih => exact .stop hkept fun u hu hkept => ih hu hkept

/-- The planes that an attempt to start one has left running. -/
def startedPlane : Option (Except String Handle) → List Nat
  | some (.ok handle) => [handle.id]
  | _ => []

theorem keeps_startFused {spec : Sup.StartSpec} {fused : Bool} (hkept : Kept i mine base w.fleet) :
    Keeps i (fun r c => Kept i (startedPlane r ++ mine) base c) (Sup.startFused i spec fused) w := by
  have hdone : ∀ (r : Option (Except String Handle)) (u : World), Kept i (startedPlane r ++ mine) base u.fleet →
      Keeps i (fun r c => Kept i (startedPlane r ++ mine) base c) (pure r) u :=
    fun r u hkept => .pure fun c hst => hkept.spared hst
  refine .spawn hkept (fun error => hdone _ w hkept) fun handle u hu hkept => .still (within_fuse fused) fun elapsed => ?_
  cases elapsed with
  | true => exact .stop hkept fun v hv hkept => hdone none v hkept
  | false =>
      refine .still within_ask fun failure => ?_
      cases failure with
      | none => exact hdone (some (.ok handle)) u hkept
      | some error => exact .stop hkept fun v hv hkept => hdone _ v hkept

theorem keeps_startPlane {spec : Sup.StartSpec} (hkept : Kept i mine base w.fleet) :
    Keeps i (fun r c => Kept i (startedPlane (some r) ++ mine) base c) (Sup.startPlane i spec) w := by
  have hdone : ∀ (r : Except String Handle) (u : World), Kept i (startedPlane (some r) ++ mine) base u.fleet →
      Keeps i (fun r c => Kept i (startedPlane (some r) ++ mine) base c) (pure r) u :=
    fun r u hkept => .pure fun c hst => hkept.spared hst
  refine .spawn hkept (fun error => hdone _ w hkept) fun handle u hu hkept => .still within_ask fun failure => ?_
  cases failure with
  | none => exact hdone (.ok handle) u hkept
  | some error => exact .stop hkept fun v hv hkept => hdone _ v hkept

def Attempt.paths : Attempt → List ActiveNode
  | .activated active => [active]
  | _ => []

/-- Thread `i` also owns the planes of these paths. -/
structure Paths (i : Nat) (paths : List ActiveNode) (mine : List Nat) (base c : Fleet) : Prop where
  straight : ∀ path ∈ paths, path.pathConnections = path.handle.id
  kept : Kept i (paths.map (·.handle.id) ++ mine) base c

theorem Paths.spared {paths : List ActiveNode} {c d : Fleet} (h : Paths i paths mine base c) (hst : Spares i c d) :
    Paths i paths mine base d :=
  ⟨h.straight, h.kept.spared hst⟩

theorem Kept.paths {c : Fleet} (h : Kept i mine base c) : Paths i [] mine base c := ⟨by simp, h⟩

theorem still_observe {f : World → α × Obs} : (Sup.observe f).Within Still := within_act fun _ _ => rfl

theorem keeps_tryActivate {cls : String} {node : Node} {fused : Bool} (hw : w.fleet.Sound)
    (hkept : Kept i mine base w.fleet) :
    Keeps i (fun r c => Paths i r.paths mine base c) (Sup.tryActivate env i cls node fused) w := by
  have hnone : ∀ (r : Attempt) (u : World), r.paths = [] → Kept i mine base u.fleet →
      Keeps i (fun r c => Paths i r.paths mine base c) (pure r) u := by
    intro r u hr hkept
    refine .pure fun c hst => ?_
    rw [hr]
    exact (hkept.spared hst).paths
  refine .still within_ask fun reserved => ?_
  cases reserved with
  | error error => exact hnone _ w rfl hkept
  | ok spec =>
      refine (keeps_startFused hkept).bind hw fun r u hu hkept => ?_
      rcases r with _ | error | handle
      · exact hnone _ u rfl hkept
      · exact hnone _ u rfl hkept
      have hstop : ∀ r : Attempt, r.paths = [] →
          Keeps i (fun r c => Paths i r.paths mine base c) (Sup.stopPlane handle.id >>= fun _ => pure r) u :=
        fun r hr => .stop hkept fun v hv hkept => hnone r v hr hkept
      refine .still within_ask fun checked => .still (within_fuse fused) fun elapsed => ?_
      cases elapsed with
      | true => exact hstop .elapsed rfl
      | false =>
          rcases checked with error | ⟨code, rtt⟩
          · exact .still still_observe fun _ => hstop _ rfl
          · show Keeps i _ (if isSuccess code = true then _ else _) u
            split
            · exact .still still_observe fun _ => .pure fun c hst => ⟨by simp [Attempt.paths], hkept.spared hst⟩
            · exact .still still_observe fun _ => hstop _ rfl

theorem keeps_stageFirst {cls : String} (candidates : List Node) (hw : w.fleet.Sound) (hkept : Kept i mine base w.fleet) :
    Keeps i (fun r c => Paths i r.paths mine base c) (Sup.stageFirst env i cls candidates) w := by
  induction candidates generalizing w with
  | nil => exact .pure fun c hst => (hkept.spared hst).paths
  | cons candidate candidates ih =>
      refine (keeps_tryActivate hw hkept).bind hw fun r u hu hr => ?_
      cases r with
      | elapsed => exact .pure fun c hst => hr.spared hst
      | activated active => exact .pure fun c hst => hr.spared hst
      | failed error => exact ih hu hr.kept

end

/-! ### Probes -/

section

variable {pre : Fleet → Prop} {env : Env} {i : Nat} {α : Type}

theorem returns_started {spec : Sup.StartSpec} {β : Type} {check : Sup β} {failed : String → Sup α} {k : β → Sup α}
    (hfailed : ∀ error, Returns pre i (failed error)) (hcheck : check.Within Still) (hk : ∀ b, Returns pre i (k b)) :
    Returns pre i (Sup.startPlane i spec >>= fun started =>
      match started with
      | .error error => failed error
      | .ok handle => do
          let checked ← check
          Sup.stopPlane handle.id
          k checked) := by
  intro mine base w hpre hw hkept
  refine (keeps_startPlane hkept).bind hw fun started u hu hkept => ?_
  cases started with
  | error error => exact hfailed error mine base u hpre hu hkept
  | ok handle => exact .still hcheck fun b => .stop hkept fun v hv hkept => hk b mine base v hpre hv hkept

theorem still_recordProbeResult {node : Node} {rtt : Option ℚ} {takenAt readAt : Nat} :
    (Sup.recordProbeResult env node rtt takenAt readAt).Within Still := by
  refine within_atomic fun o s b t heq => ?_
  split at heq <;> cases heq
  rfl

theorem returns_testNode {url : String} {node : Node} {record : Bool} {takenAt readAt : Nat} :
    Returns pre i (Sup.testNode env i url node record takenAt readAt) := by
  have hrecord : ∀ {rtt : Option ℚ} {result : ProbeResult}, Returns pre i (do
      if record then Sup.recordProbeResult env node rtt takenAt readAt
      return result) := by
    intro rtt result
    cases record with
    | true => exact .still_bind still_recordProbeResult fun _ => .pure _
    | false => exact .pure _
  refine .still_bind within_ask fun reserved => ?_
  cases reserved with
  | error error => exact .pure _
  | ok spec =>
      refine returns_started (fun error => hrecord) within_ask fun checked => ?_
      rcases checked with error | ⟨code, rtt⟩
      · exact .still_bind still_observe fun _ => .still_bind still_recordProbeResult fun _ => .pure _
      · show Returns pre i (if isSuccess code = true then _ else _)
        split
        · exact hrecord
        · exact hrecord

theorem returns_measureSite {node : Node} {url : String} {now : Int} :
    Returns pre i (Sup.measureSite i node url now) := by
  refine .still_bind within_ask fun reserved => ?_
  cases reserved with
  | error error => exact .pure _
  | ok spec =>
      refine returns_started (fun error => .pure _) within_ask fun answer => ?_
      cases answer with
      | error error => exact .pure _
      | ok answer => exact .pure _

/-! ### Scopes -/

theorem returns_withRead {name : LockName} {body : Sup α} (hname : ∀ cls, LockName.cls cls ≠ name)
    (hbody : Returns pre i body) : Returns pre i (Sup.withRead i name body) :=
  .minor_bind (minor_acquireRead hname) fun _ => hbody.bind fun _ => .minor_bind (minor_release hname) fun _ => .pure _

theorem returns_releasing {name : LockName} {body : Sup α} (hname : ∀ cls, LockName.cls cls ≠ name)
    (hbody : Returns pre i body) : Returns pre i (Sup.releasing i name body) :=
  hbody.bind fun _ => .minor_bind (minor_release hname) fun _ => .pure _

theorem returns_withWrite {name : LockName} {body : Sup α} (hname : ∀ cls, LockName.cls cls ≠ name)
    (hbody : Returns pre i body) : Returns pre i (Sup.withWrite i name body) :=
  .minor_bind (minor_acquireWrite hname) fun _ => returns_releasing hname hbody

end

end Causeway

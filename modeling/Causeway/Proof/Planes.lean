import Causeway.Proof.Workers
import Causeway.Proof.Daemon

/-!
# Every plane has one owner

All threads of the daemon's life keep the accounts of the planes, its teardown included. What follows for every run: a drain stops its plane only when that is due, and a plane is stopped by whoever owns it and by nobody else.
-/

namespace Causeway

open Concurrent Prog

/-- Thread `i` owns no plane and holds no class. -/
structure Unladen (i : Nat) (c : Fleet) : Prop where
  owed : ∀ id, c.planes id ≠ some (.task i)
  drains : ∀ id, c.planes id ≠ some (.draining (some i))
  lockless : Lockless i c

section

variable {env : Env} {i : Nat} {cls : String} {α : Type} {base s t : Fleet} {w : World}

theorem Unladen.spared (h : Unladen i s) (hst : Spares i s t) : Unladen i t where
  owed id hown := h.owed id ((hst.owed id).mp hown)
  drains id hown := h.drains id ((hst.drains id).mp hown)
  lockless cls := (hst.hold cls).trans (h.lockless cls)

theorem Unladen.congr (h : Unladen i s) (hplanes : t.planes = s.planes) (hlocks : t.locks = s.locks) : Unladen i t where
  owed id := hplanes ▸ h.owed id
  drains id := hplanes ▸ h.drains id
  lockless cls := (congrArg (fun locks => (locks cls).hold i) hlocks).trans (h.lockless cls)

theorem Unladen.kept (h : Unladen i s) : Kept i [] s s where
  drains _ := .rfl
  hold _ := rfl
  entered := .rfl
  ended h := h
  owed id := by simp [h.owed id]
  once := .nil
  unrouted := by simp

theorem Kept.unladen (h : Kept i [] base s) (hbase : Unladen i base) : Unladen i s where
  owed id hown := List.not_mem_nil ((h.owed id).mp hown)
  drains id hown := hbase.drains id ((h.drains id).mp hown)
  lockless cls := (h.hold cls).trans (hbase.lockless cls)

theorem Returns.unladen {pre : Fleet → Prop} {p : Sup α} (h : Returns pre i p) (hpre : pre w.fleet) (hw : w.fleet.Sound)
    (hunladen : Unladen i w.fleet) : Keeps i (fun _ c => Unladen i c) p w :=
  (h [] w.fleet w hpre hw hunladen.kept).weaken fun _ _ hkept => hkept.unladen hunladen

/-! ### Tasks -/

/-- What a task begins with. -/
def Begun (i : Nat) (c : Fleet) : Prop := Alive i c ∧ Lockless i c

theorem returns_task (task : Task) : Returns (Begun i) i (task.prog env i) := by
  have hloop : ∀ {body : Sup Unit}, Returns (Begun i) i body → Returns (Begun i) i (body >>= fun _ => pure noReply) :=
    fun h => h.bind fun _ => .pure _
  cases task with
  | idle => exact .pure _
  | switch cls node =>
      rw [Task.prog, Sup.switchRequest]
      split
      · exact .pure _
      · refine returns_switchTo.bind fun outcome => ?_
        cases outcome <;> exact .pure _
  | switchSubscription name => exact returns_switchSubscription.weaken fun _ h => h.2
  | reload => exact returns_reload.weaken fun _ h => h.2
  | probeNow cls => exact .of_still still_probeNow
  | siteProbe site => exact .of_still still_siteProbeRequest
  | switchForSite cls site => exact returns_switchForSite
  | activateInitial cls =>
      rw [Task.prog]
      split
      · exact hloop returns_activateInitial
      · exact .pure _
  | healthLoop cls ticks =>
      rw [Task.prog]
      split
      · exact hloop ((returns_rounds returns_healthTick ticks).weaken fun _ h => h.1)
      · exact .pure _
  | probeLoop rounds => exact hloop (returns_rounds returns_probeRound rounds)
  | egressLoop rounds => exact hloop (returns_rounds returns_egressRound rounds)
  | job => exact hloop returns_runJob
  | status cls retries => exact .of_still within_status
  | connection cls proto =>
      rw [Task.prog]
      split
      · exact hloop (returns_handleConn.weaken fun _ h => h.1)
      · exact .pure _
  | signal => exact .still_bind (within_modify fun _ => rfl) fun _ => .pure _

/-- What a thread does inside a task, everyone may do. -/
theorem custody_allows : custody.Allows service := ⟨rfl, rfl, fun h => h.toAbides⟩

/-- A thread enters its task. -/
theorem Unladen.enters {u : World} (h : Unladen i w.fleet) (hw : w.fleet.Sound)
    (hact : (if w.closed then none else some ((), { w with entered := i :: w.entered })) = some ((), u)) :
    u.fleet.Sound ∧ Abides i w.fleet u.fleet ∧ Unladen i u.fleet ∧ Alive i u.fleet := by
  have hfleet : w.fleet.closed = false ∧ u.fleet = { w.fleet with entered := i :: w.fleet.entered } := by
    split at hact
    · cases hact
    · rename_i hopen
      cases hact
      exact ⟨eq_false_of_ne_true hopen, rfl⟩
  obtain ⟨hu, habides⟩ := enter_step (i := i) hw hfleet.1 hfleet.2
  refine ⟨hu, habides, h.congr (by rw [hfleet.2]) (by rw [hfleet.2]), ?_⟩
  rw [hfleet.2]
  exact List.mem_cons_self

theorem safe_joined (task : Task) (hw : w.fleet.Sound) (hunladen : Unladen i w.fleet) :
    custody.Safe i (fun _ u => Unladen i u.fleet) (task.joined env i) w := by
  have hentered : custody.Safe i (fun _ u => Unladen i u.fleet) (do
      Sup.enter i
      let reply ← task.prog env i
      Sup.leave i
      return reply) w := by
    refine .atomic fun t ht hst o a u hact => ?_
    obtain ⟨hu, habides, hnow, halive⟩ := (hunladen.spared hst).enters ht hact
    refine ⟨hu, habides, ?_⟩
    have hprog := (@returns_task env i task).unladen ⟨halive, hnow.lockless⟩ hu hnow
    refine (hprog.relax custody_allows).bind hu fun reply v hv hunladen => .atomic fun t ht hst o a x hact => ?_
    have hleft : x.fleet = { t.fleet with entered := t.fleet.entered.erase i } := by
      cases hact
      rfl
    obtain ⟨hx, habides⟩ := leave_step ht hleft
    have hlast : Unladen i x.fleet := (hunladen.spared hst).congr (by rw [hleft]) (by rw [hleft])
    exact ⟨hx, habides, .pure fun c _ hc => hlast.spared hc⟩
  have hjob : Returns Anytime i (Task.job.prog env i) := returns_runJob.bind fun _ => .pure _
  cases task with
  | job => exact (hjob.unladen trivial hw hunladen).relax custody_allows
  | _ => exact hentered

/-! ### Teardown -/

/-- The plane of a class is the thread's now. -/
theorem Kept.retired {id : Nat} {mine : List Nat} (hkept : Kept i mine base s) (hown : s.planes id = some (.active cls))
    (ht : t = { s with active := t.active, planes := Function.update s.planes id (some (.task i)) }) :
    Owes i (id :: mine) base t := by
  have hnew : id ∉ mine := fun hmem => by simp [(hkept.owed id).mpr hmem] at hown
  have hplanes : t.planes = Function.update s.planes id (some (.task i)) := by rw [ht]
  have hdrains : ∀ other, t.planes other = some (.draining (some i)) ↔ s.planes other = some (.draining (some i)) := by
    intro other
    by_cases hother : other = id
    · simp [hplanes, hother, hown]
    · simp [hplanes, Function.update_of_ne hother]
  refine ⟨hkept.toAside.moved (by rw [ht]) hdrains, fun other => ?_, List.nodup_cons.mpr ⟨hnew, hkept.once⟩⟩
  by_cases hother : other = id
  · simp [hplanes, hother]
  · simp [hplanes, hother, hkept.owed]

theorem returns_retireClass : Returns Fleet.Ended 0 (Sup.retireClass 0 cls) := by
  intro mine base w hended hw hkept
  refine .acquireClass hkept fun u hu hnone hkept => ?_
  have hforget : ∀ v : World, v.fleet.Sound → Kept 0 mine (base.taking 0 cls) v.fleet →
      Keeps 0 (fun _ c => Kept 0 mine (base.taking 0 cls) c) (Sup.lockState fun _ st =>
        ((), st.updateClass cls fun cs => { cs with socksPort := none, httpPort := none })) v := fun v hv hkept =>
    @Returns.of_still 0 _ Anytime _ still_lockState mine _ v trivial hv hkept
  refine @Keeps.bind _ _ _ _ _ (fun _ c => Kept 0 mine (base.taking 0 cls) c) _ _ ?_ hu fun _ v hv hkept => ?_
  · refine .step fun o t x a hact ht hst => ?_
    have hnow := hkept.spared hst
    cases hactive : t.fleet.active cls with
    | none =>
        obtain ⟨rfl, hfleet⟩ : none = a ∧ x.fleet = t.fleet := by
          have hruntime : (t.runtime cls).active = none := hactive
          have hsame : Function.update t.fleet.active cls none = t.fleet.active := by
            rw [← hactive, Function.update_eq_self]
          cases hact
          refine ⟨hruntime.symm, ?_⟩
          rw [World.fleet, active_update, hruntime, hsame]
          rfl
        exact ⟨hfleet ▸ ht, hfleet ▸ .refl, fun hx => hforget x hx (hfleet ▸ hnow)⟩
    | some old =>
        obtain ⟨rfl, hfleet⟩ : some old = a ∧ x.fleet = { t.fleet with
            active := Function.update t.fleet.active cls none
            planes := Function.update t.fleet.planes old.handle.id (some (.task 0)) } := by
          have hruntime : (t.runtime cls).active = some old := hactive
          cases hact
          refine ⟨hruntime.symm, ?_⟩
          rw [World.fleet, active_update, hruntime]
          rfl
        have hrepath := repathed_take ((hnow.hold cls).trans (base.taking_hold 0 cls)) rfl (hnow.ended hended) hactive hfleet
        refine ⟨hrepath.sound ht, hrepath.conducts ht, fun hx => ?_⟩
        have howes : Owes 0 (old.handle.id :: mine) (base.taking 0 cls) x.fleet :=
          hnow.retired (ht.active cls old hactive).1 (by rw [hfleet])
        have hunrouted : ∀ id ∈ mine, x.fleet.Unrouted id := fun id hid => by
          rw [hfleet]
          exact hnow.unrouted id hid
        refine .step fun o y z a hact hy hxy => ?_
        have hstopped : z.fleet = { y.fleet with planes := Function.update y.fleet.planes old.handle.id none } := by
          cases hact
          rfl
        have hlater := howes.spared hxy
        obtain ⟨hz, hconducts⟩ :=
          stop_step hy ((hlater.owed _).mpr List.mem_cons_self) (.inr (hlater.ended hended)) hstopped
        have hgave : Owes 0 mine (base.taking 0 cls) z.fleet := hstopped ▸ hlater.gave (by simp) (by simp) rfl
        refine ⟨hz, hconducts, fun hz => hforget z hz ⟨hgave, fun id hid => ?_⟩⟩
        rw [hstopped]
        intro other hpath
        have hown := (howes.owed id).mpr (List.mem_cons_of_mem _ hid)
        exact hunrouted id hid other (hxy.unrouted id other hown hpath)
  · refine .releaseClass base.locks hkept hnone (fun other hother => base.taking_hold_of_ne hother) fun x hx hkept => ?_
    exact .pure fun c hst => hkept.spared hst

/-- A step that brings shutdown closer. -/
theorem Unladen.staged {drainShutdown closed : Bool} {k : Unit → Sup α} {post : α → Fleet → Prop} {f : World → World}
    (hunladen : Unladen i w.fleet)
    (hfleet : ∀ t, (f t).fleet = { t.fleet with
      drainShutdown := t.fleet.drainShutdown || drainShutdown, closed := t.fleet.closed || closed })
    (hk : ∀ u : World, u.fleet.Sound → Unladen i u.fleet → (closed = true → u.fleet.closed = true) →
      Keeps i post (k ()) u) : Keeps i post (Sup.modify f >>= k) w := by
  refine .step fun o t u a hact ht hst => ?_
  obtain ⟨rfl⟩ : f t = u := by
    cases hact
    rfl
  obtain ⟨hu, hconducts, hspares⟩ := @stage_step i _ _ t.fleet.timers _ _ ht (fun _ h => h)
    (fun h => by simp [h]) (fun h => by simp [h]) (hfleet t)
  exact ⟨hu, hconducts, fun hu => hk _ hu ((hunladen.spared hst).spared hspares) fun h => by rw [hfleet, h, Bool.or_true]⟩

theorem keeps_stopDraining (hunladen : Unladen i w.fleet) : Keeps i (fun _ c => Unladen i c) Sup.stopDraining w := by
  refine @Unladen.staged _ _ _ true false _ _ _ hunladen (fun t => by simp [World.fleet]) fun y hy hunladen _ => ?_
  have hjoin : (Prog.atomic (fun _ w => if w.draining = 0 then some ((), w) else none) : Sup Unit).Within Still := by
    refine within_atomic fun o s b t heq => ?_
    split at heq
    · cases heq
      rfl
    · cases heq
  rw [← Prog.bind_pure (Prog.atomic _)]
  exact .still hjoin fun _ => .pure fun c hst => hunladen.spared hst

theorem keeps_teardown (hunladen : Unladen 0 w.fleet) : Keeps 0 (fun _ c => Unladen 0 c) (Sup.teardown env 0) w := by
  refine .still (within_modify fun _ => rfl) fun _ => ?_
  refine @Unladen.staged _ _ _ false true _ _ _ hunladen (fun t => by simp [World.fleet]) fun u hu hunladen hclosed => ?_
  refine .step fun o t v a hact ht hst => ?_
  split at hact
  · rename_i hentered
    cases hact
    refine ⟨ht, .refl, fun hv => ?_⟩
    have hended : t.fleet.Ended := ⟨hst.closed (hclosed rfl), hentered⟩
    have hnow := hunladen.spared hst
    refine ((returns_forEach (fun _ => returns_retireClass) env.classes).unladen hended hv hnow).bind hv
      fun _ x hx hunladen => ?_
    refine (keeps_stopDraining hunladen).bind hx fun _ y hy hunladen => ?_
    exact .still still_saveState fun _ => .pure fun c hst => hunladen.spared hst
  · cases hact

/-! ### The daemon's whole life -/

theorem Started.fleet (h : Started env w) : w.fleet.Sound := by
  obtain ⟨stateDir, cacheDir, recorded, st, active, nodes, _, _⟩ := h
  exact {
    active := fun _ _ h => nomatch h
    slot := fun _ _ h => nomatch h
    queued := fun _ h => nomatch h
    drain := fun _ h => nomatch h
    once := .nil
    fresh := fun _ _ => ⟨rfl, fun _ h => nomatch h⟩
    routed := fun _ _ h => nomatch h
    counted := fun _ => rfl }

theorem Started.unladen (h : Started env w) (i : Nat) : Unladen i w.fleet := by
  obtain ⟨stateDir, cacheDir, recorded, st, active, nodes, _, _⟩ := h
  exact ⟨fun _ h => (nomatch h), fun _ h => (nomatch h), fun _ => Lock.hold_free⟩

/-- Every thread keeps the accounts, in every order they can be scheduled. -/
theorem life_holds (hstart : Started env w) (tasks : Nat → Task) :
    custody.Holds (fun i _ u => Unladen i u.fleet) (life env tasks w) where
  inv := hstart.fleet
  safe
    | 0 => (keeps_teardown (hstart.unladen 0)).relax custody_allows
    | i + 1 => safe_joined (tasks i) hstart.fleet (hstart.unladen (i + 1))

end

end Causeway

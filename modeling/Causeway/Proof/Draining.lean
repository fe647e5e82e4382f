import Causeway.Proof.Ownership

/-!
# Drains and connections

A path is drained only after it has left every route, and a route is the only place where a connection can capture it. So from the moment its drain is queued the connections on a path can only become fewer, and what the drain has seen of them stays true until it stops the plane.
-/

namespace Causeway

open Concurrent

/-- The plane is in a drain, or it has been stopped. -/
def Fleet.Gone (id : Nat) (c : Fleet) : Prop :=
  id < c.next ∧ (c.planes id = none ∨ ∃ owner, c.planes id = some (.draining owner))

section

variable {i id : Nat} {owner : Option Nat} {s t : Fleet}

theorem Fleet.Sound.gone (hs : s.Sound) (hown : s.planes id = some (.draining owner)) : s.Gone id := by
  refine ⟨?_, .inr ⟨owner, hown⟩⟩
  by_contra hle
  simp [(hs.fresh id (Nat.not_lt.mp hle)).1] at hown

theorem Abides.gone (h : Abides i s t) (hgone : s.Gone id) : t.Gone id := by
  obtain ⟨hlt, howner⟩ := hgone
  refine ⟨hlt.trans_le h.next, ?_⟩
  have hlost : ∀ {was : Owner}, s.planes id = some was → (∀ owner, was ≠ .draining owner) → False := by
    rintro was hwas hnot
    obtain hnone | ⟨owner, hown⟩ := howner
    · simp [hnone] at hwas
    · exact hnot owner (Option.some.inj (hwas.symm.trans hown))
  cases h.transfer id with
  | kept same => rwa [same]
  | started _ _ fresh => exact absurd hlt (Nat.not_lt.mpr fresh)
  | installed cls before => exact (hlost before (by simp)).elim
  | replaced cls before => exact (hlost before (by simp)).elim
  | retired cls before => exact (hlost before (by simp)).elim
  | queued _ after => exact .inr ⟨_, after⟩
  | taken _ after => exact .inr ⟨_, after⟩
  | discarded _ after => exact .inl after
  | drained _ after _ => exact .inl after

theorem Abides.uncaptured (h : Abides i s t) (hs : s.Sound) (hgone : s.Gone id) :
    (t.leased id).Sublist (s.leased id) := by
  obtain hsub | ⟨⟨cls, hpath⟩, hrunning⟩ := h.leased id
  · exact hsub
  · obtain hactive | ⟨j, htask⟩ | ⟨_, hended⟩ := hs.routed cls id hpath
    · obtain hnone | ⟨owner, hown⟩ := hgone.2
      · simp [hnone] at hactive
      · simp [hown] at hactive
    · obtain hnone | ⟨owner, hown⟩ := hgone.2
      · simp [hnone] at htask
      · simp [hown] at htask
    · exact absurd hended hrunning

theorem Transfer.drains (h : Transfer i id s t) (hown : s.planes id = some (.draining owner)) :
    t.planes id = some (.draining owner) ∨ (owner = none ∧ t.planes id = some (.draining (some i))) ∨
      owner = some i ∧ t.planes id = none ∧ s.Due id := by
  cases h with
  | kept same => exact .inl (same.trans hown)
  | taken before after =>
      have howner : owner = none := by simpa [hown] using before
      exact .inr (.inl ⟨howner, after⟩)
  | drained before after due =>
      have howner : owner = some i := by simpa [hown] using before
      exact .inr (.inr ⟨howner, after, due⟩)
  | started before => simp [hown] at before
  | installed _ before => simp [hown] at before
  | replaced _ before => simp [hown] at before
  | retired _ before => simp [hown] at before
  | queued before => simp [hown] at before
  | discarded before => simp [hown] at before

end

section

variable {env : Env} {id : Nat} {tasks : Nat → Task} {w : World} {before others : List (Move World)}
  {mid last : Pool World Outside Reply}

theorem gone_run (hstart : Started env w) (first : (life env tasks w).Run before mid) (later : mid.Run others last)
    (hgone : mid.shared.fleet.Gone id) :
    ∀ n ∈ others, (n.after.fleet.leased id).Sublist (n.before.fleet.leased id) := by
  have hallowed := ((life_holds hstart tasks).run first).allowed later
  have hstays := @Pool.Run.keeps_moves _ _ _ _ _ _ later (fun u => u.fleet.Gone id) hgone fun n hn =>
    (hallowed n hn).2.2.gone
  exact fun n hn => (hallowed n hn).2.2.uncaptured (hallowed n hn).1 (hstays n hn).1

end

/-- The counter of a path is the number of open connections that captured it. A plane in a drain is in no route and no class's active one; its drain stops it only after the grace period without such a connection, after the hard cap, or at shutdown, and from when it is queued no connection captures the path any more. -/
theorem drain_lease_safe {env : Env} {w : World} (hstart : Started env w) {tasks : Nat → Task}
    {moves : List (Move World)} {last : Pool World Outside Reply} (run : (life env tasks w).Run moves last) :
    (∀ id, last.shared.connections id = (last.shared.fleet.leased id).length) ∧
    (∀ id owner, last.shared.planes id = some (.draining owner) → ∀ cls,
      (last.shared.route cls).pathConnections ≠ some id ∧
      ∀ path, (last.shared.runtime cls).active = some path → path.handle.id ≠ id) ∧
    ∀ before m after, moves = before ++ m :: after → ∀ id owner, m.before.planes id = some (.draining owner) →
      (m.after.planes id = some (.draining owner) ∨
        (owner = none ∧ m.after.planes id = some (.draining (some m.thread))) ∨
        owner = some m.thread ∧ m.after.planes id = none ∧
          (m.before.drainShutdown = true ∨ (id, .cap) ∈ m.before.trail.timers ∨
            (id, .grace) ∈ m.before.trail.timers ∧ m.before.fleet.leased id = [])) ∧
      ∀ n ∈ m :: after, (n.after.fleet.leased id).Sublist (n.before.fleet.leased id) := by
  have hholds := life_holds hstart tasks
  have hs : last.shared.fleet.Sound := (hholds.run run).inv
  refine ⟨fun id => ?_, fun id owner hown cls => ⟨fun hpath => hs.not_draining hpath hown, ?_⟩, ?_⟩
  · exact (hs.counted id).trans List.countP_eq_length_filter
  · rintro path hactive rfl
    have hslot := (hs.active cls path hactive).1
    simp [World.fleet, hown] at hslot
  · rintro before m after rfl id owner hown
    obtain ⟨mid, first, later⟩ := run.split
    obtain ⟨hbefore, _, habides⟩ := (hholds.run first).allowed later m List.mem_cons_self
    have hgone : mid.shared.fleet.Gone id := later.before_eq ▸ hbefore.gone hown
    refine ⟨(habides.transfer id).drains hown |>.imp_right (Or.imp_right ?_), gone_run hstart first later hgone⟩
    rintro ⟨howner, hstopped, hdue⟩
    refine ⟨howner, hstopped, hdue.imp_right (Or.imp_right (And.imp_right fun hnone => ?_))⟩
    exact List.filter_eq_nil_iff.mpr fun lease hmem => by simpa using hnone lease hmem

/-- A drain waits for the connection on its path, and stops the plane after it has ended. -/
theorem drain_lease_waited : ∃ moves last,
    (life (Sample.env Sample.web) (Sample.assign Sample.planeTasks) (Sample.world Sample.web)).Run moves last ∧
    ∃ m ∈ moves, m.before.planes 0 = some (.draining (some 4)) ∧ m.after.planes 0 = none ∧
      (0, .grace) ∈ m.before.trail.timers ∧ m.before.fleet.leased 0 = [] := by
  obtain ⟨moves, last, run, hends⟩ := Pool.trace_reaches Sample.planeSchedule
    (life (Sample.env Sample.web) (Sample.assign Sample.planeTasks) (Sample.world Sample.web))
    (fun moves _ => moves.any fun m => m.before.planes 0 = some (.draining (some 4)) ∧ m.after.planes 0 = none ∧
      m.before.drainShutdown = false ∧ (0, .cap) ∉ m.before.trail.timers) (by decide +kernel)
  simp only [decide_eq_true_eq, List.any_eq_true] at hends
  obtain ⟨m, hm, hbefore, hafter, hshutdown, hcap⟩ := hends
  obtain ⟨before, after, hsplit⟩ := List.append_of_mem hm
  obtain hsame | ⟨hnone, _⟩ | ⟨_, _, hdue⟩ :=
    ((drain_lease_safe (Sample.started Sample.web) run).2.2 before m after hsplit 0 (some 4) hbefore).1
  · rw [hafter] at hsame
    cases hsame
  · cases hnone
  · obtain hstopping | hcapped | ⟨hgrace, hleases⟩ := hdue
    · rw [hshutdown] at hstopping
      cases hstopping
    · exact absurd hcapped hcap
    · exact ⟨moves, last, run, m, hm, hbefore, hafter, hgrace, hleases⟩

end Causeway

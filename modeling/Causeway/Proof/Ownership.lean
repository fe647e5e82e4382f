import Causeway.Proof.Planes

/-!
# Planes in whole runs

A thread is inside its task from when it enters until it leaves, and shutdown waits for it that long. So once every task has ended only teardown and jobs take further steps, and the accounts of the planes can be read off any run.
-/

namespace Causeway

open Concurrent Prog

/-- A task whose program has this much left. -/
def Task.rest (me : Nat) (left : Sup Reply) : Sup Reply := do
  let reply ← left
  Sup.leave me
  return reply

/-- How far thread `i` is in its task. -/
inductive Standing (env : Env) (i : Nat) (task : Task) (p : Sup Reply) (s : World) : Prop
  | waiting (same : p = task.joined env i) (unladen : Unladen i s.fleet)
  | inside (left : Sup Reply) (same : p = Task.rest i left) (entered : i ∈ s.fleet.entered)
      (serves : service.Safe i (fun _ _ => True) left s)
  | finished (reply : Reply) (same : p = .done reply)

section

variable {env : Env} {i : Nat} {task : Task} {α : Type} {act : Outside → World → Option (α × World)}
variable {next : α → Sup Reply} {p : Sup Reply} {o : Outside} {a : α} {s t : World}

theorem Task.joined_eq (hjob : task ≠ .job) :
    task.joined env i = Sup.enter i >>= fun _ => Task.rest i (task.prog env i) := by
  cases task with
  | job => exact absurd rfl hjob
  | _ => rfl

theorem Standing.spared (h : Standing env i task p s) (hst : Spares i s.fleet t.fleet) : Standing env i task p t := by
  cases h with
  | waiting same unladen => exact .waiting same (unladen.spared hst)
  | inside left same entered serves => exact .inside left same (hst.entered.mpr entered) (serves.mono hst)
  | finished reply same => exact .finished reply same

theorem Standing.step (h : Standing env i task (.step act next) s) (hjob : task ≠ .job) (hs : s.fleet.Sound)
    (htaken : act o s = some (a, t)) : Standing env i task (next a) t := by
  cases h with
  | waiting same unladen =>
      rw [Task.joined_eq hjob] at same
      cases same
      obtain ⟨ht, _, hunladen, halive⟩ := unladen.enters hs htaken
      have hprog := (@returns_task env i task).unladen ⟨halive, hunladen.lockless⟩ ht hunladen
      exact .inside _ rfl halive (Discipline.Safe.weaken hprog fun _ _ _ _ => trivial)
  | inside left same entered serves =>
      cases left with
      | done reply =>
          cases same
          exact .finished reply rfl
      | step act' next' =>
          cases same
          obtain ⟨⟨_, hconducts⟩, hrest⟩ := serves s hs .refl o _ t htaken
          exact .inside _ rfl (hconducts.entered ▸ entered) hrest
  | finished reply same => cases same

/-- A thread steps once every task has ended only if its task is a job. -/
theorem Standing.quiet (h : Standing env i task (.step act next) s) (hended : s.fleet.Ended)
    (htaken : act o s = some (a, t)) : task = .job := by
  by_contra hjob
  cases h with
  | waiting same unladen =>
      rw [Task.joined_eq hjob] at same
      cases same
      have hclosed : s.closed = true := hended.1
      simp [hclosed] at htaken
  | inside left same entered serves => simp [hended.2] at entered
  | finished reply same => cases same

end

section

variable {env : Env} {i : Nat} {tasks : Nat → Task} {w : World} {before moves others : List (Move World)}
  {mid last : Pool World Outside Reply}

theorem standing_run (hstart : Started env w) (run : (life env tasks w).Run moves last) (hjob : tasks i ≠ .job) :
    Standing env (i + 1) (tasks i) (last.thread (i + 1)) last.shared := by
  have hholds := life_holds hstart tasks
  induction run with
  | refl => exact .waiting rfl (hstart.unladen (i + 1))
  | @snoc mid last moves j o t run step ih =>
      obtain ⟨_, _, habides⟩ := (hholds.run run).step step
      have hs := (hholds.run run).inv
      obtain ⟨running, taken⟩ := step
      by_cases hj : i + 1 = j
      · subst hj
        rw [running] at ih
        simpa using ih.step hjob hs taken
      · simpa only [Function.update_of_ne hj] using ih.spared (habides.others (i + 1) hj)

theorem ended_run (hstart : Started env w) (first : (life env tasks w).Run before mid) (later : mid.Run others last)
    (hended : mid.shared.fleet.Ended) : last.shared.fleet.Ended :=
  ((life_holds hstart tasks).run first).preserves later (X := fun u => u.fleet.Ended)
    (fun i _ _ _ _ habides => (habides.others (i + 1) (Nat.succ_ne_self i)).ended) hended

theorem ended_quiet (hstart : Started env w) (first : (life env tasks w).Run before mid) (later : mid.Run others last)
    (hended : mid.shared.fleet.Ended) : ∀ n ∈ others, n.thread = 0 ∨ ∃ i, n.thread = i + 1 ∧ tasks i = .job := by
  induction later with
  | refl => simp
  | @snoc mid' last others j o t later step ih =>
      intro n hn
      rcases List.mem_append.mp hn with hn | hn
      · exact ih n hn
      · cases List.mem_singleton.mp hn
        have hnow := ended_run hstart first later hended
        obtain ⟨running, taken⟩ := step
        cases j with
        | zero => exact .inl rfl
        | succ i =>
            refine .inr ⟨i, rfl, ?_⟩
            by_contra hjob
            have hstanding := standing_run hstart (first.append later) hjob
            rw [running] at hstanding
            exact hjob (hstanding.quiet hnow taken)

end

/-! ### Who owns a plane -/

/-- A running plane is the active one of a class, in a queued drain, or that of a thread that has not finished. -/
structure Accounted (pool : Pool World Outside Reply) : Prop where
  active : ∀ cls id, pool.shared.planes id = some (.active cls) ↔
    ∃ path, (pool.shared.runtime cls).active = some path ∧ path.handle.id = id
  queued : ∀ id, pool.shared.planes id = some (.draining none) ↔
    ∃ path, Job.drain path ∈ pool.shared.jobs ∧ path.handle.id = id
  once : ((pool.shared.jobs.filterMap Job.drained).map (·.handle.id)).Nodup
  running : ∀ id j, pool.shared.planes id = some (.task j) ∨ pool.shared.planes id = some (.draining (some j)) →
    ∀ reply, pool.thread j ≠ .done reply
  started : ∀ id, pool.shared.planes id ≠ none → id < pool.shared.nextPlane

section

variable {env : Env} {i id : Nat} {cls : String} {tasks : Nat → Task} {w : World} {moves : List (Move World)}
  {last : Pool World Outside Reply} {s t : Fleet}

theorem mem_fleet_drains {path : ActiveNode} : path ∈ w.fleet.drains ↔ Job.drain path ∈ w.jobs := by
  show path ∈ w.jobs.filterMap Job.drained ↔ _
  rw [List.mem_filterMap]
  constructor
  · rintro ⟨job, hjob, heq⟩
    cases job <;> cases heq
    exact hjob
  · exact fun hjob => ⟨_, hjob, rfl⟩

theorem accounted_run (hstart : Started env w) (run : (life env tasks w).Run moves last) : Accounted last := by
  have hholds := life_holds hstart tasks
  have hs : last.shared.fleet.Sound := (hholds.run run).inv
  refine ⟨fun cls id => ⟨hs.slot cls id, ?_⟩, fun id => ⟨fun hown => ?_, ?_⟩, hs.once, fun id j hown reply hdone => ?_,
    fun id hown => ?_⟩
  · rintro ⟨path, hactive, rfl⟩
    exact (hs.active cls path hactive).1
  · obtain ⟨path, hmem, hid⟩ := hs.drain id hown
    exact ⟨path, mem_fleet_drains.mp hmem, hid⟩
  · rintro ⟨path, hjob, rfl⟩
    exact (hs.queued path (mem_fleet_drains.mpr hjob)).1
  · have hunladen := hholds.finished run hdone
    exact hown.elim (hunladen.owed id) (hunladen.drains id)
  · by_contra hle
    exact hown (hs.fresh id (Nat.not_lt.mp hle)).1

theorem Transfer.stopped (h : Transfer i id s t) (hbefore : s.planes id ≠ none) (hafter : t.planes id = none) :
    s.planes id = some (.task i) ∨ s.planes id = some (.draining (some i)) := by
  cases h with
  | kept same => exact absurd (same.symm.trans hafter) hbefore
  | discarded before _ => exact .inl before
  | drained before _ _ => exact .inr before
  | started before => exact absurd before hbefore
  | installed _ _ after => simp [after] at hafter
  | replaced _ _ after => simp [after] at hafter
  | retired _ _ after => simp [after] at hafter
  | queued _ after => simp [after] at hafter
  | taken _ after => simp [after] at hafter

theorem Transfer.lost (h : Transfer i id s t) (hbefore : s.planes id = some (.active cls))
    (hafter : t.planes id ≠ some (.active cls)) :
    (s.locks cls).hold i = .write ∧ t.planes id = some (.task i) ∧
      ((∃ path, t.active cls = some path ∧ path.handle.id ≠ id) ∨ i = 0 ∧ s.Ended) := by
  cases h with
  | kept same => exact absurd (same.trans hbefore) hafter
  | replaced other before after locked successor =>
      obtain rfl : other = cls := by simpa [hbefore, eq_comm] using before
      exact ⟨locked, after, .inl successor⟩
  | retired other before after locked teardown ended =>
      obtain rfl : other = cls := by simpa [hbefore, eq_comm] using before
      exact ⟨locked, after, .inr ⟨teardown, ended⟩⟩
  | started before => simp [hbefore] at before
  | installed _ before => simp [hbefore] at before
  | queued before => simp [hbefore] at before
  | taken before => simp [hbefore] at before
  | discarded before => simp [hbefore] at before
  | drained before => simp [hbefore] at before

end

/-- In every state that is reached, each running plane has one owner, and a finished thread owns none. Whoever stops a plane owns it. A class loses its active plane only for another one, or at teardown, when nothing but teardown and jobs is left to run. -/
theorem plane_ownership {env : Env} {w : World} (hstart : Started env w) {tasks : Nat → Task}
    {moves : List (Move World)} {last : Pool World Outside Reply} (run : (life env tasks w).Run moves last) :
    Accounted last ∧
    ∀ before m after, moves = before ++ m :: after → ∀ id,
      Transfer m.thread id m.before.fleet m.after.fleet ∧
      (m.before.planes id ≠ none → m.after.planes id = none →
        m.before.planes id = some (.task m.thread) ∨ m.before.planes id = some (.draining (some m.thread))) ∧
      ∀ cls, m.before.planes id = some (.active cls) → m.after.planes id ≠ some (.active cls) →
        (m.before.locks (.cls cls)).hold m.thread = .write ∧ m.after.planes id = some (.task m.thread) ∧
        ((∃ path, (m.after.runtime cls).active = some path ∧ path.handle.id ≠ id) ∨
          m.thread = 0 ∧ ∀ n ∈ m :: after, n.thread = 0 ∨ ∃ i, n.thread = i + 1 ∧ tasks i = .job) := by
  refine ⟨accounted_run hstart run, ?_⟩
  rintro before m after rfl id
  obtain ⟨mid, first, later⟩ := run.split
  have hallowed := ((life_holds hstart tasks).run first).allowed later m List.mem_cons_self
  have htransfer : Transfer m.thread id m.before.fleet m.after.fleet := hallowed.2.2.transfer id
  refine ⟨htransfer, htransfer.stopped, fun cls hbefore hafter => ?_⟩
  obtain ⟨hlock, howner, hsuccessor⟩ := htransfer.lost hbefore hafter
  refine ⟨hlock, howner, hsuccessor.imp_right fun ⟨hthread, hended⟩ => ⟨hthread, ?_⟩⟩
  exact ended_quiet hstart first later (later.before_eq ▸ hended)

def Sample.planeTasks : List Task := [.activateInitial "web", .connection "web" .http, .switch "web" "B", .job]

/-- A class is switched while a connection is open, and the drain waits for the connection to end. -/
def Sample.planeSchedule : List (Nat × Outside) :=
  Sample.steps 1 30 Sample.fine ++ Sample.steps 2 5 Sample.fine ++ Sample.steps 3 33 Sample.fine ++
    Sample.steps 4 1 Sample.fine ++ Sample.steps 4 1 { Sample.fine with elapsed := true } ++
    Sample.steps 2 5 Sample.fine ++
    Sample.steps 4 2 Sample.fine

/-- Both planes that were started are stopped: one by its drain, the other at teardown. -/
theorem plane_ownership_ends : ∃ moves last,
    (life (Sample.env Sample.web) (Sample.assign Sample.planeTasks) (Sample.world Sample.web)).Run moves last ∧
    last.shared.nextPlane = 2 ∧ last.shared.planes 0 = none ∧ last.shared.planes 1 = none ∧ Accounted last ∧
    ∃ m ∈ moves, m.before.planes 1 = some (.active "web") ∧ m.after.planes 1 = some (.task m.thread) := by
  obtain ⟨moves, last, run, hends⟩ := Pool.trace_reaches (Sample.planeSchedule ++ Sample.steps 0 22 Sample.fine)
    (life (Sample.env Sample.web) (Sample.assign Sample.planeTasks) (Sample.world Sample.web))
    (fun moves last =>
      decide (last.shared.nextPlane = 2) && decide (last.shared.planes 0 = none) &&
      decide (last.shared.planes 1 = none) &&
        moves.any fun m => m.before.planes 1 = some (.active "web") ∧ m.after.planes 1 ≠ some (.active "web"))
    (by decide +kernel)
  simp only [Bool.and_eq_true, decide_eq_true_eq, List.any_eq_true] at hends
  obtain ⟨⟨⟨hnext, hfirst⟩, hsecond⟩, m, hm, hbefore, hafter⟩ := hends
  obtain ⟨haccounted, hmoves⟩ := plane_ownership (Sample.started Sample.web) run
  obtain ⟨before, after, hsplit⟩ := List.append_of_mem hm
  have hlost := (hmoves before m after hsplit 1).2.2 "web" hbefore hafter
  exact ⟨moves, last, run, hnext, hfirst, hsecond, haccounted, m, hm, hbefore, hlost.2.1⟩

end Causeway

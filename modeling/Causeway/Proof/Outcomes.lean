import Causeway.Proof.Atomicity
import Causeway.Proof.Sites

/-!
# Outcomes of subscription mutations

What the reply of a switch or a reload says of all the steps it took: an error, that nothing of it has ever been shown and nothing is left running; an ok, that it was published once, with the state file in place before.
-/

namespace Causeway

open Concurrent Prog

/-- The cache slot of the task's profile that memory does not name. -/
def SpareSlot (task : Task) (w : World) (path : Path) : Prop :=
  ∃ target profile base, task.target w.subscriptions.active = some target ∧
    (∀ name, task = .switchSubscription name → w.subscriptions.catalog.profile target = some profile) ∧
    profile.cacheFile = some base ∧ cacheSlotPath base (nextSlot w.state.subscriptionCacheSlots[target]?) = some path

/-- A move that a failed mutation has taken: it shows nothing, starts no plane that is not stopped later and stops no other, and writes no cache file but the spare one. -/
structure Discarded (task : Task) (before : List (Move World)) (m : Move World) (after : List (Move World)) : Prop where
  withheld : Withheld m.before m.after
  stopped : m.after.nextPlane ≠ m.before.nextPlane →
    ∃ n ∈ after, n.thread = m.thread ∧ n.after.planes m.before.nextPlane = none
  own : ∀ id, m.after.planes id ≠ m.before.planes id →
    ∃ n ∈ before ++ [m], n.thread = m.thread ∧ n.before.nextPlane = id ∧ n.after.nextPlane ≠ id
  cache : ∀ path, m.after.cacheDir.bytes path ≠ m.before.cacheDir.bytes path → SpareSlot task m.before path

/-- The move publishes what the task is for. -/
structure Publishes (task : Task) (m : Move World) : Prop where
  published : m.after.trail.published = m.before.trail.published + 1
  target : task.target m.before.subscriptions.active = some m.after.subscriptions.active

namespace Progress

def live : Progress → List Nat
  | .silent c => c.live
  | _ => []

end Progress

section

variable {env : Env} {i : Nat} {task : Task} {k l : Progress} {s t : World} {steps : List (World × World)}

theorem silent_before (h : Story (Proceeds env i task) k steps l) (hl : l.silence = true) : k.silence = true := by
  refine h.held (X := fun k => k.silence = true) hl fun k s t l hstep hl => ?_
  cases hstep with
  | silent => rfl
  | _ => cases hl

theorem unpublished_before (h : Story (Proceeds env i task) k steps l) (hl : l.unpublished = true) :
    k.unpublished = true := by
  refine h.held (X := fun k => k.unpublished = true) hl fun k s t l hstep hl => ?_
  cases hstep with
  | silent => rfl
  | committed => rfl
  | publishing => rfl
  | _ => cases hl

theorem published_after (h : Story (Proceeds env i task) k steps l) (hk : k.unpublished = false) :
    l.unpublished = false := by
  by_contra hl
  have hstart := unpublished_before h (Bool.not_eq_false _ ▸ hl)
  rw [hk] at hstart
  cases hstart

theorem Proceeds.unissued (h : Proceeds env i task k s t l) (hkl : l.unpublished = k.unpublished) :
    t.subscriptions = s.subscriptions ∧ t.trail.published = s.trail.published := by
  cases h with
  | silent next => exact ⟨next.withheld.subscriptions, next.withheld.published⟩
  | committed holding firm => exact ⟨firm.subscriptions, firm.published⟩
  | publishing firm => exact ⟨firm.subscriptions, firm.published⟩
  | issued => cases hkl
  | finishing firm => exact ⟨firm.subscriptions, firm.published⟩
  | released chore => exact ⟨chore.subscriptions, chore.published⟩
  | apart chore => exact ⟨chore.subscriptions, chore.published⟩

theorem unissued_before (h : Story (Proceeds env i task) k steps l) (hl : l.unpublished = true) {step : World × World}
    (hstep : step ∈ steps) :
    step.2.subscriptions = step.1.subscriptions ∧ step.2.trail.published = step.1.trail.published := by
  obtain ⟨first, rest, rfl⟩ := List.append_of_mem hstep
  obtain ⟨j, m, -, hmid, hrest⟩ := h.split
  have hm := unpublished_before hrest hl
  exact hmid.unissued (hm.trans (unpublished_before (.cons hmid (.nil m)) hm).symm)

theorem unissued_after (h : Story (Proceeds env i task) k steps l) (hk : k.unpublished = false) {step : World × World}
    (hstep : step ∈ steps) :
    step.2.subscriptions = step.1.subscriptions ∧ step.2.trail.published = step.1.trail.published := by
  obtain ⟨first, rest, rfl⟩ := List.append_of_mem hstep
  obtain ⟨j, m, hfirst, hmid, -⟩ := h.split
  have hj := published_after hfirst hk
  exact hmid.unissued ((published_after (.cons hmid (.nil m)) hj).trans hj.symm)

theorem Proceeds.started {id : Nat} (h : Proceeds env i task k s t l) (hk : id ∉ k.live) (hl : id ∈ l.live) :
    s.nextPlane = id ∧ t.nextPlane ≠ id := by
  cases h with
  | silent next =>
      rcases next.live id hl with hmine | ⟨rfl, hnext⟩
      · exact absurd hmine hk
      · exact ⟨rfl, hnext⟩
  | _ => cases hl

theorem Proceeds.stopped {id : Nat} (h : Proceeds env i task k s t l) (hk : id ∈ k.live) (hl : id ∉ l.live)
    (hsilent : l.silence = true) : t.planes id = none := by
  cases h with
  | silent next => exact (next.stopped id hk).resolve_left hl
  | _ => cases hsilent

end

section

variable {env : Env} {w : World} {tasks : Nat → Task} {moves before after : List (Move World)} {m : Move World}
  {last : Pool World Outside Reply} {i : Nat} {reply : Reply}

theorem replied {fine : Prop} (hstories : DaemonStories fine env tasks w moves)
    (run : (daemon env tasks w).Run moves last)
    (htask : tasks i = .reload ∨ ∃ name, tasks i = .switchSubscription name) (hdone : last.thread i = .done reply) :
    ∃ l, Story (Proceeds env i (tasks i)) waitingForMutex (Pool.own i moves) l ∧ Replied reply l := by
  obtain ⟨⟨l, story, hends⟩, -⟩ := (run.chronicle hstories).2 i
  rw [hdone] at hends
  replace hends : (tasks i).Ending reply l := hends
  rcases htask with htask | ⟨name, htask⟩ <;>
  · rw [htask] at story hends ⊢
    exact ⟨l, story, hends⟩

/-- The story of a switch or a reload that has failed, at one of its moves. -/
theorem failed_chapter {fine : Prop} (h : Started env w) (hcache : fine → w.cacheDir.Ok)
    (run : (daemon env tasks w).Run (before ++ m :: after) last)
    (htask : tasks m.thread = .reload ∨ ∃ name, tasks m.thread = .switchSubscription name)
    (hdone : last.thread m.thread = .done reply) (herror : reply.ok = false) :
    ∃ c d l, Story (Proceeds env m.thread (tasks m.thread)) waitingForMutex (Pool.own m.thread before) (.silent c) ∧
      (fine → m.before.cacheDir.Ok) ∧ Attests fine m.thread (tasks m.thread) (.silent c) m.before ∧
      c.Next env m.thread (tasks m.thread) m.before m.after d ∧
      Story (Proceeds env m.thread (tasks m.thread)) (.silent d) (Pool.own m.thread after) l ∧ l.silence = true ∧
      l.live = [] := by
  have hstories : DaemonStories fine env tasks w (before ++ m :: after) := daemon_stories h hcache run
  obtain ⟨l, story, hreplied⟩ := replied hstories run htask hdone
  have hend : l.silence = true ∧ l.live = [] := by
    cases hreplied with
    | failed _ live => exact ⟨rfl, live⟩
    | done ok => exact absurd (ok.symm.trans herror) Bool.noConfusion
  have hopening : (tasks m.thread).opening = waitingForMutex := by
    rcases htask with htask | ⟨name, htask⟩ <;> rw [htask] <;> rfl
  rw [← hopening] at story ⊢
  obtain ⟨hok, j, k, hfirst, hattests, hstep, hrest⟩ := run.chapter hstories story
  have hk : k.silence = true := silent_before hrest hend.1
  cases hstep with
  | @silent c d _ _ next => exact ⟨c, d, l, hfirst, hok, hattests, next, hrest, hend⟩
  | _ => cases hk

/-- What it has put in place is at the spare slot of its profile. -/
theorem failed_placement (h : Started env w) (hcache : w.cacheDir.Ok)
    (run : (daemon env tasks w).Run (before ++ m :: after) last)
    (htask : tasks m.thread = .reload ∨ ∃ name, tasks m.thread = .switchSubscription name)
    (hdone : last.thread m.thread = .done reply) (herror : reply.ok = false) {path : Path}
    (hpath : m.after.cacheDir.bytes path ≠ m.before.cacheDir.bytes path) :
    SpareSlot (tasks m.thread) m.before path ∧ m.after.cacheDir.files path ≠ m.before.cacheDir.files path := by
  obtain ⟨c, d, l, -, hok, hattests, next, -, -, -⟩ := failed_chapter h (fun _ : True => hcache) run htask hdone herror
  rcases next.cache with ⟨hsame, -⟩ | ⟨hholding, hshelves⟩
  · rw [hsame] at hpath
    exact absurd rfl hpath
  · obtain ⟨⟨u, hu, v, hv, x, hx, target, profile, base, htarget, hprofile, hbase, hslot⟩, hmoved⟩ :=
      hshelves.bytes (hok trivial) (hattests.made trivial c rfl hholding) hpath
    rw [hattests.known hholding rfl u hu] at htarget
    rw [hattests.known hholding rfl x hx] at hprofile
    rw [hattests.slots c rfl hholding v hv] at hslot
    exact ⟨⟨target, profile, base, htarget, hprofile, hbase, hslot⟩, hmoved⟩

theorem failed_discarded (h : Started env w) (hcache : w.cacheDir.Ok)
    (run : (daemon env tasks w).Run (before ++ m :: after) last)
    (htask : tasks m.thread = .reload ∨ ∃ name, tasks m.thread = .switchSubscription name)
    (hdone : last.thread m.thread = .done reply) (herror : reply.ok = false) :
    Discarded (tasks m.thread) before m after := by
  obtain ⟨c, d, l, hfirst, -, -, next, hrest, hsilent, hlive⟩ :=
    failed_chapter h (fun _ : True => hcache) run htask hdone herror
  refine ⟨next.withheld, fun hnew => ?_, fun id hid => ?_,
    fun path hpath => (failed_placement h hcache run htask hdone herror hpath).1⟩
  · -- The plane is one of the thread's until a later step stops it.
    obtain ⟨others, step, later, j, k, heq, -, hstep, hlater, hj, hk⟩ :=
      hrest.lost (X := fun k => m.before.nextPlane ∈ k.live) (next.started hnew) (by simp [hlive])
    have hmem : step ∈ Pool.own m.thread after := by
      rw [heq]
      simp
    obtain ⟨n, hn, hthread, rfl⟩ := Pool.of_mem_own hmem
    exact ⟨n, hn, hthread, hstep.stopped hj hk (silent_before hlater hsilent)⟩
  · rcases next.planes id hid with hmine | ⟨rfl, hnew⟩
    · obtain ⟨others, step, later, j, k, heq, -, hstep, -, hj, hk⟩ :=
        hfirst.lost (X := fun k => id ∉ k.live) List.not_mem_nil (not_not.mpr hmine)
      have hmem : step ∈ Pool.own m.thread before := by
        rw [heq]
        simp
      obtain ⟨n, hn, hthread, rfl⟩ := Pool.of_mem_own hmem
      exact ⟨n, List.mem_append_left _ hn, hthread, hstep.started hj (not_not.mp hk)⟩
    · exact ⟨m, by simp, rfl, rfl, hnew⟩

/-- In every interleaving with whatever else the daemon does: when a subscription switch or a reload answers with an error, none of its steps has changed a route, a class, the state in memory, the subscription, the traffic or which file the state file is; every plane that it started it has stopped, and no other; and of the cache it has written at most the slot of its profile that memory does not name. -/
theorem failed_mutation_discarded (h : Started env w) (hcache : w.cacheDir.Ok) (run : (daemon env tasks w).Run moves last)
    (htask : tasks i = .reload ∨ ∃ name, tasks i = .switchSubscription name) (hdone : last.thread i = .done reply)
    (herror : reply.ok = false) :
    ∀ before m after, moves = before ++ m :: after → m.thread = i → Discarded (tasks i) before m after := by
  rintro before m after rfl rfl
  exact failed_discarded h hcache run htask hdone herror

/-- The switch has opened its plane and written its cache slot when the state file cannot be renamed. -/
def Sample.refusedSchedule : List (Nat × Outside) :=
  Sample.steps 0 26 Sample.fine ++ Sample.steps 0 8 { Sample.fine with ok := false }

def Sample.switchTasks : Nat → Task := Sample.assign [.switchSubscription "work"]

theorem failed_mutation_discarded_rename : ∃ moves last reply,
    (daemon (Sample.env Sample.web) Sample.switchTasks (Sample.world Sample.web)).Run moves last ∧
      last.thread 0 = .done reply ∧ reply.ok = false ∧ last.shared.nextPlane = 1 ∧
      ∀ before m after, moves = before ++ m :: after → m.thread = 0 →
        Discarded (Sample.switchTasks 0) before m after := by
  obtain ⟨moves, last, run, -, hlast⟩ := Pool.exec_reaches Sample.refusedSchedule
    (daemon (Sample.env Sample.web) Sample.switchTasks (Sample.world Sample.web))
    (fun pool => Sample.answered 0 (fun reply => !reply.ok) pool && decide (pool.shared.nextPlane = 1))
      (by decide +kernel)
  rw [Bool.and_eq_true, decide_eq_true_eq] at hlast
  obtain ⟨reply, hdone, hok⟩ := Sample.of_answered hlast.1
  rw [Bool.not_eq_true'] at hok
  exact ⟨moves, last, reply, run, hdone, hok, hlast.2,
    failed_mutation_discarded (Sample.started Sample.web) (fun _ _ h => nomatch h) run (.inr ⟨"work", rfl⟩) hdone hok⟩

/-- The story of a switch or a reload that was accepted, at the move that has published. -/
theorem accepted_chapter (h : Started env w) (run : (daemon env tasks w).Run moves last)
    (htask : tasks i = .reload ∨ ∃ name, tasks i = .switchSubscription name) (hdone : last.thread i = .done reply)
    (hok : reply.ok = true) :
    ∃ before m after seen l, moves = before ++ m :: after ∧ m.thread = i ∧ Publishes (tasks i) m ∧
      Story (Proceeds env i (tasks i)) waitingForMutex (Pool.own i before) (.publishing seen) ∧
      Story (Proceeds env i (tasks i)) (.plain true seen) (Pool.own i after) l := by
  have hstories : DaemonStories False env tasks w moves := daemon_stories h False.elim run
  obtain ⟨l, story, hreplied⟩ := replied hstories run htask hdone
  have hend : l.unpublished = false := by
    cases hreplied with
    | failed error => exact absurd (hok.symm.trans error) Bool.noConfusion
    | done ok plainly =>
        obtain ⟨seen, rfl⟩ := plainly
        rfl
  obtain ⟨first, step, rest, j, k, heq, hfirst, hstep, hrest, hj, hk⟩ :=
    story.lost (X := fun k => k.unpublished = true) rfl (by simp [hend])
  obtain ⟨before, after, rfl, rfl, rfl⟩ := Pool.own_eq_append heq
  obtain ⟨s, t⟩ := step
  have hattests : Attests False i (tasks i) j s := by
    have hopening : (tasks i).opening = waitingForMutex := by
      rcases htask with htask | ⟨name, htask⟩ <;> rw [htask] <;> rfl
    obtain ⟨mid, hbefore, hafter⟩ := run.split
    rw [← hopening] at hfirst
    have hmid := ((hbefore.chronicle hstories.earlier).2 i).2 j hfirst
    rwa [← hafter.before_eq] at hmid
  cases hstep with
  | @issued seen _ _ steady published aims =>
      obtain ⟨u, hu, htarget⟩ := aims
      rw [hattests.known rfl rfl u hu] at htarget
      exact ⟨before, ⟨i, s, t⟩, after, seen, l, rfl, rfl, ⟨published, htarget⟩, hfirst, hrest⟩
  | silent => exact absurd rfl hk
  | committed => exact absurd rfl hk
  | publishing => exact absurd rfl hk
  | _ => cases hj

/-- When a switch or a reload answers with ok, exactly one of its steps has published, and published its profile, after another had renamed the new state file into place. -/
theorem accepted_mutation_published_once (h : Started env w) (run : (daemon env tasks w).Run moves last)
    (htask : tasks i = .reload ∨ ∃ name, tasks i = .switchSubscription name) (hdone : last.thread i = .done reply)
    (hok : reply.ok = true) :
    ∃ before m after, moves = before ++ m :: after ∧ m.thread = i ∧ Publishes (tasks i) m ∧
      (∃ n ∈ before, n.thread = i ∧ n.before.stateDir.renameTmp = some n.after.stateDir) ∧
      ∀ n ∈ before ++ after, n.thread = i → n.after.subscriptions = n.before.subscriptions ∧
        n.after.trail.published = n.before.trail.published := by
  obtain ⟨before, m, after, seen, l, hmoves, hthread, hpublishes, hfirst, hrest⟩ := accepted_chapter h run htask hdone hok
  refine ⟨before, m, after, hmoves, hthread, hpublishes, ?_, fun n hn hthread => ?_⟩
  · obtain ⟨others, step, later, j, k, heq, -, hstep, -, hj, hk⟩ :=
      hfirst.lost (X := fun k => k.silence = true) rfl Bool.false_ne_true
    have hmem : step ∈ Pool.own i before := by
      rw [heq]
      simp
    obtain ⟨n, hn, hthread, rfl⟩ := Pool.of_mem_own hmem
    refine ⟨n, hn, hthread, ?_⟩
    cases hstep with
    | committed holding firm renamed => exact renamed
    | silent => exact absurd rfl hk
    | _ => cases hj
  · subst hthread
    rcases List.mem_append.mp hn with hn | hn
    · exact unissued_before hfirst rfl (Pool.mem_own hn)
    · exact unissued_after hrest rfl (Pool.mem_own hn)

end

theorem accepted_mutation_published_once_switch : ∃ moves last reply,
    (daemon (Sample.env Sample.web) Sample.switchTasks (Sample.world Sample.web)).Run moves last ∧
      last.thread 0 = .done reply ∧ reply.ok = true ∧
      ∃ before m after, moves = before ++ m :: after ∧ m.thread = 0 ∧ Publishes (Sample.switchTasks 0) m ∧
        (∃ n ∈ before, n.thread = 0 ∧ n.before.stateDir.renameTmp = some n.after.stateDir) ∧
        ∀ n ∈ before ++ after, n.thread = 0 → n.after.subscriptions = n.before.subscriptions ∧
          n.after.trail.published = n.before.trail.published := by
  obtain ⟨moves, last, run, -, hlast⟩ := Pool.exec_reaches (Sample.steps 0 55 Sample.fine)
    (daemon (Sample.env Sample.web) Sample.switchTasks (Sample.world Sample.web))
    (Sample.answered 0 fun reply => reply.ok) (by decide +kernel)
  obtain ⟨reply, hdone, hok⟩ := Sample.of_answered hlast
  exact ⟨moves, last, reply, run, hdone, hok,
    accepted_mutation_published_once (Sample.started Sample.web) run (.inr ⟨"work", rfl⟩) hdone hok⟩

end Causeway

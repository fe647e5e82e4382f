import Causeway.Proof.Durability
import Causeway.Proof.Stages

/-!
# All or nothing

A subscription switch or a reload that answers with an error has not happened: nothing of it was shown, its planes are stopped, and what it leaves behind is a manifest that the state file does not name. One that answers with ok has happened everywhere at once: no read of any route is later than its publication and sees what was before.
-/

namespace Causeway

open Concurrent Prog History

/-- The file of the slot that the state file names for the profile, at its cache file in the running catalog. -/
def Env.namedFile (env : Env) (w : World) (name : String) : Option Path :=
  (env.namedSlot w.stateDir.bytes name).bind fun slot =>
    ((w.subscriptions.catalog.profile name).bind (·.cacheFile)).bind fun base => cacheSlotPath base slot

/-- Where the step puts a manifest in place, a named file at a slot of the cache file that the target has in the catalog of the transaction is at the slot that memory names for the target, or at the second one while memory names none. -/
def Beside (env : Env) (tasks : Nat → Task) (m : Move World) : Prop :=
  m.after.cacheDir.files ≠ m.before.cacheDir.files →
    ∀ target catalog base, (tasks m.thread).target m.before.subscriptions.active = some target →
      m.before.trail.catalog = some catalog → (catalog.profile target).bind (·.cacheFile) = some base →
        ∀ name path slot, env.namedFile m.before name = some path → cacheSlotPath base slot = some path →
          m.before.state.subscriptionCacheSlots[target]? = some slot ∨
            m.before.state.subscriptionCacheSlots[target]? = none ∧ slot = cacheSlotB

/-- A move that a failed mutation has taken: besides all that is discarded, the state file and the files of the slots that it names hold what they held. -/
structure Undone (env : Env) (task : Task) (before : List (Move World)) (m : Move World) (after : List (Move World)) : Prop
    extends Discarded task before m after where
  file : m.after.stateDir.bytes = m.before.stateDir.bytes
  named : ∀ name path, env.namedFile m.before name = some path → m.after.cacheDir.bytes path = m.before.cacheDir.bytes path

/-- The move that publishes a mutation: every class has been given a new route for it, and whoever can read a route reads an older publication before the move and this one or a later one after it. -/
structure Together (env : Env) (task : Task) (before : List (Move World)) (m : Move World) (after : List (Move World)) :
    Prop where
  publishes : Publishes task m
  flipped : ∀ cls ∈ env.classes, ∃ n ∈ before, n.thread = m.thread ∧
    Flips m.after.subscriptions.active cls n.before n.after ∧ n.after.trail.routeEpoch cls = m.after.trail.published
  earlier : ∀ n ∈ before ++ [m], ∀ cls ∈ env.classes, n.before.core.Free (.route cls) →
    n.before.trail.routeEpoch cls < m.after.trail.published
  later : ∀ n ∈ m :: after, ∀ cls ∈ env.classes, n.after.core.Free (.route cls) →
    m.after.trail.published ≤ n.after.trail.routeEpoch cls ∧
      (n.after.route cls).trafficSubscription = n.after.subscriptions.active

theorem lastInstalled_ne_none {hist : History} (h : 0 < installs hist) : lastInstalled hist ≠ none := by
  induction hist with
  | nil => exact absurd h (Nat.lt_irrefl 0)
  | cons event older ih =>
      cases event with
      | installed new old cause => exact Option.some_ne_none _
      | booked samples sampledAt ok => exact ih h

section

variable {env : Env} {w : World} {tasks : Nat → Task} {moves before after : List (Move World)} {m : Move World}
  {last : Pool World Outside Reply} {i : Nat} {reply : Reply}

theorem Task.target_ne_none {task : Task} (h : task = .reload ∨ ∃ name, task = .switchSubscription name) :
    task.target "" ≠ none := by
  rcases h with rfl | ⟨name, rfl⟩ <;> exact Option.some_ne_none _

theorem failed_undone (h : Started env w) (hcache : w.cacheDir.Ok)
    (run : (daemon env tasks w).Run (before ++ m :: after) last)
    (hclear : ∀ n ∈ before ++ m :: after, ¬ Clash n.after.core) (hbeside : Beside env tasks m)
    (htask : tasks m.thread = .reload ∨ ∃ name, tasks m.thread = .switchSubscription name)
    (hdone : last.thread m.thread = .done reply) (herror : reply.ok = false) :
    Undone env (tasks m.thread) before m after := by
  refine ⟨failed_discarded h hcache run htask hdone herror, failed_keeps_file h run hclear htask hdone herror,
    fun name path hnamed => ?_⟩
  by_contra hchanged
  obtain ⟨⟨target, profile, base, htarget, -, -, hchosen⟩, hmoved⟩ := failed_placement h hcache run htask hdone herror hchanged
  obtain ⟨aim, catalog, place, slot, haim, hcatalog, hplace, hslot⟩ :=
    placed_under_catalog h run (Task.target_ne_none htask) hmoved
  cases htarget.symm.trans haim
  -- The file that was put in place is the one that memory does not name.
  cases cacheSlotPath_slot hslot hchosen
  rcases hbeside (fun heq => hmoved (congrFun heq path)) target catalog place htarget hcatalog hplace name path _ hnamed hslot
    with hmemory | ⟨hnone, hsecond⟩
  · exact nextSlot_ne _ hmemory
  · rw [hnone] at hsecond
    exact absurd hsecond (by decide)

theorem accepted_together (h : Started env w) (run : (daemon env tasks w).Run moves last)
    (htask : tasks i = .reload ∨ ∃ name, tasks i = .switchSubscription name) (hdone : last.thread i = .done reply)
    (hok : reply.ok = true) :
    ∃ before m after, moves = before ++ m :: after ∧ m.thread = i ∧ Together env (tasks i) before m after := by
  obtain ⟨before, m, after, -, -, rfl, rfl, hpublishes, -, -⟩ := accepted_chapter h run htask hdone hok
  have hmoves := reachable_moves h run
  have hflipped := flipped_before h run (Task.target_ne_none htask) (by
    rw [hpublishes.published]
    exact Nat.succ_ne_self _)
  have hpublished : ∀ n ∈ before ++ m :: after, n.before.trail.published ≤ n.after.trail.published :=
    fun n hn => (hmoves n hn).2.2.sees.published
  obtain ⟨hearlier, hlater⟩ := run.climbs (f := fun u => u.trail.published) hpublished
  refine ⟨before, m, after, rfl, rfl, hpublishes, hflipped, fun n hn cls hcls hfree => ?_, fun n hn cls hcls hfree => ?_⟩
  · have hle : n.before.trail.published ≤ m.before.trail.published := by
      rcases List.mem_append.mp hn with hn | hn
      · exact (hpublished n (List.mem_append_left _ hn)).trans (hearlier n hn)
      · cases List.mem_singleton.mp hn
        exact le_rfl
    have hmem : n ∈ before ++ m :: after := by
      simp only [List.mem_append, List.mem_cons, List.not_mem_nil, or_false] at hn ⊢
      tauto
    have hepoch : n.before.trail.routeEpoch cls = n.before.trail.published := ((hmoves n hmem).1.epochs cls hcls hfree).epoch
    rw [hepoch, hpublishes.published]
    omega
  · have hmem : n ∈ before ++ m :: after := List.mem_append_right _ hn
    have hinv := (hmoves n hmem).2.1
    have hcurrent := hinv.epochs cls hcls hfree
    have hepoch : n.after.trail.routeEpoch cls = n.after.trail.published := hcurrent.epoch
    -- Since the mutation put a route there, the class has one.
    have hinstalled : 0 < installs (n.after.trail.hist cls) := by
      have hinstalls : ∀ n ∈ before ++ m :: after, installs (n.before.trail.hist cls) ≤ installs (n.after.trail.hist cls) :=
        fun n hn => installs_le_of_suffix ((hmoves n hn).2.2.sees.hist cls)
      obtain ⟨hbefore, hafter⟩ := run.climbs (f := fun u => installs (u.trail.hist cls)) hinstalls
      obtain ⟨k, hk, -, hflip, -⟩ := hflipped cls hcls
      have hm : installs (k.after.trail.hist cls) ≤ installs (m.after.trail.hist cls) :=
        (hbefore k hk).trans (hinstalls m (by simp))
      have hn : installs (m.after.trail.hist cls) ≤ installs (n.after.trail.hist cls) := by
        rcases List.mem_cons.mp hn with rfl | hn
        · exact le_rfl
        · exact (hafter n hn).trans (hinstalls n hmem)
      have := hflip.installed
      omega
    refine ⟨?_, hcurrent.tag.resolve_left fun hempty => ?_⟩
    · rw [hepoch]
      rcases List.mem_cons.mp hn with rfl | hn
      · exact le_rfl
      · exact (hlater n hn).trans (hpublished n hmem)
    · have hroute := hinv.route cls hcls
      rw [hempty] at hroute
      exact lastInstalled_ne_none hinstalled hroute.symm

/-- A switch or a reload is all or nothing, however it is interleaved with whatever else the daemon does. With an error it has changed nothing but a cache slot that the state file does not name, as long as no savers overlap and its manifest was put beside the named ones; with ok it has changed the routes of all classes together. -/
theorem mutation_all_or_nothing (h : Started env w) (hcache : w.cacheDir.Ok) (run : (daemon env tasks w).Run moves last)
    (htask : tasks i = .reload ∨ ∃ name, tasks i = .switchSubscription name) (hdone : last.thread i = .done reply) :
    (reply.ok = false → (∀ m ∈ moves, ¬ Clash m.after.core) → (∀ m ∈ moves, m.thread = i → Beside env tasks m) →
      ∀ before m after, moves = before ++ m :: after → m.thread = i → Undone env (tasks i) before m after) ∧
    (reply.ok = true → ∃ before m after, moves = before ++ m :: after ∧ m.thread = i ∧
      Together env (tasks i) before m after) := by
  refine ⟨fun herror hclear hbeside => ?_, accepted_together h run htask hdone⟩
  rintro before m after rfl rfl
  exact failed_undone h hcache run hclear (hbeside m (by simp) rfl) htask hdone herror

end

namespace Sample

/-- Every slot that the state file names belongs to the target of the thread, and memory names it too. -/
def refreshes (env : Env) (tasks : Nat → Task) (m : Move World) : Bool :=
  (env.namedSlots m.before.stateDir.bytes).all fun entry =>
    (tasks m.thread).target m.before.subscriptions.active = some entry.1 &&
      m.before.state.subscriptionCacheSlots[entry.1]? = some entry.2

theorem beside_of_refreshes {env : Env} {tasks : Nat → Task} {m : Move World} (h : refreshes env tasks m = true) :
    Beside env tasks m := by
  intro _ target catalog base htarget _ _ name path slot hfile hplace
  obtain ⟨named, hnamed, hfile⟩ := Option.bind_eq_some_iff.mp hfile
  obtain ⟨other, -, hpath⟩ := Option.bind_eq_some_iff.mp hfile
  have hentry := List.all_eq_true.mp h _ (mem_namedSlots hnamed)
  simp only [Bool.and_eq_true, decide_eq_true_eq] at hentry
  obtain ⟨hmine, hmemory⟩ := hentry
  cases htarget.symm.trans hmine
  cases cacheSlotPath_slot hplace hpath
  exact .inl hmemory

/-- A daemon that has started on the two manifests. -/
theorem restart_started {env : Env}
    (hslots : ∀ entry ∈ env.namedSlots (some [3]), entry = ("x", "b") ∨ entry = ("y", "a"))
    (h : (loadStartup env (fun path => ((slotsDisk env).cacheDir.bytes path).or none) (slotsDisk env).stateDir.bytes).isSome) :
    Started env (restart env (slotsDisk env)) ∧ (restart env (slotsDisk env)).cacheDir.Ok := by
  have hdisk := slotsDisk_grounded hslots
  have hsame : (restart env (slotsDisk env)).cacheDir = (slotsDisk env).cacheDir := by
    rw [restart]
    split <;> rfl
  exact ⟨((restarted h).started hdisk.dir).1, hsame ▸ hdisk.cache⟩

end Sample

/-- The refresh of a profile whose new manifest is in place when the state file cannot be renamed. -/
theorem mutation_all_or_nothing_rename : ∃ moves last reply,
    (Sample.refreshing (Sample.slotsDisk Sample.refreshEnv)).Run moves last ∧ last.thread 0 = .done reply ∧
    reply.ok = false ∧ last.shared.cacheDir.bytes ["x.cache.causeway-a"] = some [2] ∧
    ∀ before m after, moves = before ++ m :: after → m.thread = 0 →
      Undone Sample.refreshEnv (Sample.refresh 0) before m after := by
  obtain ⟨moves, last, run, hlast⟩ := Pool.trace_reaches
    (Sample.steps 0 23 (Sample.fetched [2]) ++ Sample.steps 0 6 { Sample.fetched [2] with ok := false })
    (Sample.refreshing (Sample.slotsDisk Sample.refreshEnv))
    (fun moves last => moves.all (fun m => m.thread = 0 && Sample.refreshes Sample.refreshEnv Sample.refresh m) &&
      Sample.answered 0 (fun reply => !reply.ok) last &&
      decide (last.shared.cacheDir.bytes ["x.cache.causeway-a"] = some [2])) (by decide +kernel)
  simp only [Bool.and_eq_true, List.all_eq_true, decide_eq_true_eq] at hlast
  obtain ⟨⟨hmoves, hanswered⟩, hcached⟩ := hlast
  obtain ⟨reply, hdone, hok⟩ := Sample.of_answered hanswered
  rw [Bool.not_eq_true'] at hok
  obtain ⟨hstart, hcache⟩ :=
    @Sample.restart_started Sample.refreshEnv (by decide +kernel) (by decide +kernel)
  exact ⟨moves, last, reply, run, hdone, hok, hcached,
    (mutation_all_or_nothing hstart hcache run (.inr ⟨"x", rfl⟩) hdone).1 hok
      (solo_clear hstart run 0 fun m hm => (hmoves m hm).1) fun m hm _ => Sample.beside_of_refreshes (hmoves m hm).2⟩

/-- A reload gives the active profile the cache file of another one; the state is not saved, the reply is an error, and the file that the state file names for the other has been overwritten. -/
theorem mutation_half_done_swapped : ¬ ∀ (env : Env) (w : World) (tasks : Nat → Task) (moves : List (Move World))
    (last : Pool World Outside Reply) (i : Nat) (reply : Reply), Started env w → w.cacheDir.Ok →
    (daemon env tasks w).Run moves last → (tasks i = .reload ∨ ∃ name, tasks i = .switchSubscription name) →
    last.thread i = .done reply → reply.ok = false → ∀ before m after, moves = before ++ m :: after → m.thread = i →
      Undone env (tasks i) before m after := by
  intro hall
  obtain ⟨moves, last, run, hlast⟩ := Pool.trace_reaches
    (Sample.steps 0 19 Sample.swapped ++ Sample.steps 0 6 { Sample.swapped with ok := false })
    (daemon Sample.swapEnv (Sample.assign [.reload]) (Sample.restart Sample.swapEnv (Sample.slotsDisk Sample.swapEnv)))
    (fun moves last => Sample.answered 0 (fun reply => !reply.ok) last && moves.any fun m => decide (m.thread = 0 ∧
      Sample.swapEnv.namedFile m.before "y" = some ["y.cache.causeway-a"] ∧
      m.after.cacheDir.bytes ["y.cache.causeway-a"] ≠ m.before.cacheDir.bytes ["y.cache.causeway-a"])) (by decide +kernel)
  rw [Bool.and_eq_true, List.any_eq_true] at hlast
  obtain ⟨hanswered, m, hm, hmove⟩ := hlast
  obtain ⟨hthread, hnamed, hchanged⟩ := of_decide_eq_true hmove
  obtain ⟨reply, hdone, hok⟩ := Sample.of_answered hanswered
  rw [Bool.not_eq_true'] at hok
  obtain ⟨hstart, hcache⟩ :=
    @Sample.restart_started Sample.swapEnv (by decide +kernel) (by decide +kernel)
  obtain ⟨before, after, rfl⟩ := List.append_of_mem hm
  have hundone := hall _ _ _ _ _ 0 reply hstart hcache run (.inl rfl) hdone hok before m after rfl hthread
  exact hchanged (hundone.named "y" _ hnamed)

end Causeway

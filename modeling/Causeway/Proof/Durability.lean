import Causeway.Proof.Outcomes
import Causeway.Proof.Restarts
import Causeway.Proof.StateFile

/-!
# The state file over lives of the daemon

Every state that is handed to a save is sound, so what a save has written can be read back as it was. While no two savers overlap, the state file can be loaded at every moment: whenever the daemon is killed, the next start finds a state.
-/

namespace Causeway

open Concurrent Prog

/-! ### The state file and failed mutations -/

/-- A step of a thread that does not move the state file does not change it either. -/
theorem FileInv.unmoved {env : Env} {initial : Option Bytes} {i : Nat} {s t : Core}
    (h : FileInv env initial s.hold s.files)
    (hguard : FileGuard env i s t) (hfile : t.files.dir.file = s.files.dir.file) :
      t.files.dir.bytes = s.files.dir.bytes := by
  cases hguard with
  | still files => rw [files]
  | step locks hstep =>
      generalize t.files = g at hstep hfile ⊢
      cases hstep with
      | begin => rfl
      | finish => rfl
      | publish => rfl
      | openTmp => exact (openTmp_ok h.dir).2.1
      | @write save inode bytes saving opened unnamed next =>
          have htmp := ((h.writing i save saving).tmp inode opened unnamed).1
          cases hnamed : s.files.dir.file with
          | none => simp [StateDir.bytes, StateDir.write, hnamed]
          | some file =>
              have hne : file ≠ inode := by
                rintro rfl
                exact h.dir.apart file htmp hnamed
              simp [StateDir.bytes, StateDir.write, Inodes.write, hnamed, Function.update_of_ne hne]
      | rename saving opened done unnamed renamed =>
          obtain ⟨inode, htmp, rfl⟩ := Option.map_eq_some_iff.mp renamed
          exact absurd hfile.symm (h.dir.apart inode htmp)

section

variable {env : Env} {w : World} {tasks : Nat → Task} {moves before after : List (Move World)} {m : Move World}
  {last : Pool World Outside Reply} {i : Nat} {reply : Reply}

theorem failed_keeps_file (h : Started env w) (run : (daemon env tasks w).Run (before ++ m :: after) last)
    (hclear : ∀ n ∈ before ++ m :: after, ¬ Clash n.after.core)
    (htask : tasks m.thread = .reload ∨ ∃ name, tasks m.thread = .switchSubscription name)
    (hdone : last.thread m.thread = .done reply) (herror : reply.ok = false) :
    m.after.stateDir.bytes = m.before.stateDir.bytes := by
  have hm : m ∈ before ++ m :: after := by simp
  have hkeep : ∀ n ∈ before ++ m :: after,
      FileInv env w.stateDir.bytes n.before.core.hold n.before.core.files ∧ ¬ Clash n.before.core →
        FileInv env w.stateDir.bytes n.after.core.hold n.after.core.files ∧ ¬ Clash n.after.core :=
    fun n hn ⟨hfiles, hclash⟩ => ⟨hfiles.guard hclash (reachable_moves h run n hn).2.2, hclear n hn⟩
  have hfiles := (run.keeps_moves (X := fun u => FileInv env w.stateDir.bytes u.core.hold u.core.files ∧ ¬ Clash u.core)
    ⟨h.fileInv, h.not_clash⟩ hkeep m hm).1.1
  have hguard := (reachable_moves h run m hm).2.2.files
  obtain ⟨c, d, l, -, -, -, next, -⟩ := failed_chapter h (False.elim : False → w.cacheDir.Ok) run htask hdone herror
  exact hfiles.unmoved hguard next.withheld.file

/-- While no savers overlap, a switch or a reload that answers with an error has left the bytes of the state file alone. -/
theorem failed_mutation_keeps_state_file (h : Started env w) (run : (daemon env tasks w).Run moves last)
    (hclear : ∀ m ∈ moves, ¬ Clash m.after.core)
    (htask : tasks i = .reload ∨ ∃ name, tasks i = .switchSubscription name) (hdone : last.thread i = .done reply)
    (herror : reply.ok = false) :
    ∀ m ∈ moves, m.thread = i → m.after.stateDir.bytes = m.before.stateDir.bytes := by
  rintro m hm rfl
  obtain ⟨before, after, rfl⟩ := List.append_of_mem hm
  exact failed_keeps_file h run hclear htask hdone herror

end

theorem failed_mutation_keeps_state_file_rename : ∃ moves last reply,
    (daemon (Sample.env Sample.web) Sample.switchTasks (Sample.world Sample.web)).Run moves last ∧
      last.thread 0 = .done reply ∧ reply.ok = false ∧ last.shared.stateDir.tmp.isSome = true ∧
      ∀ m ∈ moves, m.thread = 0 → m.after.stateDir.bytes = m.before.stateDir.bytes := by
  obtain ⟨moves, last, run, hthreads, hlast⟩ := Pool.exec_reaches Sample.refusedSchedule
    (daemon (Sample.env Sample.web) Sample.switchTasks (Sample.world Sample.web))
    (fun pool => Sample.answered 0 (fun reply => !reply.ok) pool && pool.shared.stateDir.tmp.isSome) (by decide +kernel)
  rw [Bool.and_eq_true] at hlast
  obtain ⟨reply, hdone, hok⟩ := Sample.of_answered hlast.1
  rw [Bool.not_eq_true'] at hok
  have hstart := Sample.started Sample.web
  have hsolo : ∀ m ∈ moves, m.thread = 0 := by
    intro m hm
    have hmem : m.thread ∈ moves.map (·.thread) := List.mem_map_of_mem hm
    rw [hthreads] at hmem
    simpa [Sample.refusedSchedule, Sample.steps] using hmem
  exact ⟨moves, last, reply, run, hdone, hok, hlast.2, failed_mutation_keeps_state_file hstart run
    (solo_clear hstart run 0 hsolo) (.inr ⟨"work", rfl⟩) hdone hok⟩

/-! ### What is saved is sound -/

theorem StateFile.Sound.tended {st other : StateFile} (h : st.Sound) (hother : Tended st other) : other.Sound := by
  rw [Tended] at hother
  rw [hother]
  exact ⟨⟨h.tidy.single, h.tidy.unmigrated⟩, h.slots, h.version⟩

theorem NextOf.sound {env : Env} {st next : StateFile} (h : NextOf env st next) (hst : st.Sound) : next.Sound := by
  obtain ⟨request, fresh, committed, planned, now, hvalid, hnext⟩ := h
  exact (nextState_slots hst hvalid hnext).1

/-- The state in memory and all that were handed to saves are sound. -/
structure AllSound (w : World) : Prop where
  state : w.state.Sound
  passed : ∀ st ∈ w.trail.passed, st.Sound

section

variable {env : Env} {i : Nat} {task : Task} {k l : Progress} {s t : World} {seen : List World}

theorem Passes.sound (h : Passes env seen s t) (hs : ∀ st ∈ s.trail.passed, st.Sound)
    (hseen : ∀ u ∈ seen, u.state.Sound) :
    ∀ st ∈ t.trail.passed, st.Sound := by
  rcases h with h | ⟨u, hu, st, hpassed, hst⟩
  · rwa [h]
  · rw [hpassed]
    intro other hother
    rcases List.mem_cons.mp hother with rfl | hother
    · rcases hst with rfl | hnext
      · exact hseen u hu
      · exact hnext.sound (hseen u hu)
    · exact hs other hother

theorem Steady.sound (h : Steady env seen s t) (hs : AllSound s) (ht : Inv env t.core)
    (hseen : ∀ u ∈ seen, u.state.Sound) :
    AllSound t := by
  refine ⟨?_, h.passes.sound hs.passed hseen⟩
  rcases h.state with htended | ⟨cloned, next, hreplaced, hstate, hnext⟩
  · exact hs.state.tended htended
  · have hkept : s.state = cloned :=
      (ht.replaced ⟨cloned, s.state, next⟩ (by
        show _ ∈ t.trail.replaced
        rw [hreplaced]
        exact List.mem_cons_self)).kept
    rw [hstate]
    exact hnext.sound (hkept ▸ hs.state)

theorem Chore.sound (h : Chore s t) (hpasses : Passes env seen s t) (hs : AllSound s)
    (hseen : ∀ u ∈ seen, u.state.Sound) :
    AllSound t :=
  ⟨hs.state.tended h.state, hpasses.sound hs.passed hseen⟩

/-- A task saves sound states, and sees only such. -/
theorem Proceeds.sound (h : Proceeds env i task k s t l) (hs : AllSound s) (ht : Inv env t.core)
    (hseen : ∀ u ∈ k.seen, u.state.Sound) : AllSound t ∧ ∀ u ∈ l.seen, u.state.Sound := by
  have hlearns : ∀ {seen later : List World}, (∀ u ∈ seen, u.state.Sound) → Learns seen s later →
    ∀ u ∈ later, u.state.Sound := by
    intro seen later hseen hlearns u hu
    rcases hlearns u hu with hu | rfl
    · exact hseen u hu
    · exact hs.state
  cases h with
  | silent next =>
      refine ⟨⟨?_, next.passes.sound hs.passed hseen⟩, hlearns hseen next.seen⟩
      rw [next.withheld.state]
      exact hs.state
  | committed holding firm => exact ⟨firm.sound hs ht hseen, hseen⟩
  | publishing firm learns => exact ⟨firm.sound hs ht hseen, hlearns hseen learns⟩
  | issued steady => exact ⟨steady.sound hs ht hseen, hseen⟩
  | finishing firm learns => exact ⟨firm.sound hs ht hseen, hlearns hseen learns⟩
  | released chore passed => exact ⟨chore.sound (.inl passed : Passes env _ _ _) hs hseen, hseen⟩
  | apart chore passes learns => exact ⟨chore.sound passes hs hseen, hlearns hseen learns⟩

end

/-! ### Lives -/

/-- A start leads to a world from which the discipline holds. -/
theorem Restarted.started {env : Env} {left w : World} (h : Restarted env left w) (hdir : left.stateDir.Ok) :
    Started env w ∧ AllSound w := by
  obtain ⟨read, st, active, nodes, loaded⟩ := h
  have hsound := (loadStartup_slots loaded).1
  refine ⟨.intro _ _ _ _ _ _ hdir ?_, hsound, fun _ h => nomatch h⟩
  unfold loadStartup at loaded
  split at loaded
  · cases loaded
  · rw [startFrom] at loaded
    obtain ⟨current, -, loaded⟩ := Option.bind_eq_some_iff.mp loaded
    obtain ⟨fallback, -, loaded⟩ := Option.bind_eq_some_iff.mp loaded
    obtain ⟨profile, -, loaded⟩ := Option.bind_eq_some_iff.mp loaded
    dsimp only at loaded
    split at loaded
    · cases loaded
    · cases loaded
      exact StateFile.activate_activeSubscription

/-- A daemon that has started has loaded its state file. -/
theorem Restarted.loads {env : Env} {left w : World} (h : Restarted env left w) :
    ∃ st, env.load left.stateDir.bytes = .ok st := by
  obtain ⟨read, st, active, nodes, loaded⟩ := h
  unfold loadStartup at loaded
  split at loaded
  · cases loaded
  · exact ⟨_, ‹_›⟩

/-- What the next start reads: the state file that the life began with, or a state that was handed to a save in it. -/
def Readable (env : Env) (initial : Option Bytes) (w : World) : Prop :=
  w.stateDir.bytes = initial ∨ ∃ st ∈ w.trail.passed, st.Sound ∧ env.load w.stateDir.bytes = .ok (some st)

section

variable {env : Env} {w : World} {tasks : Nat → Task} {moves : List (Move World)} {last : Pool World Outside Reply}

theorem run_allSound (h : Started env w) (hsound : AllSound w) (run : (daemon env tasks w).Run moves last) :
    AllSound last.shared := by
  have hchronicle : Pool.Chronicle (fun i => Proceeds env i (tasks i)) (fun i => (tasks i).Ending)
    (fun i => (tasks i).opening)
      AllSound (fun _ k _ => ∀ u ∈ k.seen, u.state.Sound) (daemon env tasks w) moves := {
    tells := fun i => tells_prog (tasks i)
    shared := hsound
    threads := fun i u hu => by
      have hnil : (tasks i).opening.seen = [] := by cases tasks i <;> rfl
      rw [hnil] at hu
      cases hu
    own := fun m hm k l hstep hX hY => hstep.sound hX (reachable_moves h run m hm).2.1 hY
    others := fun _ _ _ _ _ _ _ _ _ hY => hY }
  exact (run.chronicle hchronicle).1

theorem run_readable (h : Started env w) (hsound : AllSound w) (run : (daemon env tasks w).Run moves last)
    (hfaithful : ∀ st ∈ last.shared.trail.passed, env.Faithful st) (hclear : ∀ m ∈ moves, ¬ Clash m.after.core) :
    Readable env w.stateDir.bytes last.shared ∧ last.shared.stateDir.Ok := by
  have hlast := run.keeps (X := fun u => FileInv env w.stateDir.bytes u.core.hold u.core.files ∧ ¬ Clash u.core)
    ⟨h.fileInv, h.not_clash⟩ fun m hm ⟨hfiles, hclash⟩ =>
      ⟨hfiles.guard hclash (reachable_moves h run m hm).2.2, hclear m hm⟩
  refine ⟨?_, hlast.1.dir⟩
  rcases hlast.1.complete with hsame | ⟨content, hbytes, st, hst, -, hserialize⟩
  · exact .inl hsame
  · have hstate := (run_allSound h hsound run).passed st hst
    have hrefused : ¬ st.Refused := fun hrefused => by
      rw [serialize_none hrefused] at hserialize
      cases hserialize
    obtain ⟨other, hother, hload⟩ := load_serialized hstate hrefused (hfaithful st hst)
    cases hserialize.symm.trans hother
    replace hbytes : last.shared.stateDir.bytes = some content := hbytes
    exact .inr ⟨st, hst, hstate, by rw [hbytes, hload]⟩

theorem Readable.loads {initial : Option Bytes} (h : Readable env initial w)
    (hinitial : ∃ st, env.load initial = .ok st) :
    ∃ st, env.load w.stateDir.bytes = .ok st := by
  rcases h with h | ⟨st, -, -, hload⟩
  · rwa [h]
  · exact ⟨some st, hload⟩

/-- At every moment of a life the state file is readable. -/
theorem life_readable (h : Started env w) (hsound : AllSound w) (hnone : w.trail.passed = [])
    (run : (daemon env tasks w).Run moves last)
    (hfaithful : ∀ m ∈ moves, ∀ st ∈ m.after.trail.passed, env.Faithful st) (hclear : ∀ m ∈ moves, ¬ Clash m.after.core) :
    (Readable env w.stateDir.bytes last.shared ∧ last.shared.stateDir.Ok) ∧
      ∀ m ∈ moves, Readable env w.stateDir.bytes m.after := by
  have hpassed : ∀ {moves : List (Move World)} {last : Pool World Outside Reply}, (daemon env tasks w).Run moves last →
      (∀ m ∈ moves, ∀ st ∈ m.after.trail.passed, env.Faithful st) → ∀ st ∈ last.shared.trail.passed, env.Faithful st := by
    intro moves last run hfaithful
    refine run.keeps (X := fun u => ∀ st ∈ u.trail.passed, env.Faithful st)
      (fun st hst => ?_) fun m hm _ => hfaithful m hm
    replace hst : st ∈ w.trail.passed := hst
    rw [hnone] at hst
    cases hst
  refine ⟨run_readable h hsound run (hpassed run hfaithful) hclear, fun m hm => ?_⟩
  obtain ⟨before, after, rfl⟩ := List.append_of_mem hm
  have hsplit : before ++ m :: after = (before ++ [m]) ++ after := by simp
  rw [hsplit] at run hfaithful hclear
  obtain ⟨mid, hfirst, -⟩ := run.split
  have hfaithful' : ∀ n ∈ before ++ [m], ∀ st ∈ n.after.trail.passed, env.Faithful st :=
    fun n hn => hfaithful n (List.mem_append_left _ hn)
  have hmid := (run_readable h hsound hfirst (hpassed hfirst hfaithful') fun n hn => hclear n (List.mem_append_left _ hn)).1
  rwa [← hfirst.after_eq] at hmid

end

/-- Over any number of lives of the daemon, each killed after any step and each under any configuration, and any interleaving of whatever it does: while no savers overlap, the state file can be loaded at every moment, if what the serializer writes can be read back. -/
theorem state_file_always_loads {env : Env} {disk last : World} {lives : List Life} (hdir : disk.stateDir.Ok)
    (hdisk : ∃ st, env.load disk.stateDir.bytes = .ok st) (hlives : Lives env disk lives last)
    (hfaithful : ∀ life ∈ lives, ∀ m ∈ life.moves, ∀ st ∈ m.after.trail.passed, env.Faithful st)
    (hclear : ∀ life ∈ lives, ∀ m ∈ life.moves, ¬ Clash m.after.core) :
    (∃ st, env.load last.stateDir.bytes = .ok st) ∧
      ∀ life ∈ lives, ∀ m ∈ life.moves, ∃ st, env.load m.after.stateDir.bytes = .ok st := by
  suffices h : last.stateDir.Ok ∧ (∃ st, env.load last.stateDir.bytes = .ok st) ∧
      ∀ life ∈ lives, ∀ m ∈ life.moves, ∃ st, env.load m.after.stateDir.bytes = .ok st from h.2
  induction hlives with
  | none => exact ⟨hdir, hdisk, fun _ h => nomatch h⟩
  | @next lives left w cfg tasks moves last earlier restarted run ih =>
      have hold : ∀ life ∈ lives, life ∈ lives ++ [⟨cfg, tasks, moves⟩] := fun life h => List.mem_append_left _ h
      have hnew : (⟨cfg, tasks, moves⟩ : Life) ∈ lives ++ [⟨cfg, tasks, moves⟩] := by simp
      obtain ⟨hleft, hload, hmoves⟩ :=
        ih (fun life h => hfaithful life (hold life h)) fun life h => hclear life (hold life h)
      obtain ⟨hstarted, hsound⟩ := restarted.started hleft
      have hfiles : w.stateDir = left.stateDir ∧ w.trail.passed = [] := by
        obtain ⟨_, _, _, _, _⟩ := restarted
        exact ⟨rfl, rfl⟩
      -- The configuration has no part in how the state file is read.
      have hinitial : ∃ st, Env.load { env with cfg := cfg } w.stateDir.bytes = .ok st := by
        rw [hfiles.1]
        exact hload
      obtain ⟨⟨hlast, hlastdir⟩, hlife⟩ := life_readable hstarted hsound hfiles.2 run (hfaithful _ hnew) (hclear _ hnew)
      refine ⟨hlastdir, hlast.loads hinitial, fun life hmem m hm => ?_⟩
      rcases List.mem_append.mp hmem with hmem | hmem
      · exact hmoves life hmem m hm
      · cases List.mem_singleton.mp hmem
        exact (hlife m hm).loads hinitial

/-- The daemon is killed when the state is saved, and again in its next life when the next one is in place. -/
theorem state_file_always_loads_twice : ∃ lives last,
    Lives Sample.refreshEnv (Sample.slotsDisk Sample.refreshEnv) lives last ∧ lives.length = 2 ∧
    Sample.refreshEnv.namedSlots last.stateDir.bytes = [("x", "a")] ∧
    (∃ st, Sample.refreshEnv.load last.stateDir.bytes = .ok st) ∧
      ∀ life ∈ lives, ∀ m ∈ life.moves, ∃ st, Sample.refreshEnv.load m.after.stateDir.bytes = .ok st := by
  obtain ⟨moves, mid, run, hmid⟩ := Pool.trace_reaches (Sample.steps 0 24 (Sample.fetched [2]))
    (Sample.refreshing (Sample.slotsDisk Sample.refreshEnv))
    (fun moves mid => (Sample.refreshed moves mid && moves.all fun m => m.thread = 0) &&
      (loadStartup Sample.refreshEnv (fun path => (mid.shared.cacheDir.bytes path).or none)
        mid.shared.stateDir.bytes).isSome &&
      (Pool.trace (Sample.steps 0 14 (Sample.fetched [1])) (Sample.refreshing mid.shared)).any
        fun r => Sample.refreshed r.1 r.2 && r.1.all fun m => m.thread = 0) (by decide +kernel)
  simp only [Bool.and_eq_true] at hmid
  obtain ⟨⟨⟨hfirst, halone⟩, hagain⟩, htrace⟩ := hmid
  obtain ⟨moves', last, run', hlast⟩ := Pool.trace_reaches _ _
    (fun moves last => Sample.refreshed moves last && moves.all fun m => m.thread = 0) htrace
  simp only [Bool.and_eq_true, Sample.refreshed, decide_eq_true_eq, List.all_eq_true] at hfirst hlast halone
  have hbegun : Restarted Sample.refreshEnv (Sample.slotsDisk Sample.refreshEnv) _ := Sample.restarted (by decide +kernel)
  have hbegun' : Restarted Sample.refreshEnv mid.shared _ := Sample.restarted hagain
  have hfaithful : ∀ {moves : List (Move World)}, Sample.checked [("x", "b")] [("x", "a")] Sample.refresh moves = true →
      ∀ m ∈ moves, ∀ st ∈ m.after.trail.passed, Sample.refreshEnv.Faithful st :=
    fun h m hm => (Sample.of_checked h hm).2
  have hdisk : (Sample.slotsDisk Sample.refreshEnv).stateDir.Ok := (Sample.slotsDisk_grounded (by decide +kernel)).dir
  obtain ⟨hstart, hsound⟩ := hbegun.started hdisk
  have hclear := solo_clear hstart run 0 halone
  have hmid := (life_readable hstart hsound rfl run (hfaithful hfirst.1) hclear).1.2
  have hclear' := solo_clear (hbegun'.started hmid).1 run' 0 hlast.2
  have hlives : Lives Sample.refreshEnv (Sample.slotsDisk Sample.refreshEnv)
      [⟨Sample.refreshEnv.cfg, Sample.refresh, moves⟩, ⟨Sample.refreshEnv.cfg, Sample.refresh, moves'⟩] last.shared :=
    @Lives.next Sample.refreshEnv _ _ _ _ Sample.refreshEnv.cfg Sample.refresh moves' last
      (@Lives.next Sample.refreshEnv _ _ _ _ Sample.refreshEnv.cfg Sample.refresh moves mid .none hbegun run) hbegun' run'
  refine ⟨_, _, hlives, rfl, hlast.1.2, state_file_always_loads hdisk hbegun.loads hlives ?_ ?_⟩
  · simp only [List.mem_cons, List.not_mem_nil, or_false, forall_eq_or_imp, forall_eq]
    exact ⟨hfaithful hfirst.1, hfaithful hlast.1.1⟩
  · simp only [List.mem_cons, List.not_mem_nil, or_false, forall_eq_or_imp, forall_eq]
    exact ⟨hclear, hclear'⟩

end Causeway

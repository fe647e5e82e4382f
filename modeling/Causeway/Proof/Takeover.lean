import Causeway.Concurrent.Arrival
import Causeway.Proof.Exclusion

/-!
# Takeover

Wherever the daemons of a host have been killed, the next start finds the lock free and nobody listening, removes the socket that is left, and comes to listen itself.
-/

namespace Causeway

open Concurrent Prog

/-- The files are such as the daemon makes them, or they are not there. -/
structure Host.Ready (w : Host) : Prop where
  runDir : ∀ found, w.runDir = some found → found.fileType = .dir
  lockFile : ∀ found, w.lockFile = some found → found.fileType = .file
  typed : w.Typed

/-- No process has anything. -/
structure Host.Vacant (w : Host) : Prop where
  lock : w.lock = none
  listening : ∀ identity, w.listening identity = none

/-- Nobody is killed, nothing fails, and where nobody listens the attempt to connect shows it. -/
structure Sys.Granted (sys : Sys) : Prop where
  killed : sys.killed = false
  error : sys.error = none
  refused : Proc.refused sys.connect = true

/-! ### What is left behind -/

theorem Hardens.typed {fileType : FileType} {mode : Nat} {before after : Option Metadata}
    (h : Hardens fileType mode before after)
    (hbefore : ∀ found, before = some found → found.fileType = fileType) :
    ∀ found, after = some found → found.fileType = fileType := by
  cases h with
  | same => exact hbefore
  | created free htyped =>
      rintro _ ⟨⟩
      exact htyped
  | @secured found old =>
      rintro _ ⟨⟩
      exact hbefore found old

theorem Handles.ready {i : Nat} {k l : Tenure} {s t : Host} (h : Handles i k s t l) (hs : s.Ready) : t.Ready := by
  refine ⟨h.steadies.runDir.typed hs.runDir, h.steadies.lockFile.typed hs.lockFile, ?_⟩
  have htyped := hs.typed
  cases h with
  | still neutral =>
      rw [Host.Typed, neutral.socket]
      exact htyped
  | checked neutral =>
      rw [Host.Typed, neutral.socket]
      exact htyped
  | removed =>
      rintro _ ⟨⟩
  | unlinked =>
      rintro _ ⟨⟩
  | bound =>
      rintro _ ⟨⟩
      rfl
  | secured =>
      intro found hfound
      obtain ⟨old, hold, rfl⟩ := Option.map_eq_some_iff.mp hfound
      exact htyped old hold
  | unlocked =>
      rw [Host.Typed, Host.unlock_socket]
      exact htyped
  | resigned =>
      rw [Host.Typed, Host.unlock_socket]
      exact htyped
  | killed =>
      rw [Host.Typed, Host.kill_socket]
      exact htyped
  | _ => exact htyped

section

variable {cfg : FilesConfig} {w : Host} {moves : List (Move Host)} {last : Pool Host Sys (Except Exit Unit)} {i : Nat}

theorem Host.Vacant.fresh (h : w.Vacant) : w.Fresh :=
  ⟨h.lock, fun identity party hparty => by cases (h.listening identity).symm.trans hparty⟩

/-- Once every process that has started has ended or was killed, nobody has the lock, and nobody listens. -/
theorem vacant_of_ended (h : w.Vacant) (run : (instances cfg w).Run moves last)
    (hended : ∀ j, Pool.own j moves = [] ∨ ∃ r, last.thread j = .done r) : last.shared.Vacant := by
  obtain ⟨⟨hmine, -, hkept⟩, hthreads⟩ := run.chronicle (instance_tenures h.fresh)
  have hlock : last.shared.lock = none := by
    cases hlock : last.shared.lock with
    | none => rfl
    | some j =>
        obtain ⟨⟨l, story, htells⟩, hY⟩ := hthreads j
        have hout : l.Out := by
          rcases hended j with hnone | ⟨r, hdone⟩
          · rw [hnone] at story
            cases story
            exact ⟨0, rfl⟩
          · rw [hdone] at htells
            replace htells : Ends (fun _ => Tenure.Out) Tenure.Out r l := htells
            cases htells with
            | ok hout => exact hout
            | failed hout => exact hout
            | killed => exact ⟨0, rfl⟩
        obtain ⟨stage, rfl⟩ := hout
        cases hY _ story with
        | out hfree => exact absurd hlock hfree
  refine ⟨hlock, fun identity => ?_⟩
  cases hlistening : last.shared.listening identity with
  | none => rfl
  | some party =>
      cases party with
      | process j => cases hlock.symm.trans (hmine identity j hlistening)
      | legacy => cases (h.listening identity).symm.trans ((hkept identity).mp hlistening)

theorem ready_of_run (h : w.Vacant) (hready : w.Ready) (run : (instances cfg w).Run moves last) : last.shared.Ready := by
  refine run.keeps (X := Host.Ready) hready fun m hm hbefore => ?_
  obtain ⟨j, k, -, -, hstep⟩ := instance_step h.fresh run hm
  exact hstep.ready hbefore

end

/-! ### What a start does alone -/

namespace Proc

variable {α β : Type} {i : Nat} {w : Host} {G : α → Host → Prop} {cfg : FilesConfig} {path : String}

/-- If nothing fails, this part of the program ends so. -/
def Succeeds (p : Proc α) (w : Host) (G : α → Host → Prop) : Prop :=
  Prog.Concludes Sys.Granted (fun r t => ∃ a, r = .ok a ∧ G a t) p.run w

namespace Succeeds

theorem pure {a : α} (h : G a w) : Succeeds (Pure.pure a) w G := ⟨a, rfl, h⟩

theorem bind {p : Proc α} {q : α → Proc β} {other : β → Host → Prop} (hp : Succeeds p w G)
    (hq : ∀ a t, G a t → Succeeds (q a) t other) : Succeeds (p >>= q) w other := by
  rw [Succeeds, ExceptT.run_bind]
  refine Concludes.bind hp fun r t hr => ?_
  obtain ⟨a, rfl, ha⟩ := hr
  exact hq a t ha

theorem call {f : Sys → Host → α × Host} (h : ∀ sys : Sys, sys.Granted → G (f sys w).1 (f sys w).2) :
    Succeeds (Proc.call i f) w G := by
  intro sys hsys
  refine ⟨.ok (f sys w).1, (f sys w).2, ?_, _, rfl, h sys hsys⟩
  dsimp only
  rw [hsys.killed]
  rfl

theorem check {context : String} {f : Sys → Host → Except ErrorKind α × Host}
    (h : ∀ sys : Sys, sys.Granted → ∃ a t, f sys w = (.ok a, t) ∧ G a t) :
    Succeeds (Proc.check context (Proc.call i f)) w G := by
  refine Succeeds.bind (.call (G := fun r t => ∃ a, r = .ok a ∧ G a t) fun sys hsys => ?_) fun r t hr => ?_
  · obtain ⟨a, t, hf, ha⟩ := h sys hsys
    rw [hf]
    exact ⟨a, rfl, ha⟩
  · obtain ⟨a, rfl, ha⟩ := hr
    exact .pure ha

theorem ensure {p : Prop} [Decidable p] {error : String} (hp : p) {G : Unit → Host → Prop} (h : G () w) :
    Succeeds (Proc.ensure p error) w G := by
  unfold Proc.ensure
  rw [if_pos hp]
  exact .pure h

end Succeeds

theorem attempt_granted {sys : Sys} (hsys : sys.Granted) (f : Except ErrorKind α × Host) : sys.attempt w f = f := by
  rw [Sys.attempt, hsys.error]

/-- The run directory is there; only files have changed. -/
structure Prepared (w t : Host) (opened : Prop) : Prop where
  socket : t.socket = w.socket
  lock : t.lock = w.lock
  listening : t.listening = w.listening
  runDir : ∃ found, t.runDir = some found ∧ found.fileType = .dir
  lockFile : ∀ found, t.lockFile = some found → found.fileType = .file
  opened : opened → t.lockFile.isSome = true

theorem succeeds_createDirAll {context : String} (hw : ∀ found, w.runDir = some found → found.fileType = .dir)
    (hfile : ∀ found, w.lockFile = some found → found.fileType = .file) :
    Succeeds (Proc.check context (Proc.call i fun sys w => w.createDirAll sys)) w fun _ t => Prepared w t False := by
  refine .check fun sys hsys => ?_
  rw [Host.createDirAll, attempt_granted hsys]
  cases hrunDir : w.runDir with
  | none => exact ⟨(), _, rfl, rfl, rfl, rfl, ⟨_, rfl, rfl⟩, hfile, False.elim⟩
  | some found =>
      have hdir := hw found hrunDir
      refine ⟨(), w, ?_, rfl, rfl, rfl, ⟨found, hrunDir, hdir⟩, hfile, False.elim⟩
      dsimp only
      rw [if_pos (.inl hdir)]

theorem succeeds_metadata {context : String} {file : Host → Option Metadata} {found : Metadata}
    (h : file w = some found) :
    Succeeds (Proc.check context (Proc.call i fun sys w => w.metadata sys (file w))) w fun a t => a = found ∧ t = w := by
  refine .check fun sys hsys => ?_
  unfold Host.metadata
  rw [attempt_granted hsys, h]
  exact ⟨found, w, rfl, rfl, rfl⟩

theorem succeeds_acquire (hw : w.Ready) (hlock : w.lock = none) : Succeeds (acquire cfg i) w fun _ t =>
    t.lock = some i ∧ t.socket = w.socket ∧ t.listening = w.listening ∧ ∃ found, t.runDir = some found ∧
      found.fileType = .dir := by
  unfold acquire
  refine Succeeds.bind (succeeds_createDirAll hw.runDir hw.lockFile) fun _ t ht => ?_
  obtain ⟨dir, hdir, htyped⟩ := ht.runDir
  refine Succeeds.bind (succeeds_metadata hdir) fun found u hu => ?_
  obtain ⟨rfl, rfl⟩ := hu
  refine Succeeds.bind (.ensure (G := fun _ v => v = u) htyped rfl) fun _ v hv => ?_
  subst hv
  refine Succeeds.bind (.check (G := fun _ t => Prepared w t False) fun sys hsys => ?_) fun _ t ht => ?_
  · rw [Host.secureRunDir, attempt_granted hsys]
    exact ⟨(), _, rfl, ht.socket, ht.lock, ht.listening, ⟨_, congrArg (Option.map _) hdir, htyped⟩, ht.lockFile,
      False.elim⟩
  refine Succeeds.bind (.check (G := fun _ t => Prepared w t True) fun sys hsys => ?_) fun _ t ht => ?_
  · unfold Host.openLock
    rw [attempt_granted hsys]
    cases hfile : t.lockFile with
    | none => exact ⟨(), _, rfl, ht.socket, ht.lock, ht.listening, ht.runDir, fun _ h => by cases h; rfl, fun _ => rfl⟩
    | some found =>
        refine ⟨(), t, ?_, ht.socket, ht.lock, ht.listening, ht.runDir, ht.lockFile, fun _ => by rw [hfile]; rfl⟩
        dsimp only
        rw [ht.lockFile found hfile]
  obtain ⟨file, hfile⟩ := Option.isSome_iff_exists.mp (ht.opened trivial)
  refine Succeeds.bind (succeeds_metadata hfile) fun found u hu => ?_
  obtain ⟨rfl, rfl⟩ := hu
  refine Succeeds.bind (.ensure (G := fun _ v => v = u) (ht.lockFile found hfile) rfl) fun _ v hv => ?_
  subst hv
  refine Succeeds.bind (.check (G := fun _ t => Prepared w t False) fun sys hsys => ?_) fun _ t ht => ?_
  · rw [Host.secureLock, attempt_granted hsys]
    refine ⟨(), _, rfl, ht.socket, ht.lock, ht.listening, ht.runDir, fun found hfound => ?_, False.elim⟩
    obtain ⟨old, hold, rfl⟩ := Option.map_eq_some_iff.mp hfound
    exact ht.lockFile old hold
  refine Succeeds.bind (.call (G := fun r u => r = .ok () ∧ u = { t with lock := some i }) fun sys hsys => ?_)
    fun r u hr => ?_
  · rw [Host.flock, attempt_granted hsys, ht.lock, hlock]
    exact ⟨rfl, rfl⟩
  · obtain ⟨rfl, rfl⟩ := hr
    exact .pure ⟨rfl, ht.socket, ht.listening, ht.runDir⟩

/-- The path is free, and nothing else has changed. -/
def Cleared (w t : Host) : Prop := t = { w with socket := none }

theorem succeeds_removeStaleControlSocket (htyped : w.Typed) (hquiet : ∀ identity, w.listening identity = none) :
    Succeeds (removeStaleControlSocket i path) w fun _ t => Cleared w t := by
  unfold removeStaleControlSocket
  cases hsocket : w.socket with
  | none =>
      refine Succeeds.bind (.call (G := fun r t => r = .error .notFound ∧ t = w) fun sys hsys => ?_) fun r t hr => ?_
      · unfold Host.metadata
        rw [attempt_granted hsys, hsocket]
        exact ⟨rfl, rfl⟩
      · obtain ⟨rfl, rfl⟩ := hr
        refine .pure ?_
        rw [Cleared, ← hsocket]
  | some found =>
      refine Succeeds.bind (.call (G := fun r t => r = .ok found ∧ t = w) fun sys hsys => ?_) fun r t hr => ?_
      · unfold Host.metadata
        rw [attempt_granted hsys, hsocket]
        exact ⟨rfl, rfl⟩
      obtain ⟨rfl, rfl⟩ := hr
      refine Succeeds.bind (.ensure (G := fun _ v => v = t) (htyped found hsocket) rfl) fun _ v hv => ?_
      subst hv
      rw [livenessConfirmations, confirmStale]
      refine Succeeds.bind (.call (G := fun r t => refused r = true ∧ t = v) fun sys hsys => ?_) fun r t hr => ?_
      · refine ⟨?_, rfl⟩
        unfold Host.connect
        rw [hsocket]
        dsimp only
        rw [hquiet]
        exact hsys.refused
      obtain ⟨hrefused, rfl⟩ := hr
      split
      · cases hrefused
      · rw [refused] at hrefused
        rw [if_pos hrefused]
        refine Succeeds.bind (succeeds_metadata hsocket) fun current u hu => ?_
        obtain ⟨rfl, rfl⟩ := hu
        refine Succeeds.bind (.ensure (G := fun _ v => v = u) ⟨htyped current hsocket, rfl⟩ rfl) fun _ v hv => ?_
        subst hv
        refine .check fun sys hsys => ?_
        unfold Host.removeSocket
        rw [attempt_granted hsys, hsocket]
        dsimp only
        rw [if_neg]
        · exact ⟨(), _, rfl, rfl⟩
        · rw [htyped current hsocket]
          decide
      · cases hrefused

/-- The process listens on the socket at the path. -/
def Serves (i : Nat) (w : Host) : Prop := ∃ identity, w.listening identity = some (.process i) ∧ w.AtPath identity

theorem Succeeds.arrives {p : Proc α} {q : α → Proc β} {X : Host → Prop} (hp : Succeeds p w G)
    (hq : ∀ a t, G a t → Prog.Arrives Sys.Granted X (q a).run t) : Prog.Arrives Sys.Granted X (p >>= q).run w := by
  rw [ExceptT.run_bind]
  refine Arrives.second hp fun r t hr => ?_
  obtain ⟨a, rfl, ha⟩ := hr
  exact hq a t ha

theorem arrives_bindControlSocket (htyped : w.Typed) (hquiet : ∀ identity, w.listening identity = none)
    (hdir : ∃ found, w.runDir = some found ∧ found.fileType = .dir) :
    Prog.Arrives Sys.Granted (Serves i) (bindControlSocket cfg i).run w := by
  obtain ⟨dir, hrunDir, hdir⟩ := hdir
  unfold bindControlSocket
  refine Succeeds.arrives (.check (G := fun _ t => t = w) fun sys hsys => ?_) fun _ t ht => ?_
  · unfold Host.createDirAll
    rw [attempt_granted hsys, hrunDir]
    dsimp only
    rw [if_pos (.inl hdir)]
    exact ⟨(), w, rfl, rfl⟩
  subst ht
  refine Succeeds.arrives (succeeds_removeStaleControlSocket htyped hquiet) fun _ u hu => ?_
  have hfree : u.socket = none ∧ u.listening = t.listening := by
    rw [hu]
    exact ⟨rfl, rfl⟩
  refine Succeeds.arrives (.check (G := fun identity v => v.AtPath identity) fun sys hsys => ?_) fun identity v hv => ?_
  · unfold Host.bindSocket
    rw [attempt_granted hsys, hfree.2, if_pos ⟨hfree.1, hquiet _⟩]
    exact ⟨sys.identity, _, rfl, sys.mode, rfl⟩
  refine Succeeds.arrives (.check (G := fun _ x => Serves i x) fun sys hsys => ?_) fun _ x hx => .now hx
  rw [Host.listen, attempt_granted hsys]
  exact ⟨(), _, rfl, identity, Function.update_self _ _ _, hv⟩

theorem arrives_runDaemon (hw : w.Ready) (hvacant : w.Vacant) :
    Prog.Arrives Sys.Granted (Serves i) (runDaemon cfg i).run w := by
  unfold runDaemon
  refine Succeeds.arrives (succeeds_acquire hw hvacant.lock) fun _ t ht => ?_
  obtain ⟨-, hsocket, hlistening, hdir⟩ := ht
  rw [ExceptT.run_bind]
  refine Arrives.first ?_
  rw [orDrop, ExceptT.run_mk]
  refine Arrives.first ?_
  rw [ExceptT.run_bind]
  refine Arrives.first (arrives_bindControlSocket ?_ (fun identity => ?_) hdir)
  · rw [Host.Typed, hsocket]
    exact hw.typed
  · rw [hlistening]
    exact hvacant.listening identity

end Proc

theorem Sample.emptyHost_ready : Sample.emptyHost.Ready :=
  ⟨by rintro _ ⟨⟩, by rintro _ ⟨⟩, by rintro _ ⟨⟩⟩

def Sample.ended {α : Type} : Prog Host Sys α → Bool
  | .done _ => true
  | .step _ _ => false

theorem Sample.of_ended {α : Type} {p : Prog Host Sys α} (h : Sample.ended p = true) : ∃ r, p = .done r := by
  cases p with
  | done r => exact ⟨r, rfl⟩
  | step act next => cases h

/-- Wherever the daemons of a run have ended or were killed, the next process that starts and is let run comes to listen on its own socket at the path. -/
theorem restart_takes_over {cfg : FilesConfig} {w : Host} {moves : List (Move Host)}
    {last : Pool Host Sys (Except Exit Unit)}
    {i : Nat} {events : Nat → Sys} (h : w.Vacant) (hready : w.Ready) (run : (instances cfg w).Run moves last)
    (hended : ∀ j, Pool.own j moves = [] ∨ ∃ r, last.thread j = .done r) (hstart : Pool.own i moves = [])
    (hevents : ∀ n, (events n).Granted) :
    ∃ count final, Pool.exec (Pool.alone i events count) last = some final ∧
      ∃ identity, final.shared.listening identity = some (.process i) ∧ final.shared.AtPath identity := by
  have hthread : last.thread i = (runDaemon cfg i).run := by
    have hpath := run.path i
    rw [hstart] at hpath
    exact hpath.eq_of_nil
  have harrives := @Proc.arrives_runDaemon i last.shared cfg (ready_of_run h hready run) (vacant_of_ended h run hended)
  rw [← hthread] at harrives
  exact Pool.exec_arrives harrives hevents

/-- The first daemon is killed while it serves; the second one takes over. -/
theorem restart_takes_over_killed : ∃ moves last count final,
    (instances Sample.instanceConfig Sample.emptyHost).Run moves last ∧ last.shared.socket.isSome = true ∧
      Pool.exec (Pool.alone 1 (fun _ => Sample.granted) count) last = some final ∧
      ∃ identity, final.shared.listening identity = some (.process 1) ∧ final.shared.AtPath identity := by
  obtain ⟨moves, last, run, hthreads, hlast⟩ := Pool.exec_reaches
    (Sample.calls 0 13 Sample.granted ++ Sample.calls 0 1 { Sample.granted with killed := true })
    (instances Sample.instanceConfig Sample.emptyHost)
    (fun pool => pool.shared.socket.isSome && Sample.ended (pool.thread 0)) (by decide +kernel)
  rw [Bool.and_eq_true] at hlast
  have hown : ∀ j, j ≠ 0 → Pool.own j moves = [] := by
    intro j hj
    rw [Pool.own, List.map_eq_nil_iff, List.filter_eq_nil_iff]
    intro m hm hthread
    have hmem : m.thread ∈ moves.map (·.thread) := List.mem_map_of_mem hm
    rw [hthreads] at hmem
    have hzero : m.thread = 0 := by simpa [Sample.calls] using hmem
    exact hj ((of_decide_eq_true hthread).symm.trans hzero)
  have hended : ∀ j, Pool.own j moves = [] ∨ ∃ r, last.thread j = .done r := by
    intro j
    by_cases hj : j = 0
    · subst hj
      exact .inr (Sample.of_ended hlast.2)
    · exact .inl (hown j hj)
  obtain ⟨count, final, hexec, hserves⟩ :=
    restart_takes_over ⟨rfl, fun _ => rfl⟩ Sample.emptyHost_ready run hended (hown 1 Nat.one_ne_zero)
    (fun _ => (⟨rfl, rfl, by decide⟩ : Sample.granted.Granted))
  exact ⟨moves, last, count, final, run, hlast.1, hexec, hserves⟩

end Causeway

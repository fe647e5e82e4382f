import Causeway.Proof.Calls
import Causeway.Proof.Launches

/-!
# Supervision of adapters

Runs of any number of planes on one machine. What a plane has made is either in use or has been given back, and nobody else's files and processes are ever touched.
-/

namespace Causeway

open Concurrent Prog

/-- A machine on which no plane was started yet. -/
structure Plant.Fresh (w : Plant) : Prop where
  files : ∀ name file, w.files name = some file → file.creator = none
  processes : ∀ pid entry, w.processes pid = some entry → entry.parent = none
  sockets : ∀ socket ∈ w.sockets, ∀ i, .thread i ∉ socket.holders
  held : w.held = []
  old : ∀ socket ∈ w.sockets, socket.inode < w.nextInode
  same : ∀ socket ∈ w.sockets, ∀ other ∈ w.sockets, other.inode = socket.inode → other.Alike socket

def nodeOf (lives : Nat → Node × Nat) (i : Nat) : Node := (lives (i - 1)).1

section

variable {plane : DispatchPlane} {lives : Nat → Node × Nat} {node : Node} {count i : Nat} {w s t : Plant}
  {moves : List (Move Plant)} {last : Pool Plant Answer (Except Halt (List (Except Halt (Except String Unit))))}
  {k l : Estate} {h : Held}

theorem Plant.Fresh.sane (h : w.Fresh) : w.Sane where
  mode name file hfile hcreator := absurd (h.files name file hfile) hcreator
  old := h.old
  same := h.same

theorem Plant.Fresh.owns (h : w.Fresh) : Owns plane node i w .bare where
  files := by
    refine ⟨?_, List.nodup_nil, fun name file hfile hcreator => ?_, ?_⟩
    · rintro _ ⟨⟩
    · cases (h.files name file hfile).symm.trans hcreator
    · rintro _ ⟨⟩
  sockets socket hsocket hi := absurd hi (h.sockets socket hsocket i)
  child := by
    refine ⟨?_, fun pid entry hentry hparent => ?_⟩
    · rintro _ ⟨⟩
    · cases (h.processes pid entry hentry).symm.trans hparent
  sight := by
    refine ⟨?_, ?_⟩ <;> rintro _ ⟨⟩
  held found hfound := by
    rw [h.held] at hfound
    cases hfound
  backed := by rintro _ ⟨⟩

/-- How a plane's life may end. -/
def LifeEnds : Except Halt (List (Except Halt (Except String Unit))) → Estate → Prop :=
  Results (fun results l => Plane.Cleared l ∧ (.ok (.ok ()) ∈ results → Plane.Spotless l)) fun _ => Plane.Cleared

theorem planes_chronicle (hw : w.Fresh) :
    Pool.Chronicle (fun i => Manages plane (nodeOf lives i) i) (fun _ => LifeEnds) (fun _ => .bare) Plant.Sane
      (fun i k s => Owns plane (nodeOf lives i) i s k) (planes plane lives count w) moves where
  tells i := by
    cases i with
    | zero =>
        refine Tries.weaken (Plane.runs_elsewhere (B := Plane.Cleared)) (fun _ l hl => ?_) fun _ _ h => h
        rw [hl]
        exact ⟨⟨rfl, rfl, rfl, rfl⟩, fun _ => ⟨rfl, rfl⟩⟩
    | succ i => exact Plane.runs_lifeOf
  shared := hw.sane
  threads i := hw.owns
  own m _ k l hstep hsane howns := ⟨hstep.sane hsane howns, hstep.own hsane howns⟩
  others m _ i hi j k l hstep howns hother := hstep.others howns hi hother

/-- What every thread has at each of its own steps. -/
theorem planes_story (hw : w.Fresh) (run : (planes plane lives count w).Run moves last)
    (hstory : Story (Manages plane (nodeOf lives i) i) .bare (Pool.own i moves) k) :
    Story (fun k s t l => Owns plane (nodeOf lives i) i s k ∧ Manages plane (nodeOf lives i) i k s t l) .bare
      (Pool.own i moves) k :=
  run.owned (planes_chronicle hw) hstory

/-- What every thread has at the end of a run. -/
theorem planes_estate (hw : w.Fresh) (run : (planes plane lives count w).Run moves last) (i : Nat) :
    ∃ k, Story (Manages plane (nodeOf lives i) i) .bare (Pool.own i moves) k ∧
      Owns plane (nodeOf lives i) i last.shared k ∧
      (last.thread i).Tells (Manages plane (nodeOf lives i) i) LifeEnds k := by
  obtain ⟨-, hthreads⟩ := run.chronicle (planes_chronicle hw)
  obtain ⟨⟨k, hstory, htells⟩, howns⟩ := hthreads i
  exact ⟨k, hstory, howns k hstory, htells⟩

end

/-! ### A run of one plane -/

def Sample.dispatchPlane : DispatchPlane :=
  ⟨⟨"/opt/sslocal", "/opt/obfs-local", ["example.org"]⟩, ⟨"/opt/sing-box", []⟩, "/work", 7,
    [("HTTP_PROXY", "http://127.0.0.1:1"), ("HOME", "/home")], .little, fun _ => some "{}".toUTF8.toList⟩

def Sample.adapterNode : Node := .ss ⟨"one", "server", 443, "aes-256-gcm", "secret", none⟩

def Sample.emptyPlant : Plant := ⟨0, fun _ => none, fun _ => none, [], 1, [], []⟩

theorem Sample.emptyPlant_fresh : Sample.emptyPlant.Fresh :=
  ⟨by rintro _ _ ⟨⟩, by rintro _ _ ⟨⟩, by rintro _ ⟨⟩, rfl, by rintro _ ⟨⟩, by rintro _ ⟨⟩⟩

def Sample.calm : Answer := { ok := true }

def Sample.adapterPool : Pool Plant Answer (Except Halt (List (Except Halt (Except String Unit)))) :=
  planes Sample.dispatchPlane (fun _ => (Sample.adapterNode, 1)) 3 Sample.emptyPlant

/-- A start takes its ports, writes its files and spawns its child, which then listens. -/
def Sample.launchSchedule : List (Nat × Answer) :=
  [(1, { port := 1000 }), (1, { port := 1001 })] ++ List.replicate 20 (1, Sample.calm) ++ [(1, { pid := 9 }),
    (0, { happening := .opens 9 (loopback 1000) tcpListen }), (0, { happening := .opens 9 (loopback 1001) tcpListen })] ++
      List.replicate 5 (1, Sample.calm)

/-- The handle is stopped: the child is killed, and waited for once it has exited. -/
def Sample.stopSchedule : List (Nat × Answer) :=
  List.replicate 3 (1, Sample.calm) ++ [(0, { happening := .exits 9 })] ++ List.replicate 3 (1, Sample.calm)

/-- The stop is dropped while it waits, and the handle's configuration cannot be removed. -/
def Sample.spoiledSchedule : List (Nat × Answer) :=
  List.replicate 3 (1, Sample.calm) ++ [(1, { dropped := true }), (1, { error := some .permissionDenied })] ++
    List.replicate 3 (1, Sample.calm) ++ [(1, { error := some .permissionDenied }), (1, Sample.calm)]

def Sample.returned {α : Type} : Prog Plant Answer α → Option α
  | .done value => some value
  | .step _ _ => none

theorem Sample.of_returned {α : Type} {p : Prog Plant Answer α} {value : α} (h : Sample.returned p = some value) :
    p = .done value := by
  cases p with
  | done other => rw [Option.some.inj h]
  | step act next => cases h

def Sample.stoppedWell (pool : Pool Plant Answer (Except Halt (List (Except Halt (Except String Unit))))) : Bool :=
  decide (Sample.returned (pool.thread 1) = some (.ok [.ok (.ok ())]))

def Sample.spoiled (pool : Pool Plant Answer (Except Halt (List (Except Halt (Except String Unit))))) : Bool :=
  (Sample.returned (pool.thread 1)).isSome && decide (pool.shared.warnings = ["sslocal-7-0000000000000001.json"])

def Sample.launched (pool : Pool Plant Answer (Except Halt (List (Except Halt (Except String Unit))))) : Bool :=
  decide (pool.shared.held.map (·.pid) = [9]) && ((Pool.exec Sample.stopSchedule pool).any Sample.stoppedWell &&
    (Pool.exec Sample.spoiledSchedule pool).any Sample.spoiled)

/-- A start, after which the plane is stopped in one way or the other. -/
theorem Sample.adapter_runs : ∃ moves mid, Sample.adapterPool.Run moves mid ∧
    mid.shared.held.map (·.pid) = [9] ∧
      (∃ others last, mid.Run others last ∧ Sample.stoppedWell last = true) ∧
      ∃ others last, mid.Run others last ∧ Sample.spoiled last = true := by
  obtain ⟨moves, mid, run, -, hmid⟩ :=
    Pool.exec_reaches Sample.launchSchedule Sample.adapterPool Sample.launched (by decide +kernel)
  rw [Sample.launched, Bool.and_eq_true, Bool.and_eq_true, decide_eq_true_eq] at hmid
  obtain ⟨hheld, hstopped, hspoiled⟩ := hmid
  obtain ⟨others, last, later, -, hlast⟩ := Pool.exec_reaches _ mid _ hstopped
  obtain ⟨others', last', later', -, hlast'⟩ := Pool.exec_reaches _ mid _ hspoiled
  exact ⟨moves, mid, run, hheld, ⟨others, last, later, hlast⟩, others', last', later', hlast'⟩

section

variable {plane : DispatchPlane} {lives : Nat → Node × Nat} {node : Node} {count i : Nat} {w s t : Plant}
  {moves : List (Move Plant)} {last : Pool Plant Answer (Except Halt (List (Except Halt (Except String Unit))))}
  {k l : Estate} {h : Held}

/-! ### The end of a life -/

theorem LifeEnds.cleared {r : Except Halt (List (Except Halt (Except String Unit)))} (h : LifeEnds r k) :
    Plane.Cleared k := by
  cases h with
  | ok h => exact h.1
  | error h => exact h

/-- However the life of a plane ends: what it created and could not remove is named in the log, its ports are free, and no process of it runs that could be killed. -/
theorem ended_plane_cleared {r : Except Halt (List (Except Halt (Except String Unit)))} (hw : w.Fresh)
    (run : (planes plane lives count w).Run moves last) (hdone : last.thread i = .done r) :
    (∀ name file, last.shared.files name = some file → file.creator = some i → name ∈ last.shared.warnings) ∧
      (∀ socket ∈ last.shared.sockets, .thread i ∉ socket.holders) ∧
      (∀ pid entry, last.shared.processes pid = some entry → entry.parent = some i →
        entry.orphaned = true ∧ (entry.state ≠ .running ∨ entry.killable = false)) ∧
      ∀ h ∈ last.shared.held, h.owner ≠ i := by
  obtain ⟨k, -, howns, htells⟩ := planes_estate hw run i
  rw [hdone] at htells
  have hcleared := LifeEnds.cleared htells
  refine ⟨fun name file hfile hcreator => ?_, fun socket hsocket hi => ?_, fun pid entry hentry hparent => ?_,
    fun h hh howner => ?_⟩
  · rcases howns.files.mine name file hfile hcreator with hmem | hleft
    · rw [hcleared.files] at hmem
      cases hmem
    · exact howns.files.left name hleft
  · obtain ⟨listener, hlistener, -⟩ := howns.sockets socket hsocket hi
    rw [hcleared.sockets] at hlistener
    cases hlistener
  · rcases howns.child.mine pid entry hentry hparent with ⟨ward, hward, -⟩ | horphan
    · cases hcleared.child.symm.trans hward
    · exact horphan.2
  · cases hcleared.held.symm.trans (howns.held h hh howner)

/-- The child has not exited yet, and the configuration is left for the log. -/
theorem ended_plane_cleared_spoiled : ∃ moves last, Sample.adapterPool.Run moves last ∧
    last.shared.warnings = ["sslocal-7-0000000000000001.json"] ∧
    (∀ name file, last.shared.files name = some file → file.creator = some 1 → name ∈ last.shared.warnings) ∧
      (∀ socket ∈ last.shared.sockets, .thread 1 ∉ socket.holders) ∧
      (∀ pid entry, last.shared.processes pid = some entry → entry.parent = some 1 →
        entry.orphaned = true ∧ (entry.state ≠ .running ∨ entry.killable = false)) ∧
      ∀ h ∈ last.shared.held, h.owner ≠ 1 := by
  obtain ⟨moves, mid, run, -, -, others, last, later, hspoiled⟩ := Sample.adapter_runs
  rw [Sample.spoiled, Bool.and_eq_true, decide_eq_true_eq] at hspoiled
  obtain ⟨r, hr⟩ := Option.isSome_iff_exists.mp hspoiled.1
  exact ⟨moves ++ others, last, run.append later, hspoiled.2,
    ended_plane_cleared Sample.emptyPlant_fresh (run.append later) (Sample.of_returned hr)⟩

/-- A step names a file in the log, or leaves the log alone. -/
theorem Manages.warns (hstep : Manages plane node i k s t l) (hk : Owns plane node i s k) :
    (t.warnings = s.warnings ∧ l.left = k.left) ∨ l.left ≠ [] := by
  cases hstep with
  | impossible h => exact absurd hk h
  | @happened _ happening => exact .inl ⟨(happen_rest s happening).2.1, rfl⟩
  | warned => exact .inr (List.cons_ne_nil _ _)
  | @orphaned _ ward =>
      refine .inl ⟨?_, rfl⟩
      unfold Plant.leave
      cases s.processes ward.pid with
      | none => rfl
      | some entry =>
          dsimp only
          split <;> rfl
  | _ => exact .inl ⟨rfl, rfl⟩

/-- A thread that has nothing in the log has never written to it. -/
theorem planes_silent {m : Move Plant} (hw : w.Fresh) (run : (planes plane lives count w).Run moves last)
    (hstory : Story (Manages plane (nodeOf lives i) i) .bare (Pool.own i moves) k) (hleft : k.left = []) (hm : m ∈ moves)
    (hi : m.thread = i) : m.after.warnings = m.before.warnings := by
  subst hi
  obtain ⟨first, rest, hown⟩ := List.append_of_mem (Pool.mem_own hm)
  have howned := planes_story hw run hstory
  rw [hown] at howned
  obtain ⟨j, l, -, ⟨howns, hstep⟩, hrest⟩ := howned.split
  have hnone : l.left = [] := hrest.held (X := fun k => k.left = []) hleft fun k s t l hstep hl => by
    rcases hstep.2.warns hstep.1 with ⟨-, hsame⟩ | hsome
    · exact hsame.symm.trans hl
    · exact absurd hl hsome
  rcases hstep.warns howns with ⟨hsame, -⟩ | hsome
  · exact hsame
  · exact absurd hnone hsome

/-- Once a stop has answered with ok, nothing of the plane is left at all, and no step of it has named a file in the log. -/
theorem stopped_plane_gone {results : List (Except Halt (Except String Unit))} (hw : w.Fresh)
    (run : (planes plane lives count w).Run moves last) (hdone : last.thread i = .done (.ok results))
    (hstopped : .ok (.ok ()) ∈ results) :
    (∀ name file, last.shared.files name = some file → file.creator ≠ some i) ∧
      (∀ pid entry, last.shared.processes pid = some entry → entry.parent ≠ some i) ∧
      ∀ m ∈ moves, m.thread = i → m.after.warnings = m.before.warnings := by
  obtain ⟨k, hstory, howns, htells⟩ := planes_estate hw run i
  rw [hdone] at htells
  have hends : LifeEnds (.ok results) k := htells
  cases hends with
  | ok h =>
      obtain ⟨hcleared, hspotless⟩ := h
      obtain ⟨hleft, horphan⟩ := hspotless hstopped
      refine ⟨fun name file hfile hcreator => ?_, fun pid entry hentry hparent => ?_,
        fun m hm => planes_silent hw run hstory hleft hm⟩
      · rcases howns.files.mine name file hfile hcreator with hmem | hmem
        · rw [hcleared.files] at hmem
          cases hmem
        · rw [hleft] at hmem
          cases hmem
      · rcases howns.child.mine pid entry hentry hparent with ⟨ward, hward, -⟩ | hfound
        · cases hcleared.child.symm.trans hward
        · cases horphan.symm.trans hfound.1

theorem stopped_plane_gone_waited : ∃ moves last, Sample.adapterPool.Run moves last ∧
    (∀ name file, last.shared.files name = some file → file.creator ≠ some 1) ∧
      (∀ pid entry, last.shared.processes pid = some entry → entry.parent ≠ some 1) ∧
      ∀ m ∈ moves, m.thread = 1 → m.after.warnings = m.before.warnings := by
  obtain ⟨moves, mid, run, -, ⟨others, last, later, hreturned⟩, -⟩ := Sample.adapter_runs
  exact ⟨moves ++ others, last, run.append later, stopped_plane_gone Sample.emptyPlant_fresh (run.append later)
    (Sample.of_returned (of_decide_eq_true hreturned)) List.mem_cons_self⟩

/-! ### What a handle stands for -/

/-- A file of the machine with this content, created by thread `i` and readable by its owner alone. -/
def Plant.Contains (w : Plant) (i : Nat) (name : String) (content : Bytes) : Prop :=
  w.files name = some ⟨content, 0o600, some i⟩

theorem FilesOf.contains {files : List (String × PrivateFile)} {left : List String} {name : String} {content : Bytes}
    {creator : Option Nat} (h : FilesOf i w.files w.warnings files left)
    (hmem : (name, (⟨content, 0o600, creator⟩ : PrivateFile)) ∈ files) : w.Contains i name content := by
  obtain ⟨hthere, hcreator⟩ := h.there _ hmem
  rw [Plant.Contains, hthere]
  dsimp only at hcreator
  rw [hcreator]

/-- Two handles that are held never stand for one process or one file. -/
theorem held_planes_apart {other : Held} (hw : w.Fresh) (run : (planes plane lives count w).Run moves last)
    (hheld : h ∈ last.shared.held) (hother : other ∈ last.shared.held)
    (hshared : h.pid = other.pid ∨ h.config = other.config) : h = other := by
  obtain ⟨k, -, howns, -⟩ := planes_estate hw run h.owner
  obtain ⟨k', -, howns', -⟩ := planes_estate hw run other.owner
  have hbacked := howns.backed h (howns.held h hheld rfl)
  have hbacked' := howns'.backed other (howns'.held other hother rfl)
  have howner : h.owner = other.owner := by
    rcases hshared with hpid | hconfig
    · obtain ⟨ward, hward, hsame, -⟩ := hbacked.child
      obtain ⟨ward', hward', hsame', -⟩ := hbacked'.child
      obtain ⟨entry, hentry, hparent, -⟩ := howns.child.there ward hward
      obtain ⟨entry', hentry', hparent', -⟩ := howns'.child.there ward' hward'
      rw [hsame, hpid, ← hsame', hentry'] at hentry
      cases hentry
      exact Option.some.inj (hparent.symm.trans hparent')
    · obtain ⟨content, -, creator, hmem⟩ := hbacked.config
      obtain ⟨content', -, creator', hmem'⟩ := hbacked'.config
      have hkeeps := howns.files.contains hmem
      have hkeeps' := howns'.files.contains hmem'
      rw [Plant.Contains] at hkeeps hkeeps'
      rw [hconfig, hkeeps'] at hkeeps
      exact (Option.some.inj (congrArg PrivateFile.creator (Option.some.inj hkeeps))).symm
  have hsame := howns.held other hother howner.symm
  exact Option.some.inj ((howns.held h hheld rfl).symm.trans hsame)

/-- A child of thread `i` that runs this command, and was neither killed nor waited for. -/
def Plant.Supervises (w : Plant) (i pid : Nat) (command : List String) (env : List (String × String)) : Prop :=
  ∃ entry, w.processes pid = some entry ∧ entry.parent = some i ∧ entry.orphaned = false ∧ entry.state ≠ .killed ∧
    entry.command = command ∧ entry.env = env

theorem Owns.supervises {ward : Ward} (hk : Owns plane node i w k) (hward : k.child = some ward) (hfelled : ward.felled = false) :
    w.Supervises i ward.pid ward.command ward.env := by
  obtain ⟨entry, hentry, hparent, horphaned, hcommand, henv, hspared, -⟩ := hk.child.there ward hward
  exact ⟨entry, hentry, hparent, horphaned, hspared hfelled, hcommand, henv⟩

/-- A step that gives a thread a child that was not killed has spawned it. -/
theorem Manages.spawns {ward : Ward} (hstep : Manages plane node i k s t l) (hk : Owns plane node i s k)
    (hfelled : ward.felled = false) (hbefore : k.child ≠ some ward) (hafter : l.child = some ward) :
    s.processes ward.pid = none := by
  have hstruck : ∀ {other : Ward}, l.child = some { other with felled := true } → False := by
    intro other hother
    cases hafter.symm.trans hother
    cases hfelled
  cases hstep with
  | impossible h => exact absurd hk h
  | spawned held childless free =>
      cases hafter
      exact free
  | killed => exact (hstruck rfl).elim
  | spared => exact (hstruck rfl).elim
  | waited => cases hafter
  | orphaned => cases hafter
  | _ => exact absurd hafter hbefore

/-- The child of a thread was spawned by a step of it, and has been neither killed nor waited for ever since. -/
theorem planes_supervise {ward : Ward} (hw : w.Fresh) (run : (planes plane lives count w).Run moves last)
    (hstory : Story (Manages plane (nodeOf lives i) i) .bare (Pool.own i moves) k) (hward : k.child = some ward)
    (hfelled : ward.felled = false) :
    ∃ before spawn after, moves = before ++ spawn :: after ∧ spawn.thread = i ∧ spawn.before.processes ward.pid = none ∧
      ∀ m ∈ spawn :: after, m.after.Supervises i ward.pid ward.command ward.env := by
  have hbare : ¬ Estate.bare.child = some ward := by rintro ⟨⟩
  obtain ⟨first, step, rest, j, l, hown, hfirst, ⟨howns, hstep⟩, hbefore, hafter, hrest⟩ :=
    (planes_story hw run hstory).gained (X := fun k => k.child = some ward) hbare hward
  obtain ⟨before, after, rfl, hown', hrest'⟩ := Pool.own_eq_append hown
  refine ⟨before, ⟨i, step.1, step.2⟩, after, rfl, rfl, hstep.spawns howns hfelled hbefore hafter, fun m hm => ?_⟩
  -- Up to this move the story has come to an estate that still has the child.
  obtain ⟨past, future, hsplit⟩ := List.append_of_mem hm
  obtain ⟨tail, htail, rfl⟩ : ∃ tail, past ++ [m] = ⟨i, step.1, step.2⟩ :: tail ∧ after = tail ++ future := by
    cases past with
    | nil =>
        obtain ⟨rfl, rfl⟩ := List.cons.inj hsplit
        exact ⟨[], rfl, rfl⟩
    | cons head past =>
        obtain ⟨rfl, rfl⟩ := List.cons.inj hsplit
        exact ⟨past ++ [m], rfl, by simp⟩
  rw [Pool.own_append] at hrest'
  subst hrest'
  obtain ⟨e, hmiddle, -⟩ := hrest.split_append
  have hchild : e.child = some ward := hmiddle.kept hafter fun _ _ _ _ h _ => h.2
  have hmoves : before ++ ⟨i, step.1, step.2⟩ :: (tail ++ future) = (before ++ past ++ [m]) ++ future := by
    rw [List.append_assoc before, htail]
    simp
  rw [hmoves] at run
  obtain ⟨mid, hrun, -⟩ := run.split
  have htold : Story (Manages plane (nodeOf lives i) i) .bare (Pool.own i (before ++ past ++ [m])) e := by
    rw [List.append_assoc, htail, Pool.own_append, Pool.own_cons_self, hown']
    exact (hfirst.weaken fun _ _ _ _ h => h.2).append (.cons hstep (hmiddle.weaken fun _ _ _ _ h => h.1.2))
  rw [hrun.after_eq]
  exact (((hrun.chronicle (planes_chronicle hw)).2 i).2 e htold).supervises hchild hfelled

/-- A handle that is held stands for a child that was started with the node's configuration, and was neither killed nor waited for since; its files are as they were written. No two handles stand for one process or one file. -/
theorem held_plane_backed (hw : w.Fresh) (run : (planes plane lives count w).Run moves last)
    (hheld : h ∈ last.shared.held) :
    last.shared.Supervises h.owner h.pid (plane.commandOf h.config (nodeOf lives h.owner)) (applyDirectNetworkEnv plane.env) ∧
      (∃ before spawn after, moves = before ++ spawn :: after ∧ spawn.thread = h.owner ∧
        spawn.before.processes h.pid = none ∧ ∀ m ∈ spawn :: after, m.after.Supervises h.owner h.pid
          (plane.commandOf h.config (nodeOf lives h.owner)) (applyDirectNetworkEnv plane.env)) ∧
      (∃ content, plane.toVecPretty (plane.configOf h.socksAddr h.httpAddr (h.aclConfig.map plane.file)
          (nodeOf lives h.owner)) = some content ∧ last.shared.Contains h.owner h.config content) ∧
      (∀ text, plane.aclOf (nodeOf lives h.owner) = some text →
        ∃ name, h.aclConfig = some name ∧ last.shared.Contains h.owner name text.toUTF8.toList) ∧
      ∀ other ∈ last.shared.held, h.pid = other.pid ∨ h.config = other.config → h = other := by
  obtain ⟨k, hstory, howns, -⟩ := planes_estate hw run h.owner
  have hbacked := howns.backed h (howns.held h hheld rfl)
  obtain ⟨ward, hward, hpid, hfelled, hcommand, henv⟩ := hbacked.child
  obtain ⟨content, hcontent, creator, hmem⟩ := hbacked.config
  have hnow := howns.supervises hward hfelled
  have hsince := planes_supervise hw run hstory hward hfelled
  rw [hpid, hcommand, henv] at hnow hsince
  refine ⟨hnow, hsince, ⟨content, hcontent, howns.files.contains hmem⟩, fun text htext => ?_,
    fun other hother => held_planes_apart hw run hheld hother⟩
  cases hacl : h.aclConfig with
  | none => cases (hbacked.noAcl hacl).symm.trans htext
  | some name =>
      obtain ⟨found, hfound, creator, hmem⟩ := hbacked.acl name hacl
      cases hfound.symm.trans htext
      exact ⟨name, rfl, howns.files.contains hmem⟩

/-- The plane of the sample after its start. -/
theorem Sample.run_launched : ∃ moves last h, Sample.adapterPool.Run moves last ∧ last.shared.held = [h] ∧ h.pid = 9 := by
  obtain ⟨moves, last, run, hlast, -⟩ := Sample.adapter_runs
  obtain ⟨h, hheld, hpid⟩ := List.map_eq_singleton_iff.mp hlast
  exact ⟨moves, last, h, run, hheld, hpid⟩

theorem held_plane_backed_launched : ∃ moves last h, Sample.adapterPool.Run moves last ∧ last.shared.held = [h] ∧
    ∃ entry, last.shared.processes h.pid = some entry ∧
      entry.command = ["/opt/sslocal", "-c", Sample.dispatchPlane.file h.config] ∧ entry.env = [("HOME", "/home")] := by
  obtain ⟨moves, last, h, run, hheld, -⟩ := Sample.run_launched
  have hmem : h ∈ last.shared.held := by
    rw [hheld]
    exact List.mem_singleton_self h
  obtain ⟨⟨entry, hentry, -, -, -, hcommand, henv⟩, -⟩ := held_plane_backed Sample.emptyPlant_fresh run hmem
  exact ⟨moves, last, h, run, hheld, entry, hentry, hcommand, henv⟩

/-! ### What a plane touches -/

theorem update_cases {α β : Type} [DecidableEq α] (f : α → β) (a : α) (x : β) (b : α) :
    Function.update f a x b = f b ∨ (b = a ∧ Function.update f a x b = x) := by
  by_cases hb : b = a
  · subst hb
    exact .inr ⟨rfl, Function.update_self _ _ _⟩
  · exact .inl (Function.update_of_ne hb _ _)

/-- A thread changes and removes what it has created, and creates what was not there. -/
theorem Manages.touches_files (hstep : Manages plane node i k s t l) (hk : Owns plane node i s k) (name : String) :
    t.files name = s.files name ∨ (∀ file, s.files name = some file → file.creator = some i) ∧
      ∀ file, t.files name = some file → file.creator = some i := by
  have hgone : ∀ {entry : String × PrivateFile} {x : Option PrivateFile}, entry ∈ k.files →
      (∀ file, x = some file → file.creator = some i) →
      Function.update s.files entry.1 x name = s.files name ∨ (∀ file, s.files name = some file → file.creator = some i) ∧
        ∀ file, Function.update s.files entry.1 x name = some file → file.creator = some i := by
    intro entry x hentry hx
    obtain ⟨hthere, hcreator⟩ := hk.files.there entry hentry
    rcases update_cases s.files entry.1 x name with hsame | ⟨rfl, heq⟩
    · exact .inl hsame
    · refine .inr ⟨fun file hfile => ?_, fun file hfile => hx file (heq ▸ hfile)⟩
      cases hthere.symm.trans hfile
      exact hcreator
  cases hstep with
  | impossible h => exact absurd hk h
  | @happened _ happening => exact .inl (congrFun (happen_rest s happening).1 name)
  | @created _ found mode held free hmode =>
      rcases update_cases s.files found (some ⟨[], mode, some i⟩) name with hsame | ⟨rfl, heq⟩
      · exact .inl hsame
      · refine .inr ⟨fun file hfile => ?_, fun file hfile => ?_⟩
        · cases free.symm.trans hfile
        · cases heq.symm.trans hfile
          rfl
  | @changed _ found file rest f held mine creator hmode =>
      have hmem : (found, file) ∈ k.files := by
        rw [mine]
        exact List.mem_cons_self
      refine hgone hmem fun other hother => ?_
      obtain ⟨old, hold, rfl⟩ := Option.map_eq_some_iff.mp hother
      cases (hk.files.there _ hmem).1.symm.trans hold
      exact creator.trans (hk.files.there _ hmem).2
  | @removed _ entry before after held mine =>
      refine hgone ?_ (by rintro _ ⟨⟩)
      rw [mine]
      simp
  | @orphaned _ ward held mine felled =>
      obtain ⟨entry, hentry, -⟩ := hk.child.there ward mine
      unfold Plant.leave
      rw [hentry]
      dsimp only
      split <;> exact .inl rfl
  | _ => exact .inl rfl

/-- A thread of a plane spawns under a number that is free, and signals, waits for and leaves its child alone. -/
theorem Manages.touches_processes (hstep : Manages plane node i k s t l) (hk : Owns plane node i s k) (hi : i ≠ 0)
    (pid : Nat) :
    t.processes pid = s.processes pid ∨ (∀ entry, s.processes pid = some entry → entry.parent = some i) ∧
      ∀ entry, t.processes pid = some entry → entry.parent = some i := by
  have hgone : ∀ {ward : Ward} {x : Option PidEntry}, k.child = some ward →
      (∀ entry, x = some entry → entry.parent = some i) →
      Function.update s.processes ward.pid x pid = s.processes pid ∨
        (∀ entry, s.processes pid = some entry → entry.parent = some i) ∧
        ∀ entry, Function.update s.processes ward.pid x pid = some entry → entry.parent = some i := by
    intro ward x hward hx
    obtain ⟨found, hfound, hparent, -⟩ := hk.child.there ward hward
    rcases update_cases s.processes ward.pid x pid with hsame | ⟨rfl, heq⟩
    · exact .inl hsame
    · refine .inr ⟨fun entry hentry => ?_, fun entry hentry => hx entry (heq ▸ hentry)⟩
      cases hfound.symm.trans hentry
      exact hparent
  cases hstep with
  | impossible h => exact absurd hk h
  | happened h => exact absurd h hi
  | @spawned _ found killable command env held childless free =>
      rcases update_cases s.processes found (some ⟨.running, some i, killable, false, command,
        env⟩) pid with hsame | ⟨rfl, heq⟩
      · exact .inl hsame
      · refine .inr ⟨fun entry hentry => ?_, fun entry hentry => ?_⟩
        · cases free.symm.trans hentry
        · cases heq.symm.trans hentry
          rfl
  | waited held mine => exact hgone mine (by rintro _ ⟨⟩)
  | @killed _ ward held mine =>
      refine hgone mine fun entry hentry => ?_
      obtain ⟨old, hold, rfl⟩ := Option.map_eq_some_iff.mp hentry
      obtain ⟨found, hfound, hparent, -⟩ := hk.child.there ward mine
      cases hfound.symm.trans hold
      exact hparent
  | @orphaned _ ward held mine felled =>
      obtain ⟨found, hfound, hparent, -⟩ := hk.child.there ward mine
      unfold Plant.leave
      rw [hfound]
      dsimp only
      split
      · exact hgone mine (by rintro _ ⟨⟩)
      · refine hgone mine ?_
        rintro _ ⟨⟩
        exact hparent
  | _ => exact .inl rfl

/-- At a step of a run the thread has its estate, before and after. -/
theorem planes_step {m : Move Plant} (hw : w.Fresh) (run : (planes plane lives count w).Run moves last) (hm : m ∈ moves) :
    m.before.Sane ∧ ∃ k l, Owns plane (nodeOf lives m.thread) m.thread m.before k ∧
      Manages plane (nodeOf lives m.thread) m.thread k m.before m.after l := by
  obtain ⟨before, after, rfl⟩ := List.append_of_mem hm
  obtain ⟨k, hstory, -⟩ := planes_estate hw run m.thread
  obtain ⟨hsane, j, l, -, howns, hstep, -⟩ := run.chapter (planes_chronicle hw) hstory
  exact ⟨hsane, j, l, howns, hstep⟩

/-- No step of a plane changes a file that another thread or somebody else has created, or a process that another thread or somebody else has started, and what it creates nobody else may read or write. -/
theorem planes_touch_own {m : Move Plant} (hw : w.Fresh) (run : (planes plane lives count w).Run moves last)
    (hm : m ∈ moves) :
    (∀ name, m.after.files name = m.before.files name ∨
        (∀ file, m.before.files name = some file → file.creator = some m.thread) ∧
          ∀ file, m.after.files name = some file → file.creator = some m.thread) ∧
      (m.thread ≠ 0 → ∀ pid, m.after.processes pid = m.before.processes pid ∨
        (∀ entry, m.before.processes pid = some entry → entry.parent = some m.thread) ∧
          ∀ entry, m.after.processes pid = some entry → entry.parent = some m.thread) ∧
      ∀ name file, m.after.files name = some file → file.creator ≠ none → file.mode &&& 0o077 = 0 := by
  obtain ⟨hsane, k, l, howns, hstep⟩ := planes_step hw run hm
  exact ⟨hstep.touches_files howns, hstep.touches_processes howns, (hstep.sane hsane howns).mode⟩

theorem planes_touch_own_launched : ∃ moves last m, Sample.adapterPool.Run moves last ∧ m ∈ moves ∧
    (∀ name, m.after.files name = m.before.files name ∨
        (∀ file, m.before.files name = some file → file.creator = some m.thread) ∧
          ∀ file, m.after.files name = some file → file.creator = some m.thread) ∧
      (m.thread ≠ 0 → ∀ pid, m.after.processes pid = m.before.processes pid ∨
        (∀ entry, m.before.processes pid = some entry → entry.parent = some m.thread) ∧
          ∀ entry, m.after.processes pid = some entry → entry.parent = some m.thread) ∧
      ∀ name file, m.after.files name = some file → file.creator ≠ none → file.mode &&& 0o077 = 0 := by
  obtain ⟨moves, last, h, run, hheld, -⟩ := Sample.run_launched
  have hne : moves ≠ [] := by
    rintro rfl
    rw [run.eq_of_nil] at hheld
    cases hheld
  obtain ⟨m, hm⟩ := List.exists_mem_of_ne_nil moves hne
  exact ⟨moves, last, m, run, hm, planes_touch_own Sample.emptyPlant_fresh run hm⟩

end

end Causeway

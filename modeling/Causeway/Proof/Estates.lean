import Causeway.Concurrent.Tries
import Causeway.Model.Processes

/-!
# What a plane answers for

The files, the ports and the process that one thread has taken and not given back yet, and the calls by which it takes them and gives them back. No call of another thread touches them.
-/

namespace Causeway

open Concurrent Prog

/-- A child that was not waited for. -/
structure Ward where
  pid : Nat
  command : List String
  env : List (String × String)
  /-- It has been killed, if it was running and could be. -/
  felled : Bool

/-- What one thread has to give back, and what it has seen of its child's sockets. -/
structure Estate where
  files : List (String × PrivateFile)
  /-- Files that it could not remove, and that the log names. -/
  left : List String
  sockets : List StdTcpListener
  child : Option Ward
  /-- A child was left to the runtime. -/
  orphan : Bool
  /-- The sockets in the kernel's table when it was last read. -/
  sight : List Socket
  /-- The inodes of the sockets that the child had open when that was last read, after the table. -/
  grasp : List Nat
  held : Option Held

/-- A thread that has nothing. -/
def Estate.bare : Estate := ⟨[], [], [], none, false, [], [], none⟩

def Estate.adding (k : Estate) (name : String) (file : PrivateFile) : Estate :=
  { k with files := (name, file) :: k.files }

namespace DispatchPlane

variable (plane : DispatchPlane)

def aclOf : Node → Option String
  | .ss _ => buildSslocalAcl plane.ss.directHosts
  | .anytls _ => none

/-- The configuration that a node is started with. -/
def configOf (socksAddr httpAddr : SocketAddr) (aclPath : Option String) : Node → Json
  | .ss node => buildSslocalConfigWithAcl node socksAddr httpAddr plane.ss.obfsPluginBin aclPath
  | .anytls node => buildSingboxConfigWithDirectHosts node socksAddr httpAddr plane.singbox.directHosts

def commandOf (config : String) : Node → List String
  | .ss _ => [plane.ss.bin, "-c", plane.file config]
  | .anytls _ => [plane.singbox.bin, "run", "-c", plane.file config]

end DispatchPlane

/-- A socket with this inode listened at one of the addresses. -/
def Estate.Sees (k : Estate) (first second : SocketAddr) (inode : Nat) : Prop :=
  ∃ socket ∈ k.sight, socket.state = tcpListen ∧ (socket.addr = first ∨ socket.addr = second) ∧ socket.inode = inode

/-- Two sockets listened at the addresses in all, and the child held both of them. -/
def Estate.SeesTwo (k : Estate) (first second : SocketAddr) : Prop :=
  (∃ inode other, inode ≠ other ∧ ∀ found, k.Sees first second found ↔ found = inode ∨ found = other) ∧
    ∀ inode, k.Sees first second inode → inode ∈ k.grasp

/-- A private file of the estate with this content. -/
def Estate.Stores (k : Estate) (name : String) (content : Bytes) : Prop :=
  ∃ creator, (name, ⟨content, 0o600, creator⟩) ∈ k.files

/-- What a handle rests on that a start of the node has returned. -/
structure Backed (plane : DispatchPlane) (node : Node) (k : Estate) (h : Held) : Prop where
  config : ∃ content,
    plane.toVecPretty (plane.configOf h.socksAddr h.httpAddr (h.aclConfig.map plane.file) node) = some content ∧
      k.Stores h.config content
  acl : ∀ name, h.aclConfig = some name → ∃ text, plane.aclOf node = some text ∧ k.Stores name text.toUTF8.toList
  noAcl : h.aclConfig = none → plane.aclOf node = none
  child : ∃ ward, k.child = some ward ∧ ward.pid = h.pid ∧ ward.felled = false ∧
    ward.command = plane.commandOf h.config node ∧ ward.env = applyDirectNetworkEnv plane.env
  apart : h.socksAddr ≠ h.httpAddr
  ready : k.SeesTwo h.socksAddr h.httpAddr

/-! ### What the machine has of it -/

structure FilesOf (i : Nat) (disk : String → Option PrivateFile) (warnings : List String)
    (files : List (String × PrivateFile)) (left : List String) : Prop where
  there : ∀ entry ∈ files, disk entry.1 = some entry.2 ∧ entry.2.creator = some i
  nodup : (files.map Prod.fst).Nodup
  mine : ∀ name file, disk name = some file → file.creator = some i → name ∈ files.map Prod.fst ∨ name ∈ left
  left : ∀ name ∈ left, name ∈ warnings

def SocketsOf (i : Nat) (sockets : List Socket) (mine : List StdTcpListener) : Prop :=
  ∀ socket ∈ sockets, .thread i ∈ socket.holders → ∃ listener ∈ mine, listener.inode = socket.inode

/-- Nobody runs who could be killed. -/
def PidEntry.Felled (entry : PidEntry) : Prop := entry.state ≠ .running ∨ entry.killable = false

structure ChildOf (i : Nat) (processes : Nat → Option PidEntry) (child : Option Ward) (orphan : Bool) : Prop where
  there : ∀ ward, child = some ward → ∃ entry, processes ward.pid = some entry ∧ entry.parent = some i ∧
    entry.orphaned = false ∧ entry.command = ward.command ∧ entry.env = ward.env ∧
      (ward.felled = false → entry.state ≠ .killed) ∧ (ward.felled = true → entry.Felled)
  mine : ∀ pid entry, processes pid = some entry → entry.parent = some i →
    (∃ ward, child = some ward ∧ ward.pid = pid) ∨ (orphan = true ∧ entry.orphaned = true ∧ entry.Felled)

/-- Two entries for one socket. -/
def Socket.Alike (socket other : Socket) : Prop :=
  socket.inode = other.inode ∧ socket.addr = other.addr ∧ socket.state = other.state

structure SightOf (sockets : List Socket) (nextInode : Nat) (sight : List Socket) : Prop where
  old : ∀ socket ∈ sight, socket.inode < nextInode
  same : ∀ socket ∈ sight, ∀ other ∈ sockets, other.inode = socket.inode → other.Alike socket

/-- What the machine has of the estate of thread `i`. -/
structure Owns (plane : DispatchPlane) (node : Node) (i : Nat) (w : Plant) (k : Estate) : Prop where
  files : FilesOf i w.files w.warnings k.files k.left
  sockets : SocketsOf i w.sockets k.sockets
  child : ChildOf i w.processes k.child k.orphan
  sight : SightOf w.sockets w.nextInode k.sight
  held : ∀ h ∈ w.held, h.owner = i → k.held = some h
  backed : ∀ h, k.held = some h → Backed plane node k h

/-- What holds of the machine whatever the threads do. -/
structure Plant.Sane (w : Plant) : Prop where
  mode : ∀ name file, w.files name = some file → file.creator ≠ none → file.mode &&& 0o077 = 0
  old : ∀ socket ∈ w.sockets, socket.inode < w.nextInode
  same : ∀ socket ∈ w.sockets, ∀ other ∈ w.sockets, other.inode = socket.inode → other.Alike socket

/-! ### Calls -/

/-- One call of thread `i`; thread 0 is the rest of the machine. -/
inductive Manages (plane : DispatchPlane) (node : Node) (i : Nat) : Estate → Plant → Plant → Estate → Prop
  | still {k : Estate} {s : Plant} : Manages plane node i k s s k
  | counted {k : Estate} {s : Plant} {sequence : UInt64} :
      Manages plane node i k s { s with sequence := sequence } k
  | impossible {k l : Estate} {s t : Plant} (h : ¬ Owns plane node i s k) : Manages plane node i k s t l
  | happened {k : Estate} {s : Plant} {happening : Happening} (hi : i = 0) :
      Manages plane node i k s (s.happen happening) k
  | opened {k : Estate} {s : Plant} {addr : SocketAddr} (hk : k.held = none) :
      Manages plane node i k s (s.openSocket (.thread i) addr tcpListen)
        { k with sockets := ⟨s.nextInode, addr⟩ :: k.sockets }
  | closed {k : Estate} {s : Plant} {listener : StdTcpListener} {before after : List StdTcpListener}
      (hk : k.held = none) (mine : k.sockets = before ++ listener :: after) :
      Manages plane node i k s (s.closeSockets (.thread i) fun socket => socket.inode = listener.inode)
        { k with sockets := before ++ after }
  | created {k : Estate} {s : Plant} {name : String} {mode : UInt32} (hk : k.held = none) (free : s.files name = none)
      (hmode : mode &&& 0o077 = 0) :
      Manages plane node i k s { s with files := Function.update s.files name (some ⟨[], mode, some i⟩) }
        { k with files := (name, ⟨[], mode, some i⟩) :: k.files }
  | changed {k : Estate} {s : Plant} {name : String} {file : PrivateFile} {rest : List (String × PrivateFile)}
      {f : PrivateFile → PrivateFile} (hk : k.held = none) (mine : k.files = (name, file) :: rest)
      (creator : (f file).creator = file.creator) (hmode : file.mode &&& 0o077 = 0 → (f file).mode &&& 0o077 = 0) :
      Manages plane node i k s (s.change name f) { k with files := (name, f file) :: rest }
  | removed {k : Estate} {s : Plant} {entry : String × PrivateFile} {before after : List (String × PrivateFile)}
      (hk : k.held = none) (mine : k.files = before ++ entry :: after) :
      Manages plane node i k s { s with files := Function.update s.files entry.1 none }
        { k with files := before ++ after }
  | warned {k : Estate} {s : Plant} {entry : String × PrivateFile} {before after : List (String × PrivateFile)}
      (hk : k.held = none) (mine : k.files = before ++ entry :: after) :
      Manages plane node i k s { s with warnings := entry.1 :: s.warnings }
        { k with files := before ++ after, left := entry.1 :: k.left }
  | spawned {k : Estate} {s : Plant} {pid : Nat} {killable : Bool} {command : List String}
      {env : List (String × String)} (hk : k.held = none) (childless : k.child = none) (free : s.processes pid = none) :
      Manages plane node i k s
        { s with
          processes := Function.update s.processes pid (some ⟨.running, some i, killable, false, command, env⟩) }
        { k with child := some ⟨pid, command, env, false⟩, sight := [], grasp := [] }
  | waited {k : Estate} {s : Plant} {ward : Ward} (hk : k.held = none) (mine : k.child = some ward) :
      Manages plane node i k s (s.forget ward.pid) { k with child := none }
  | killed {k : Estate} {s : Plant} {ward : Ward} (hk : k.held = none) (mine : k.child = some ward) :
      Manages plane node i k s (s.setState ward.pid .killed) { k with child := some { ward with felled := true } }
  | spared {k : Estate} {s : Plant} {ward : Ward} {entry : PidEntry} (hk : k.held = none) (mine : k.child = some ward)
      (there : s.processes ward.pid = some entry) (felled : entry.Felled) :
      Manages plane node i k s s { k with child := some { ward with felled := true } }
  | orphaned {k : Estate} {s : Plant} {ward : Ward} (hk : k.held = none) (mine : k.child = some ward)
      (felled : ward.felled = true) :
      Manages plane node i k s (s.leave ward.pid) { k with child := none, orphan := true }
  | looked {k : Estate} {s : Plant} (hk : k.held = none) :
      Manages plane node i k s s { k with sight := s.sockets, grasp := [] }
  | inspected {k : Estate} {s : Plant} {ward : Ward} (hk : k.held = none) (mine : k.child = some ward) :
      Manages plane node i k s s
        { k with
          grasp := (s.sockets.filter fun socket => .process ward.pid ∈ socket.holders).map Socket.inode }
  | holds {k : Estate} {s : Plant} {h : Held} (owner : h.owner = i) (hk : k.held = none)
      (backed : Backed plane node k h) :
      Manages plane node i k s { s with held := h :: s.held } { k with held := some h }
  | letGo {k : Estate} {s : Plant} :
      Manages plane node i k s { s with held := s.held.filter fun h => h.owner ≠ i } { k with held := none }

/-- A change of the file that was added last. -/
theorem Manages.rewritten {plane : DispatchPlane} {node : Node} {i : Nat} {k : Estate} {s : Plant} {name : String}
    {file : PrivateFile} {f : PrivateFile → PrivateFile} (hk : k.held = none) (creator : (f file).creator = file.creator)
    (hmode : file.mode &&& 0o077 = 0 → (f file).mode &&& 0o077 = 0) :
    Manages plane node i (k.adding name file) s (s.change name f) (k.adding name (f file)) :=
  @Manages.changed plane node i (k.adding name file) s name file k.files f hk rfl creator hmode

/-! ### Files -/

section

variable {i : Nat} {disk : String → Option PrivateFile} {warnings left : List String}
  {files before after : List (String × PrivateFile)} {entry : String × PrivateFile} {name : String}
  {file other : PrivateFile} {x : Option PrivateFile}

namespace FilesOf

theorem split (h : FilesOf i disk warnings (before ++ entry :: after) left) :
    disk entry.1 = some entry.2 ∧ entry.2.creator = some i ∧ entry.1 ∉ (before ++ after).map Prod.fst := by
  obtain ⟨hthere, hcreator⟩ := h.there entry (by simp)
  refine ⟨hthere, hcreator, fun hmem => ?_⟩
  have hnodup := h.nodup
  rw [List.map_append, List.map_cons, List.nodup_middle] at hnodup
  rw [List.map_append] at hmem
  exact (List.nodup_cons.mp hnodup).1 hmem

theorem elsewhere (h : FilesOf i disk warnings files left) (hold : ∀ file, disk name = some file → file.creator ≠ some i)
    (hnew : ∀ file, x = some file → file.creator ≠ some i) :
    FilesOf i (Function.update disk name x) warnings files left where
  there entry hentry := by
    obtain ⟨hthere, hcreator⟩ := h.there entry hentry
    rw [Function.update_of_ne]
    · exact ⟨hthere, hcreator⟩
    · rintro rfl
      exact hold _ hthere hcreator
  nodup := h.nodup
  mine other file hfile hcreator := by
    by_cases hname : other = name
    · subst hname
      rw [Function.update_self] at hfile
      exact absurd hcreator (hnew file hfile)
    · rw [Function.update_of_ne hname] at hfile
      exact h.mine other file hfile hcreator
  left := h.left

theorem logged (h : FilesOf i disk warnings files left) : FilesOf i disk (name :: warnings) files left :=
  ⟨h.there, h.nodup, h.mine, fun other hother => List.mem_cons_of_mem _ (h.left other hother)⟩

theorem created (h : FilesOf i disk warnings files left) (hfree : disk name = none) (hcreator : file.creator = some i) :
    FilesOf i (Function.update disk name (some file)) warnings ((name, file) :: files) left where
  there entry hentry := by
    rcases List.mem_cons.mp hentry with rfl | hentry
    · exact ⟨Function.update_self _ _ _, hcreator⟩
    · obtain ⟨hthere, hmine⟩ := h.there entry hentry
      rw [Function.update_of_ne]
      · exact ⟨hthere, hmine⟩
      · rintro rfl
        rw [hfree] at hthere
        cases hthere
  nodup := by
    rw [List.map_cons, List.nodup_cons]
    refine ⟨fun hmem => ?_, h.nodup⟩
    obtain ⟨entry, hentry, rfl⟩ := List.mem_map.mp hmem
    cases hfree.symm.trans (h.there entry hentry).1
  mine other found hfound hmine := by
    by_cases hname : other = name
    · exact .inl (by simp [hname])
    · rw [Function.update_of_ne hname] at hfound
      exact (h.mine other found hfound hmine).imp_left fun hmem => List.mem_cons_of_mem _ hmem
  left := h.left

theorem removed (h : FilesOf i disk warnings (before ++ entry :: after) left) :
    FilesOf i (Function.update disk entry.1 none) warnings (before ++ after) left where
  there other hother := by
    obtain ⟨hthere, hmine⟩ := h.there other (by
      rcases List.mem_append.mp hother with hmem | hmem <;> simp [hmem])
    rw [Function.update_of_ne]
    · exact ⟨hthere, hmine⟩
    · intro hname
      exact h.split.2.2 (hname ▸ List.mem_map_of_mem hother)
  nodup := by
    have hnodup := h.nodup
    rw [List.map_append, List.map_cons, List.nodup_middle] at hnodup
    rw [List.map_append]
    exact (List.nodup_cons.mp hnodup).2
  mine other found hfound hmine := by
    by_cases hname : other = entry.1
    · subst hname
      rw [Function.update_self] at hfound
      cases hfound
    · rw [Function.update_of_ne hname] at hfound
      refine (h.mine other found hfound hmine).imp_left fun hmem => ?_
      simp only [List.map_append, List.map_cons, List.mem_append, List.mem_cons] at hmem ⊢
      exact hmem.elim .inl fun hmem => hmem.elim (fun h => absurd h hname) .inr
  left := h.left

theorem changed (h : FilesOf i disk warnings ((name, file) :: files) left) (hcreator : other.creator = file.creator) :
    FilesOf i (Function.update disk name (some other)) warnings ((name, other) :: files) left := by
  have hrest := @FilesOf.removed i disk warnings left [] files (name, file) h
  have hmine : other.creator = some i := hcreator.trans (h.there (name, file) List.mem_cons_self).2
  have hcreated := hrest.created (Function.update_self _ _ _) hmine
  rwa [Function.update_idem] at hcreated

theorem warned (h : FilesOf i disk warnings (before ++ entry :: after) left) :
    FilesOf i disk (entry.1 :: warnings) (before ++ after) (entry.1 :: left) where
  there other hother := h.there other (by
    rcases List.mem_append.mp hother with hmem | hmem <;> simp [hmem])
  nodup := by
    have hnodup := h.nodup
    rw [List.map_append, List.map_cons, List.nodup_middle] at hnodup
    rw [List.map_append]
    exact (List.nodup_cons.mp hnodup).2
  mine other found hfound hmine := by
    rcases h.mine other found hfound hmine with hmem | hleft
    · simp only [List.map_append, List.map_cons, List.mem_append, List.mem_cons] at hmem ⊢
      tauto
    · exact .inr (List.mem_cons_of_mem _ hleft)
  left other hother := by
    rcases List.mem_cons.mp hother with rfl | hother
    · exact List.mem_cons_self
    · exact List.mem_cons_of_mem _ (h.left other hother)

end FilesOf

end

/-! ### Sockets -/

/-- Sockets that were there before, with no more threads among their holders. -/
def Fades (before after : List Socket) : Prop :=
  ∀ socket ∈ after, ∃ other ∈ before, socket.Alike other ∧ ∀ i, .thread i ∈ socket.holders → .thread i ∈ other.holders

section

variable {i : Nat} {sockets others sight : List Socket} {mine before after : List StdTcpListener} {next : Nat}
  {socket other : Socket} {holder : Holder} {listener : StdTcpListener}

theorem Socket.Alike.trans {a b c : Socket} (h : a.Alike b) (g : b.Alike c) : a.Alike c :=
  ⟨h.1.trans g.1, h.2.1.trans g.2.1, h.2.2.trans g.2.2⟩

theorem Socket.Alike.symm (h : socket.Alike other) : other.Alike socket := ⟨h.1.symm, h.2.1.symm, h.2.2.symm⟩

theorem Socket.without_eq_some (h : socket.without holder = some other) :
    other = { socket with holders := socket.holders.filter (· ≠ holder) } := by
  unfold Socket.without at h
  dsimp only at h
  split at h
  · cases h
  · exact (Option.some.inj h).symm

namespace Fades

theorem closed (which : Socket → Bool) : Fades sockets
    (sockets.filterMap fun socket => if which socket then socket.without holder else some socket) := by
  intro socket hsocket
  obtain ⟨other, hother, heq⟩ := List.mem_filterMap.mp hsocket
  refine ⟨other, hother, ?_⟩
  split at heq
  · rw [Socket.without_eq_some heq]
    exact ⟨⟨rfl, rfl, rfl⟩, fun i hi => (List.mem_filter.mp hi).1⟩
  · cases heq
    exact ⟨⟨rfl, rfl, rfl⟩, fun _ hi => hi⟩

theorem shared (which : Socket → Prop) [DecidablePred which] (pid : Nat) : Fades sockets
    (sockets.map fun socket =>
      if which socket then { socket with holders := .process pid :: socket.holders } else socket) := by
  intro socket hsocket
  obtain ⟨other, hother, rfl⟩ := List.mem_map.mp hsocket
  refine ⟨other, hother, ?_⟩
  split
  · refine ⟨⟨rfl, rfl, rfl⟩, fun i hi => ?_⟩
    rcases List.mem_cons.mp hi with heq | hi
    · cases heq
    · exact hi
  · exact ⟨⟨rfl, rfl, rfl⟩, fun _ hi => hi⟩

theorem socketsOf (h : Fades sockets others) (hs : SocketsOf i sockets mine) : SocketsOf i others mine := by
  intro socket hsocket hi
  obtain ⟨other, hother, hlike, hholders⟩ := h socket hsocket
  obtain ⟨listener, hlistener, hinode⟩ := hs other hother (hholders i hi)
  exact ⟨listener, hlistener, hinode.trans hlike.1.symm⟩

theorem sightOf (h : Fades sockets others) (hs : SightOf sockets next sight) : SightOf others next sight where
  old := hs.old
  same socket hsocket other hother hinode := by
    obtain ⟨found, hfound, hlike, -⟩ := h other hother
    exact hlike.trans (hs.same socket hsocket found hfound (hlike.1.symm.trans hinode))

end Fades

/-- What closes a listener of the thread. -/
theorem SocketsOf.closed (h : SocketsOf i sockets (before ++ listener :: after)) :
    SocketsOf i (sockets.filterMap fun socket =>
      if decide (socket.inode = listener.inode) then socket.without (.thread i) else some socket) (before ++ after) := by
  intro socket hsocket hi
  obtain ⟨other, hother, heq⟩ := List.mem_filterMap.mp hsocket
  split at heq
  · rw [Socket.without_eq_some heq] at hi
    exact absurd (List.mem_filter.mp hi).2 (by simp)
  · rename_i hne
    cases heq
    obtain ⟨found, hfound, hinode⟩ := h socket hother hi
    refine ⟨found, ?_, hinode⟩
    simp only [List.mem_append, List.mem_cons] at hfound ⊢
    rcases hfound with hmem | rfl | hmem
    · exact .inl hmem
    · exact absurd hinode.symm (by simpa using hne)
    · exact .inr hmem

theorem SightOf.opened (h : SightOf sockets next sight) (hinode : socket.inode = next) :
    SightOf (socket :: sockets) (next + 1) sight where
  old seen hseen := Nat.lt_succ_of_lt (h.old seen hseen)
  same seen hseen found hfound heq := by
    rcases List.mem_cons.mp hfound with rfl | hfound
    · have hlt := h.old seen hseen
      omega
    · exact h.same seen hseen found hfound heq

end

/-! ### Processes -/

/-- What may become of an entry when its parent does nothing. -/
structure PidEntry.Aged (entry other : PidEntry) : Prop where
  parent : other.parent = entry.parent
  orphaned : other.orphaned = entry.orphaned
  command : other.command = entry.command
  env : other.env = entry.env
  killable : other.killable = entry.killable
  state : other.state = entry.state ∨ other.state = .zombie

/-- What becomes of the processes of thread `i` when it does nothing. -/
structure Ages (i : Nat) (before after : Nat → Option PidEntry) : Prop where
  kept : ∀ pid entry, before pid = some entry → entry.parent = some i → entry.orphaned = false →
    ∃ other, after pid = some other ∧ entry.Aged other
  old : ∀ pid other, after pid = some other → other.parent = some i → ∃ entry, before pid = some entry ∧ entry.Aged other

section

variable {i : Nat} {processes others : Nat → Option PidEntry} {child : Option Ward} {orphan : Bool} {pid : Nat}
  {entry other : PidEntry} {x : Option PidEntry} {ward : Ward}

theorem PidEntry.Aged.refl (entry : PidEntry) : entry.Aged entry := ⟨rfl, rfl, rfl, rfl, rfl, .inl rfl⟩

theorem PidEntry.Aged.felled (h : entry.Aged other) (hfelled : entry.Felled) : other.Felled := by
  rcases h.state with hstate | hstate
  · exact hfelled.imp (fun hne => hstate ▸ hne) fun hkillable => h.killable.trans hkillable
  · refine .inl ?_
    rw [hstate]
    rintro ⟨⟩

namespace Ages

theorem update (hkept : ∀ entry, processes pid = some entry → entry.parent = some i → entry.orphaned = false →
      ∃ other, x = some other ∧ entry.Aged other)
    (hold : ∀ other, x = some other → other.parent = some i → ∃ entry, processes pid = some entry ∧ entry.Aged other) :
    Ages i processes (Function.update processes pid x) where
  kept found entry hentry hparent horphaned := by
    by_cases hpid : found = pid
    · subst hpid
      rw [Function.update_self]
      exact hkept entry hentry hparent horphaned
    · rw [Function.update_of_ne hpid]
      exact ⟨entry, hentry, .refl entry⟩
  old found other hother hparent := by
    by_cases hpid : found = pid
    · subst hpid
      rw [Function.update_self] at hother
      exact hold other hother hparent
    · rw [Function.update_of_ne hpid] at hother
      exact ⟨other, hother, .refl other⟩

theorem elsewhere (hold : ∀ entry, processes pid = some entry → entry.parent ≠ some i)
    (hnew : ∀ other, x = some other → other.parent ≠ some i) : Ages i processes (Function.update processes pid x) :=
  .update (fun entry hentry hparent => absurd hparent (hold entry hentry)) fun other hother hparent =>
    absurd hparent (hnew other hother)

theorem childOf (h : Ages i processes others) (hc : ChildOf i processes child orphan) :
    ChildOf i others child orphan where
  there ward hward := by
    obtain ⟨entry, hentry, hparent, horphaned, hcommand, henv, hspared, hfelled⟩ := hc.there ward hward
    obtain ⟨other, hother, haged⟩ := h.kept _ _ hentry hparent horphaned
    refine ⟨other, hother, haged.parent.trans hparent, haged.orphaned.trans horphaned, haged.command.trans hcommand,
      haged.env.trans henv, fun hward => ?_, fun hward => haged.felled (hfelled hward)⟩
    rcases haged.state with hstate | hstate
    · exact hstate ▸ hspared hward
    · rw [hstate]
      rintro ⟨⟩
  mine pid other hother hparent := by
    obtain ⟨entry, hentry, haged⟩ := h.old pid other hother hparent
    refine (hc.mine pid entry hentry (haged.parent ▸ hparent)).imp_right fun ⟨horphan, horphaned, hfelled⟩ => ?_
    exact ⟨horphan, haged.orphaned.trans horphaned, haged.felled hfelled⟩

end Ages

namespace ChildOf

theorem spawned {killable : Bool} {command : List String} {env : List (String × String)}
    (h : ChildOf i processes none orphan) :
    ChildOf i (Function.update processes pid (some ⟨.running, some i, killable, false, command, env⟩))
      (some ⟨pid, command, env, false⟩) orphan where
  there other hother := by
    cases hother
    refine ⟨_, Function.update_self _ _ _, rfl, rfl, rfl, rfl, fun _ => ?_, fun hfelled => by cases hfelled⟩
    rintro ⟨⟩
  mine found entry hentry hparent := by
    by_cases hpid : found = pid
    · exact .inl ⟨_, rfl, hpid.symm⟩
    · rw [Function.update_of_ne hpid] at hentry
      rcases h.mine found entry hentry hparent with ⟨other, hother, -⟩ | horphan
      · cases hother
      · exact .inr horphan

theorem dropped (h : ChildOf i processes (some ward) orphan) {left : Bool} (horphan : orphan = true → left = true)
    (hx : ∀ entry, x = some entry → left = true ∧ entry.orphaned = true ∧ entry.Felled) :
    ChildOf i (Function.update processes ward.pid x) none left where
  there other hother := by cases hother
  mine pid entry hentry hparent := by
    by_cases hpid : pid = ward.pid
    · subst hpid
      rw [Function.update_self] at hentry
      exact .inr (hx entry hentry)
    · rw [Function.update_of_ne hpid] at hentry
      rcases h.mine pid entry hentry hparent with ⟨other, hother, hsame⟩ | ⟨hfound, hrest⟩
      · cases hother
        exact absurd hsame.symm hpid
      · exact .inr ⟨horphan hfound, hrest⟩

theorem felled (h : ChildOf i processes (some ward) orphan) (hentry : processes ward.pid = some entry)
    (haged : other = { entry with state := other.state }) (hfelled : other.Felled) :
    ChildOf i (Function.update processes ward.pid (some other)) (some { ward with felled := true }) orphan where
  there found hfound := by
    cases hfound
    obtain ⟨old, hold, hparent, horphaned, hcommand, henv, -⟩ := h.there ward rfl
    cases hentry.symm.trans hold
    rw [haged]
    refine ⟨_, Function.update_self _ _ _, hparent, horphaned, hcommand, henv, (fun h => by cases h), fun _ => ?_⟩
    rw [haged] at hfelled
    exact hfelled
  mine pid found hfound hparent := by
    by_cases hpid : pid = ward.pid
    · exact .inl ⟨_, rfl, hpid.symm⟩
    · rw [Function.update_of_ne hpid] at hfound
      rcases h.mine pid found hfound hparent with ⟨other, hother, hsame⟩ | horphan
      · cases hother
        exact absurd hsame.symm hpid
      · exact .inr horphan

end ChildOf

end

/-! ### The rest of the machine -/

section

variable {i : Nat}

/-- What happens leaves the processes of the threads to them. -/
theorem happen_ages (s : Plant) (happening : Happening) : Ages i s.processes (s.happen happening).processes := by
  have hnone : Ages i s.processes s.processes :=
    ⟨fun _ entry hentry _ _ => ⟨entry, hentry, .refl entry⟩, fun _ other hother _ => ⟨other, hother, .refl other⟩⟩
  cases happening with
  | nothing => exact hnone
  | exits pid =>
      unfold Plant.happen
      dsimp only [Plant.closeSockets]
      cases hentry : s.processes pid with
      | none => exact hnone
      | some entry =>
          dsimp only
          split
          · unfold Plant.setState
            dsimp only
            rw [hentry]
            refine .update (fun found hfound _ _ => ?_) fun other hother _ => ?_
            · cases hentry.symm.trans hfound
              exact ⟨_, rfl, rfl, rfl, rfl, rfl, rfl, .inr rfl⟩
            · cases hother
              exact ⟨entry, hentry, rfl, rfl, rfl, rfl, rfl, .inr rfl⟩
          · rename_i hparent
            refine .elsewhere (fun found hfound hmine => ?_) fun other hother => by cases hother
            cases hentry.symm.trans hfound
            rw [hmine] at hparent
            exact hparent rfl
  | starts pid killable =>
      unfold Plant.happen
      dsimp only
      cases hentry : s.processes pid with
      | none =>
          refine .elsewhere (fun found hfound => ?_) fun other hother => ?_
          · cases hentry.symm.trans hfound
          · cases hother
            rintro ⟨⟩
      | some entry => exact hnone
  | opens pid addr state =>
      unfold Plant.happen
      dsimp only
      split <;> exact hnone
  | shares inode source pid =>
      unfold Plant.happen
      dsimp only
      split <;> exact hnone
  | closes inode pid => exact hnone
  | reaps pid =>
      unfold Plant.happen
      dsimp only
      cases hentry : s.processes pid with
      | none => exact hnone
      | some entry =>
          dsimp only
          split
          · rename_i horphan
            rw [Bool.and_eq_true] at horphan
            refine .update (fun found hfound _ horphaned => ?_) fun other hother => by cases hother
            cases hentry.symm.trans hfound
            rw [horphan.1] at horphaned
            cases horphaned
          · exact hnone

/-- Sockets fade, or one is opened that no thread holds. -/
theorem happen_sockets (s : Plant) (happening : Happening) :
    (Fades s.sockets (s.happen happening).sockets ∧ (s.happen happening).nextInode = s.nextInode) ∨
    ∃ pid addr state, s.happen happening = s.openSocket (.process pid) addr state := by
  have hnone : Fades s.sockets s.sockets := fun socket hsocket => ⟨socket, hsocket, ⟨rfl, rfl, rfl⟩, fun _ hi => hi⟩
  cases happening with
  | nothing => exact .inl ⟨hnone, rfl⟩
  | exits pid =>
      refine .inl ?_
      have hclosed : Fades s.sockets (s.closeSockets (.process pid) fun _ => true).sockets := .closed fun _ => true
      unfold Plant.happen
      dsimp only [Plant.closeSockets]
      cases s.processes pid with
      | none => exact ⟨hclosed, rfl⟩
      | some entry =>
          dsimp only
          split <;> exact ⟨hclosed, rfl⟩
  | starts pid killable =>
      refine .inl ?_
      unfold Plant.happen
      dsimp only
      cases s.processes pid <;> exact ⟨hnone, rfl⟩
  | opens pid addr state =>
      unfold Plant.happen
      dsimp only
      split
      · exact .inr ⟨pid, addr, state, rfl⟩
      · exact .inl ⟨hnone, rfl⟩
  | shares inode source pid =>
      refine .inl ?_
      unfold Plant.happen
      dsimp only
      split
      · exact ⟨.shared (fun socket => socket.inode = inode ∧ .process source ∈ socket.holders) pid, rfl⟩
      · exact ⟨hnone, rfl⟩
  | closes inode pid => exact .inl ⟨.closed _, rfl⟩
  | reaps pid =>
      refine .inl ?_
      unfold Plant.happen
      dsimp only
      cases s.processes pid with
      | none => exact ⟨hnone, rfl⟩
      | some entry =>
          dsimp only
          split <;> exact ⟨hnone, rfl⟩

theorem happen_rest (s : Plant) (happening : Happening) :
    (s.happen happening).files = s.files ∧ (s.happen happening).warnings = s.warnings ∧
    (s.happen happening).held = s.held := by
  cases happening with
  | nothing => exact ⟨rfl, rfl, rfl⟩
  | exits pid =>
      unfold Plant.happen
      dsimp only [Plant.closeSockets]
      cases s.processes pid with
      | none => exact ⟨rfl, rfl, rfl⟩
      | some entry =>
          dsimp only
          split <;> exact ⟨rfl, rfl, rfl⟩
  | starts pid killable =>
      unfold Plant.happen
      dsimp only
      cases s.processes pid <;> exact ⟨rfl, rfl, rfl⟩
  | opens pid addr state =>
      unfold Plant.happen
      dsimp only
      split <;> exact ⟨rfl, rfl, rfl⟩
  | shares inode source pid =>
      unfold Plant.happen
      dsimp only
      split <;> exact ⟨rfl, rfl, rfl⟩
  | closes inode pid => exact ⟨rfl, rfl, rfl⟩
  | reaps pid =>
      unfold Plant.happen
      dsimp only
      cases s.processes pid with
      | none => exact ⟨rfl, rfl, rfl⟩
      | some entry =>
          dsimp only
          split <;> exact ⟨rfl, rfl, rfl⟩

end

end Causeway

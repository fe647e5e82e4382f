import Causeway.Proof.Processes
import Causeway.Proof.Tables

/-!
# Launches

A start takes ports, files and a process, in this order, and checks that the process listens where it should. Its thread ends with nothing, whatever happens on the way.
-/

namespace Causeway

open Concurrent Prog

namespace Plane

section

variable {plane : DispatchPlane} {node : Node} {i : Nat} {α β : Type} {k l : Estate} {G : α → Estate → Prop}
  {B : Estate → Prop}

/-! ### Ports -/

variable {listener : StdTcpListener} {before after mine : List StdTcpListener} {ports : LoopbackPortPair}

theorem runs_dropListener (hk : k.held = none) (h : k.sockets = before ++ listener :: after) :
    Runs plane node i (dropListener i listener) k (fun _ l => l = { k with sockets := before ++ after }) B :=
  .call (fun _ => { k with sockets := before ++ after }) fun _ _ _ => .closed hk h

/-- The estate after a socket was bound, or not. -/
inductive Bound (k : Estate) : Except ErrorKind StdTcpListener → Estate → Prop
  | ok {listener : StdTcpListener} (v4 : listener.addr.IsV4) :
      Bound k (.ok listener) { k with sockets := listener :: k.sockets }
  | error {kind : ErrorKind} : Bound k (.error kind) k

theorem runs_bindLoopback (hk : k.held = none) : Runs plane node i (bindLoopback i) k (Bound k) B := by
  refine .step fun o w => ?_
  rcases answer_cases o w _ with ⟨kind, h⟩ | h <;> rw [h]
  · exact ⟨k, .still, .error⟩
  · split
    · exact ⟨_, .opened hk, .ok ⟨_, _, _, _, rfl⟩⟩
    · exact ⟨k, .still, .error⟩

theorem runs_localAddr {context : String} (hbad : B k) :
    Runs plane node i (.check context (localAddr listener)) k (fun addr l => addr = listener.addr ∧ l = k) B := by
  refine .check (.step (G := fun r l => (∀ addr, r = .ok addr → addr = listener.addr) ∧ l = k) fun o w => ?_)
    (fun addr l hl => ⟨hl.1 addr rfl, hl.2⟩) fun _ l hl => ?_
  · rcases answer_cases o w _ with ⟨kind, h⟩ | h <;> rw [h]
    · exact ⟨k, .still, by rintro _ ⟨⟩, rfl⟩
    · exact ⟨k, .still, by rintro _ ⟨⟩; rfl, rfl⟩
  · rw [hl.2]
    exact hbad

structure Reserved (k : Estate) (ports : LoopbackPortPair) (l : Estate) : Prop where
  estate : l = { k with sockets := ports.http :: ports.socks :: k.sockets }
  socks : ports.socksAddr.IsV4
  http : ports.httpAddr.IsV4
  apart : ports.socksAddr ≠ ports.httpAddr

theorem runs_dropPair {first second : StdTcpListener} (hk : k.held = none) :
    Runs plane node i (do
      dropListener i second
      dropListener i first) { k with sockets := second :: first :: k.sockets } (fun _ l => l = k) B := by
  have hnone : ({ k with sockets := second :: first :: k.sockets } : Estate).held = none := hk
  refine Runs.bind (@runs_dropListener plane node i _ _ second [] (first :: k.sockets) hnone rfl) fun _ l hl => ?_
  subst hl
  have hrest : ({ k with sockets := first :: k.sockets } : Estate).held = none := hk
  exact @runs_dropListener plane node i _ _ first [] k.sockets hrest rfl

theorem runs_reserveWithin {attempts : Nat} (hk : k.held = none) :
    Runs plane node i (reserveWithin i attempts) k (Reserved k) (· = k) := by
  induction attempts with
  | zero => exact .fail rfl
  | succ attempts ih =>
      unfold reserveWithin
      refine Runs.bind (runs_bindLoopback hk) fun r l hl => ?_
      cases hl with
      | error => exact ih
      | @ok socks hsocks =>
          refine Runs.bind (runs_bindLoopback hk) fun r l hl => ?_
          cases hl with
          | error =>
              have hnone : ({ k with sockets := socks :: k.sockets } : Estate).held = none := hk
              refine Runs.bind (@runs_dropListener plane node i _ _ socks [] k.sockets hnone rfl) fun _ l hl => ?_
              subst hl
              exact ih
          | @ok http hhttp =>
              refine Runs.bind (.orDrop (runs_localAddr rfl) fun l hl => ?_) fun socksAddr l hl => ?_
              · subst hl
                exact runs_dropPair hk
              obtain ⟨rfl, rfl⟩ := hl
              refine Runs.bind (.orDrop (runs_localAddr rfl) fun l hl => ?_) fun httpAddr l hl => ?_
              · subst hl
                exact runs_dropPair hk
              obtain ⟨rfl, rfl⟩ := hl
              split
              · exact .pure ⟨rfl, hsocks, hhttp, ‹_›⟩
              · refine Runs.bind (runs_dropPair hk) fun _ l hl => ?_
                subst hl
                exact ih

theorem runs_release (hk : k.held = none) (h : k.sockets = ports.http :: ports.socks :: mine) :
    Runs plane node i (ports.release i) k
      (fun r l => r = (ports.socksAddr, ports.httpAddr) ∧ l = { k with sockets := mine }) B := by
  unfold LoopbackPortPair.release
  have hsplit : k.sockets = [ports.http] ++ ports.socks :: mine := h
  refine Runs.bind (runs_dropListener hk hsplit) fun _ l hl => ?_
  subst hl
  have hrest : ({ k with sockets := [ports.http] ++ mine } : Estate).held = none := hk
  refine Runs.bind (@runs_dropListener plane node i _ _ ports.http [] mine hrest rfl) fun _ l hl => ?_
  subst hl
  exact .pure ⟨rfl, rfl⟩

/-! ### Readiness -/

variable {child : Child} {order : ByteOrder} {first second : SocketAddr}

/-- An estate in which only what was seen may be other. -/
def Peeked (k l : Estate) : Prop := ∃ sight grasp, l = { k with sight := sight, grasp := grasp }

theorem ok_of_childOwnsListeners {table : Except String (List Char)} {fds : Except String Descriptors}
    (hfirst : first.IsV4) (hsecond : second.IsV4) (h : childOwnsListeners order table fds first second = .ok true) :
    ∃ text targets, table = .ok text ∧ fds = .ok targets := by
  obtain ⟨_, _, _, _, hip⟩ := hfirst
  obtain ⟨_, _, _, _, hip'⟩ := hsecond
  unfold childOwnsListeners at h
  rw [listenerKey_eq hip, listenerKey_eq hip'] at h
  cases table with
  | error error => cases h
  | ok text =>
      cases fds with
      | ok targets => exact ⟨text, targets, rfl, rfl⟩
      | error error =>
          dsimp only [Bind.bind, Except.bind] at h
          split at h <;> cases h

/-- What the check finds out from the table and from the descriptors. -/
theorem seesTwo_of_owns {s t : Plant} {o : Answer} {pid : Nat} (hfirst : first.IsV4) (hsecond : second.IsV4)
    (hne : first ≠ second)
    (h : childOwnsListeners order (.ok (s.procNetTcp order)) (.ok (t.procFds o pid)) first second = .ok true)
    (hsight : k.sight = s.sockets)
    (hgrasp : k.grasp = (t.sockets.filter fun socket => .process pid ∈ socket.holders).map Socket.inode) :
    k.SeesTwo first second := by
  obtain ⟨⟨one, other, hdiffer, hall⟩, howned⟩ := (childOwnsListeners_eq_true hfirst hsecond hne).mp h
  have hlistens : ∀ text, ListensAt order (s.procNetTcp order) first text ∨
    ListensAt order (s.procNetTcp order) second text ↔
      ∃ inode, k.Sees first second inode ∧ (toString inode).toList = text := by
    intro text
    rw [listensAt_iff hfirst, listensAt_iff hsecond]
    unfold Estate.Sees
    rw [hsight]
    constructor
    · rintro (⟨socket, hsocket, hstate, haddr, rfl⟩ | ⟨socket, hsocket, hstate, haddr, rfl⟩)
      · exact ⟨_, ⟨socket, hsocket, hstate, .inl haddr, rfl⟩, rfl⟩
      · exact ⟨_, ⟨socket, hsocket, hstate, .inr haddr, rfl⟩, rfl⟩
    · rintro ⟨inode, ⟨socket, hsocket, hstate, haddr | haddr, rfl⟩, rfl⟩
      · exact .inl ⟨socket, hsocket, hstate, haddr, rfl⟩
      · exact .inr ⟨socket, hsocket, hstate, haddr, rfl⟩
  obtain ⟨n, hn, rfl⟩ := (hlistens one).mp ((hall one).mpr (.inl rfl))
  obtain ⟨m, hm, rfl⟩ := (hlistens other).mp ((hall other).mpr (.inr rfl))
  refine ⟨⟨n, m, ?_, fun found => ⟨fun hfound => ?_, ?_⟩⟩, fun inode hinode => ?_⟩
  · rintro rfl
    exact hdiffer rfl
  · exact ((hall _).mp ((hlistens _).mpr ⟨found, hfound, rfl⟩)).imp toString_injective toString_injective
  · rintro (rfl | rfl)
    · exact hn
    · exact hm
  · obtain ⟨-, socket, hsocket, hholds, rfl⟩ := procFds_holds.mp (howned _ ((hlistens _).mpr ⟨inode, hinode, rfl⟩))
    rw [hgrasp]
    exact List.mem_map_of_mem (List.mem_filter.mpr ⟨hsocket, decide_eq_true hholds⟩)

theorem runs_connectTo {addr : SocketAddr} (hbad : B k) :
    Runs plane node i (connectTo addr) k (fun _ l => l = k) B := by
  refine .awaits (fun _ => k) hbad fun o w a t h => ?_
  cases h
  exact .still

theorem runs_adapterIsReady (hk : k.held = none) (hchild : Minds k child) (hfirst : first.IsV4) (hsecond : second.IsV4)
    (hne : first ≠ second) :
    Runs plane node i (adapterIsReady plane child first second) k
      (fun r l => Peeked k l ∧ (r = .ok true → l.SeesTwo first second)) (Peeked k) := by
  have hsame : Peeked k k := ⟨k.sight, k.grasp, rfl⟩
  unfold adapterIsReady Child.id
  cases hchild with
  | done hdone =>
      rw [hdone, if_pos rfl]
      exact .pure ⟨hsame, by rintro ⟨⟩⟩
  | @open' hopen ward hsome hpid =>
      rw [hopen, if_neg (by decide), ← hpid]
      refine Runs.bind (.step (G := fun r l => ∃ s : Plant, l = { k with sight := s.sockets, grasp := [] } ∧
        ∀ text, r = .ok text → text = s.procNetTcp plane.order) fun o w => ⟨_, .looked hk, w, rfl, fun text htext => ?_⟩)
        fun table l hl => ?_
      · rcases answer_cases o w (.ok (w.procNetTcp plane.order), w) with ⟨kind, h⟩ | h
        · dsimp only at htext
          rw [h] at htext
          cases htext
        · dsimp only at htext
          rw [h] at htext
          cases htext
          rfl
      obtain ⟨s, rfl, htable⟩ := hl
      refine Runs.bind (.step (G := fun r l => ∃ t : Plant, l = { k with
        sight := s.sockets
        grasp := (t.sockets.filter fun socket => .process ward.pid ∈ socket.holders).map Socket.inode } ∧
          ∀ fds, r = .ok fds → ∃ o, fds = t.procFds o ward.pid) fun o w => ⟨_, ?_, w, rfl,
            fun fds hfds => ?_⟩) fun fds l hl => ?_
      · exact @Manages.inspected plane node i { k with sight := s.sockets, grasp := [] } w ward hk hsome
      · rcases answer_cases o w (.ok (w.procFds o ward.pid), w) with ⟨kind, h⟩ | h
        · dsimp only at hfds
          rw [h] at hfds
          cases hfds
        · dsimp only at hfds
          rw [h] at hfds
          cases hfds
          exact ⟨o, rfl⟩
      obtain ⟨t, hl, hread⟩ := hl
      have hpeeked : Peeked k l := ⟨_, _, hl⟩
      dsimp only
      split
      · exact .pure ⟨hpeeked, by rintro ⟨⟩⟩
      · exact .pure ⟨hpeeked, by rintro ⟨⟩⟩
      · rename_i howns
        obtain ⟨text, targets, htext, htargets⟩ := ok_of_childOwnsListeners hfirst hsecond howns
        rw [htext, htargets] at howns
        refine Runs.bind (runs_connectTo hpeeked) fun socksOk m hm => ?_
        subst hm
        refine Runs.bind (runs_connectTo hpeeked) fun httpOk m' hm => ?_
        subst hm
        refine .pure ⟨hpeeked, fun _ => ?_⟩
        have hok : table = .ok text := by
          cases table with
          | error => cases htext
          | ok => cases htext; rfl
        have hok' : fds = .ok targets := by
          cases fds with
          | error => cases htargets
          | ok => cases htargets; rfl
        obtain ⟨o, rfl⟩ := hread targets hok'
        rw [htable text hok] at howns
        exact seesTwo_of_owns hfirst hsecond hne howns (by rw [hl]) (by rw [hl])

theorem Peeked.trans {m : Estate} (h : Peeked k l) (g : Peeked l m) : Peeked k m := by
  obtain ⟨_, _, rfl⟩ := h
  obtain ⟨sight, grasp, rfl⟩ := g
  exact ⟨sight, grasp, rfl⟩

variable {handle : AdapterHandle}

theorem Peeked.minds (h : Peeked k l) (hchild : Minds k child) : Minds l child := by
  obtain ⟨_, _, rfl⟩ := h
  cases hchild with
  | done hdone hnone => exact .done hdone hnone
  | open' hopen hsome hpid => exact .open' hopen hsome hpid

theorem Peeked.tended (h : Peeked k l) (ht : Tended k handle) : Tended l handle := by
  have hchild := h.minds ht.child
  obtain ⟨_, _, rfl⟩ := h
  exact ⟨ht.files, hchild, ht.sockets, ht.held, ht.left, ht.orphan⟩

/-- How a part of the readiness loop may end. -/
inductive Waits (k : Estate) (handle : AdapterHandle) : Option (Except String Unit) × AdapterHandle → Estate → Prop
  | more {l : Estate} (peeked : Peeked k l) : Waits k handle (none, handle) l
  | ready {l : Estate} (peeked : Peeked k l) (seen : l.SeesTwo handle.socksAddr handle.httpAddr) :
      Waits k handle (some (.ok ()), handle) l
  | stopped {l : Estate} {other : AdapterHandle} {error : String} (tended : Tended l other) :
      Waits k handle (some (.error error), other) l

theorem runs_giveUp {other : AdapterHandle} {error : String} (h : Tended l handle) :
    Runs plane node i (giveUp plane handle error) l (Waits k other)
      (fun l => handle.child.done = false ∧ Tended l handle) := by
  unfold giveUp
  exact Runs.bind (runs_stop h) fun r l hl => .pure (.stopped hl.1)

/-- The two addresses of a handle. -/
structure Addressed (handle : AdapterHandle) : Prop where
  socks : handle.socksAddr.IsV4
  http : handle.httpAddr.IsV4
  apart : handle.socksAddr ≠ handle.httpAddr

theorem runs_readyRound {hint : String} (h : Tended k handle) (ha : Addressed handle) :
    Runs plane node i (readyRound plane hint handle) k (Waits k handle) (fun l => Tended l handle) := by
  unfold readyRound
  refine Runs.bind ((runs_adapterIsReady h.held h.child ha.socks ha.http ha.apart).weaken (fun _ _ h => h)
    fun l hl => hl.tended h) fun r l hl => ?_
  obtain ⟨hpeeked, hseen⟩ := hl
  have htended := hpeeked.tended h
  split
  · exact .pure (.ready hpeeked (hseen rfl))
  · exact (runs_giveUp htended).weaken (fun _ _ h => h) fun _ h => h.2
  · refine Runs.bind (runs_tryWait htended.held htended.child) fun r m hm => ?_
    rcases hm with ⟨rfl, rfl⟩ | ⟨hne, hsame, hopen, rfl⟩
    · have hdone : Tended { l with child := none } { handle with child := { handle.child with done := true } } :=
        ⟨htended.files, .done rfl rfl, htended.sockets, htended.held, htended.left, htended.orphan⟩
      exact (runs_giveUp hdone).weaken (fun _ _ h => h) fun _ h => absurd h.1 (by rintro ⟨⟩)
    · obtain ⟨result, found⟩ := r
      dsimp only at hne hsame
      subst hsame
      split
      · rename_i heq
        cases heq
        exact absurd rfl hne
      · rename_i heq
        cases heq
        exact (runs_giveUp htended).weaken (fun _ _ h => h) fun _ h => h.2
      · rename_i heq
        cases heq
        exact .pure (.more hpeeked)

theorem Waits.peeked {r : Option (Except String Unit) × AdapterHandle} {m : Estate} (h : Peeked k l)
    (hr : Waits l handle r m) : Waits k handle r m := by
  cases hr with
  | more peeked => exact .more (h.trans peeked)
  | ready peeked seen => exact .ready (h.trans peeked) seen
  | stopped tended => exact .stopped tended

theorem runs_late {error : String} (h : Tended l handle) :
    Runs plane node i (giveUp plane handle error) l (fun r m => r.1 ≠ none ∧ Waits k handle r m)
      (fun m => Tended m handle) := by
  unfold giveUp
  refine Runs.bind ((runs_stop h).weaken (fun _ _ h => h) fun _ h => h.2) fun r m hm => ?_
  exact .pure ⟨by rintro ⟨⟩, .stopped hm.1⟩

theorem runs_untilReady {hint : String} {sleeps : Nat} (h : Tended k handle) (ha : Addressed handle) :
    Runs plane node i (untilReady plane hint handle sleeps) k (fun r l => r.1 ≠ none ∧ Waits k handle r l)
      (fun l => Tended l handle) := by
  induction sleeps generalizing k with
  | zero =>
      unfold untilReady
      refine Runs.bind (runs_readyRound h ha) fun r l hl => ?_
      cases hl with
      | more peeked => exact runs_late (peeked.tended h)
      | ready peeked seen => exact .pure ⟨by rintro ⟨⟩, .ready peeked seen⟩
      | stopped tended => exact .pure ⟨by rintro ⟨⟩, .stopped tended⟩
  | succ sleeps ih =>
      unfold untilReady
      refine Runs.bind (runs_readyRound h ha) fun r l hl => ?_
      cases hl with
      | ready peeked seen => exact .pure ⟨by rintro ⟨⟩, .ready peeked seen⟩
      | stopped tended => exact .pure ⟨by rintro ⟨⟩, .stopped tended⟩
      | more peeked =>
          have htended := peeked.tended h
          refine Runs.bind (.look fun _ _ => rfl) fun late m hm => ?_
          subst hm
          split
          · exact runs_late htended
          · refine Runs.bind (.awaits (fun _ => m) htended fun o w a t hact => ?_) fun _ m' hm' => ?_
            · cases hact
              exact .still
            · subst hm'
              exact (ih htended).weaken (fun r m hm => ⟨hm.1, .peeked peeked hm.2⟩) fun _ h => h

/-! ### Starting -/

def heldOf (i : Nat) (handle : AdapterHandle) : Held :=
  ⟨i, handle.child.pid, handle.socksAddr, handle.httpAddr, handle.config.path.getD "", handle.aclConfig.bind (·.path)⟩

/-- An estate with nothing in it but sockets. -/
structure Blank (k : Estate) : Prop where
  files : k.files = []
  left : k.left = []
  child : k.child = none
  orphan : k.orphan = false
  held : k.held = none

variable {stem : String} {aclConfig : Option PrivateConfig}

/-- The estate after the ACL was written, if there is one. -/
structure AclMade (plane : DispatchPlane) (node : Node) (i : Nat) (k : Estate) (aclConfig : Option PrivateConfig)
    (acl : Option (String × PrivateFile)) (l : Estate) : Prop where
  estate : l = { k with files := acl.toList }
  path : aclConfig.bind (·.path) = acl.map Prod.fst
  content : ∀ entry, acl = some entry → ∃ text, plane.aclOf node = some text ∧
    entry.2 = ⟨text.toUTF8.toList, 0o600, some i⟩
  absent : acl = none → plane.aclOf node = none

theorem runs_createAcl (hk : Blank k) :
    Runs plane node i (createAcl plane i stem (plane.aclOf node)) k (fun r l => ∃ acl, AclMade plane node i k r acl l)
      (Logged k) := by
  cases hacl : plane.aclOf node with
  | none =>
      refine .pure ⟨none, ?_, rfl, by rintro _ ⟨⟩, fun _ => hacl⟩
      rw [Option.toList_none, ← hk.files]
  | some text =>
      refine Tries.map (runs_create hk.held) fun config l hl => ?_
      obtain ⟨name, hpath, rfl⟩ := hl
      refine ⟨some (name, ⟨text.toUTF8.toList, 0o600, some i⟩), ?_, hpath, ?_, by rintro ⟨⟩⟩
      · rw [hk.files, Option.toList_some]
      · rintro _ ⟨⟩
        exact ⟨text, hacl, rfl⟩

/-- Both files of a start. -/
structure FilesMade (plane : DispatchPlane) (node : Node) (i : Nat) (k : Estate) (ports : LoopbackPortPair)
    (made : Option PrivateConfig × PrivateConfig) (name : String) (content : Bytes) (acl : Option (String × PrivateFile))
    (l : Estate) : Prop where
  aclMade : AclMade plane node i k made.1 acl { k with files := acl.toList }
  path : made.2.path = some name
  serialized : plane.toVecPretty
    (plane.configOf ports.socksAddr ports.httpAddr ((made.1.bind (·.path)).map plane.file) node) = some content
  estate : l = { k with files := (name, ⟨content, 0o600, some i⟩) :: acl.toList }

theorem runs_createFiles {checks : Plane Unit} {config : Option String → Json} (hk : Blank k)
    (hchecks : ∀ l, Runs plane node i checks l (fun _ m => m = l) (· = l))
    (hconfig : ∀ path, config path = plane.configOf ports.socksAddr ports.httpAddr path node) :
    Runs plane node i (createFiles plane i stem checks (plane.aclOf node) config) k
      (fun r l => ∃ name content acl, FilesMade plane node i k ports r name content acl l) (Logged k) := by
  unfold createFiles
  refine Runs.bind ((hchecks k).weaken (fun _ _ h => h) fun l hl => ?_) fun _ l hl => ?_
  · rw [hl]
    exact ⟨k.left, rfl⟩
  subst hl
  refine Runs.bind (runs_createAcl hk) fun aclConfig m hm => ?_
  obtain ⟨acl, hacl⟩ := hm
  have hestate := hacl.estate
  subst hestate
  refine .orDrop (M := fun m => ∃ left, m = { l with files := acl.toList, left := left }) ?_ fun m hm => ?_
  · rw [hconfig]
    cases hcontent : plane.toVecPretty _ with
    | none => exact .fail ⟨l.left, rfl⟩
    | some content =>
        have hheld : ({ l with files := acl.toList } : Estate).held = none := hk.held
        refine Runs.bind ((runs_create hheld).weaken (fun _ _ h => h) fun _ h => h) fun config m hm => ?_
        obtain ⟨name, hpath, rfl⟩ := hm
        exact .pure ⟨name, content, acl, hacl, hpath, hcontent, rfl⟩
  · obtain ⟨left, rfl⟩ := hm
    have hfiles : ({ l with files := acl.toList, left := left } : Estate).files = [] ++ acl.toList ++ [] := by simp
    refine Runs.weaken (runs_dropAcl hk.held hfiles hacl.path) (fun _ m hm => ?_) fun _ h => h
    obtain ⟨lost, rfl, -⟩ := hm
    refine ⟨lost, ?_⟩
    rw [List.append_nil, ← hk.files]

theorem runs_dropPorts (hk : k.held = none) (h : k.sockets = ports.http :: ports.socks :: mine) :
    Runs plane node i (dropPorts i ports) k (fun _ l => l = { k with sockets := mine }) B :=
  Runs.bind (runs_release hk h) fun _ _ hl => .pure hl.2

theorem Logged.cleared (h : Logged k l) (hk : Blank k) (hsockets : k.sockets = []) : Cleared l := by
  obtain ⟨left, rfl⟩ := h
  exact ⟨hk.files, hk.child, hsockets, hk.held⟩

variable {adapter : Adapter} {nodeName : String} {checks : Plane Unit} {config : Option String → Json}

/-- A start has nothing but its ports when it begins. -/
structure Opening (k : Estate) (ports : LoopbackPortPair) : Prop where
  blank : Blank k
  sockets : k.sockets = [ports.http, ports.socks]
  socks : ports.socksAddr.IsV4
  http : ports.httpAddr.IsV4
  apart : ports.socksAddr ≠ ports.httpAddr

/-- What a start that ends well leaves behind. -/
structure Launched (plane : DispatchPlane) (node : Node) (i : Nat) (handle : AdapterHandle) (k : Estate) : Prop where
  tended : Tended k handle
  backed : Backed plane node k (heldOf i handle)

theorem tended_of_made {made : Option PrivateConfig × PrivateConfig} {name : String} {content : Bytes}
    {acl : Option (String × PrivateFile)} {ward : Ward} {label : String} (hk : Blank k) (hsockets : k.sockets = [])
    (hmade : FilesMade plane node i k ports made name content acl l) :
    Tended { l with child := some ward, sight := [], grasp := [] }
      ⟨label, ⟨ward.pid, false⟩, ports.socksAddr, ports.httpAddr, made.2, made.1, nodeName⟩ := by
  rw [hmade.estate]
  refine ⟨⟨some (name, ⟨content, 0o600, some i⟩), acl, rfl, hmade.path, hmade.aclMade.path⟩, .open' rfl rfl rfl, hsockets,
    hk.held, hk.left, hk.orphan⟩

theorem backed_of_made {made : Option PrivateConfig × PrivateConfig} {name : String} {content : Bytes}
    {acl : Option (String × PrivateFile)} {pid : Nat} {label : String} {m : Estate}
    (hmade : FilesMade plane node i k ports made name content acl l) (happart : ports.socksAddr ≠ ports.httpAddr)
    (hpeeked : Peeked { l with
      child := some ⟨pid, plane.commandOf name node, applyDirectNetworkEnv plane.env, false⟩, sight := [], grasp :=
        [] } m)
    (hseen : m.SeesTwo ports.socksAddr ports.httpAddr) :
    Backed plane node m
      (heldOf i ⟨label, ⟨pid, false⟩, ports.socksAddr, ports.httpAddr, made.2, made.1, nodeName⟩) := by
  have hname : (made.2.path.getD "") = name := by rw [hmade.path, Option.getD_some]
  have hfiles : m.files = (name, ⟨content, 0o600, some i⟩) :: acl.toList := by
    obtain ⟨_, _, rfl⟩ := hpeeked
    rw [hmade.estate]
  have hchild : m.child = some ⟨pid, plane.commandOf name node, applyDirectNetworkEnv plane.env, false⟩ := by
    obtain ⟨_, _, rfl⟩ := hpeeked
    rfl
  refine ⟨⟨content, hmade.serialized, some i, ?_⟩, fun found hfound => ?_, fun hnone => ?_,
    ⟨_, hchild, rfl, rfl, ?_, rfl⟩, happart, hseen⟩
  · rw [hfiles]
    dsimp only [heldOf]
    rw [hname]
    exact List.mem_cons_self
  · have hpath : acl.map Prod.fst = some found := hmade.aclMade.path.symm.trans hfound
    obtain ⟨entry, rfl, rfl⟩ := Option.map_eq_some_iff.mp hpath
    obtain ⟨text, htext, hcontent⟩ := hmade.aclMade.content entry rfl
    refine ⟨text, htext, some i, ?_⟩
    rw [hfiles, ← hcontent]
    exact List.mem_cons_of_mem _ (List.mem_singleton_self entry)
  · refine hmade.aclMade.absent ?_
    have hpath : acl.map Prod.fst = none := hmade.aclMade.path.symm.trans hnone
    exact Option.map_eq_none_iff.mp hpath
  · dsimp only [heldOf]
    rw [hname]

theorem runs_spawn {context : String} {command : List String} {env : List (String × String)} (hk : k.held = none)
    (hchild : k.child = none) :
    Runs plane node i (.check context (.call fun o w => w.spawn o i command env)) k
      (fun pid l => l = { k with child := some ⟨pid, command, env, false⟩, sight := [], grasp := [] }) (· = k) := by
  refine .checkCall (l := fun pid =>
    { k with child := some ⟨pid, command, env, false⟩, sight := [], grasp := [] }) rfl fun o w => ?_
  unfold Plant.spawn
  rcases answer_cases o w _ with ⟨kind, h⟩ | h
  · exact .inl ⟨kind, h⟩
  · rw [h]
    cases hfree : w.processes o.pid with
    | some entry => exact .inl ⟨_, rfl⟩
    | none => exact .inr ⟨o.pid, rfl, .spawned hk hchild hfree⟩

theorem runs_dropFiles {made : Option PrivateConfig × PrivateConfig} {name : String} {content : Bytes}
    {acl : Option (String × PrivateFile)} (hk : Blank k) (hsockets : k.sockets = [])
    (hmade : FilesMade plane node i k ports made name content acl l) :
    Runs plane node i (do
      made.2.drop plane
      dropAcl plane made.1) l (fun _ => Cleared) Cleared := by
  have hestate := hmade.estate
  subst hestate
  have hfirst : ({ k with files := (name, ⟨content, 0o600, some i⟩) :: acl.toList } : Estate).files =
      [] ++ (some (name, (⟨content, 0o600, some i⟩ : PrivateFile))).toList ++ acl.toList := rfl
  refine Runs.bind (runs_drop hk.held hfirst hmade.path) fun _ l hl => ?_
  obtain ⟨left, rfl, -⟩ := hl
  have hsecond : ({ k with files := [] ++ acl.toList, left := left } : Estate).files = [] ++ acl.toList ++ [] := by simp
  refine Runs.weaken (runs_dropAcl hk.held hsecond hmade.aclMade.path) (fun _ l hl => ?_) fun _ h => h
  obtain ⟨more, rfl, -⟩ := hl
  exact ⟨rfl, hk.child, hsockets, hk.held⟩

theorem runs_launch {hint : String} (h : Tended k handle) (ha : Addressed handle)
    (hbacked : ∀ l, Peeked k l → l.SeesTwo handle.socksAddr handle.httpAddr → Backed plane node l (heldOf i handle)) :
    Runs plane node i (launch plane hint handle) k (Launched plane node i) Cleared := by
  unfold launch
  refine Runs.bind (.orDrop (runs_untilReady h ha) fun l hl => ?_) fun r l hl => ?_
  · exact (runs_dropHandle hl).weaken (fun _ _ h => h.1) fun _ h => h
  · obtain ⟨hsome, hwaits⟩ := hl
    cases hwaits with
    | more => exact absurd rfl hsome
    | ready peeked seen => exact .pure ⟨peeked.tended h, hbacked l peeked seen⟩
    | stopped tended =>
        refine Runs.bind ((runs_dropHandle tended).weaken (fun _ _ h => h.1) fun _ h => h) fun _ l hl => ?_
        exact .fail hl

theorem runs_startAdapter (hk : Opening k ports)
    (hchecks : ∀ l, Runs plane node i checks l (fun _ m => m = l) (· = l))
    (hconfig : ∀ path, config path = plane.configOf ports.socksAddr ports.httpAddr path node)
    (hcommand : ∀ name, adapter.bin :: adapter.args ++ [plane.file name] = plane.commandOf name node) :
    Runs plane node i (startAdapter plane i adapter ports nodeName checks (plane.aclOf node) config) k
      (Launched plane node i) Cleared := by
  have hblank := hk.blank
  unfold startAdapter
  refine Runs.bind (.orDrop (runs_createFiles hblank hchecks hconfig) fun l hl => ?_) fun made l hl => ?_
  · obtain ⟨left, rfl⟩ := hl
    have hsockets : ({ k with left := left } : Estate).sockets = ports.http :: ports.socks :: [] := hk.sockets
    refine Runs.weaken (runs_dropPorts hblank.held hsockets) (fun _ m hm => ?_) fun _ h => h
    subst hm
    exact ⟨hblank.files, hblank.child, rfl, hblank.held⟩
  obtain ⟨name, content, acl, hmade⟩ := hl
  have hestate := hmade.estate
  have hheld : l.held = none := by rw [hestate]; exact hblank.held
  have hsockets : l.sockets = ports.http :: ports.socks :: [] := by rw [hestate]; exact hk.sockets
  refine Runs.bind (runs_release hheld hsockets) fun addrs m hm => ?_
  -- From here on the ports are free, and there are no sockets in the estate.
  obtain ⟨rfl, rfl⟩ := hm
  have hfree : FilesMade plane node i { k with sockets := [] } ports made name content acl { l with sockets := [] } :=
    ⟨⟨rfl, hmade.aclMade.path, hmade.aclMade.content, hmade.aclMade.absent⟩, hmade.path, hmade.serialized,
      by rw [hestate]⟩
  have hempty : Blank { k with sockets := [] } := ⟨hblank.files, hblank.left, hblank.child, hblank.orphan, hblank.held⟩
  have hchild : l.child = none := by rw [hestate]; exact hblank.child
  have hpath : made.2.path.toList.map plane.file = [plane.file name] := by rw [hmade.path]; rfl
  dsimp only
  rw [hpath, hcommand name]
  refine Runs.bind (.orDrop (runs_spawn hheld hchild) fun m hm => ?_) fun pid m hm => ?_
  · subst hm
    exact runs_dropFiles hempty rfl hfree
  · subst hm
    exact runs_launch (tended_of_made hempty rfl hfree) ⟨hk.socks, hk.http, hk.apart⟩ fun m hpeeked hseen =>
      backed_of_made hfree hk.apart hpeeked hseen

theorem runs_start (hk : Opening k ports) :
    Runs plane node i (plane.start i ports node) k (Launched plane node i) Cleared := by
  have hlook : ∀ {l : Estate} {error : String},
      Runs plane node i (do .ensure ((← Plane.call fun o w => (o.ok, w)) = true) error) l (fun _ m => m = l) (· = l) := by
    intro l error
    refine Runs.bind (.look fun _ _ => rfl) fun ok m hm => ?_
    subst hm
    exact .ensure rfl
  cases node with
  | ss node =>
      refine @runs_startAdapter plane (.ss node) i k ports _ _ _ _ hk (fun l => ?_) (fun _ => rfl) fun _ => rfl
      refine Runs.bind (.look fun _ _ => rfl) fun ok m hm => ?_
      subst hm
      refine Runs.bind (.ensure rfl) fun _ l hl => ?_
      subst hl
      split
      · exact hlook
      · exact .pure rfl
  | anytls node =>
      exact @runs_startAdapter plane (.anytls node) i k ports _ _ _ _ hk (fun l => hlook) (fun _ => rfl) fun _ => rfl

/-! ### A plane's life -/

theorem runs_hold (h : Launched plane node i handle k) :
    Runs plane node i (hold i handle) k (fun _ l => l = { k with held := some (heldOf i handle) }) B :=
  .call (fun _ => { k with held := some (heldOf i handle) }) fun _ _ _ => .holds rfl h.tended.held h.backed

theorem runs_letGo : Runs plane node i (letGo i) k (fun _ l => l = { k with held := none }) B :=
  .call (fun _ => { k with held := none }) fun _ _ _ => .letGo

/-- A stop that was dropped has not found its work done. -/
theorem not_stopped_of_open (hopen : child.done = false) (hchild : Minds k child) : ¬ Stopped k := by
  rintro ⟨-, hnone⟩
  cases hchild with
  | done hdone => cases hopen.symm.trans hdone
  | open' _ hsome => cases hnone.symm.trans hsome

/-- How a stop may end, as its owner sees it. -/
inductive StopEnds (k : Estate) (handle : AdapterHandle) :
    Except Halt (Except String Unit × AdapterHandle) → Estate → Prop
  | ended {result : Except String Unit} {other : AdapterHandle} {l : Estate} (tended : Tended l other)
      (stopped : result = .ok () ∨ Stopped k → Stopped l) : StopEnds k handle (.ok (result, other)) l
  | cut {halt : Halt} {l : Estate} (tended : Tended l handle) (unfinished : ¬ Stopped k) :
    StopEnds k handle (.error halt) l

theorem runs_retire {stops : Nat} (h : Tended k handle) :
    Runs plane node i (retire plane handle stops) k
      (fun results l => Cleared l ∧ (Stopped k ∨ .ok (.ok ()) ∈ results → Spotless l)) B := by
  induction stops generalizing k handle with
  | zero =>
      unfold retire
      refine Runs.bind (runs_dropHandle h) fun _ l hl => .pure ⟨hl.1, fun hdone => ?_⟩
      rcases hdone with hstopped | hmem
      · exact hl.2 hstopped.1 hstopped.2
      · cases hmem
  | succ stops ih =>
      unfold retire
      refine Runs.bind (Runs.observing (runs_stop h) (H := StopEnds k handle) (fun r l hl => ?_) fun halt l hl => ?_)
        fun r l hl => ?_
      · exact .ended hl.1 hl.2
      · exact .cut hl.2 (not_stopped_of_open hl.1 h.child)
      · cases hl with
        | ended tended stopped =>
            refine Runs.bind (ih tended) fun results m hm => .pure ⟨hm.1, fun hdone => hm.2 ?_⟩
            rcases hdone with hdone | hmem
            · exact .inl (stopped (.inr hdone))
            · rcases List.mem_cons.mp hmem with heq | hmem
              · cases heq
                exact .inl (stopped (.inl rfl))
              · exact .inr hmem
        | cut tended unfinished =>
            refine Runs.bind (ih tended) fun results m hm => .pure ⟨hm.1, fun hdone => hm.2 ?_⟩
            rcases hdone with hdone | hmem
            · exact absurd hdone unfinished
            · rcases List.mem_cons.mp hmem with heq | hmem
              · cases heq
              · exact .inr hmem

theorem runs_lifeOf {stops : Nat} :
    Runs plane node i (lifeOf plane i node stops) .bare
      (fun results l => Cleared l ∧ (.ok (.ok ()) ∈ results → Spotless l)) Cleared := by
  unfold lifeOf
  refine Runs.bind ((runs_reserveWithin rfl).weaken (fun _ _ h => h) fun l hl => ?_) fun ports l hl => ?_
  · rw [hl]
    exact ⟨rfl, rfl, rfl, rfl⟩
  have hopening : Opening l ports := by
    rw [hl.estate]
    exact ⟨⟨rfl, rfl, rfl, rfl, rfl⟩, rfl, hl.socks, hl.http, hl.apart⟩
  refine Runs.bind (.orDrop (M := (· = l)) (.awaits (fun _ => l) rfl fun o w a t hact => ?_) fun m hm => ?_)
    fun _ m hm => ?_
  · cases hact
    exact .still
  · subst hm
    refine Runs.weaken (runs_dropPorts hopening.blank.held hopening.sockets) (fun _ m' hm' => ?_) fun _ h => h
    subst hm'
    exact ⟨hopening.blank.files, hopening.blank.child, rfl, hopening.blank.held⟩
  subst hm
  refine Runs.bind (runs_start hopening) fun handle m' hm' => ?_
  refine Runs.bind (runs_hold hm') fun _ l hl => ?_
  subst hl
  refine Runs.bind runs_letGo fun _ l hl => ?_
  have hsame : l = m' := by
    rw [hl]
    dsimp only
    rw [← hm'.tended.held]
  rw [hsame]
  exact (runs_retire hm'.tended).weaken (fun results l hl => ⟨hl.1, fun hmem => hl.2 (.inr hmem)⟩) fun _ h => h

theorem runs_elsewhere {count : Nat} :
    Runs plane node 0 (elsewhere count) k (fun _ l => l = k) B := by
  induction count with
  | zero => exact .pure rfl
  | succ count ih =>
      unfold elsewhere
      refine Runs.bind (.call (fun _ => k) fun _ _ _ => .happened rfl) fun _ l hl => ?_
      subst hl
      exact ih

end

end Plane

end Causeway

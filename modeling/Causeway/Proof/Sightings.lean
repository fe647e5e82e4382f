import Causeway.Proof.Supervision

/-!
# Listeners of a child

The ports of a plane are free for a while between the start's sockets and its child's, and anybody may listen there, even next to the child. A handle is returned only if two sockets were found to listen there in all, and the child was then found to have both open.
-/

namespace Causeway

open Concurrent Prog

namespace Plant

variable (w : Plant)

/-- A socket with this inode listens at the address. -/
def Listens (addr : SocketAddr) (inode : Nat) : Prop :=
  ∃ socket ∈ w.sockets, socket.state = tcpListen ∧ socket.addr = addr ∧ socket.inode = inode

/-- The process has that socket open. -/
def Serves (pid : Nat) (addr : SocketAddr) (inode : Nat) : Prop :=
  ∃ socket ∈ w.sockets, socket.state = tcpListen ∧ socket.addr = addr ∧ socket.inode = inode ∧
    .process pid ∈ socket.holders

/-- Two sockets listen at the two addresses in all. -/
def ListenTwo (first second : SocketAddr) : Prop :=
  ∃ inode other, inode ≠ other ∧
    ∀ found, w.Listens first found ∨ w.Listens second found ↔ found = inode ∨ found = other

/-- More than one socket listens at the address. -/
def Shared (addr : SocketAddr) : Prop :=
  ∃ inode other, inode ≠ other ∧ w.Listens addr inode ∧ w.Listens addr other

end Plant

/-- The child was found to have both sockets open that listen at the two addresses. -/
def Estate.Seen (k : Estate) (pid : Nat) (first second : SocketAddr) : Prop :=
  (∃ ward, k.child = some ward ∧ ward.pid = pid) ∧ k.SeesTwo first second

section

variable {plane : DispatchPlane} {lives : Nat → Node × Nat} {node : Node} {count i pid inode : Nat} {w s t : Plant}
  {moves : List (Move Plant)} {last : Pool Plant Answer (Except Halt (List (Except Halt (Except String Unit))))}
  {k l : Estate} {h : Held} {first second addr : SocketAddr} {sight : List Socket}

theorem Estate.not_seesTwo (h : k.grasp = []) : ¬ k.SeesTwo first second := by
  rintro ⟨⟨inode, _, -, hseen⟩, hall⟩
  have hmem := hall inode ((hseen inode).mpr (.inl rfl))
  rw [h] at hmem
  cases hmem

theorem Estate.sees_iff (h : k.sight = s.sockets) :
    k.Sees first second inode ↔ s.Listens first inode ∨ s.Listens second inode := by
  unfold Estate.Sees Plant.Listens
  rw [h]
  constructor
  · rintro ⟨socket, hsocket, hstate, haddr | haddr, hinode⟩
    · exact .inl ⟨socket, hsocket, hstate, haddr, hinode⟩
    · exact .inr ⟨socket, hsocket, hstate, haddr, hinode⟩
  · rintro (⟨socket, hsocket, hstate, haddr, hinode⟩ | ⟨socket, hsocket, hstate, haddr, hinode⟩)
    · exact ⟨socket, hsocket, hstate, .inl haddr, hinode⟩
    · exact ⟨socket, hsocket, hstate, .inr haddr, hinode⟩

/-- A socket of the last look that the child has open is still the same one. -/
theorem serves_of_grasp (hk : SightOf s.sockets s.nextInode sight)
    (h : ∃ socket ∈ sight, socket.state = tcpListen ∧ socket.addr = addr ∧ socket.inode = inode)
    (hgrasp : inode ∈ (s.sockets.filter fun socket => .process pid ∈ socket.holders).map Socket.inode) :
    s.Serves pid addr inode := by
  obtain ⟨socket, hsocket, hstate, haddr, rfl⟩ := h
  obtain ⟨found, hfound, hinode⟩ := List.mem_map.mp hgrasp
  obtain ⟨hmem, hholds⟩ := List.mem_filter.mp hfound
  obtain ⟨-, hsame, hsame'⟩ := hk.same socket hsocket found hmem hinode
  exact ⟨found, hmem, hsame'.trans hstate, hsame.trans haddr, hinode, of_decide_eq_true hholds⟩

/-- The step at which the child is found to have them open is a look at its descriptors, and then it has. -/
theorem Manages.found (hstep : Manages plane node i k s t l) (hk : Owns plane node i s k)
    (hbefore : ¬ k.Seen pid first second) (hafter : l.Seen pid first second) :
    (∃ entry, s.processes pid = some entry ∧ entry.parent = some i ∧ entry.orphaned = false) ∧ l.sight = k.sight ∧
      ∀ addr inode, (addr = first ∨ addr = second) →
        (∃ socket ∈ k.sight, socket.state = tcpListen ∧ socket.addr = addr ∧ socket.inode = inode) →
        s.Serves pid addr inode := by
  have hfelled : ∀ {ward : Ward}, k.child = some ward → l.child = some { ward with felled := true } →
      (l.SeesTwo first second → k.SeesTwo first second) → k.Seen pid first second := by
    intro ward hward hnow hsees
    obtain ⟨⟨found, hfound, hpid⟩, hseen⟩ := hafter
    cases hnow.symm.trans hfound
    exact ⟨⟨ward, hward, hpid⟩, hsees hseen⟩
  cases hstep with
  | impossible h => exact absurd hk h
  | spawned => exact absurd hafter.2 (Estate.not_seesTwo rfl)
  | looked => exact absurd hafter.2 (Estate.not_seesTwo rfl)
  | waited =>
      obtain ⟨⟨_, hnone, -⟩, -⟩ := hafter
      cases hnone
  | orphaned =>
      obtain ⟨⟨_, hnone, -⟩, -⟩ := hafter
      cases hnone
  | killed held mine => exact absurd (hfelled mine rfl id) hbefore
  | spared held mine => exact absurd (hfelled mine rfl id) hbefore
  | @inspected _ ward held mine =>
      obtain ⟨⟨found, hfound, hpid⟩, -, hall⟩ := hafter
      have hsame : ward.pid = pid := by
        rw [← hpid, Option.some.inj (mine.symm.trans hfound)]
      obtain ⟨entry, hentry, hparent, horphaned, -⟩ := hk.child.there ward mine
      rw [hsame] at hentry hall
      refine ⟨⟨entry, hentry, hparent, horphaned⟩, rfl, fun addr inode haddr hseen => ?_⟩
      refine serves_of_grasp hk.sight hseen (hall inode ?_)
      obtain ⟨socket, hsocket, hstate, hat, hinode⟩ := hseen
      exact ⟨socket, hsocket, hstate, haddr.imp hat.trans hat.trans, hinode⟩
  | _ => exact absurd hafter hbefore

/-- The step that brings about what was seen is a look at the kernel's table. -/
theorem Manages.looks (hstep : Manages plane node i k s t l) (hk : Owns plane node i s k) (hsome : sight ≠ [])
    (hbefore : k.sight ≠ sight) (hafter : l.sight = sight) : s.sockets = sight := by
  cases hstep with
  | impossible h => exact absurd hk h
  | looked => exact hafter
  | spawned => exact absurd hafter.symm hsome
  | _ => exact absurd hafter hbefore

/-- Two sockets that listen at two addresses in all are one at each, unless an address is shared. -/
theorem serves_each (htwo : s.ListenTwo first second) (hfirst : ¬ s.Shared first) (hsecond : ¬ s.Shared second)
    (hserves : ∀ inode, s.Listens first inode → t.Serves pid first inode)
    (hserves' : ∀ inode, s.Listens second inode → t.Serves pid second inode) :
    (∃ inode, t.Serves pid first inode) ∧ ∃ inode, t.Serves pid second inode := by
  obtain ⟨inode, other, hne, hfound⟩ := htwo
  have hinode := (hfound inode).mpr (.inl rfl)
  have hother := (hfound other).mpr (.inr rfl)
  rcases hinode with hone | hone <;> rcases hother with htwo | htwo
  · exact absurd ⟨inode, other, hne, hone, htwo⟩ hfirst
  · exact ⟨⟨inode, hserves inode hone⟩, other, hserves' other htwo⟩
  · exact ⟨⟨other, hserves other htwo⟩, inode, hserves' inode hone⟩
  · exact absurd ⟨inode, other, hne, hone, htwo⟩ hsecond

/-- For every handle that is held there was a moment of the run when two sockets listened at its two addresses in all, and a later one when its child had both of them open; if no address was shared, the child listens at each. -/
theorem held_plane_listened (hw : w.Fresh) (run : (planes plane lives count w).Run moves last)
    (hheld : h ∈ last.shared.held) :
    h.socksAddr ≠ h.httpAddr ∧ ∃ before look between read after, moves = before ++ look :: between ++ read :: after ∧
      look.thread = h.owner ∧ read.thread = h.owner ∧
      (∃ entry, read.before.processes h.pid = some entry ∧ entry.parent = some h.owner ∧ entry.orphaned = false) ∧
      look.before.ListenTwo h.socksAddr h.httpAddr ∧
      (∀ inode, look.before.Listens h.socksAddr inode → read.before.Serves h.pid h.socksAddr inode) ∧
      (∀ inode, look.before.Listens h.httpAddr inode → read.before.Serves h.pid h.httpAddr inode) ∧
      (¬ look.before.Shared h.socksAddr → ¬ look.before.Shared h.httpAddr →
        (∃ inode, read.before.Serves h.pid h.socksAddr inode) ∧ ∃ inode, read.before.Serves h.pid h.httpAddr inode) := by
  obtain ⟨k, hstory, howns, -⟩ := planes_estate hw run h.owner
  have hbacked := howns.backed h (howns.held h hheld rfl)
  obtain ⟨ward, hward, hpid, -⟩ := hbacked.child
  have hseen : k.Seen h.pid h.socksAddr h.httpAddr := ⟨⟨ward, hward, hpid⟩, hbacked.ready⟩
  have hbare : ¬ Estate.bare.Seen h.pid h.socksAddr h.httpAddr := fun hsome => Estate.not_seesTwo rfl hsome.2
  -- The descriptors were read at the step at which the child was found, and the table at the last look before.
  obtain ⟨steps, read, rest, j, l, heq, hfirst, ⟨hj, hread⟩, -, hbefore, hafter⟩ :=
    (planes_story hw run hstory).lost (X := fun k => ¬ k.Seen h.pid h.socksAddr h.httpAddr) hbare (not_not_intro hseen)
  have hfound := not_not.mp hafter
  obtain ⟨hthere, hsight, hserves⟩ := hread.found hj hbefore hfound
  obtain ⟨inode, other, hne, htwo⟩ := hfound.2.1
  have hsome : j.sight ≠ [] := by
    obtain ⟨socket, hsocket, -⟩ := (htwo inode).mpr (.inl rfl)
    exact List.ne_nil_of_mem (hsight ▸ hsocket)
  obtain ⟨steps, look, others, j', l', rfl, -, ⟨hj', hlook⟩, -, hnew, hlast⟩ :=
    hfirst.lost (X := fun k => k.sight ≠ j.sight) (Ne.symm hsome) (not_not_intro rfl)
  have htable : look.1.sockets = j.sight := hlook.looks hj' hsome hnew (not_not.mp hlast)
  have hlistens : ∀ inode, l.Sees h.socksAddr h.httpAddr inode ↔
      look.1.Listens h.socksAddr inode ∨ look.1.Listens h.httpAddr inode :=
    fun _ => Estate.sees_iff (hsight.trans htable.symm)
  have hlistenTwo : look.1.ListenTwo h.socksAddr h.httpAddr :=
    ⟨inode, other, hne, fun found => (hlistens found).symm.trans (htwo found)⟩
  have hsocks : ∀ inode, look.1.Listens h.socksAddr inode → read.1.Serves h.pid h.socksAddr inode :=
    fun inode hinode => hserves _ inode (.inl rfl) (htable ▸ hinode)
  have hhttp : ∀ inode, look.1.Listens h.httpAddr inode → read.1.Serves h.pid h.httpAddr inode :=
    fun inode hinode => hserves _ inode (.inr rfl) (htable ▸ hinode)
  obtain ⟨before, after, rfl, hown, -⟩ := Pool.own_eq_append heq
  obtain ⟨before, between, rfl, -, -⟩ := Pool.own_eq_append hown
  exact ⟨hbacked.apart, before, ⟨h.owner, look.1, look.2⟩, between, ⟨h.owner, read.1, read.2⟩, after, rfl, rfl, rfl,
    hthere, hlistenTwo, hsocks, hhttp, fun hfirst hsecond => serves_each hlistenTwo hfirst hsecond hsocks hhttp⟩

/-- The child of the sample's plane has both of them open. -/
theorem held_plane_listened_launched : ∃ moves last h, Sample.adapterPool.Run moves last ∧ last.shared.held = [h] ∧
    ∃ look ∈ moves, ∃ read ∈ moves, look.before.ListenTwo h.socksAddr h.httpAddr ∧
      (∀ inode, look.before.Listens h.socksAddr inode → read.before.Serves 9 h.socksAddr inode) ∧
      ∀ inode, look.before.Listens h.httpAddr inode → read.before.Serves 9 h.httpAddr inode := by
  obtain ⟨moves, last, h, run, hheld, hpid⟩ := Sample.run_launched
  have hmem : h ∈ last.shared.held := by
    rw [hheld]
    exact List.mem_singleton_self h
  obtain ⟨-, before, look, between, read, after, rfl, -, -, -, htwo, hfirst, hsecond, -⟩ :=
    held_plane_listened Sample.emptyPlant_fresh run hmem
  rw [hpid] at hfirst hsecond
  exact ⟨_, last, h, run, hheld, look, by simp, read, by simp, htwo, hfirst, hsecond⟩

end

end Causeway

import Causeway.Proof.Estates

/-!
# Calls and estates

What a call of one thread makes of its own estate, and that it leaves the estates of all others as they are.
-/

namespace Causeway

open Concurrent Prog

section

variable {plane : DispatchPlane} {node other : Node} {i j : Nat} {k l m : Estate} {s t : Plant} {happening : Happening}

/-! ### The machine -/

theorem Plant.Sane.fades (h : s.Sane) (hsockets : Fades s.sockets t.sockets) (hnext : t.nextInode = s.nextInode)
    (hfiles : t.files = s.files) : t.Sane where
  mode := hfiles ▸ h.mode
  old socket hsocket := by
    obtain ⟨found, hfound, hlike, -⟩ := hsockets socket hsocket
    rw [hnext, hlike.1]
    exact h.old found hfound
  same socket hsocket found hfound hinode := by
    obtain ⟨before, hbefore, hlike, -⟩ := hsockets socket hsocket
    obtain ⟨after, hafter, hlike', -⟩ := hsockets found hfound
    have hsame := h.same before hbefore after hafter ((hlike'.1.symm.trans hinode).trans hlike.1)
    exact (hlike'.trans hsame).trans hlike.symm

theorem Plant.Sane.opened {holder : Holder} {addr : SocketAddr} {state : UInt8} (h : s.Sane) :
    (s.openSocket holder addr state).Sane where
  mode := h.mode
  old socket hsocket := by
    rcases List.mem_cons.mp hsocket with rfl | hsocket
    · exact Nat.lt_succ_self _
    · exact Nat.lt_succ_of_lt (h.old socket hsocket)
  same socket hsocket found hfound hinode := by
    rcases List.mem_cons.mp hsocket with rfl | hsocket <;> rcases List.mem_cons.mp hfound with rfl | hfound
    · exact ⟨rfl, rfl, rfl⟩
    · exact absurd (hinode ▸ h.old found hfound) (Nat.lt_irrefl _)
    · exact absurd (hinode ▸ h.old socket hsocket) (Nat.lt_irrefl _)
    · exact h.same socket hsocket found hfound hinode

theorem Plant.Sane.update {name : String} {x : Option PrivateFile} (h : s.Sane)
    (hx : ∀ file, x = some file → file.creator ≠ none → file.mode &&& 0o077 = 0) :
    Plant.Sane { s with files := Function.update s.files name x } where
  mode found file hfile hcreator := by
    dsimp only at hfile
    by_cases hname : found = name
    · subst hname
      rw [Function.update_self] at hfile
      exact hx file hfile hcreator
    · rw [Function.update_of_ne hname] at hfile
      exact h.mode found file hfile hcreator
  old := h.old
  same := h.same

theorem Plant.Sane.happened (h : s.Sane) : (s.happen happening).Sane := by
  rcases happen_sockets s happening with ⟨hfades, hnext⟩ | ⟨pid, addr, state, heq⟩
  · exact h.fades hfades hnext (happen_rest s happening).1
  · rw [heq]
    exact h.opened

theorem Manages.sane (h : Manages plane node i k s t l) (hs : s.Sane) (hk : Owns plane node i s k) : t.Sane := by
  cases h with
  | impossible h => exact absurd hk h
  | happened => exact hs.happened
  | opened => exact hs.opened
  | closed => exact hs.fades (.closed _) rfl rfl
  | created held free hmode =>
      refine hs.update fun file hfile _ => ?_
      cases hfile
      exact hmode
  | @changed _ name file rest f held mine creator hmode =>
      obtain ⟨hthere, hcreator⟩ := hk.files.there (name, file) (by rw [mine]; exact List.mem_cons_self)
      refine hs.update fun found hfound _ => ?_
      rw [hthere] at hfound
      cases hfound
      refine hmode (hs.mode name file hthere ?_)
      rw [hcreator]
      rintro ⟨⟩
  | removed => exact hs.update fun file hfile => by cases hfile
  | killed => exact ⟨hs.mode, hs.old, hs.same⟩
  | @orphaned _ ward held mine felled =>
      unfold Plant.leave
      cases s.processes ward.pid with
      | none => exact hs
      | some entry =>
          dsimp only
          split <;> exact ⟨hs.mode, hs.old, hs.same⟩
  | _ => exact ⟨hs.mode, hs.old, hs.same⟩

/-! ### The thread's own estate -/

theorem Owns.happened (h : Owns plane node i s k) : Owns plane node i (s.happen happening) k := by
  obtain ⟨hfiles, hwarnings, hheld⟩ := happen_rest s happening
  refine ⟨?_, ?_, (happen_ages s happening).childOf h.child, ?_, ?_, h.backed⟩
  · rw [hfiles, hwarnings]
    exact h.files
  · rcases happen_sockets s happening with ⟨hfades, -⟩ | ⟨pid, addr, state, heq⟩
    · exact hfades.socketsOf h.sockets
    · rw [heq]
      intro socket hsocket hi
      rcases List.mem_cons.mp hsocket with rfl | hsocket
      · exact absurd hi (by simp)
      · exact h.sockets socket hsocket hi
  · rcases happen_sockets s happening with ⟨hfades, hnext⟩ | ⟨pid, addr, state, heq⟩
    · rw [hnext]
      exact hfades.sightOf h.sight
    · rw [heq]
      exact h.sight.opened rfl
  · rw [hheld]
    exact h.held

theorem leave_drops {ward : Ward} {orphan : Bool} (hk : ChildOf i s.processes (some ward) orphan)
    (hfelled : ward.felled = true) :
    ChildOf i (s.leave ward.pid).processes none true ∧ ∃ x, s.leave ward.pid =
      { s with processes := Function.update s.processes ward.pid x } := by
  obtain ⟨entry, hentry, -, -, -, -, -, hdown⟩ := hk.there ward rfl
  unfold Plant.leave
  rw [hentry]
  dsimp only
  split
  · exact ⟨hk.dropped (fun _ => rfl) (by rintro _ ⟨⟩), none, rfl⟩
  · refine ⟨hk.dropped (fun _ => rfl) ?_, some { entry with orphaned := true }, rfl⟩
    rintro _ ⟨⟩
    exact ⟨rfl, rfl, hdown hfelled⟩

theorem Manages.own (h : Manages plane node i k s t l) (hs : s.Sane) (hk : Owns plane node i s k) :
    Owns plane node i t l := by
  have hidle : ∀ {l : Estate}, l.held = none → ∀ h, l.held = some h → Backed plane node l h := by
    intro l hl h hh
    rw [hl] at hh
    cases hh
  cases h with
  | still => exact hk
  | counted => exact ⟨hk.files, hk.sockets, hk.child, hk.sight, hk.held, hk.backed⟩
  | impossible h => exact absurd hk h
  | happened => exact hk.happened
  | opened held =>
      refine ⟨hk.files, fun socket hsocket hi => ?_, hk.child, hk.sight.opened rfl, hk.held, hidle held⟩
      rcases List.mem_cons.mp hsocket with rfl | hsocket
      · exact ⟨_, List.mem_cons_self, rfl⟩
      · obtain ⟨listener, hlistener, hinode⟩ := hk.sockets socket hsocket hi
        exact ⟨listener, List.mem_cons_of_mem _ hlistener, hinode⟩
  | closed held mine =>
      have hsockets := hk.sockets
      rw [mine] at hsockets
      exact ⟨hk.files, hsockets.closed, hk.child, (Fades.closed _).sightOf hk.sight, hk.held, hidle held⟩
  | created held free =>
      exact ⟨hk.files.created free rfl, hk.sockets, hk.child, hk.sight, hk.held, hidle held⟩
  | @changed _ name file rest f held mine creator =>
      have hfiles := hk.files
      rw [mine] at hfiles
      refine ⟨?_, hk.sockets, hk.child, hk.sight, hk.held, hidle held⟩
      dsimp only [Plant.change]
      rw [(hfiles.there _ List.mem_cons_self).1]
      exact hfiles.changed creator
  | removed held mine =>
      have hfiles := hk.files
      rw [mine] at hfiles
      exact ⟨hfiles.removed, hk.sockets, hk.child, hk.sight, hk.held, hidle held⟩
  | warned held mine =>
      have hfiles := hk.files
      rw [mine] at hfiles
      exact ⟨hfiles.warned, hk.sockets, hk.child, hk.sight, hk.held, hidle held⟩
  | spawned held childless free =>
      have hchild := hk.child
      rw [childless] at hchild
      refine ⟨hk.files, hk.sockets, hchild.spawned, ⟨?_, ?_⟩, hk.held, hidle held⟩ <;> rintro _ ⟨⟩
  | waited held mine =>
      have hchild := hk.child
      rw [mine] at hchild
      exact ⟨hk.files, hk.sockets, hchild.dropped id (by rintro _ ⟨⟩), hk.sight, hk.held, hidle held⟩
  | @killed _ ward held mine =>
      have hchild := hk.child
      rw [mine] at hchild
      obtain ⟨entry, hentry, -⟩ := hchild.there ward rfl
      refine ⟨hk.files, hk.sockets, ?_, hk.sight, hk.held, hidle held⟩
      dsimp only [Plant.setState]
      rw [hentry]
      refine hchild.felled hentry rfl (.inl ?_)
      rintro ⟨⟩
  | @spared _ ward entry held mine there felled =>
      have hchild := hk.child
      rw [mine] at hchild
      have hfelled := hchild.felled there rfl felled
      rw [Function.update_eq_self_iff.mpr there.symm] at hfelled
      exact ⟨hk.files, hk.sockets, hfelled, hk.sight, hk.held, hidle held⟩
  | @orphaned _ ward held mine felled =>
      have hchild := hk.child
      rw [mine] at hchild
      obtain ⟨hleft, x, heq⟩ := leave_drops hchild felled
      rw [heq] at hleft ⊢
      exact ⟨hk.files, hk.sockets, hleft, hk.sight, hk.held, hidle held⟩
  | looked held =>
      exact ⟨hk.files, hk.sockets, hk.child, ⟨hs.old, hs.same⟩, hk.held, hidle held⟩
  | inspected held mine => exact ⟨hk.files, hk.sockets, hk.child, hk.sight, hk.held, hidle held⟩
  | @holds _ h owner held backed =>
      refine ⟨hk.files, hk.sockets, hk.child, hk.sight, fun found hfound howner => ?_, fun found hfound => ?_⟩
      · rcases List.mem_cons.mp hfound with rfl | hfound
        · rfl
        · cases held.symm.trans (hk.held found hfound howner)
      · cases hfound
        exact ⟨backed.config, backed.acl, backed.noAcl, backed.child, backed.apart, backed.ready⟩
  | letGo =>
      refine ⟨hk.files, hk.sockets, hk.child, hk.sight, fun found hfound howner => ?_, hidle rfl⟩
      exact absurd howner (of_decide_eq_true (List.mem_filter.mp hfound).2)

/-! ### The estates of the others -/

theorem Manages.others (h : Manages plane node i k s t l) (hk : Owns plane node i s k) (hne : j ≠ i)
    (hm : Owns plane other j s m) : Owns plane other j t m := by
  have hforeign : ∀ {owner : Option Nat}, owner = some i → owner ≠ some j := by
    rintro _ rfl heq
    exact hne (Option.some.inj heq).symm
  have hsockets : ∀ (which : Socket → Bool),
      Owns plane other j (s.closeSockets (.thread i) which) m := fun which =>
    ⟨hm.files, (Fades.closed which).socketsOf hm.sockets, hm.child, (Fades.closed which).sightOf hm.sight, hm.held,
      hm.backed⟩
  have hprocess : ∀ {ward : Ward} {x : Option PidEntry}, k.child = some ward →
      (∀ entry, x = some entry → entry.parent = some i) →
        Owns plane other j { s with processes := Function.update s.processes ward.pid x } m := by
    intro ward x hward hx
    obtain ⟨entry, hentry, hparent, -⟩ := hk.child.there ward hward
    refine ⟨hm.files, hm.sockets, Ages.childOf (.elsewhere (fun found hfound => ?_) fun found hfound => ?_) hm.child,
      hm.sight, hm.held, hm.backed⟩
    · cases hentry.symm.trans hfound
      exact hforeign hparent
    · exact hforeign (hx found hfound)
  cases h with
  | still => exact hm
  | counted => exact ⟨hm.files, hm.sockets, hm.child, hm.sight, hm.held, hm.backed⟩
  | impossible h => exact absurd hk h
  | happened => exact hm.happened
  | opened held =>
      refine ⟨hm.files, fun socket hsocket hj => ?_, hm.child, hm.sight.opened rfl, hm.held, hm.backed⟩
      rcases List.mem_cons.mp hsocket with rfl | hsocket
      · rw [List.mem_singleton] at hj
        cases hj
        exact absurd rfl hne
      · exact hm.sockets socket hsocket hj
  | closed => exact hsockets _
  | created held free =>
      refine ⟨hm.files.elsewhere (fun file hfile => ?_) fun file hfile => ?_, hm.sockets, hm.child, hm.sight, hm.held,
        hm.backed⟩
      · cases free.symm.trans hfile
      · cases hfile
        exact hforeign rfl
  | @changed _ name file rest f held mine creator =>
      obtain ⟨hthere, hcreator⟩ := hk.files.there (name, file) (by rw [mine]; exact List.mem_cons_self)
      refine ⟨hm.files.elsewhere (fun found hfound => ?_) fun found hfound => ?_, hm.sockets, hm.child, hm.sight, hm.held,
        hm.backed⟩
      · cases hthere.symm.trans hfound
        exact hforeign hcreator
      · rw [hthere] at hfound
        cases hfound
        exact hforeign (creator.trans hcreator)
  | @removed _ entry before after held mine =>
      obtain ⟨hthere, hcreator⟩ := hk.files.there entry (by rw [mine]; simp)
      refine ⟨hm.files.elsewhere (fun found hfound => ?_) fun found hfound => ?_, hm.sockets, hm.child, hm.sight, hm.held,
        hm.backed⟩
      · cases hthere.symm.trans hfound
        exact hforeign hcreator
      · cases hfound
  | warned => exact ⟨hm.files.logged, hm.sockets, hm.child, hm.sight, hm.held, hm.backed⟩
  | @spawned _ pid _ _ _ held childless free =>
      refine ⟨hm.files, hm.sockets, Ages.childOf (.elsewhere (fun found hfound => ?_) fun found hfound => ?_) hm.child,
        hm.sight, hm.held, hm.backed⟩
      · cases free.symm.trans hfound
      · cases hfound
        exact hforeign rfl
  | waited held mine => exact hprocess mine (by rintro _ ⟨⟩)
  | @killed _ ward held mine =>
      obtain ⟨entry, hentry, hparent, -⟩ := hk.child.there ward mine
      refine hprocess mine fun found hfound => ?_
      rw [hentry] at hfound
      cases hfound
      exact hparent
  | spared => exact hm
  | @orphaned _ ward held mine =>
      obtain ⟨entry, hentry, hparent, -⟩ := hk.child.there ward mine
      unfold Plant.leave
      rw [hentry]
      dsimp only
      split
      · exact hprocess mine (by rintro _ ⟨⟩)
      · refine hprocess mine ?_
        rintro _ ⟨⟩
        exact hparent
  | looked => exact hm
  | inspected => exact hm
  | @holds _ h owner =>
      refine ⟨hm.files, hm.sockets, hm.child, hm.sight, fun found hfound howner => ?_, hm.backed⟩
      rcases List.mem_cons.mp hfound with rfl | hfound
      · exact absurd (howner.symm.trans owner) hne
      · exact hm.held found hfound howner
  | letGo =>
      exact ⟨hm.files, hm.sockets, hm.child, hm.sight, fun found hfound => hm.held found (List.mem_filter.mp hfound).1,
        hm.backed⟩

end

end Causeway

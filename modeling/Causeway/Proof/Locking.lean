import Causeway.Proof.Steps

/-!
# Rules for locks and their scopes

What a thread knows when it takes a lock, and what it must leave behind when it releases one: a class in order, a route of the current publication.
-/

namespace Causeway

open Concurrent History

section

variable {env : Env} {i : Nat} {α β : Type} {post : β → Core → Prop} {w : World} {name : LockName}

/-- What a save of thread `i` in progress forbids it to do with a lock. -/
structure MayMove (i : Nat) (name : LockName) (c : Core) : Prop where
  gate : name = .reconfiguration → c.Idle i
  state : name = .state → c.files.saves i = none

theorem MayMove.of_idle {c : Core} (h : c.Idle i) : MayMove i name c := ⟨fun _ => h, fun _ => h.1⟩

theorem MayMove.sees {s t : Core} (h : MayMove i name s) (hst : Sees env i s t) : MayMove i name t :=
  ⟨fun hn => hst.idle (h.gate hn), fun hn => hst.save.trans (h.state hn)⟩

theorem acquired {t : World} {lock : Lock} (h : (t.locks name).acquireWrite i = some lock)
    (ht : Inv env t.core) (hmay : MayMove i name t.core) :
    let u : World := { t with locks := Function.update t.locks name lock }
    t.core.Free name ∧ Relocked i name t.core u.core ∧ u.core.hold i name = .write ∧ Inv env u.core ∧
      Guar env i t.core u.core := by
  intro u
  obtain ⟨hfree, rfl⟩ := Lock.acquireWrite_eq h
  have hnone : ∀ j, t.core.hold j name = .none := fun j => by simp [Core.hold, World.core, hfree]
  have hmoved : Relocked i name t.core u.core :=
    relocked_update fun j hj => by simp [hnone j, Lock.hold, Ne.symm hj]
  have hhold : u.core.hold i name = .write := by simp [u, Core.hold, World.core, Lock.hold]
  have hinv : Inv env u.core :=
    hmoved.inv ht (fun _ _ _ hf => absurd hhold (hf i)) (fun _ _ _ hf => absurd hhold (hf i))
      fun _ hf => absurd hhold (hf i)
  exact ⟨fun j => by simp [hnone j], hmoved, hhold, hinv, hmoved.guar hmay.gate hmay.state⟩

theorem safe_acquireWrite {k : Unit → Sup β} (hmay : MayMove i name w.core)
    (hk : ∀ t u : World, Inv env t.core → Sees env i w.core t.core → t.core.Free name →
      Relocked i name t.core u.core → u.core.hold i name = .write → Inv env u.core →
      SafeFrom env i post (k ()) u) :
    SafeFrom env i post (Sup.acquireWrite i name >>= k) w := by
  refine Discipline.Safe.atomic fun t ht hst o b u h => ?_
  obtain ⟨lock, hlock, heq⟩ := Option.map_eq_some_iff.mp h
  obtain ⟨rfl, rfl⟩ := Prod.mk.inj heq
  obtain ⟨hfree, hmoved, hhold, hinv, hguar⟩ := acquired hlock ht (hmay.sees hst)
  exact ⟨hinv, hguar, hk t _ ht hst hfree hmoved hhold hinv⟩

theorem safe_acquireWriteBy {k : Bool → Sup β} (hmay : MayMove i name w.core)
    (hno : SafeFrom env i post (k false) w)
    (hk : ∀ t u : World, Inv env t.core → Sees env i w.core t.core → t.core.Free name →
      Relocked i name t.core u.core → u.core.hold i name = .write → Inv env u.core →
      SafeFrom env i post (k true) u) :
    SafeFrom env i post (Sup.acquireWriteBy i name >>= k) w := by
  refine Discipline.Safe.atomic fun t ht hst o b u h => ?_
  split at h
  · obtain ⟨rfl, rfl⟩ := Prod.mk.inj (Option.some.inj h)
    exact ⟨ht, .refl, hno.mono hst⟩
  · obtain ⟨lock, hlock, heq⟩ := Option.map_eq_some_iff.mp h
    obtain ⟨rfl, rfl⟩ := Prod.mk.inj heq
    obtain ⟨hfree, hmoved, hhold, hinv, hguar⟩ := acquired hlock ht (hmay.sees hst)
    exact ⟨hinv, hguar, hk t _ ht hst hfree hmoved hhold hinv⟩

theorem safe_tryAcquireWrite {k : Bool → Sup β} (hmay : MayMove i name w.core)
    (hno : SafeFrom env i post (k false) w)
    (hk : ∀ t u : World, Inv env t.core → Sees env i w.core t.core → t.core.Free name →
      Relocked i name t.core u.core → u.core.hold i name = .write → Inv env u.core →
      SafeFrom env i post (k true) u) :
    SafeFrom env i post (Sup.tryAcquireWrite i name >>= k) w := by
  refine Discipline.Safe.atomic fun t ht hst o b u h => ?_
  split at h
  · rename_i lock hlock
    obtain ⟨rfl, rfl⟩ := Prod.mk.inj (Option.some.inj h)
    obtain ⟨hfree, hmoved, hhold, hinv, hguar⟩ := acquired hlock ht (hmay.sees hst)
    exact ⟨hinv, hguar, hk t _ ht hst hfree hmoved hhold hinv⟩
  · obtain ⟨rfl, rfl⟩ := Prod.mk.inj (Option.some.inj h)
    exact ⟨ht, .refl, hno.mono hst⟩

theorem safe_enterGate {k : Unit → Sup β} (hidle : w.core.Idle i)
    (hk : ∀ t u : World, Inv env t.core → Sees env i w.core t.core →
      Relocked i .reconfiguration t.core u.core → u.core.hold i .reconfiguration = .read →
      Inv env u.core → SafeFrom env i post (k ()) u) :
    SafeFrom env i post (Sup.acquireRead i .reconfiguration >>= k) w := by
  refine Discipline.Safe.atomic fun t ht hst o b u h => ?_
  obtain ⟨lock, hlock, heq⟩ := Option.map_eq_some_iff.mp h
  obtain ⟨rfl, rfl⟩ := Prod.mk.inj heq
  have hmoved : Relocked i .reconfiguration t.core
      (World.core { t with locks := Function.update t.locks .reconfiguration lock }) :=
    relocked_update fun j hj => Lock.acquireRead_hold_of_ne hlock hj
  have hinv := hmoved.inv ht (fun _ _ hn => nomatch hn) (fun _ _ hn => nomatch hn) (fun hn => nomatch hn)
  refine ⟨hinv, hmoved.guar (fun _ => hst.idle hidle) (fun hn => nomatch hn), ?_⟩
  refine hk t _ ht hst hmoved ?_ hinv
  simpa [Core.hold, World.core] using Lock.acquireRead_hold hlock

/-- A lock that only other threads may hold for writing was free before if it is free after. -/
theorem Relocked.free {s t : Core} (h : Relocked i name s t) (hs : s.hold i name ≠ .write)
    (ht : t.Free name) : s.Free name := by
  intro j
  by_cases hj : j = i
  · exact hj ▸ hs
  · rw [← h.others j name (.inr hj)]
    exact ht j

/-- Releasing a lock: a class that was held must be in order, a route up to date, the state that of the published profile. -/
theorem safe_release {k : Unit → Sup β} (hmay : MayMove i name w.core)
    (hcls : ∀ t : World, Sees env i w.core t.core → ∀ cls ∈ env.classes, name = .cls cls →
      t.core.hold i name = .write → ClassOk cls t.core)
    (hroute : ∀ t : World, Sees env i w.core t.core → ∀ cls ∈ env.classes, name = .route cls →
      t.core.hold i name = .write → UpToDate cls t.core)
    (hbound : name = .state → w.core.hold i name = .write → w.core.Bound)
    (hk : ∀ t u : World, Inv env t.core → Sees env i w.core t.core → Relocked i name t.core u.core →
      u.core.hold i name = .none → Inv env u.core → SafeFrom env i post (k ()) u) :
    SafeFrom env i post (Sup.release i name >>= k) w := by
  refine Discipline.Safe.atomic fun t ht hst o b u h => ?_
  obtain ⟨rfl, rfl⟩ := Prod.mk.inj (Option.some.inj h)
  have hmoved : Relocked i name t.core
      (World.core { t with locks := Function.update t.locks name ((t.locks name).release i) }) :=
    relocked_update fun j hj => Lock.release_hold_of_ne hj
  have hinv := hmoved.inv ht (fun cls hmem hn hfree => ?_) (fun cls hmem hn hfree => ?_) fun hn hfree => ?_
  · have hmay' := hmay.sees hst
    refine ⟨hinv, hmoved.guar hmay'.gate hmay'.state, ?_⟩
    exact hk t _ ht hst hmoved (by simp [Core.hold, World.core]) hinv
  · by_cases hheld : t.core.hold i name = .write
    · exact hcls t hst cls hmem hn hheld
    · exact ht.settled cls hmem (hn ▸ hmoved.free hheld hfree)
  · by_cases hheld : t.core.hold i name = .write
    · exact hroute t hst cls hmem hn hheld
    · exact ht.epochs cls hmem (hn ▸ hmoved.free hheld hfree)
  · subst hn
    by_cases hheld : t.core.hold i .state = .write
    · have hthen : w.core.hold i .state = .write := (hst.hold _).symm.trans hheld
      exact hst.bound hthen (hbound rfl hthen)
    · exact ht.bound (hmoved.free hheld hfree)

end

/-! ### Scopes -/

section

variable {env : Env} {i : Nat} {α : Type} {w : World} {body : Sup α} {mid : α → Core → Prop}

/-- A fact that stays true. -/
def Lasting (fact : α → Core → Prop) : Prop := ∀ value s t, Later s t → fact value s → fact value t

/-- A fact that stays true while the thread's hold of the gate stays. -/
def LastingInGate (i : Nat) (fact : α → Core → Prop) : Prop :=
  ∀ value s t, Later s t → t.hold i .reconfiguration = s.hold i .reconfiguration → fact value s → fact value t

theorem safe_releaseClass {cls : String} {value : α} (hmid : LastingInGate i mid) (hclass : InClass env i cls w.core)
    (hidle : w.core.Idle i) (hvalue : mid value w.core) :
    SafeFrom env i (fun a v => v.Idle i ∧ mid a v)
      (Sup.release i (.cls cls) >>= fun _ => pure value) w := by
  refine safe_release (.of_idle hidle) ?_ (fun _ _ _ _ hn => nomatch hn) (fun hn => nomatch hn) ?_
  · intro t hst other _ hn _
    cases hn
    exact (hclass.sees hst).ok
  · intro t u _ hst hmoved _ _
    refine safe_pure fun v huv => ⟨huv.idle (hmoved.idle (hst.idle hidle)), ?_⟩
    refine hmid _ _ _ (hst.later.trans (hmoved.later.trans huv.later)) ?_ hvalue
    exact (huv.hold _).trans ((hmoved.others i _ (.inl (by simp))).trans (hst.hold _))

theorem safe_releasing {name : LockName} (hcls : ∀ cls, name ≠ .cls cls) (hroute : ∀ cls, name ≠ .route cls)
    (hstate : name ≠ .state)
    (hw : Inv env w.core) (hbody : SafeFrom env i (fun _ v => v.Idle i) body w) :
    SafeFrom env i (fun _ v => v.Idle i) (Sup.releasing i name body) w := by
  rw [Sup.releasing]
  refine hbody.bind hw fun value v _ hidle => ?_
  refine safe_release (.of_idle hidle) ?_ ?_ (fun hn => absurd hn hstate) ?_
  · exact fun _ _ cls _ hn => absurd hn (hcls cls)
  · exact fun _ _ cls _ hn => absurd hn (hroute cls)
  · intro x y _ hvx hxy _ _
    exact safe_pure fun z hyz => hyz.idle (hxy.idle (hvx.idle hidle))

theorem safe_withClass {cls : String} (hmem : cls ∈ env.classes) (hidle : w.core.Idle i)
    (hmid : LastingInGate i mid)
    (hbody : ∀ u : World, Inv env u.core → Later w.core u.core → u.core.Idle i →
      InClass env i cls u.core →
      u.core.hold i .reconfiguration = w.core.hold i .reconfiguration →
      SafeFrom env i (fun a v => InClass env i cls v ∧ v.Idle i ∧ mid a v) body u) :
    SafeFrom env i (fun a v => v.Idle i ∧ mid a v) (Sup.withWrite i (.cls cls) body) w := by
  rw [Sup.withWrite]
  refine safe_acquireWrite (.of_idle hidle) ?_
  intro t u ht hst hfree hmoved hhold hu
  have hclass : InClass env i cls u.core :=
    ⟨hmem, hhold, (ht.settled cls hmem hfree).congr (hmoved.cell cls) hmoved.subscriptions⟩
  have hlater : Later w.core u.core := hst.later.trans hmoved.later
  have hgate : u.core.hold i .reconfiguration = w.core.hold i .reconfiguration :=
    (hmoved.others i _ (.inl (by simp))).trans (hst.hold _)
  refine (hbody u hu hlater (hmoved.idle (hst.idle hidle)) hclass hgate).bind hu ?_
  intro value v _ hv
  exact safe_releaseClass hmid hv.1 hv.2.1 hv.2.2

theorem safe_withGate (hidle : w.core.Idle i) (hmid : Lasting mid)
    (hbody : ∀ u : World, Inv env u.core → Later w.core u.core → u.core.Idle i →
      u.core.hold i .reconfiguration = .read → SafeFrom env i (fun a v => v.Idle i ∧ mid a v) body u) :
    SafeFrom env i (fun a v => v.Idle i ∧ mid a v) (Sup.withRead i .reconfiguration body) w := by
  rw [Sup.withRead]
  refine safe_enterGate hidle ?_
  intro t u ht hst hmoved hhold hu
  have hlater : Later w.core u.core := hst.later.trans hmoved.later
  refine (hbody u hu hlater (hmoved.idle (hst.idle hidle)) hhold).bind hu ?_
  intro value v _ hv
  refine safe_release (.of_idle hv.1) ?_ ?_ (fun hn => nomatch hn) ?_
  · exact fun _ _ _ _ hn => nomatch hn
  · exact fun _ _ _ _ hn => nomatch hn
  · intro x y _ hvx hxy _ _
    refine safe_pure fun z hyz => ?_
    exact ⟨hyz.idle (hxy.idle (hvx.idle hv.1)),
      hmid _ _ _ (hvx.later.trans (hxy.later.trans hyz.later)) hv.2⟩

theorem safe_inClass {cls : String} (hmem : cls ∈ env.classes) (hidle : w.core.Idle i)
    (hbody : ∀ u : World, Inv env u.core → Later w.core u.core → u.core.Idle i →
      InClass env i cls u.core → u.core.hold i .reconfiguration = w.core.hold i .reconfiguration →
      SafeFrom env i (fun _ v => InClass env i cls v ∧ v.Idle i) body u) :
    SafeFrom env i (fun _ v => v.Idle i) (Sup.withWrite i (.cls cls) body) w := by
  have hscope := safe_withClass hmem hidle (fun _ _ _ _ _ (_ : True) => trivial)
    fun u hu hlater hidle hclass hgate =>
      (hbody u hu hlater hidle hclass hgate).weaken fun _ _ h => ⟨h.1, h.2, trivial⟩
  exact hscope.weaken fun _ _ h => h.1

theorem safe_inGate (hidle : w.core.Idle i)
    (hbody : ∀ u : World, Inv env u.core → Later w.core u.core → u.core.Idle i →
      u.core.hold i .reconfiguration = .read → SafeFrom env i (fun _ v => v.Idle i) body u) :
    SafeFrom env i (fun _ v => v.Idle i) (Sup.withRead i .reconfiguration body) w := by
  have hscope := safe_withGate hidle (fun _ _ _ _ (_ : True) => trivial)
    fun u hu hlater hidle hhold => (hbody u hu hlater hidle hhold).weaken fun _ _ h => ⟨h, trivial⟩
  exact hscope.weaken fun _ _ h => h.1

end

end Causeway

import Causeway.Proof.Chores

/-!
# Attempts

A transaction from its opening to its reply: an error comes after a silent progress whose planes are all stopped, and an ok after a publication.
-/

namespace Causeway

open Concurrent Prog

section

variable {env : Env} {i : Nat} {task : Task} {α β : Type} {live : List Nat} {seen : List World} {k : Progress}

theorem tells_untouched {post : β → Progress → Prop} {p : Sup α} {q : α → Sup β} (hk : Quiet live seen k)
    (hp : p.Within Untouched) (hq : ∀ a l, Quiet live seen l → (q a).Tells (Proceeds env i task) post l) :
    (p >>= q).Tells (Proceeds env i task) post k :=
  (Quietly.untouched hp seen k hk).bind hq

theorem tells_seen {post : β → Progress → Prop} {act : Outside → World → Option (α × World)} {q : α → Sup β}
    {F : World → α → Prop} (hk : Quiet live seen k) (hact : ∀ o s a t, act o s = some (a, t) → Untouched s t ∧ F s a)
    (hq : ∀ s a l, F s a → Quiet live (s :: seen) l → (q a).Tells (Proceeds env i task) post l) :
    (Prog.atomic act >>= q).Tells (Proceeds env i task) post k := by
  refine .atomic fun o s a t h => ?_
  obtain ⟨hst, ha⟩ := hact o s a t h
  obtain ⟨l, hstep, hl⟩ := hk.untouched hst
  exact ⟨l, hstep, hq s a l ha hl⟩

/-! ### The cache -/

/-- A transaction that has made this cache file and not put it in place. -/
inductive Storing (inode : Nat) (live : List Nat) (seen : List World) : Progress → Prop
  | intro (c : Chapter) (quiet : Quiet live seen (.silent c)) (mine : inode ∈ c.made) :
    Storing inode live seen (.silent c)

theorem Storing.toQuiet {inode : Nat} (h : Storing inode live seen k) : Quiet live seen k := by
  obtain ⟨c, quiet, _⟩ := h
  exact quiet

/-- A step of a transaction on the cache files alone. -/
theorem Quiet.shelve {c : Chapter} {made : List Nat} {cache : CacheDir} {s : World} (hk : Quiet live seen (.silent c))
    (hshelves : Shelves c.made (SpareIn task c.seen) s.cacheDir cache made) :
    Proceeds env i task (.silent c) s { s with cacheDir := cache } (.silent { c with made := made }) ∧
      Quiet live seen (.silent { c with made := made }) := by
  obtain ⟨_, hlive, hholding, hseen⟩ := hk
  refine ⟨.silent ?_, .intro _ hlive hholding hseen⟩
  exact {
    withheld := ⟨rfl, rfl, rfl, rfl, rfl, rfl, rfl⟩
    passes := .inl rfl
    started := fun h => absurd rfl h
    planes := fun _ h => absurd rfl h
    live := fun _ hid => .inl hid
    stopped := fun _ hid => .inl hid
    cache := .inr ⟨hholding, hshelves⟩
    holding := fun _ => .inl ⟨hholding, rfl⟩
    seen := fun _ hu => .inl hu
    catalog := fun _ => rfl }

theorem Storing.untouched {inode : Nat} {s t : World} (h : Storing inode live seen k) (hst : Untouched s t) :
    ∃ l, Proceeds env i task k s t l ∧ Storing inode live seen l := by
  obtain ⟨c, ⟨_, hlive, hholding, hseen⟩, hmine⟩ := h
  refine ⟨.silent c, .silent ?_, .intro c (.intro c hlive hholding hseen) hmine⟩
  exact {
    withheld := hst.toWithheld
    passes := .inl hst.passed
    started := fun h => absurd hst.nextPlane h
    planes := fun id h => absurd (congrFun hst.planes id) h
    live := fun _ hid => .inl hid
    stopped := fun _ hid => .inl hid
    cache := .inl ⟨hst.cache, List.Subset.refl _⟩
    holding := fun _ => .inl ⟨hholding, hst.mutex⟩
    seen := fun _ hu => .inl hu
    catalog := fun _ => hst.catalog }

theorem tells_createCacheTmp {post : β → Progress → Prop} {q : Option Nat → Sup β} (hk : Quiet live seen k)
    (hno : ∀ l, Quiet live seen l → (q none).Tells (Proceeds env i task) post l)
    (hq : ∀ inode l, Storing inode live seen l → (q (some inode)).Tells (Proceeds env i task) post l) :
    (Sup.createCacheTmp >>= q).Tells (Proceeds env i task) post k := by
  refine .atomic fun o s b t hact => ?_
  cases hok : o.ok with
  | false =>
      simp only [hok] at hact
      cases hact
      obtain ⟨l, hstep, hl⟩ := hk.untouched (Std.Refl.refl s)
      exact ⟨l, hstep, hno l hl.forget⟩
  | true =>
      simp only [hok, if_true] at hact
      cases hact
      obtain ⟨c, hlive, hholding, hseen⟩ := hk
      have hcreated : Shelves c.made (SpareIn task c.seen) s.cacheDir _ _ := .created
      obtain ⟨hstep, hquiet⟩ := Quiet.shelve (.intro c hlive hholding hseen) hcreated
      exact ⟨_, hstep, hq _ _ (.intro _ hquiet List.mem_cons_self)⟩

theorem tells_writeAllCache {inode fuel offset : Nat} {bytes : Bytes} (hk : Storing inode live seen k) :
    (Sup.writeAllCache inode fuel offset bytes).Tells (Proceeds env i task) (fun _ l => Storing inode live seen l) k := by
  induction fuel generalizing offset bytes k with
  | zero => cases bytes <;> exact hk
  | succ fuel ih =>
      cases bytes with
      | nil => exact hk
      | cons byte bytes =>
          refine .atomic fun o s b t hact => ?_
          cases hok : o.ok with
          | false =>
              simp only [hok] at hact
              cases hact
              exact hk.untouched (Std.Refl.refl s)
          | true =>
              simp only [hok, if_true] at hact
              cases hact
              obtain ⟨c, hquiet, hmine⟩ := hk
              obtain ⟨hstep, hquiet⟩ := hquiet.shelve (.wrote hmine)
              exact ⟨_, hstep, ih (.intro _ hquiet hmine)⟩

theorem tells_renameCache {post : β → Progress → Prop} {inode : Nat} {path : Path} {q : Bool → Sup β}
    (hk : Storing inode live seen k) (hspare : ∀ later, seen ⊆ later → SpareIn task later path)
    (hq : ∀ ok l, Quiet live seen l → (q ok).Tells (Proceeds env i task) post l) :
    (Sup.renameCache inode path >>= q).Tells (Proceeds env i task) post k := by
  refine .atomic fun o s b t hact => ?_
  cases hok : o.ok with
  | false =>
      simp only [hok] at hact
      cases hact
      obtain ⟨l, hstep, hl⟩ := hk.untouched (Std.Refl.refl s)
      exact ⟨l, hstep, hq _ l hl.toQuiet⟩
  | true =>
      simp only [hok, if_true] at hact
      cases hact
      obtain ⟨c, hquiet, hmine⟩ := hk
      have hallowed : SpareIn task c.seen path := by
        cases hquiet with
        | intro _ hlive hholding hseen => exact hspare c.seen hseen
      obtain ⟨hstep, hquiet⟩ := hquiet.shelve (.placed hmine hallowed)
      exact ⟨_, hstep, hq _ _ hquiet⟩

theorem tells_savePrivateCache {path : Path} {bytes : Bytes} (hk : Quiet live seen k)
    (hspare : ∀ later, seen ⊆ later → SpareIn task later path) :
    (Sup.savePrivateCache path bytes).Tells (Proceeds env i task) (fun _ l => Quiet live seen l) k := by
  refine tells_untouched hk within_ask fun ok l hl => ?_
  cases ok
  · exact .pure hl
  refine tells_createCacheTmp hl (fun m hm => .pure hm) fun inode m hm => ?_
  refine (tells_writeAllCache hm).bind fun ok l hl => ?_
  cases ok
  · exact .pure hl.toQuiet
  have hsync : (Sup.ask (·.ok)).Within Untouched := within_ask
  refine (Tells.within hsync hl fun k s t hk hst => hk.untouched hst).bind fun ok m hm => ?_
  cases ok
  · exact .pure hm.toQuiet
  refine tells_renameCache hm hspare fun ok l hl => ?_
  cases ok
  · exact .pure hl
  exact Quietly.untouched within_ask seen l hl

/-- What is known of the slot that is to be written. -/
def Spare (task : Task) (seen : List World) (base : Path) (confirmed : Option String) : Prop :=
  ∀ path later, seen ⊆ later → cacheSlotPath base (nextSlot confirmed) = some path → SpareIn task later path

theorem tells_commitPreparedCache {prepared : PreparedSubscription} {confirmed : Option String} (hk : Quiet live seen k)
    (hpending : prepared.committedSlot = none)
    (hspare : ∀ fresh base bytes, prepared = .fresh fresh → fresh.pendingCache = some (base, bytes) →
      Spare task seen base confirmed) :
    (Sup.commitPreparedCache prepared confirmed).Tells (Proceeds env i task) (fun r l => Quiet live seen l ∧
      ∀ committed, r = some committed → ∀ slot, committed.1.committedSlot = some slot → slot = cacheSlotA ∨
        slot = cacheSlotB)
      k := by
  cases prepared with
  | cached nodes => exact .pure ⟨hk, fun _ h _ hslot => by cases h; cases hslot⟩
  | fresh fresh =>
      have hcommit : (Sup.commitCacheSlot fresh confirmed).Tells (Proceeds env i task) (fun r l => Quiet live seen l ∧
          ∀ committed, r = some committed → ∀ slot, committed.committedSlot = some slot →
            slot = cacheSlotA ∨ slot = cacheSlotB) k := by
        rw [Sup.commitCacheSlot]
        split
        · refine .pure ⟨hk, fun committed h slot hslot => ?_⟩
          cases h
          rw [show fresh.committedSlot = none from hpending] at hslot
          cases hslot
        · rename_i base bytes hfresh
          split
          · exact .pure ⟨hk, fun _ h => by cases h⟩
          · rename_i path hpath
            refine (tells_savePrivateCache hk fun later hlater => hspare fresh base bytes rfl hfresh path later hlater hpath).bind
              fun ok l hl => ?_
            cases ok
            · exact .pure ⟨hl, fun _ h => by cases h⟩
            · refine .pure ⟨hl, fun committed h slot hslot => ?_⟩
              cases h
              cases hslot
              exact nextSlot_valid confirmed
      refine hcommit.bind fun committed l hl => ?_
      cases committed with
      | none => exact .pure ⟨hl.1, fun _ h => by cases h⟩
      | some committed =>
          refine .pure ⟨hl.1, fun r h => ?_⟩
          cases h
          exact hl.2 committed rfl

/-! ### Staging -/

/-- The next state rests on one that was seen. -/
structure Grown (env : Env) (seen : List World) (prepared : Sup.Prepared) : Prop where
  cloned : ∃ u ∈ seen, prepared.cloned = u.state
  next : NextOf env prepared.cloned prepared.next

/-- The staging of a transaction has ended: with an error nothing is left, else every class has its plane. -/
inductive Armed (env : Env) (seen : List World) : Except String (List ActiveNode × Sup.Prepared) → Progress → Prop
  | failed {message : String} {k : Progress} (quiet : Quiet [] [] k) : Armed env seen (.error message) k
  | staged {staged : List ActiveNode} {prepared : Sup.Prepared} {u : World} {k : Progress}
      (quiet : Quiet (planesOf staged) (u :: seen) k) (grown : Grown env (u :: seen) prepared) :
      Armed env seen (.ok (staged, prepared)) k

theorem tells_stageTransaction {request : Request} (hk : Quiet [] seen k)
    (hpending : request.prepared.committedSlot = none)
    (hspare : ∀ fresh base bytes, request.prepared = .fresh fresh → fresh.pendingCache = some (base, bytes) →
      Spare task seen base request.confirmedSlot) :
    (Sup.stageTransaction env i request).Tells (Proceeds env i task) (Armed env seen) k := by
  have hnil : ∀ {staged : List ActiveNode}, ∀ id, id ∈ planesOf staged ++ [] ↔ id ∈ planesOf staged :=
    fun id => by rw [List.append_nil]
  have hstop : ∀ {staged : List ActiveNode} {message : String} {others : List World} {l : Progress},
      Quiet (planesOf staged) others l → (do
        Sup.stopStaged staged
        return .error message : Sup (Except String (List ActiveNode × Sup.Prepared))).Tells (Proceeds env i task)
          (Armed env seen) l := by
    intro staged message others l hl
    have hstopped : Quietly env i task (planesOf staged ++ []) (fun _ => []) (Sup.stopStaged staged) :=
      quietly_stopStaged staged
    refine (hstopped others l (hl.weaken (fun id => (hnil id).symm) (List.Subset.refl _))).bind fun _ l hl => ?_
    exact .pure (.failed (hl.weaken (fun _ => Iff.rfl) (List.nil_subset _)))
  refine tells_untouched hk within_readState fun stats l hl => ?_
  have hstaged : Quietly env i task (planesOf [] ++ []) (fun r => stagedPlanes r ++ [])
      (Sup.stageClasses env i request stats env.classes []) := quietly_stageClasses env.classes []
  refine (hstaged seen l hl).bind fun staged l hl => ?_
  cases staged with
  | error message => exact .pure (.failed (hl.weaken (fun _ => Iff.rfl) (List.nil_subset _)))
  | ok staged =>
      replace hl : Quiet (planesOf staged) seen l := hl.weaken hnil (List.Subset.refl _)
      refine tells_untouched hl within_ask fun elapsed l hl => ?_
      cases elapsed with
      | true => exact hstop hl
      | false =>
          refine (tells_commitPreparedCache hl hpending hspare).bind fun committed l hl => ?_
          obtain ⟨hl, hvalid⟩ := hl
          rcases committed with _ | ⟨prepared, commit⟩
          · exact hstop hl
          · refine tells_untouched hl within_ask fun now l hl => ?_
            refine tells_untouched hl (within_planClasses _) fun planned l hl => ?_
            refine tells_seen (F := fun u r => r = (u.state,
                nextState env request prepared.isFresh prepared.committedSlot planned now u.state)) hl ?_ ?_
            · intro o s a t hact
              split at hact
              · cases hact
                exact ⟨Std.Refl.refl s, rfl⟩
              · cases hact
            · rintro u ⟨cloned, next⟩ l hread hl
              cases next with
              | none => exact hstop hl
              | some next =>
                  obtain ⟨rfl, hnext⟩ := Prod.mk.inj hread
                  exact .pure (.staged hl ⟨⟨u, List.mem_cons_self, rfl⟩,
                    ⟨request, _, _, planned, now, hvalid _ rfl, hnext.symm⟩⟩)

/-! ### The state file -/

/-- The state file is in place, nothing of it is published yet, and these worlds were seen. -/
def Underway (seen : List World) (k : Progress) : Prop := ∃ later, k = .publishing later ∧ seen ⊆ later

theorem tells_underway {p : Sup α} (hp : p.Within Modest) (hk : Underway seen k) :
    p.Tells (Proceeds env i task) (fun _ l => Underway seen l) k := by
  refine .within hp hk fun k s t hk hst => ?_
  obtain ⟨later, rfl, hseen⟩ := hk
  have hfirm : Firm env later s t :=
    ⟨⟨hst.mutex, hst.cache, .inl hst.state, .inl hst.passed⟩, hst.subscriptions, hst.published⟩
  exact ⟨_, .publishing hfirm learns_seen, _, rfl, List.Subset.trans hseen (List.subset_cons_self _ _)⟩

/-- How the save of a transaction ends: it has failed and nothing is lost, or the new state file is in place. -/
inductive Landed (live : List Nat) (seen : List World) : Option SaveOutcome → Progress → Prop
  | failed {k : Progress} (quiet : Quiet live seen k) : Landed live seen none k
  | placed {outcome : SaveOutcome} {k : Progress} (underway : Underway seen k) : Landed live seen (some outcome) k

theorem tells_renameTmp {post : β → Progress → Prop} {kind : SaveKind} {q : Bool → Sup β} (hk : Quiet live seen k)
    (hno : ∀ l, Quiet live seen l → (q false).Tells (Proceeds env i task) post l)
    (hq : ∀ l, Underway seen l → (q true).Tells (Proceeds env i task) post l) :
    (Sup.renameTmp i kind >>= q).Tells (Proceeds env i task) post k := by
  refine .atomic fun o s b t hact => ?_
  replace hact := Option.some.inj hact
  dsimp only at hact
  split at hact
  · cases hact
    obtain ⟨c, hlive, hholding, hseen⟩ := hk
    rename_i dir _ hdir
    exact ⟨_, .committed hholding ⟨⟨rfl, rfl, .inl (.refl _), .inl rfl⟩, rfl, rfl⟩ hdir, hq _ ⟨c.seen, rfl, hseen⟩⟩
  · cases hact
    obtain ⟨l, hstep, hl⟩ := hk.untouched (Std.Refl.refl s)
    exact ⟨l, hstep, hno l hl.forget⟩

theorem tells_saveSteps {kind : SaveKind} {content : Bytes} (hk : Quiet live seen k) :
    (Sup.saveSteps i kind content).Tells (Proceeds env i task) (Landed live seen) k := by
  have hguard : ∀ {p : Sup Bool} {q : Sup (Option SaveOutcome)} {k : Progress}, p.Within Untouched → Quiet live seen k →
      (∀ l, Quiet live seen l → q.Tells (Proceeds env i task) (Landed live seen) l) →
      (p >>= fun ok => if !ok then pure none else q).Tells (Proceeds env i task) (Landed live seen) k := by
    intro p q k hp hk hq
    refine tells_untouched hk hp fun ok l hl => ?_
    cases ok with
    | true => exact hq l hl
    | false => exact .pure (.failed hl)
  refine tells_untouched hk untouched_openTmp fun opened l hl => ?_
  cases opened with
  | none => exact .pure (.failed hl)
  | some inode =>
      refine hguard within_ask hl fun l hl => hguard (within_writeAll fun _ _ => untouched_writeSome) hl fun l hl => hguard within_ask hl fun l hl => ?_
      refine tells_renameTmp hl (fun l hl => .pure (.failed hl)) fun l hl => ?_
      have hask : (Sup.ask (·.ok)).Within Modest := within_ask
      refine (tells_underway hask hl).bind fun durable l hl => ?_
      cases durable <;> exact .pure (.placed hl)

theorem tells_saveAtomic {kind : SaveKind} {cloned next : StateFile} (hk : Quiet live seen k)
    (hgrown : ∃ u ∈ seen, cloned = u.state) (hnext : NextOf env cloned next) :
    (Sup.saveAtomic env i kind next).Tells (Proceeds env i task) (Landed live seen) k := by
  refine tells_untouched hk within_ask fun ready l hl => ?_
  split
  · exact .pure (.failed hl)
  · split
    · exact .pure (.failed hl)
    · rename_i content _
      refine .atomic fun o s b t hact => ?_
      cases hact
      obtain ⟨c, hlive, hholding, hseen⟩ := hl
      obtain ⟨u, hu, rfl⟩ := hgrown
      refine ⟨.silent c, .silent ?_, ?_⟩
      · exact {
          withheld := ⟨rfl, rfl, rfl, rfl, rfl, rfl, rfl⟩
          passes := .inr ⟨u, hseen hu, next, rfl, .inr hnext⟩
          started := fun h => absurd rfl h
          planes := fun _ h => absurd rfl h
          live := fun _ hid => .inl hid
          stopped := fun _ hid => .inl hid
          cache := .inl ⟨rfl, List.Subset.refl _⟩
          holding := fun _ => .inl ⟨hholding, rfl⟩
          seen := fun _ hw => .inl hw
          catalog := fun _ => rfl }
      · have hquiet : Quiet live seen (.silent c) := .intro c hlive hholding hseen
        refine (tells_saveSteps hquiet).bind fun outcome l hl => ?_
        cases hl with
        | failed hl =>
            have hend : (Sup.endSave i kind false).Within Untouched :=
              within_modify fun _ => ⟨⟨rfl, rfl, rfl, rfl, rfl, rfl, rfl⟩, rfl, rfl, rfl, rfl, rfl, rfl⟩
            exact tells_untouched hl hend fun _ l hl => .pure (.failed hl)
        | placed hl =>
            have hend : (Sup.endSave i kind true).Within Modest :=
              within_modify fun _ => ⟨.of_eq rfl rfl rfl rfl rfl rfl rfl, rfl⟩
            exact (tells_underway hend hl).bind fun _ l hl => .pure (.placed hl)

/-! ### Publication -/

theorem modest_acquireWrite {name : LockName} (hname : LockName.subscriptionTxn ≠ name) :
    (Sup.acquireWrite i name).Within Modest :=
  modest_of_untouched (untouched_acquireWrite hname)

theorem modest_publishClasses {target : String} {refreshed : Bool} {planned : List Planned} :
    (Sup.publishClasses i target refreshed planned).Within Modest := by
  induction planned with
  | nil => trivial
  | cons planned rest ih =>
      refine .bind (within_act fun _ w => ⟨⟨⟨?_, rfl, rfl, rfl, rfl⟩, rfl, rfl⟩, rfl⟩) fun _ => .bind ih fun _ => trivial
      exact rfl

theorem tells_publish {request : Request} {nodes : List Node} {planned : List Planned} {cloned next : StateFile}
    (hnext : NextOf env cloned next) (haims : AimsAt task seen request.target) (hk : Underway seen k) :
    (Sup.publish env i request nodes planned cloned next).Tells (Proceeds env i task) (fun _ l => Plainly true l) k := by
  have hroutes : ∀ classes : List String, (Sup.lockRoutes i classes).Within Modest := by
    intro classes
    induction classes with
    | nil => trivial
    | cons cls classes ih => exact .bind (modest_acquireWrite (by simp)) fun _ => ih
  refine (tells_underway (hroutes env.classes) hk).bind fun _ l hl => ?_
  refine (tells_underway (modest_acquireWrite (by simp)) hl).bind fun _ l hl => ?_
  obtain ⟨later, rfl, hseen⟩ := hl
  refine .atomic fun o s b t hact => ?_
  cases hact
  have hreplaced : Underway seen (.publishing (s :: later)) :=
    ⟨_, rfl, List.Subset.trans hseen (List.subset_cons_self _ _)⟩
  refine ⟨_, .publishing ⟨⟨rfl, rfl, .inr ⟨cloned, next, rfl, rfl, hnext⟩, .inl rfl⟩, rfl, rfl⟩ learns_seen, ?_⟩
  refine (tells_underway modest_publishClasses hreplaced).bind fun old l hl => ?_
  obtain ⟨later, rfl, hseen⟩ := hl
  obtain ⟨u, hu, htarget⟩ := haims
  refine .atomic fun o s b t hact => ?_
  cases hact
  refine ⟨_, .issued ⟨rfl, rfl, .inl (.refl _), .inl rfl⟩ rfl ⟨u, hseen hu, htarget⟩, .atomic fun o s b t hact => ?_⟩
  cases hact
  refine ⟨_, .finishing ⟨⟨rfl, rfl, .inl (.refl _), .inl rfl⟩, rfl, rfl⟩ learns_seen, ?_⟩
  have hstate : (Sup.release i .state).Within Modest := modest_of_untouched (untouched_release (by simp))
  refine (tells_modest hstate ⟨_, rfl⟩).bind fun _ l hl => ?_
  have hall : (Sup.releaseAll i (env.classes.map .route)).Within Modest :=
    modest_of_untouched (untouched_releaseAll (by simp))
  exact (tells_modest hall hl).bind fun _ l hl => .pure hl

/-- How a transaction ends while it still holds its mutex: with an error it has withheld everything and stopped what it started, with an ok it has published. -/
inductive Concluded : Reply → Progress → Prop
  | failed {reply : Reply} {k : Progress} (error : reply.ok = false) (quiet : Quiet [] [] k) : Concluded reply k
  | done {reply : Reply} {k : Progress} (ok : reply.ok = true) (plainly : Plainly true k) : Concluded reply k

theorem tells_finishTransaction {request : Request} {nodes : List Node} {planned : List Planned} {cloned next : StateFile}
    {now : Int} (hnext : NextOf env cloned next) (haims : AimsAt task seen request.target) (hk : Underway seen k) :
    (Sup.finishTransaction env i request nodes planned cloned next now).Tells (Proceeds env i task) Concluded k := by
  have hpush : ∀ {f : Outside → Event}, (Sup.pushEvent f).Within Modest := modest_of_untouched untouched_pushEvent
  have hswitched : (Sup.pushSwitched now request.refreshed planned).Within Modest := by
    induction planned with
    | nil => trivial
    | cons planned rest ih => exact .bind hpush fun _ => ih
  have hdrain : ∀ old : List ActiveNode, (Sup.drainAll old).Within Modest := by
    intro old
    induction old with
    | nil => trivial
    | cons active old ih => exact .bind (within_modify fun _ => ⟨.of_eq rfl rfl rfl rfl rfl rfl rfl, rfl⟩) fun _ => ih
  refine (tells_publish hnext haims hk).bind fun old l hl => (tells_saveState hl).bind fun _ l hl => ?_
  refine (tells_modest hswitched hl).bind fun _ l hl => (tells_modest hpush hl).bind fun _ l hl => ?_
  exact (tells_modest (hdrain old) hl).bind fun _ l hl => .pure (.done rfl hl)

theorem tells_subscriptionFailure {profile message : String} (hk : Quiet [] seen k) :
    (Sup.subscriptionFailure profile message).Tells (Proceeds env i task) Concluded k :=
  tells_untouched hk untouched_pushEvent fun _ _ hl => .pure (.failed rfl (hl.weaken (fun _ => Iff.rfl)
    (List.nil_subset _)))

theorem tells_transact {request : Request} (hk : Quiet [] seen k) (haims : AimsAt task seen request.target)
    (hpending : request.prepared.committedSlot = none)
    (hspare : ∀ fresh base bytes, request.prepared = .fresh fresh → fresh.pendingCache = some (base, bytes) →
      Spare task seen base request.confirmedSlot) :
    (Sup.transact env i request).Tells (Proceeds env i task) Concluded k := by
  refine (tells_stageTransaction hk hpending hspare).bind fun result l hl => ?_
  cases hl with
  | failed hl => exact tells_subscriptionFailure hl
  | @staged staged prepared u _ hl hgrown =>
      refine (tells_saveAtomic hl hgrown.cloned hgrown.next).bind fun outcome l hl => ?_
      cases hl with
      | placed hl =>
          obtain ⟨v, hv, htarget⟩ := haims
          exact tells_finishTransaction hgrown.next ⟨v, List.mem_cons_of_mem _ hv, htarget⟩ hl
      | failed hl =>
          have hstopped : Quietly env i task (planesOf staged ++ []) (fun _ => []) (Sup.stopStaged staged) :=
            quietly_stopStaged staged
          refine (hstopped [] l (hl.weaken (fun id => by rw [List.append_nil]) (List.nil_subset _))).bind fun _ l hl => ?_
          exact tells_subscriptionFailure hl

end

end Causeway

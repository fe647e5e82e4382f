import Causeway.Proof.Deposits
import Causeway.Proof.Filing
import Causeway.Proof.Trust

/-!
# Commits

The transaction over the stock: the next state names only slots that the state in memory names, and for the target the slot just written. So the state file names nothing that does not rest on its file, and once the transaction is over it names every slot that memory names.
-/

namespace Causeway

open Concurrent Prog

/-! ### The slots of the next state -/

theorem slot_of_cacheSlotPath {base path : Path} {slot : String} (h : cacheSlotPath base slot = some path) :
    slot = cacheSlotA ∨ slot = cacheSlotB := by
  by_contra hno
  rw [not_or] at hno
  simp [cacheSlotPath, hno.1, hno.2] at h

namespace StateFile

/-- Every slot that the other state names this one names too. -/
def Narrows (st other : StateFile) : Prop :=
  ∀ name slot : String, other.subscriptionCacheSlots[name]? = some slot → st.subscriptionCacheSlots[name]? = some slot

variable {st other : StateFile} {name identity : String}

theorem Narrows.erase (h : st.Narrows other) {next : StateFile}
    (hnext : next.subscriptionCacheSlots = other.subscriptionCacheSlots.erase name) : st.Narrows next := by
  intro key slot hslot
  rw [hnext, Std.ExtTreeMap.getElem?_erase] at hslot
  split at hslot
  · cases hslot
  · exact h key slot hslot

theorem Narrows.removeUnknown (h : st.Narrows other) (current : BTreeMap String) :
    st.Narrows (other.removeUnknown current) :=
  foldl_keeps (X := st.Narrows) (fun _ name h => @Narrows.erase _ _ name h _ rfl) _ h

theorem Narrows.catalog (h : st.Narrows other) (previous next : BTreeMap String) (freshlyTrusted : Option String) :
    st.Narrows (other.applySubscriptionCatalog previous next freshlyTrusted) := by
  refine foldl_keeps (fun st entry h => ?_) _ (h.removeUnknown next)
  dsimp only
  split <;> split
  · exact @Narrows.erase _ _ entry.1 h _ rfl
  · exact h
  · exact @Narrows.erase _ _ entry.1 h _ rfl
  · exact h

theorem Narrows.reconcile (h : st.Narrows other) (current : BTreeMap String) :
    st.Narrows (other.reconcileStartupSources current) := by
  refine foldl_keeps (fun st entry h => ?_) _ (foldl_keeps (fun st entry h => ?_) _ (h.removeUnknown current))
  · dsimp only
    split
    · exact h
    · split
      · split
        · exact h
        · exact @Narrows.erase _ _ entry.1 h _ rfl
      · exact h
  · dsimp only
    split
    · exact @Narrows.erase _ _ entry.1 h _ rfl
    · exact h

theorem Narrows.activate (h : st.Narrows other) : st.Narrows (other.activateSubscription name).2 := by
  intro key slot hslot
  rw [activate_slots] at hslot
  exact h key slot hslot

end StateFile

/-- The next state is sound and names what the state before names, or for the target what was committed. -/
theorem nextState_slots {env : Env} {request : Request} {fresh : Bool} {committed : Option String}
    {planned : List Planned} {now : Int} {st next : StateFile} (hst : st.Sound)
    (hvalid : ∀ slot, committed = some slot → slot = cacheSlotA ∨ slot = cacheSlotB)
    (h : nextState env request fresh committed planned now st = some next) :
    next.Sound ∧ ∀ name slot : String, next.subscriptionCacheSlots[name]? = some slot →
      (name = request.target → committed = none) ∧ st.subscriptionCacheSlots[name]? = some slot ∨
        name = request.target ∧ committed = some slot := by
  obtain ⟨ids, -, rfl⟩ := Option.map_eq_some_iff.mp h
  generalize (request.previousCatalog.sourceIdentities env.sourceIdentity).getD ∅ = previous
  dsimp only
  generalize (if fresh = true then some request.target else none) = freshlyTrusted
  have hsound := @StateFile.Sound.activate _ request.target (hst.catalog previous ids freshlyTrusted)
  have hnarrows := @StateFile.Narrows.activate st _ request.target (.catalog (fun _ _ h => h) previous ids freshlyTrusted)
  generalize ((st.applySubscriptionCatalog previous ids freshlyTrusted).activateSubscription request.target).2 = base
    at hsound hnarrows ⊢
  cases committed with
  | none =>
      dsimp only
      rw [foldl_planState]
      refine ⟨?_, fun name slot hslot => .inl ⟨fun _ => rfl, hnarrows name slot hslot⟩⟩
      exact ⟨⟨hsound.tidy.single, hsound.tidy.unmigrated⟩, hsound.slots, hsound.version⟩
  | some chosen =>
      have hinserted := hsound.run (.slot request.target chosen (hvalid chosen rfl))
      dsimp only
      rw [foldl_planState]
      refine ⟨⟨⟨hinserted.tidy.single, hinserted.tidy.unmigrated⟩, hinserted.slots, hinserted.version⟩,
        fun name slot hslot => ?_⟩
      replace hslot : (base.subscriptionCacheSlots.insert request.target chosen)[name]? = some slot := hslot
      rw [Std.ExtTreeMap.getElem?_insert] at hslot
      split at hslot
      · rename_i heq
        have heq : request.target = name := by simpa using heq
        exact .inr ⟨heq.symm, hslot⟩
      · rename_i hne
        refine .inl ⟨fun heq => ?_, hnarrows name slot hslot⟩
        exact absurd (by simp [heq]) hne

section

variable {env : Env} {tasks : Nat → Task} {i : Nat} {w : World}

/-! ### The request -/

theorem sourced_prepareProfile {parseStr : Bytes → Option (List Node)} {read : Path → Option Bytes}
    {fetched : Option Bytes} {profile : SubscriptionProfileConfig} {prepared : PreparedProfile}
    (h : prepareProfile parseStr read fetched profile = some prepared) : Sourced profile (.fresh prepared) := by
  unfold prepareProfile at h
  split at h
  · split at h <;> cases h
    exact ⟨rfl, fun _ _ _ hfresh hpending => by cases hfresh; cases hpending⟩
  · split at h
    · rename_i hcache
      split at h
      · cases h
      · cases h
      · split at h <;> cases h
        refine ⟨rfl, fun _ _ _ hfresh hpending => ?_⟩
        cases hfresh
        cases hpending
        exact hcache
    · cases h

/-- The thread holds the mutex, and the state file names every slot that memory names. -/
structure Balanced (env : Env) (i : Nat) (u : World) : Prop where
  mutex : u.Transacting i
  ok : u.stock.Ok
  synced : u.stock.Synced env

theorem Balanced.undisturbed {u : World} (h : Balanced env i w) (hwu : Shielded i w u) : Balanced env i u := by
  have hstock := hwu.stock h.mutex
  exact ⟨hwu.transacting h.mutex, hstock ▸ h.ok, hstock ▸ h.synced⟩

theorem Balanced.inv (h : Balanced env i w) : (stockroom env tasks).inv w := World.Transacting.inv h.mutex h.ok

/-- The request is for the target under the catalog: it rests on the slot that memory names, and nothing is committed yet. -/
structure Sought (w : World) (target : String) (catalog : SubscriptionsConfig) (request : Request) : Prop where
  sought : request.target = target
  slot : request.confirmedSlot = w.state.subscriptionCacheSlots[target]?
  sourced : ∃ profile, catalog.profile target = some profile ∧ Sourced profile request.prepared
  begun : w.trail.catalog = some catalog

theorem stows_prepareSubscription {profile : SubscriptionProfileConfig} {cached : Bool} {slot : Option String}
    (hw : w.Transacting i) :
    Stows env tasks i
      (fun r u => Shielded i w u ∧ ∀ prepared, r = some (some prepared) → Sourced profile prepared)
      (Sup.prepareSubscription env profile cached slot) w := by
  have hnone : ∀ {r : Option (Option PreparedSubscription)}, (∀ prepared, r ≠ some (some prepared)) →
      Stows env tasks i
        (fun r u => Shielded i w u ∧ ∀ prepared, r = some (some prepared) → Sourced profile prepared)
        (pure r) w :=
    fun hr => .pure fun u hwu => ⟨hwu, fun prepared h => absurd h (hr prepared)⟩
  refine .seen (R := fun fetched => ∀ prepared, fetched = some (some prepared) → Sourced profile (.fresh prepared)) hw
    (fun o t u a hact _ => ?_) fun fetched hfetched => ?_
  · cases hact
    refine ⟨⟨rfl, rfl⟩, fun prepared h => ?_⟩
    dsimp only at h
    split at h
    · cases h
    · exact sourced_prepareProfile (Option.some.inj h)
  · rcases fetched with _ | _ | prepared
    · exact hnone (by simp)
    · dsimp only
      split
      · refine .offhand (within_act fun _ _ => ⟨rfl, rfl⟩) fun nodes => ?_
        cases nodes with
        | nil => exact hnone (by simp)
        | cons node nodes =>
            refine .pure fun u hwu => ⟨hwu, fun prepared h => ?_⟩
            cases h
            exact ⟨rfl, fun _ _ _ h => nomatch h⟩
      · exact hnone (by simp)
    · refine .pure fun u hwu => ⟨hwu, fun other h => ?_⟩
      cases h
      exact hfetched prepared rfl

/-- The transaction is open, or answered. -/
structure Asked (env : Env) (i : Nat) (active target : String) (catalog : SubscriptionsConfig)
    (r : Except Reply Request) (u : World) : Prop where
  balanced : Balanced env i u
  active : u.subscriptions.active = active
  requested : ∀ request, r = .ok request → Sought u target catalog request

theorem stows_openTransaction {target : String} {catalog : SubscriptionsConfig} {cached isReload : Bool}
    (hw : Balanced env i w) :
    Stows env tasks i (Asked env i w.subscriptions.active target catalog)
      (Sup.openTransaction env target catalog cached isReload) w := by
  have herror : ∀ {reply : Reply} {v : World}, Balanced env i v → v.subscriptions.active = w.subscriptions.active →
      Stows env tasks i (Asked env i w.subscriptions.active target catalog) (pure (.error reply)) v := by
    intro reply v hv hactive
    refine .pure fun u hvu => ⟨hv.undisturbed hvu, ?_, fun _ h => nomatch h⟩
    exact (congrArg Stock.active (hvu.stock hv.mutex)).trans hactive
  rw [Sup.openTransaction]
  split
  · exact herror hw rfl
  split
  · exact herror hw rfl
  rename_i profile hprofile _ sourceIdentity hidentity
  refine .own hw.mutex fun o t u a hact hst ht => ?_
  cases hact
  refine ⟨rfl, ⟨ht.dir, ht.cache, ht.state⟩, .aside rfl rfl rfl rfl fun _ => rfl, fun hhold => ?_⟩
  generalize hv : { t with trail := { t.trail with catalog := some catalog } } = v at hhold
  have hstock : v.stock = { w.stock with catalog := some catalog } := by
    rw [← hv, ← hst]
    rfl
  have hbalanced : Balanced env i v := by
    refine ⟨hhold, ?_, ?_⟩
    · rw [hstock]
      exact ⟨hw.ok.dir, hw.ok.cache, hw.ok.state⟩
    · rw [hstock]
      exact hw.synced
  have hactive : v.subscriptions.active = w.subscriptions.active := congrArg Stock.active hstock
  have hbegun : v.trail.catalog = some catalog := congrArg Stock.catalog hstock
  have hfail : ∀ {message : String}, Stows env tasks i (Asked env i w.subscriptions.active target catalog)
      (do return .error (← Sup.subscriptionFailure target message)) v :=
    .offhand offhand_subscriptionFailure fun _ => herror hbalanced hactive
  refine .seen (R := fun read : Option String × Bool => read.1 = v.state.subscriptionCacheSlots[target]?) hhold
    (fun o x u a hact hxv => ?_) fun read hslot => ?_
  · split at hact
    · cases hact
      have hstate : x.state = v.state := congrArg Stock.state hxv
      exact ⟨⟨rfl, rfl⟩, by rw [hstate]⟩
    · cases hact
  obtain ⟨slot, trusted⟩ := read
  refine (stows_prepareSubscription hhold).bind hbalanced.inv fun prepared u hu hprepared => ?_
  refine Stows.mono ?_ hprepared.1
  have hsourced := hprepared.2
  rcases prepared with _ | _ | prepared
  · exact hfail
  · exact hfail
  have hopened : ∀ {request : Request}, request.target = target → request.confirmedSlot = slot →
      request.prepared = prepared →
      Stows env tasks i (Asked env i w.subscriptions.active target catalog) (pure (.ok request)) v := by
    intro request htarget hconfirmed hrequest
    refine .pure fun u hvu => ?_
    have hsame := hvu.stock hhold
    have hstate : u.state = v.state := congrArg Stock.state hsame
    refine ⟨hbalanced.undisturbed hvu, (congrArg Stock.active hsame).trans hactive, fun other h => ?_⟩
    cases h
    refine ⟨htarget, ?_, ⟨profile, hprofile, hrequest ▸ hsourced prepared rfl⟩,
      (congrArg Stock.catalog hsame).trans hbegun⟩
    rw [hstate]
    exact hconfirmed.trans hslot
  dsimp only
  split
  · exact hfail
  split
  · exact hfail
  split
  · refine .offhand within_look fun active => ?_
    split
    · exact herror hbalanced hactive
    · exact hopened rfl rfl rfl
  · exact hopened rfl rfl rfl

/-! ### The next state -/

/-- The cache is committed, and what the next state names is what memory names or rests on its file. -/
structure Proposed (i : Nat) (b : Stock) (target : String) (prepared : Sup.Prepared) (u : World) : Prop where
  caching : Caching i b u
  sound : prepared.next.Sound
  slots : ∀ name slot : String, prepared.next.subscriptionCacheSlots[name]? = some slot →
    b.state.subscriptionCacheSlots[name]? = some slot ∧
      Sup.saveRecord (.cloned target prepared.commit) b.recorded name = b.recorded name ∨
    Stock.Rests { u.stock with recorded := Sup.saveRecord (.cloned target prepared.commit) b.recorded } name slot

/-- The staging of a transaction has ended. -/
structure StagingDone (i : Nat) (b : Stock) (target : String) (r : Except String (List ActiveNode × Sup.Prepared))
    (u : World) : Prop where
  caching : Caching i b u
  proposed : ∀ staged prepared, r = .ok (staged, prepared) → Proposed i b target prepared u

/-- The record of a commit is what the slot of the target rests on. -/
theorem Committed.slots {u : World} {b : Stock} {target name slot : String} {chosen : Option String}
    {commit : Option (Path × Bytes)} (h : Committed u.cacheDir chosen commit)
    (hnamed : (name = target → chosen = none) ∧ b.state.subscriptionCacheSlots[name]? = some slot ∨
      name = target ∧ chosen = some slot) :
    b.state.subscriptionCacheSlots[name]? = some slot ∧
      Sup.saveRecord (.cloned target commit) b.recorded name = b.recorded name ∨
    Stock.Rests { u.stock with recorded := Sup.saveRecord (.cloned target commit) b.recorded } name slot := by
  cases h with
  | local_ slot_eq commit_eq =>
      subst slot_eq commit_eq
      exact .inl ⟨(hnamed.resolve_right fun h => nomatch h.2).2, rfl⟩
  | placed base path bytes other slot_eq commit_eq path_eq cached =>
      subst slot_eq commit_eq
      rcases hnamed with ⟨hne, hslot⟩ | ⟨rfl, hslot⟩
      · exact .inl ⟨hslot, Function.update_of_ne (fun heq => nomatch hne heq) _ _⟩
      · cases hslot
        exact .inr ⟨base, path, bytes, path_eq, Function.update_self _ _ _, cached⟩

theorem Committed.valid {cache : CacheDir} {chosen : Option String} {commit : Option (Path × Bytes)}
    (h : Committed cache chosen commit) : ∀ slot, chosen = some slot → slot = cacheSlotA ∨ slot = cacheSlotB := by
  rintro slot rfl
  cases h with
  | local_ slot_eq => cases slot_eq
  | placed base path bytes other slot_eq commit_eq path_eq cached =>
      cases slot_eq
      exact slot_of_cacheSlotPath path_eq

theorem stows_stageTransaction {request : Request} {b : Stock} (hw : Caching i b w)
    (htarget : (tasks i).target b.active = some request.target)
    (hslot : request.confirmedSlot = b.state.subscriptionCacheSlots[request.target]?)
    {catalog : SubscriptionsConfig} {profile : SubscriptionProfileConfig} (hbegun : b.catalog = some catalog)
    (hprofile : catalog.profile request.target = some profile) (hsourced : Sourced profile request.prepared) :
    Stows env tasks i (StagingDone i b request.target) (Sup.stageTransaction env i request) w := by
  have hstop : ∀ {staged : List ActiveNode} {message : String} {u : World}, Caching i b u →
      Stows env tasks i (StagingDone i b request.target) (do
        Sup.stopStaged staged
        return .error message) u :=
    fun hu => .offhand (offhand_stopStaged _) fun _ => .pure fun v huv => ⟨hu.undisturbed huv, fun _ _ h => nomatch h⟩
  refine .offhand within_readState fun stats => .offhand (offhand_stageClasses _ _) fun staged => ?_
  cases staged with
  | error message => exact .pure fun v huv => ⟨hw.undisturbed huv, fun _ _ h => nomatch h⟩
  | ok staged =>
      refine .offhand within_ask fun elapsed => ?_
      cases elapsed with
      | true => exact hstop hw
      | false =>
          rw [hslot]
          refine (stows_commitPreparedCache hw htarget hbegun hprofile hsourced).bind hw.inv fun committed u hu hcommitted => ?_
          have hu := hcommitted.caching
          rcases committed with _ | ⟨prepared, commit⟩
          · exact hstop hu
          have hcommit := hcommitted.committed prepared commit rfl
          have hstate : u.state = b.state := congrArg Stock.state hu.same
          refine .offhand within_ask fun now => .offhand (within_planClasses _) fun planned => ?_
          refine .seen (R := (· = (u.state,
            nextState env request prepared.isFresh prepared.committedSlot planned now u.state)))
            hu.mutex (fun o t v a hact hst => ?_) fun ⟨cloned, next⟩ hnext => ?_
          · split at hact
            · cases hact
              have hsame : t.state = u.state := congrArg Stock.state hst
              exact ⟨⟨rfl, rfl⟩, by rw [hsame]⟩
            · cases hact
          · cases next with
            | none => exact hstop hu
            | some next =>
                obtain ⟨-, hnext⟩ := Prod.mk.inj hnext
                obtain ⟨hsound, hslots⟩ := nextState_slots hu.ok.state hcommit.valid hnext.symm
                refine .pure fun v huv => ⟨hu.undisturbed huv, fun _ _ h => ?_⟩
                cases h
                refine ⟨hu.undisturbed huv, hsound, fun name slot hnamed => ?_⟩
                rw [huv.stock hu.mutex]
                exact hcommit.slots (hstate ▸ hslots name slot hnamed)

/-! ### Publication -/

/-- The thread has published a state with these slots. -/
structure Issued (i : Nat) (b : Stock) (slots : BTreeMap String) (u : World) : Prop where
  mutex : u.Transacting i
  ok : u.stock.Ok
  same : u.stock = { b with state := u.state, active := u.subscriptions.active }
  slots : u.state.subscriptionCacheSlots = slots

theorem Issued.undisturbed {b : Stock} {slots : BTreeMap String} {u : World} (h : Issued i b slots w)
    (hwu : Shielded i w u) : Issued i b slots u := by
  have hstock := hwu.stock h.mutex
  have hstate : u.state = w.state := congrArg Stock.state hstock
  have hactive : u.subscriptions.active = w.subscriptions.active := congrArg Stock.active hstock
  exact ⟨hwu.transacting h.mutex, hstock ▸ h.ok, by rw [hstock, hstate, hactive]; exact h.same, hstate ▸ h.slots⟩

/-- One step of the publication. -/
theorem Stows.issue {α β : Type} {post : β → World → Prop} {act : Outside → World → Option (α × World)} {k : α → Sup β}
    {b : Stock} {slots : BTreeMap String} (hw : w.Transacting i)
    (hbase : w.stock = { b with state := w.state, active := w.subscriptions.active })
    (hact : ∀ o (t u : World) a, act o t = some (a, u) → t.state = w.state → t.state.Sound → u.locks = t.locks ∧
      u.stock = { t.stock with state := u.state, active := u.subscriptions.active } ∧ u.state.Sound ∧
        u.state.subscriptionCacheSlots = slots)
    (hk : ∀ a u, Issued i b slots u → Stows env tasks i post (k a) u) :
    Stows env tasks i post (Prog.atomic act >>= k) w := by
  refine .own hw fun o t u a h hst ht => ?_
  obtain ⟨hlocks, hsame, hsound, hslots⟩ := hact o t u a h (congrArg Stock.state hst) ht.state
  have hu : u.stock.Ok := by
    rw [hsame]
    exact ⟨ht.dir, ht.cache, hsound⟩
  refine ⟨by rw [hlocks], hu, ?_, fun hhold => hk a u ⟨hhold, hu, ?_, hslots⟩⟩
  · rw [hsame]
    exact .published rfl
  · rw [hsame, hst, hbase]

theorem stows_publishClasses {target : String} {refreshed : Bool} {b : Stock} {slots : BTreeMap String}
    (planned : List Planned) (hw : Issued i b slots w) :
    Stows env tasks i (fun _ u => Issued i b slots u) (Sup.publishClasses i target refreshed planned) w := by
  induction planned generalizing w with
  | nil => exact .pure fun u hwu => hw.undisturbed hwu
  | cons planned rest ih =>
      refine .issue hw.mutex hw.same (fun o t u a hact hst ht => ?_)
        fun old u (hu : Issued i b slots u) => ?_
      · cases hact
        exact ⟨rfl, rfl, ⟨⟨ht.tidy.single, ht.tidy.unmigrated⟩, ht.slots, ht.version⟩, hst ▸ hw.slots⟩
      · refine (ih hu).bind (World.Transacting.inv hu.mutex hu.ok) fun others v hv hissued => ?_
        exact .pure fun x hvx => hissued.undisturbed hvx

theorem stows_publish {request : Request} {nodes : List Node} {planned : List Planned} {cloned next : StateFile}
    (hw : w.Transacting i) (hnext : next.Sound) :
    Stows env tasks i (fun _ u => Issued i w.stock next.subscriptionCacheSlots u)
      (Sup.publish env i request nodes planned cloned next) w := by
  refine .offhand (offhand_lockRoutes env.classes) fun _ => .offhand (offhand_acquireWrite (by simp)) fun _ => ?_
  refine .issue hw rfl (fun o t u a hact _ _ => ?_) fun _ u (hu : Issued i w.stock next.subscriptionCacheSlots u) => ?_
  · cases hact
    exact ⟨rfl, rfl, hnext, rfl⟩
  refine (stows_publishClasses planned hu).bind (World.Transacting.inv hu.mutex hu.ok) fun old v _ hv => ?_
  refine .issue hv.mutex hv.same (fun o t x a hact hst ht => ?_)
    fun _ x (hx : Issued i w.stock next.subscriptionCacheSlots x) => ?_
  · cases hact
    exact ⟨rfl, rfl, ht, hst ▸ hv.slots⟩
  refine .offhand (within_modify fun _ => ⟨rfl, rfl⟩) fun _ => .offhand (offhand_release (by simp)) fun _ => ?_
  exact .offhand (offhand_releaseAll (by simp)) fun _ => .pure fun y hxy => hx.undisturbed hxy

/-! ### The transaction -/

theorem Caching.balanced {b : Stock} (h : Caching i b w) (hb : b.Synced env) : Balanced env i w := by
  refine ⟨h.mutex, h.ok, ?_⟩
  rw [h.same]
  exact hb

theorem Stored.balanced {b : Stock} {st : StateFile} {outcome : Option SaveOutcome} (h : Stored env i b st outcome w)
    (hst : outcome.isSome = true → st.subscriptionCacheSlots = b.state.subscriptionCacheSlots) (hb : b.Synced env) :
    Balanced env i w := by
  refine ⟨h.mutex, h.ok, fun hfaithful name slot hslot => ?_⟩
  have hstate : w.state = b.state := congrArg Stock.state h.same
  replace hslot : b.state.subscriptionCacheSlots[name]? = some slot := hstate ▸ hslot
  refine (h.named hfaithful name).trans ?_
  split
  · rw [hst ‹_›]
    exact hslot
  · exact hb (h.faithful hfaithful) name slot hslot

theorem stows_saveState (hw : Balanced env i w) :
    Stows env tasks i (fun _ u => Balanced env i u) (Sup.saveState env i) w := by
  refine .offhand (offhand_acquireWrite (by simp)) fun _ => ?_
  refine .seen (R := (· = w.state)) hw.mutex (fun o t u a hact hst => ?_) fun st hst => ?_
  · cases hact
    exact ⟨⟨rfl, rfl⟩, congrArg Stock.state hst⟩
  subst hst
  refine (stows_saveAtomic hw.mutex hw.ok hw.ok.state fun hfaithful name slot hslot =>
    .inl ⟨hw.synced hfaithful name slot hslot, rfl⟩).bind hw.inv fun outcome u hu hstored => ?_
  have hbalanced := hstored.balanced (fun _ => rfl) hw.synced
  exact .offhand (offhand_release (by simp)) fun _ => .pure fun v huv => hbalanced.undisturbed huv

theorem stows_finishTransaction {request : Request} {nodes : List Node} {planned : List Planned}
    {cloned next : StateFile} {now : Int} (hw : w.Transacting i) (hok : w.stock.Ok) (hnext : next.Sound)
    (hnamed : w.stock.Faithful env → ∀ name, env.namedSlot w.stateDir.bytes name = next.subscriptionCacheSlots[name]?) :
    Stows env tasks i (fun _ u => Balanced env i u)
      (Sup.finishTransaction env i request nodes planned cloned next now) w := by
  refine (stows_publish hw hnext).bind (World.Transacting.inv hw hok) fun old u hu hissued => ?_
  have hbalanced : Balanced env i u := by
    refine ⟨hissued.mutex, hissued.ok, fun hfaithful name slot hslot => ?_⟩
    rw [hissued.same] at hfaithful ⊢
    replace hslot : u.state.subscriptionCacheSlots[name]? = some slot := hslot
    rw [hissued.slots] at hslot
    exact (hnamed hfaithful name).trans hslot
  refine (stows_saveState hbalanced).bind hbalanced.inv fun _ v hv hbalanced => ?_
  refine .offhand (offhand_pushSwitched planned) fun _ => .offhand offhand_pushEvent fun _ => ?_
  exact .offhand (offhand_drainAll old) fun _ => .pure fun x hvx => hbalanced.undisturbed hvx

theorem stows_transact {request : Request} {catalog : SubscriptionsConfig} (hw : Balanced env i w)
    (htarget : (tasks i).target w.subscriptions.active = some request.target)
    (hsought : Sought w request.target catalog request) :
    Stows env tasks i (fun _ u => Balanced env i u) (Sup.transact env i request) w := by
  have hfail : ∀ {message : String} {u : World}, Balanced env i u → Stows env tasks i (fun _ u => Balanced env i u)
      (Sup.subscriptionFailure request.target message) u :=
    fun hu => .offhand offhand_pushEvent fun _ => .pure fun v huv => hu.undisturbed huv
  have hcaching : Caching i w.stock w := ⟨hw.mutex, hw.ok, rfl⟩
  obtain ⟨profile, hprofile, hsourced⟩ := hsought.sourced
  refine (stows_stageTransaction hcaching htarget hsought.slot hsought.begun hprofile hsourced).bind hw.inv
    fun staged u hu hstaged => ?_
  have hbalanced := hstaged.caching.balanced hw.synced
  rcases staged with message | ⟨staged, prepared⟩
  · exact hfail hbalanced
  have hproposed := hstaged.proposed staged prepared rfl
  have hrecorded : u.trail.recorded = w.trail.recorded := congrArg Stock.recorded hproposed.caching.same
  have hstate : u.stock.state = w.stock.state := by rw [hproposed.caching.same]
  refine (stows_saveAtomic hbalanced.mutex hbalanced.ok hproposed.sound fun hfaithful name slot hnamed => ?_).bind
    hbalanced.inv fun outcome v hv hstored => ?_
  · rw [hrecorded]
    refine (hproposed.slots name slot hnamed).imp_left fun ⟨hslot, hrecord⟩ => ⟨?_, hrecord⟩
    exact hbalanced.synced hfaithful name slot (by rw [hstate]; exact hslot)
  · cases outcome with
    | none =>
        have hbalanced := hstored.balanced (fun h => nomatch h) hbalanced.synced
        exact .offhand (offhand_stopStaged staged) fun _ => hfail hbalanced
    | some outcome => exact stows_finishTransaction hstored.mutex hstored.ok hproposed.sound hstored.named

/-! ### The mutex -/

theorem Stows.enter {α : Type} {post : α → World → Prop} {k : Unit → Sup α}
    (hk : ∀ u : World, Balanced env i u → Stows env tasks i post (k ()) u) :
    Stows env tasks i post (Sup.acquireWrite i .subscriptionTxn >>= k) w := by
  refine Discipline.Safe.atomic fun t ht hst o a u hact => ?_
  obtain ⟨lock, hlock, hact⟩ := Option.map_eq_some_iff.mp hact
  obtain ⟨hfree, rfl⟩ := Lock.acquireWrite_eq hlock
  cases hact
  have hnone : ∀ j, ¬ t.Transacting j := fun j hj => by simp [World.Transacting, hfree] at hj
  have hmine : (Lock.writer i).hold i = .write := Lock.hold_eq_write.mpr rfl
  have hbalanced : Balanced env i { t with locks := Function.update t.locks .subscriptionTxn (.writer i) } :=
    ⟨by simpa [World.Transacting] using hmine, ht.1, ht.2 hnone⟩
  refine ⟨hbalanced.inv, ⟨fun j hj => ⟨?_, fun _ => rfl⟩, .aside rfl rfl rfl rfl fun _ => rfl⟩, hk _ hbalanced⟩
  simp [hfree, Lock.hold_of_write hmine hj]

theorem Stows.leave {α : Type} {value : α} (hw : Balanced env i w) :
    Stows env tasks i (fun _ _ => True) (do
      Sup.release i .subscriptionTxn
      return value) w := by
  refine Discipline.Safe.atomic fun t ht hst o a u hact => ?_
  have hbalanced : Balanced env i t := hw.undisturbed hst
  cases hact
  refine ⟨⟨ht.1, fun _ => hbalanced.synced⟩, ⟨fun j hj => ⟨?_, fun _ => rfl⟩, .aside rfl rfl rfl rfl fun _ => rfl⟩,
    .pure fun _ _ _ => trivial⟩
  simp [Lock.release_hold_of_ne hj]

theorem Stows.withTransaction {α : Type} {body : Sup α}
    (hbody : ∀ u : World, Balanced env i u → Stows env tasks i (fun _ u => Balanced env i u) body u) :
    Stows env tasks i (fun _ _ => True) (Sup.withWrite i .subscriptionTxn body) w :=
  .enter fun u hu => (hbody u hu).bind hu.inv fun _ _ _ hv => .leave hv

theorem Stows.releasing {α : Type} {name : LockName} {body : Sup α} (hname : LockName.subscriptionTxn ≠ name)
    (hw : (stockroom env tasks).inv w) (hbody : Stows env tasks i (fun _ u => Balanced env i u) body w) :
    Stows env tasks i (fun _ u => Balanced env i u) (Sup.releasing i name body) w :=
  hbody.bind hw fun _ _ _ hu => .offhand (offhand_release hname) fun _ => .pure fun _ huv => hu.undisturbed huv

theorem stows_switchSubscriptionLocked {target : String} {catalog : SubscriptionsConfig} {cached isReload : Bool}
    (hw : Balanced env i w) (htarget : (tasks i).target w.subscriptions.active = some target) :
    Stows env tasks i (fun _ u => Balanced env i u)
      (Sup.switchSubscriptionLocked env i target catalog cached isReload) w := by
  have hdone : ∀ {reply : Reply} {u : World}, Balanced env i u →
      Stows env tasks i (fun _ u => Balanced env i u) (pure reply) u :=
    fun hu => .pure fun v huv => hu.undisturbed huv
  refine (stows_openTransaction hw).bind hw.inv fun asked u hu hasked => ?_
  have hu := hasked.balanced
  cases asked with
  | error reply => exact hdone hu
  | ok request =>
      have hsought := hasked.requested request rfl
      cases hsought.sought
      refine .offhand (offhand_acquireWriteBy (by simp)) fun taken => ?_
      cases taken with
      | false => exact .offhand offhand_pushEvent fun _ => hdone hu
      | true =>
          refine .releasing (by simp) hu.inv (.offhand (offhand_lockClasses env.classes) fun locked => ?_)
          cases locked with
          | false =>
              refine .offhand offhand_subscriptionFailure fun reply => ?_
              exact .offhand (offhand_releaseAll (by simp)) fun _ => hdone hu
          | true =>
              refine (stows_transact hu (hasked.active ▸ htarget) hsought).bind hu.inv fun reply v hv hbalanced => ?_
              exact .offhand (offhand_releaseAll (by simp)) fun _ => hdone hbalanced

theorem stows_switchSubscription {target : String} (hw : (stockroom env tasks).inv w)
    (htask : tasks i = .switchSubscription target) :
    Stows env tasks i (fun _ _ => True) (Sup.switchSubscription env i target) w := by
  refine .offhand (within_modify fun _ => ⟨rfl, rfl⟩) fun _ => ?_
  refine (Stows.withTransaction fun u hu => ?_).bind hw fun reply v _ _ => ?_
  · exact .offhand within_look fun catalog => stows_switchSubscriptionLocked hu (by rw [htask]; rfl)
  · exact .offhand (within_modify fun _ => ⟨rfl, rfl⟩) fun _ => .pure fun _ _ => trivial

theorem stows_reloadLocked (hw : Balanced env i w) (htask : tasks i = .reload) :
    Stows env tasks i (fun _ u => Balanced env i u) (Sup.reloadLocked env i) w := by
  have hfail : ∀ {detail : String} {u : World}, Balanced env i u →
      Stows env tasks i (fun _ u => Balanced env i u) (Sup.reloadFailed detail) u :=
    fun hu => .offhand offhand_pushEvent fun _ => .pure fun v huv => hu.undisturbed huv
  refine .offhand within_ask fun config => ?_
  cases config with
  | none => exact hfail hw
  | some cfg =>
      dsimp only
      split
      · exact hfail hw
      refine .seen (R := (· = w.subscriptions.active)) hw.mutex (fun o t u a hact hst => ?_) fun active hactive => ?_
      · cases hact
        exact ⟨⟨rfl, rfl⟩, congrArg Stock.active hst⟩
      subst hactive
      split
      · exact hfail hw
      refine (stows_switchSubscriptionLocked hw (by rw [htask]; rfl)).bind hw.inv fun outcome u hu hbalanced => ?_
      split
      · exact hfail hbalanced
      · exact .offhand offhand_pushEvent fun _ => .pure fun v huv => hbalanced.undisturbed huv

theorem stows_reload (hw : (stockroom env tasks).inv w) (htask : tasks i = .reload) :
    Stows env tasks i (fun _ _ => True) (Sup.reload env i) w := by
  refine .offhand (within_modify fun _ => ⟨rfl, rfl⟩) fun _ => ?_
  refine (Stows.withTransaction fun u hu => stows_reloadLocked hu htask).bind hw fun reply v _ _ => ?_
  exact .offhand (within_modify fun _ => ⟨rfl, rfl⟩) fun _ => .pure fun _ _ => trivial

end

end Causeway

import Causeway.Proof.Attempts
import Causeway.Proof.Bystanders

/-!
# Mutations

A subscription switch and a reload: the transaction mutex is taken, a transaction is tried under it, and it is given back. With what other tasks do this is a story of every task of the daemon.
-/

namespace Causeway

open Concurrent Prog

section

variable {env : Env} {i : Nat} {task : Task} {α β : Type} {seen : List World} {k : Progress}

/-! ### Preparation -/

theorem tells_prepareSubscription {profile : SubscriptionProfileConfig} {cached : Bool} {slot : Option String}
    (hk : Quiet [] seen k) :
    (Sup.prepareSubscription env profile cached slot).Tells (Proceeds env i task)
      (fun r l => Quiet [] seen l ∧ ∀ prepared, r = some (some prepared) → Sourced profile prepared) k := by
  refine .atomic fun o s b t hact => ?_
  cases hact
  obtain ⟨l, hstep, hl⟩ := hk.untouched (Std.Refl.refl s)
  refine ⟨l, hstep, ?_⟩
  replace hl := hl.forget
  dsimp only
  split
  · exact .pure ⟨hl, fun _ h => nomatch h⟩
  · rename_i prepared hfetched
    refine .pure ⟨hl, fun other h => ?_⟩
    cases h
    split at hfetched
    · cases hfetched
    · exact sourced_prepareProfile (Option.some.inj hfetched)
  · split
    · have hload : (Sup.loadConfirmed env profile slot).Within Untouched := within_act fun _ w => Std.Refl.refl w
      refine tells_untouched hl hload fun nodes l hl => ?_
      cases nodes with
      | nil => exact .pure ⟨hl, fun _ h => nomatch h⟩
      | cons node nodes =>
          refine .pure ⟨hl, fun other h => ?_⟩
          cases h
          exact ⟨rfl, fun _ _ _ h => nomatch h⟩
    · exact .pure ⟨hl, fun _ h => nomatch h⟩

/-- A transaction is answered with an error before it has taken the write gate, or it is prepared. -/
inductive Prepares (seen : List World) (target : String) (catalog : SubscriptionsConfig) :
    Except Reply Request → Progress → Prop
  | answered {reply : Reply} {k : Progress} (error : reply.ok = false) (quiet : Quiet [] [] k) :
      Prepares seen target catalog (.error reply) k
  | prepared {request : Request} {profile : SubscriptionProfileConfig} {v : World} {k : Progress}
      (target_eq : request.target = target) (profile_eq : catalog.profile target = some profile)
      (slot : request.confirmedSlot = v.state.subscriptionCacheSlots[target]?)
        (sourced : Sourced profile request.prepared)
      (quiet : Quiet [] (v :: seen) k) : Prepares seen target catalog (.ok request) k

theorem tells_openTransaction {target : String} {catalog : SubscriptionsConfig} {cached isReload : Bool}
    (hk : Quiet [] seen k) :
    (Sup.openTransaction env target catalog cached isReload).Tells (Proceeds env i task)
      (Prepares seen target catalog) k := by
  have hquiet : ∀ {seen : List World} {l : Progress}, Quiet [] seen l → Quiet [] [] l :=
    fun hl => hl.weaken (fun _ => Iff.rfl) (List.nil_subset _)
  have hfail : ∀ {message : String} {seen' : List World} {l : Progress}, Quiet [] seen' l → (do
      return .error (← Sup.subscriptionFailure target message) : Sup (Except Reply Request)).Tells (Proceeds env i task)
        (Prepares seen target catalog) l := by
    intro message seen' l hl
    have hfailure : (Sup.subscriptionFailure target message).Tells (Proceeds env i task)
        (fun reply l => reply.ok = false ∧ Quiet [] [] l) l :=
      tells_untouched hl untouched_pushEvent fun _ _ hm => .pure ⟨rfl, hquiet hm⟩
    exact hfailure.bind fun reply l hm => .pure (.answered hm.1 hm.2)
  rw [Sup.openTransaction]
  split
  · exact .pure (.answered rfl (hquiet hk))
  split
  · exact .pure (.answered rfl (hquiet hk))
  rename_i profile hprofile _ sourceIdentity hidentity
  refine .atomic fun o s before t hact => ?_
  cases hact
  obtain ⟨l, hstep, hl⟩ := hk.begun s catalog
  refine ⟨l, hstep, ?_⟩
  refine tells_seen (F :=
    fun v r => r = (v.state.subscriptionCacheSlots[target]?, v.state.sourceIsTrusted target sourceIdentity))
    hl ?_ ?_
  · intro o s a t hact
    split at hact
    · cases hact
      exact ⟨Std.Refl.refl s, rfl⟩
    · cases hact
  rintro v ⟨slot, trusted⟩ l hread hl
  obtain ⟨rfl, -⟩ := Prod.mk.inj hread
  refine (tells_prepareSubscription hl).bind fun prepared l hl => ?_
  obtain ⟨hl, hsourced⟩ := hl
  rcases prepared with _ | _ | prepared
  · exact hfail hl
  · exact hfail hl
  dsimp only
  split
  · exact hfail hl
  split
  · exact hfail hl
  split
  · refine tells_untouched hl within_look fun active l hl => ?_
    split
    · exact .pure (.answered rfl (hquiet hl))
    · exact .pure (.prepared rfl hprofile rfl (hsourced _ rfl) hl)
  · exact .pure (.prepared rfl hprofile rfl (hsourced _ rfl) hl)

/-! ### Under the mutex -/

theorem Concluded.untouched_bind {p : Sup Reply} {q : Sup Unit} (hp : p.Tells (Proceeds env i task) Concluded k)
    (hq : q.Within Untouched) :
    (do
      let reply ← p
      q
      return reply).Tells (Proceeds env i task) Concluded k := by
  refine hp.bind fun reply l hl => ?_
  cases hl with
  | failed error hl => exact tells_untouched hl hq fun _ l hl => .pure (.failed error hl)
  | done ok hl => exact (tells_modest (modest_of_untouched hq) hl).bind fun _ l hl => .pure (.done ok hl)

theorem tells_switchSubscriptionLocked {target : String} {catalog : SubscriptionsConfig} {cached isReload : Bool}
    (hk : Quiet [] seen k) (haims : ∀ v, AimsAt task (v :: seen) target)
    (hspare : ∀ profile v base, catalog.profile target = some profile → profile.cacheFile = some base →
      Spare task (v :: seen) base v.state.subscriptionCacheSlots[target]?) :
    (Sup.switchSubscriptionLocked env i target catalog cached isReload).Tells (Proceeds env i task) Concluded k := by
  refine (tells_openTransaction hk).bind fun opened l hl => ?_
  cases hl with
  | answered error hl => exact .pure (.failed error hl)
  | @prepared request profile v _ htarget hprofile hslot hsourced hl =>
      refine tells_untouched hl (untouched_acquireWriteBy (by simp)) fun taken l hl => ?_
      cases taken with
      | false => exact tells_subscriptionFailure hl
      | true =>
          refine Concluded.untouched_bind (tells_untouched hl (untouched_lockClasses env.classes) fun held l hl => ?_)
            (untouched_release (by simp))
          cases held with
          | false => exact Concluded.untouched_bind (tells_subscriptionFailure hl) (untouched_releaseAll (by simp))
          | true =>
              refine Concluded.untouched_bind (tells_transact hl (htarget ▸ haims v) hsourced.uncommitted
                fun fresh base bytes h hpending => ?_) (untouched_releaseAll (by simp))
              rw [hslot]
              exact hspare profile v base hprofile (hsourced.pending fresh base bytes h hpending)

/-! ### The mutex -/

/-- How a mutation ends: with an error it has withheld everything and left no plane running, with an ok it has published. -/
inductive Replied : Reply → Progress → Prop
  | failed {reply : Reply} {c : Chapter} (error : reply.ok = false) (live : c.live = []) : Replied reply (.silent c)
  | done {reply : Reply} {k : Progress} (ok : reply.ok = true) (plainly : Plainly false k) : Replied reply k

theorem tells_leave {reply : Reply} (hk : Concluded reply k) :
    (do
      Sup.release i .subscriptionTxn
      return reply : Sup Reply).Tells (Proceeds env i task) Replied k := by
  refine .atomic fun o s b t hact => ?_
  cases hact
  cases hk with
  | failed error hk =>
      obtain ⟨c, hlive, -, -⟩ := hk
      have hnil : c.live = [] := List.eq_nil_iff_forall_not_mem.mpr fun id hid => List.not_mem_nil ((hlive id).mp hid)
      refine ⟨.silent ⟨[], [], false, []⟩, .silent ?_, .pure (.failed error rfl)⟩
      exact {
        withheld := ⟨rfl, rfl, rfl, rfl, rfl, rfl, rfl⟩
        passes := .inl rfl
        started := fun h => absurd rfl h
        planes := fun _ h => absurd rfl h
        live := fun _ hid => nomatch hid
        stopped := fun id hid => by
          rw [hnil] at hid
          cases hid
        cache := .inl ⟨rfl, List.nil_subset _⟩
        holding := fun h => nomatch h
        seen := fun _ hu => nomatch hu
        catalog := fun _ => rfl }
  | done ok hk =>
      obtain ⟨seen, rfl⟩ := hk
      exact ⟨_, .released ⟨.refl _, rfl, rfl, rfl, rfl⟩ rfl, .pure (.done ok ⟨seen, rfl⟩)⟩

def waitingForMutex : Progress := .silent ⟨[], [], false, []⟩

/-- A step of a mutation outside its mutex. -/
theorem proceeds_outside {c : Chapter} {s t : World} (hlive : c.live = []) (hst : Untouched s t) :
    Proceeds env i task (.silent c) s t (.silent ⟨[], [], false, []⟩) := by
  refine .silent {
    withheld := hst.toWithheld
    passes := .inl hst.passed
    started := fun h => absurd hst.nextPlane h
    planes := fun id h => absurd (congrFun hst.planes id) h
    live := fun _ hid => nomatch hid
    stopped := fun id hid => ?_
    cache := .inl ⟨hst.cache, List.nil_subset _⟩
    holding := fun h => nomatch h
    seen := fun _ hu => nomatch hu
    catalog := fun _ => hst.catalog }
  rw [hlive] at hid
  cases hid

theorem tells_mutation {body : Sup Reply} (hbody : ∀ k, Quiet [] [] k → body.Tells (Proceeds env i task) Concluded k) :
    (do
      Sup.countTransaction (· + 1)
      let reply ← Sup.withWrite i .subscriptionTxn body
      Sup.countTransaction (· - 1)
      return reply : Sup Reply).Tells (Proceeds env i task) Replied waitingForMutex := by
  have hcounted : ∀ {n : Nat} {s : World}, Untouched s { s with subscriptionTxnsInProgress := n } :=
    ⟨⟨rfl, rfl, rfl, rfl, rfl, rfl, rfl⟩, rfl, rfl, rfl, rfl, rfl, rfl⟩
  have hheld : (Sup.withWrite i .subscriptionTxn body).Tells (Proceeds env i task) Replied waitingForMutex := by
    refine .atomic fun o s b t hact => ?_
    obtain ⟨lock, hlock, hact⟩ := Option.map_eq_some_iff.mp hact
    obtain ⟨-, rfl⟩ := Lock.acquireWrite_eq hlock
    cases hact
    refine ⟨.silent ⟨[], [], true, []⟩, .silent ?_, (hbody _ ?_).bind fun reply l hl => tells_leave hl⟩
    · exact {
        withheld := ⟨rfl, rfl, rfl, rfl, rfl, rfl, rfl⟩
        passes := .inl rfl
        started := fun h => absurd rfl h
        planes := fun _ h => absurd rfl h
        live := fun _ hid => nomatch hid
        stopped := fun _ hid => nomatch hid
        cache := .inl ⟨rfl, List.Subset.refl _⟩
        holding := fun _ => .inr ⟨by simp [World.Transacting, Lock.hold_eq_write], rfl, rfl⟩
        seen := fun _ hu => nomatch hu
        catalog := fun _ => rfl }
    · exact .intro ⟨[], [], true, []⟩ (fun _ => Iff.rfl) rfl (List.Subset.refl _)
  refine .atomic fun o s b t hact => ?_
  cases hact
  refine ⟨_, proceeds_outside rfl hcounted, hheld.bind fun reply l hl => .atomic fun o s b t hact => ?_⟩
  cases hact
  cases hl with
  | failed error live => exact ⟨_, proceeds_outside live hcounted, .pure (.failed error rfl)⟩
  | done ok hl =>
      obtain ⟨seen, rfl⟩ := hl
      exact ⟨_, .apart ⟨.refl _, rfl, rfl, rfl, rfl⟩ (.inl rfl) learns_seen rfl, .pure (.done ok ⟨_, rfl⟩)⟩

theorem tells_switchSubscription {target : String} :
    (Sup.switchSubscription env i target).Tells (Proceeds env i (.switchSubscription target)) Replied
      waitingForMutex := by
  refine tells_mutation fun k hk => tells_seen (F := fun x r => r = x.subscriptions.catalog) hk ?_ ?_
  · intro o s a t hact
    cases hact
    exact ⟨Std.Refl.refl s, rfl⟩
  · rintro x _ l rfl hl
    refine tells_switchSubscriptionLocked hl (fun v => ⟨v, List.mem_cons_self, rfl⟩)
      fun profile v base hprofile hcache path later hlater hpath => ?_
    have hv : v ∈ later := hlater List.mem_cons_self
    have hx : x ∈ later := hlater (List.mem_cons_of_mem _ List.mem_cons_self)
    refine ⟨v, hv, v, hv, x, hx, target, profile, base, rfl, fun name hname => ?_, hcache, hpath⟩
    exact hprofile

theorem tells_reload : (Sup.reload env i).Tells (Proceeds env i .reload) Replied waitingForMutex := by
  have hfail : ∀ {detail : String} {seen : List World} {k : Progress}, Quiet [] seen k →
      (Sup.reloadFailed detail).Tells (Proceeds env i .reload) Concluded k :=
    fun hk => tells_untouched hk untouched_pushEvent fun _ _ hl =>
      .pure (.failed rfl (hl.weaken (fun _ => Iff.rfl) (List.nil_subset _)))
  refine tells_mutation fun k hk => tells_untouched hk within_ask fun config l hl => ?_
  cases config with
  | none => exact hfail hl
  | some cfg =>
      dsimp only
      split
      · exact hfail hl
      refine tells_seen (F := fun u r => r = u.subscriptions.active) hl ?_ ?_
      · intro o s a t hact
        cases hact
        exact ⟨Std.Refl.refl s, rfl⟩
      rintro u _ l rfl hl
      split
      · exact hfail hl
      refine Tells.bind (tells_switchSubscriptionLocked hl
        (fun v => ⟨u, List.mem_cons_of_mem _ List.mem_cons_self, rfl⟩)
        fun profile v base hprofile hcache path later hlater hpath => ?_) fun outcome l hl => ?_
      · have hv : v ∈ later := hlater List.mem_cons_self
        have hu : u ∈ later := hlater (List.mem_cons_of_mem _ List.mem_cons_self)
        refine ⟨u, hu, v, hv, v, hv, u.subscriptions.active, profile, base, rfl, fun name hname => ?_, hcache, hpath⟩
        cases hname
      · cases hl with
        | failed error hl =>
            rw [if_pos (by simp [error])]
            exact hfail hl
        | done ok hl =>
            rw [if_neg (by simp [ok])]
            exact (tells_modest (modest_of_untouched untouched_pushEvent) hl).bind fun _ l hl => .pure (.done rfl hl)

/-! ### Tasks -/

/-- Where the story of a task begins. -/
def Task.opening : Task → Progress
  | .switchSubscription _ | .reload => waitingForMutex
  | _ => .plain false []

/-- Where the story of a task ends. -/
def Task.Ending (task : Task) (reply : Reply) (k : Progress) : Prop :=
  if task.target "" = none then Plainly false k else Replied reply k

theorem tells_prog (task : Task) : (task.prog env i).Tells (Proceeds env i task) task.Ending task.opening := by
  have hplain : ∀ {task : Task}, (∀ active, task.target active = none) → task.opening = .plain false [] →
      (task.prog env i).Tells (Proceeds env i task) task.Ending task.opening := by
    intro task htarget hopening
    rw [hopening]
    refine (minds_prog htarget []).weaken fun reply l hl => ?_
    rw [Task.Ending, if_pos (htarget "")]
    exact hl
  cases task with
  | switchSubscription name => exact tells_switchSubscription
  | reload => exact tells_reload
  | idle => exact hplain (fun _ => rfl) rfl
  | switch cls node => exact hplain (fun _ => rfl) rfl
  | probeNow cls => exact hplain (fun _ => rfl) rfl
  | siteProbe site => exact hplain (fun _ => rfl) rfl
  | switchForSite cls site => exact hplain (fun _ => rfl) rfl
  | activateInitial cls => exact hplain (fun _ => rfl) rfl
  | healthLoop cls ticks => exact hplain (fun _ => rfl) rfl
  | probeLoop rounds => exact hplain (fun _ => rfl) rfl
  | egressLoop rounds => exact hplain (fun _ => rfl) rfl
  | job => exact hplain (fun _ => rfl) rfl
  | status cls retries => exact hplain (fun _ => rfl) rfl
  | connection cls proto => exact hplain (fun _ => rfl) rfl
  | signal => exact hplain (fun _ => rfl) rfl

end

end Causeway

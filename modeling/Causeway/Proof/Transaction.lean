import Causeway.Proof.Publishing

/-!
# Transactions keep the discipline

The order in which a transaction takes its locks, what it finds under them, and what it leaves behind on every way out.
-/

namespace Causeway

open Concurrent History

section

variable {env : Env} {i : Nat} {α β : Type} {post : β → Core → Prop} {w : World} {s t : Core}

theorem Whole.ok (h : Whole env i s) (hst : Stays env i s t) (hok : ∀ cls ∈ env.classes, ClassOk cls s) :
    ∀ cls ∈ env.classes, ClassOk cls t :=
  fun cls hcls => (hok cls hcls).congr (hst.cell cls hcls (h.classes cls hcls)) (hst.subs h.pinned).1

theorem Entered.stays (h : Entered env i s) (hst : Stays env i s t) (hidle : t.Idle i) :
    Entered env i t :=
  ⟨hst.whole h.toWhole, hidle, h.toWhole.ok hst h.ok⟩

theorem Entered.sees (h : Entered env i s) (hst : Sees env i s t) : Entered env i t :=
  h.stays hst.stays (hst.idle h.idle)

/-! ### Finishing -/

theorem safe_pushSwitched {now : Int} {refreshed : Bool} {planned : List Planned} {k : Unit → Sup β}
    (hk : SafeFrom env i post (k ()) w) :
    SafeFrom env i post (Sup.pushSwitched now refreshed planned >>= k) w := by
  induction planned with
  | nil => exact hk
  | cons p planned ih => exact safe_pushEvent ih

theorem safe_drainAll {old : List ActiveNode} {k : Unit → Sup β} (hk : SafeFrom env i post (k ()) w) :
    SafeFrom env i post (Sup.drainAll old >>= k) w := by
  induction old with
  | nil => exact hk
  | cons active old ih => exact safe_scheduleDrain ih

theorem safe_finishTransaction {request : Request} {prepared : Sup.Prepared} (hw : Inv env w.core)
    (hwhole : Whole env i w.core) (hsaves : w.core.files.saves i = none)
    (hok : ∀ cls ∈ env.classes, ClassOk cls w.core) (hprepared : prepared.Ok env request w.core) :
    SafeFrom env i (fun _ v => Entered env i v)
      (Sup.finishTransaction env i request prepared.nodes prepared.planned prepared.cloned prepared.next
        prepared.now) w := by
  rw [Sup.finishTransaction]
  refine (safe_publish hw hwhole hsaves hok hprepared).bind hw fun old u hu hentered => ?_
  refine (safe_saveState hentered.idle).bind hu ?_
  rintro _ v _ ⟨hstays, hidle⟩
  refine safe_pushSwitched (safe_pushEvent (safe_drainAll ?_))
  exact safe_pure fun _ hst => (hentered.stays hstays hidle).sees hst

/-! ### Under the locks -/

theorem safe_stopStaged {staged : List ActiveNode} {k : Unit → Sup β} (hk : SafeFrom env i post (k ()) w) :
    SafeFrom env i post (Sup.stopStaged staged >>= k) w := by
  induction staged with
  | nil => exact hk
  | cons active staged ih => exact safe_stopPlane ih

theorem safe_subscriptionFailure {profile message : String} (hentered : Entered env i w.core) :
    SafeFrom env i (fun _ v => Entered env i v) (Sup.subscriptionFailure profile message) w := by
  rw [Sup.subscriptionFailure]
  exact safe_pushEvent (safe_pure fun _ hst => hentered.sees hst)

theorem Sup.Prepared.Ok.stays {request : Request} {prepared : Sup.Prepared} (h : prepared.Ok env request s)
    (hwhole : Whole env i s) (hst : Stays env i s t) : prepared.Ok env request t := by
  refine ⟨(hst.state hwhole).trans h.cloned, h.next, h.classes, fun p hp => ?_, h.member, h.eligible, h.active,
    h.entry⟩
  have hcls : p.cls ∈ env.classes := by
    rw [← h.classes]
    exact List.mem_map_of_mem hp
  rw [Core.cell_route (hst.cell p.cls hcls (hwhole.classes p.cls hcls))]
  exact h.generation p hp

theorem safe_transact {request : Request} (hw : Inv env w.core) (hentered : Entered env i w.core) :
    SafeFrom env i (fun _ v => Entered env i v) (Sup.transact env i request) w := by
  rw [Sup.transact]
  refine (safe_stageTransaction hw hentered.toWhole).bind hw ?_
  rintro result u hu ⟨hwu, hprepared⟩
  have hu' := hentered.sees hwu
  cases result with
  | error message => exact safe_subscriptionFailure hu'
  | ok pair =>
      obtain ⟨staged, prepared⟩ := pair
      have hprepared := (hprepared staged prepared rfl).stays hentered.toWhole hwu.stays
      refine (safe_saveAtomic hu'.idle
        (show SaveKind.Guarded _ prepared.next (.cloned request.target prepared.commit) from
          ⟨hu'.gate, hprepared.active⟩)).bind hu ?_
      rintro outcome v hv ⟨⟨huv, _, _⟩, hsaves, hwindow⟩
      cases outcome with
      | none =>
          have hidle : v.core.Idle i := ⟨hsaves, hwindow.trans (Function.update_self _ _ _)⟩
          exact safe_stopStaged (safe_subscriptionFailure (hu'.stays huv hidle))
      | some outcome =>
          exact safe_finishTransaction hv (huv.whole hu'.toWhole) hsaves (hu'.toWhole.ok huv hu'.ok)
            (hprepared.stays hu'.toWhole huv)

/-! ### Taking the locks -/

structure Orderly (env : Env) (i : Nat) (c : Core) : Prop where
  txn : c.hold i .subscriptionTxn = .write
  gate : c.hold i .reconfiguration = .write
  idle : c.Idle i
  ok : ∀ cls ∈ env.classes, c.hold i (.cls cls) = .write → ClassOk cls c

theorem Orderly.sees (h : Orderly env i s) (hst : Sees env i s t) : Orderly env i t where
  txn := (hst.hold _).trans h.txn
  gate := (hst.hold _).trans h.gate
  idle := hst.idle h.idle
  ok cls hcls hhold := by
    have hhold' : s.hold i (.cls cls) = .write := (hst.hold _).symm.trans hhold
    exact (h.ok cls hcls hhold').congr (hst.cell cls hcls hhold') (hst.subs (.inl (by simp [h.gate]))).1

theorem Orderly.relocked {cls : String} (h : Orderly env i s) (hst : Relocked i (.cls cls) s t)
    (hok : cls ∈ env.classes → t.hold i (.cls cls) = .write → ClassOk cls s) : Orderly env i t where
  txn := (hst.others _ _ (.inl (by simp))).trans h.txn
  gate := (hst.others _ _ (.inl (by simp))).trans h.gate
  idle := hst.idle h.idle
  ok other hother hhold := by
    refine ClassOk.congr ?_ (hst.cell other) hst.subscriptions
    by_cases heq : other = cls
    · subst heq
      exact hok hother hhold
    · exact h.ok other hother ((hst.others _ _ (.inl (by simpa using heq))).symm.trans hhold)

theorem Orderly.entered (h : Orderly env i s) (hheld : ∀ cls ∈ env.classes, s.hold i (.cls cls) = .write) :
    Entered env i s :=
  ⟨⟨h.txn, h.gate, hheld⟩, h.idle, fun cls hcls => h.ok cls hcls (hheld cls hcls)⟩

theorem Entered.orderly (h : Entered env i s) : Orderly env i s :=
  ⟨h.txn, h.gate, h.idle, fun cls hcls _ => h.ok cls hcls⟩

theorem safe_lockClasses {taken classes : List String} {k : Bool → Sup β} (h : Orderly env i w.core)
    (hw : Inv env w.core) (htaken : ∀ cls ∈ taken, w.core.hold i (.cls cls) = .write)
    (hno : ∀ u : World, Inv env u.core → Orderly env i u.core → SafeFrom env i post (k false) u)
    (hk : ∀ u : World, Inv env u.core → Orderly env i u.core →
      (∀ cls ∈ taken ++ classes, u.core.hold i (.cls cls) = .write) → SafeFrom env i post (k true) u) :
    SafeFrom env i post (Sup.lockClasses i classes >>= k) w := by
  induction classes generalizing taken w with
  | nil => exact hk w hw h (by simpa using htaken)
  | cons cls classes ih =>
      simp only [Sup.lockClasses, bind_assoc]
      refine safe_acquireWriteBy (.of_idle h.idle) (hno w hw h) ?_
      intro t u ht hst hfree hmoved hhold hu
      have horderly := (h.sees hst).relocked hmoved fun hcls _ => ht.settled cls hcls hfree
      have hheld : ∀ other ∈ taken ++ [cls], u.core.hold i (.cls other) = .write := by
        refine List.forall_mem_append.mpr ⟨fun other hother => ?_, by simpa using hhold⟩
        by_cases heq : other = cls
        · exact heq ▸ hhold
        · rw [hmoved.others _ _ (.inl (by simpa using heq)), hst.hold]
          exact htaken other hother
      exact ih horderly hu hheld fun v hv horderly hheld => hk v hv horderly (by simpa using hheld)

theorem safe_releaseClasses {classes : List String} {k : Unit → Sup β} (h : Orderly env i w.core)
    (hw : Inv env w.core)
    (hk : ∀ u : World, Inv env u.core → Orderly env i u.core → SafeFrom env i post (k ()) u) :
    SafeFrom env i post (Sup.releaseAll i (classes.map .cls) >>= k) w := by
  induction classes generalizing w with
  | nil => exact hk w hw h
  | cons cls classes ih =>
      simp only [Sup.releaseAll, List.map_cons, bind_assoc]
      refine safe_release (.of_idle h.idle) ?_ ?_ ?_ ?_
      · intro t hst other hother hn hhold
        cases hn
        exact (h.sees hst).ok cls hother hhold
      · intro t _ other _ hn
        cases hn
      · intro hn
        cases hn
      · intro t u _ hst hmoved hnone hu
        exact ih ((h.sees hst).relocked hmoved fun _ hhold => by rw [hnone] at hhold; cases hhold) hu

/-! ### Requests -/

/-- Thread `i` holds the transaction mutex and no class. -/
structure Opening (env : Env) (i : Nat) (c : Core) : Prop where
  txn : c.hold i .subscriptionTxn = .write
  idle : c.Idle i
  none : ∀ cls ∈ env.classes, c.hold i (.cls cls) ≠ .write

theorem Opening.sees (h : Opening env i s) (hst : Sees env i s t) : Opening env i t :=
  ⟨(hst.hold _).trans h.txn, hst.idle h.idle, fun cls hcls => by rw [hst.hold]; exact h.none cls hcls⟩

theorem safe_switchSubscriptionLocked {target : String} {catalog : SubscriptionsConfig}
    {allowCachedFallback isReload : Bool} (hw : Inv env w.core) (hopening : Opening env i w.core) :
    SafeFrom env i (fun _ v => v.Idle i)
      (Sup.switchSubscriptionLocked env i target catalog allowCachedFallback isReload) w := by
  have hfail : ∀ {u : World} {target message}, Inv env u.core → u.core.Idle i →
      SafeFrom env i (fun _ v => v.Idle i) (Sup.subscriptionFailure target message) u :=
    fun hu hidle => (quiet_subscriptionFailure _ hu).weaken fun _ _ h => h.1.idle hidle
  rw [Sup.switchSubscriptionLocked]
  refine safe_quiet quiet_openTransaction hw fun opened _ => ?_
  cases opened with
  | error reply => exact safe_pure fun _ hst => hst.idle hopening.idle
  | ok request =>
      refine safe_acquireWriteBy (.of_idle hopening.idle) (hfail hw hopening.idle) ?_
      intro t u _ hwt _ htu hgate hu
      have hopening := hopening.sees hwt
      have horderly : Orderly env i u.core := by
        refine ⟨(htu.others _ _ (.inl (by simp))).trans hopening.txn, hgate, htu.idle hopening.idle, ?_⟩
        intro cls hcls hhold
        rw [htu.others _ _ (.inl (by simp))] at hhold
        exact absurd hhold (hopening.none cls hcls)
      have hclose : ∀ (reply : Reply) (v : World), Inv env v.core → Orderly env i v.core →
          SafeFrom env i (fun _ v => v.Idle i)
            (Sup.releaseAll i (env.classes.map .cls) >>= fun _ => pure reply) v :=
        fun _ v hv horderly => safe_releaseClasses horderly hv fun _ _ horderly =>
          safe_pure fun _ hst => hst.idle horderly.idle
      refine safe_releasing (by simp) (by simp) (by simp) hu ?_
      refine @safe_lockClasses env i Reply _ u [] env.classes _ horderly hu (by simp) ?_ ?_
      · intro v hv horderly
        refine (quiet_subscriptionFailure v hv).bind hv fun reply x hx hvx => ?_
        exact hclose reply x hx (horderly.sees hvx.1)
      · intro v hv horderly hheld
        refine (safe_transact hv (horderly.entered hheld)).bind hv fun reply x hx hentered => ?_
        exact hclose reply x hx hentered.orderly

theorem safe_withTxn {body : Sup α} (hidle : w.core.Idle i)
    (hnone : ∀ cls ∈ env.classes, w.core.hold i (.cls cls) ≠ .write)
    (hbody : ∀ u : World, Inv env u.core → Opening env i u.core →
      SafeFrom env i (fun _ v => v.Idle i) body u) :
    SafeFrom env i (fun _ v => v.Idle i) (Sup.withWrite i .subscriptionTxn body) w := by
  refine safe_acquireWrite (.of_idle hidle) ?_
  intro t u _ hwt _ htu hhold hu
  have hopening : Opening env i u.core := by
    refine ⟨hhold, htu.idle (hwt.idle hidle), fun cls hcls => ?_⟩
    rw [htu.others _ _ (.inl (by simp)), hwt.hold]
    exact hnone cls hcls
  exact safe_releasing (by simp) (by simp) (by simp) hu (hbody u hu hopening)

theorem safe_countTransaction {f : Nat → Nat} {k : Unit → Sup β} (hk : SafeFrom env i post (k ()) w) :
    SafeFrom env i post (Sup.countTransaction f >>= k) w :=
  safe_modify_same (fun _ => rfl) hk

theorem safe_switchSubscription {target : String} (hw : Inv env w.core) (hidle : w.core.Idle i)
    (hnone : ∀ cls ∈ env.classes, w.core.hold i (.cls cls) ≠ .write) :
    SafeFrom env i (fun _ v => v.Idle i) (Sup.switchSubscription env i target) w := by
  rw [Sup.switchSubscription]
  refine safe_countTransaction ?_
  refine SafeFrom.bind (safe_withTxn hidle hnone fun u hu hopening => ?_) hw fun reply v _ hidle => ?_
  · exact safe_look fun t _ _ => safe_switchSubscriptionLocked hu hopening
  · exact safe_countTransaction (safe_pure fun _ hst => hst.idle hidle)

theorem safe_reloadLocked (hw : Inv env w.core) (hopening : Opening env i w.core) :
    SafeFrom env i (fun _ v => v.Idle i) (Sup.reloadLocked env i) w := by
  have hfail : ∀ {u : World} {detail}, u.core.Idle i →
      SafeFrom env i (fun _ v => v.Idle i) (Sup.reloadFailed detail) u :=
    fun hidle => safe_pushEvent (safe_pure fun _ hst => hst.idle hidle)
  rw [Sup.reloadLocked]
  refine safe_ask fun candidate => ?_
  cases candidate with
  | none => exact hfail hopening.idle
  | some cfg =>
      dsimp only
      split
      · exact hfail hopening.idle
      · refine safe_look fun t _ _ => ?_
        split
        · exact hfail hopening.idle
        · refine (safe_switchSubscriptionLocked hw hopening).bind hw fun outcome v _ hidle => ?_
          split
          · exact hfail hidle
          · exact safe_pushEvent (safe_pure fun _ hst => hst.idle hidle)

theorem safe_reload (hw : Inv env w.core) (hidle : w.core.Idle i)
    (hnone : ∀ cls ∈ env.classes, w.core.hold i (.cls cls) ≠ .write) :
    SafeFrom env i (fun _ v => v.Idle i) (Sup.reload env i) w := by
  rw [Sup.reload]
  refine safe_countTransaction ?_
  refine (safe_withTxn hidle hnone fun u hu hopening => safe_reloadLocked hu hopening).bind hw ?_
  intro reply v _ hidle
  exact safe_countTransaction (safe_pure fun _ hst => hst.idle hidle)

end

end Causeway

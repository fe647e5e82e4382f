import Causeway.Proof.Switching

/-!
# Probes keep the discipline

A job carries the publication its node was taken at. Under the gate no publication happens, so what is recorded there is recorded in the era it was checked in.
-/

namespace Causeway

open Concurrent History

section

variable {env : Env} {i : Nat} {β : Type} {post : β → Core → Prop} {w : World}

/-! ### Rounds -/

theorem safe_openRound {permits : Nat} {k : Nat → Sup β} (hk : ∀ request, SafeFrom env i post (k request) w) :
    SafeFrom env i post (Sup.openRound permits >>= k) w :=
  safe_act_same (fun _ _ => rfl) fun _ _ _ _ => hk _

theorem safe_spawn {jobs : List Job} {k : Unit → Sup β} (hjobs : ∀ job ∈ jobs, job.Fact w.core.published)
    (hk : SafeFrom env i post (k ()) w) : SafeFrom env i post (Sup.spawn jobs >>= k) w := by
  refine safe_unseen (fun _ => True) ?_ fun _ _ => hk
  intro o t u b h ht hst
  obtain ⟨rfl, rfl⟩ := Prod.mk.inj (Option.some.inj h)
  refine ⟨.of_same rfl, ht.unseen (.of_same rfl) ht.reads ht.log ht.stamps ?_, trivial⟩
  exact List.forall_mem_append.mpr ⟨ht.jobs, fun job hjob => (hjobs job hjob).later hst.published⟩

theorem safe_acquirePermit {request : Nat} {k : Unit → Sup β} (hk : SafeFrom env i post (k ()) w) :
    SafeFrom env i post (Sup.acquirePermit request >>= k) w := by
  refine safe_wait ?_ fun _ => hk
  intro o t u b h
  split at h
  · obtain ⟨rfl, rfl⟩ := Prod.mk.inj (Option.some.inj h)
    rfl
  · cases h

theorem safe_enterProbe {request : Nat} {k : Bool → Sup β} (hk : ∀ panicked, SafeFrom env i post (k panicked) w) :
    SafeFrom env i post (Sup.enterProbe request >>= k) w := by
  refine safe_wait ?_ hk
  intro o t u b h
  split at h
  · obtain ⟨rfl, rfl⟩ := Prod.mk.inj (Option.some.inj h)
    rfl
  · cases h

theorem safe_finishJob {request index : Nat} {result : Option ProbeResult} {k : Unit → Sup β}
    (hk : SafeFrom env i post (k ()) w) :
    SafeFrom env i post (Sup.finishJob request index result >>= k) w :=
  safe_modify_same (fun _ => rfl) hk

theorem safe_joinNext {request : Nat} {k : Nat × Option ProbeResult → Sup β}
    (hk : ∀ result, SafeFrom env i post (k result) w) :
    SafeFrom env i post (Sup.joinNext request >>= k) w := by
  refine safe_wait ?_ hk
  intro o t u b h
  split at h
  · split at h
    · obtain ⟨rfl, rfl⟩ := Prod.mk.inj (Option.some.inj h)
      rfl
    · cases h
  · cases h

theorem safe_joinAll {request count : Nat} {slots : List (Option ProbeResult)}
    {k : List (Option ProbeResult) → Sup β} (hk : ∀ slots, SafeFrom env i post (k slots) w) :
    SafeFrom env i post (Sup.joinAll request count slots >>= k) w := by
  induction count generalizing slots with
  | zero => exact hk slots
  | succ count ih =>
      rw [Sup.joinAll, bind_assoc]
      exact safe_joinNext fun _ => ih

/-! ### Node tests -/

/-- The era of a job is the current one. -/
structure Current (takenAt readAt : Nat) (c : Core) : Prop where
  taken : takenAt ≤ readAt
  read : readAt ≤ c.published
  era : UInt64.ofNat readAt = UInt64.ofNat c.published

theorem safe_recordProbeResult {node : Node} {rtt : Option ℚ} {takenAt readAt : Nat} {k : Unit → Sup β}
    (hgate : w.core.hold i .reconfiguration = .read) (hcurrent : Current takenAt readAt w.core)
    (hk : SafeFrom env i post (k ()) w) :
    SafeFrom env i post (Sup.recordProbeResult env node rtt takenAt readAt >>= k) w := by
  refine safe_unseen (fun _ => True) ?_ fun _ _ => hk
  intro o t u b h ht hst
  split at h
  · obtain ⟨rfl, hu⟩ := Prod.mk.inj (Option.some.inj h)
    have hunseen : Unseen t.core u.core := by
      subst hu
      exact ⟨rfl, rfl, rfl, .inr ⟨i, (hst.hold _).trans hgate⟩, .still⟩
    subst hu
    have hpublished : t.core.published = w.core.published := (hst.subs (pinned_of_read hgate)).2
    refine ⟨hunseen, ht.unseen hunseen ht.reads (List.forall_mem_cons.mpr ⟨?_, ht.log⟩) ht.stamps ht.jobs,
      trivial⟩
    exact ⟨hcurrent.taken, hcurrent.read.trans hst.published, hcurrent.era.trans (by rw [← hpublished]; rfl)⟩
  · cases h

theorem safe_testNode {healthUrl : String} {node : Node} {record : Bool} {takenAt readAt : Nat}
    (hw : Inv env w.core) (hgate : w.core.hold i .reconfiguration = .read) (hcurrent : Current takenAt readAt w.core) :
    SafeFrom env i (fun _ v => Sees env i w.core v)
      (Sup.testNode env i healthUrl node record takenAt readAt) w := by
  have hstop : ∀ result, SafeFrom env i (fun _ v => Sees env i w.core v) (pure result : Sup ProbeResult) w :=
    fun _ => safe_pure fun _ hst => hst
  have hrecord : ∀ rtt result, SafeFrom env i (fun _ v => Sees env i w.core v) (do
      if record then Sup.recordProbeResult env node rtt takenAt readAt
      return result : Sup ProbeResult) w := by
    intro rtt result
    cases record with
    | true => exact safe_recordProbeResult hgate hcurrent (hstop _)
    | false => exact hstop _
  rw [Sup.testNode, Sup.reserve]
  refine safe_ask fun reserved => ?_
  cases reserved with
  | error error => exact hstop _
  | ok spec =>
      refine safe_quiet quiet_startPlane hw fun started _ => ?_
      cases started with
      | error error => exact hrecord _ _
      | ok handle =>
          refine safe_ask fun checked => safe_stopPlane ?_
          rcases checked with error | ⟨code, rtt⟩
          · exact safe_observe (fun _ _ _ => trivial) fun _ _ _ =>
              safe_recordProbeResult hgate hcurrent (hstop _)
          · dsimp only
            split
            · exact hrecord _ _
            · exact hrecord _ _

theorem safe_probeNowNode {node : Node} {era : UInt64} {healthUrl : String} {record : Bool}
    {takenAt readAt : Nat} (hidle : w.core.Idle i) (htaken : takenAt ≤ readAt)
    (hread : readAt ≤ w.core.published) (hera : era = UInt64.ofNat readAt) :
    SafeFrom env i (fun _ v => v.Idle i)
      (Sup.probeNowNode env i node era healthUrl record takenAt readAt) w := by
  rw [Sup.probeNowNode]
  refine safe_inGate hidle fun u hu hwu hidle hhold => ?_
  refine safe_look fun t ht hst => ?_
  split
  · exact safe_pure fun _ hst => hst.idle hidle
  · rename_i hsame
    obtain ⟨hsubs, hpublished⟩ := hst.subs (pinned_of_read hhold)
    refine (safe_testNode hu hhold ⟨htaken, hread.trans hwu.published, ?_⟩).weaken
      fun _ _ h => h.idle hidle
    have hgeneration : t.subscriptions.generation = UInt64.ofNat t.core.published := ht.era
    rw [← hera, ← hpublished, ← hgeneration]
    exact (not_not.mp hsame).symm

theorem safe_probeJob {request index : Nat} {node : Node} {era : UInt64} {cls : String}
    {takenAt readAt : Nat} (hw : Inv env w.core) (hidle : w.core.Idle i)
    (hjob : Job.Fact w.core.published (.probe request index node era cls takenAt readAt)) :
    SafeFrom env i (fun _ v => v.Idle i) (Sup.probeJob env i request index node era cls takenAt readAt) w := by
  have htask : SafeFrom env i (fun _ v => v.Idle i) (Sup.probeTask env i request node era cls takenAt readAt) w := by
    rw [Sup.probeTask]
    refine safe_enterProbe fun panicked => ?_
    cases panicked with
    | true => exact safe_pure fun _ hst => hst.idle hidle
    | false =>
        refine (safe_probeNowNode hidle hjob.1 hjob.2.1 hjob.2.2).bind hw fun _ u _ hidle => ?_
        exact safe_pure fun _ hst => hst.idle hidle
  refine htask.bind hw fun _ u _ hidle => ?_
  exact safe_finishJob (k := pure) (safe_pure fun _ hst => hst.idle hidle)

theorem safe_probeNowInner {cls : String} :
    SafeFrom env i (fun _ v => Sees env i w.core v) (Sup.probeNowInner cls) w := by
  rw [Sup.probeNowInner, Sup.pool]
  refine safe_lookHere fun t _ hwt => ?_
  refine safe_lookHere fun u hu htu => ?_
  refine safe_openRound fun request => safe_spawn ?_ (safe_joinAll fun slots => ?_)
  · intro job hjob
    obtain ⟨⟨node, index⟩, _, rfl⟩ := List.mem_map.mp hjob
    exact ⟨htu.published, le_rfl, hu.era⟩
  · exact safe_pure fun _ huv => (hwt.trans htu).trans huv

theorem safe_saveAndReply {k : Unit → Sup Reply} (hw : Inv env w.core) (hidle : w.core.Idle i)
    (hk : ∀ u : World, u.core.Idle i → SafeFrom env i (fun _ v => v.Idle i) (k ()) u) :
    SafeFrom env i (fun _ v => v.Idle i) (Sup.saveState env i >>= k) w :=
  (safe_saveState hidle).bind hw fun _ u _ h => hk u h.2

theorem safe_probeNow {cls : String} (hw : Inv env w.core) (hidle : w.core.Idle i) :
    SafeFrom env i (fun _ v => v.Idle i) (Sup.probeNow env i cls) w := by
  rw [Sup.probeNow]
  split
  · exact safe_pure fun _ hst => hst.idle hidle
  · refine safe_probeNowInner.bind hw fun results u hu hwu => ?_
    refine safe_saveAndReply hu (hwu.idle hidle) fun v hidle => ?_
    exact safe_pushEvent (safe_pure fun _ hst => hst.idle hidle)

/-! ### Site verdicts -/

/-- The stamp of a verdict is right from its recording on. -/
def StampLasts {α : Type} (stamp : α → Option Stamp) (value : α) (c : Core) : Prop :=
  ∀ st, stamp value = some st → st.Fact c.published

theorem stampLasts {α : Type} (stamp : α → Option Stamp) : Lasting (StampLasts stamp) :=
  fun _ _ _ hst h st hsome => (h st hsome).later hst.published

theorem safe_recordSiteVerdict {site node : String} {verdict : SiteVerdict} {takenAt gateAt : Nat}
    {k : Stamp → Sup β} (hread : w.core.hold i .reconfiguration = .read) (htaken : takenAt ≤ gateAt)
    (hgate : gateAt = w.core.published)
    (hk : SafeFrom env i post (k ⟨takenAt, gateAt, gateAt⟩) w) :
    SafeFrom env i post (Sup.recordSiteVerdict site node verdict takenAt gateAt >>= k) w := by
  refine safe_unseen (fun stamp => stamp = ⟨takenAt, gateAt, gateAt⟩) ?_ fun stamp hstamp => hstamp ▸ hk
  intro o t u b h ht hst
  split at h
  · obtain ⟨rfl, hu⟩ := Prod.mk.inj (Option.some.inj h)
    have hunseen : Unseen t.core u.core := by
      subst hu
      exact ⟨rfl, rfl, rfl, .inr ⟨i, (hst.hold _).trans hread⟩, .still⟩
    subst hu
    have hpublished : gateAt = t.trail.published := hgate.trans (hst.subs (pinned_of_read hread)).2.symm
    have hfact : Stamp.Fact ⟨takenAt, gateAt, t.trail.published⟩ t.core.published :=
      ⟨htaken, hpublished, le_rfl⟩
    refine ⟨hunseen, ht.unseen hunseen ht.reads ?_ ?_ ht.jobs, by rw [← hpublished]⟩
    · exact List.forall_mem_cons.mpr ⟨hfact, ht.log⟩
    · intro other name stamp hstamp
      simp only [World.core, Trail.note] at hstamp
      by_cases hother : other = site
      · subst hother
        by_cases hname : name = node
        · subst hname
          simp only [Function.update_self, Option.some.injEq] at hstamp
          exact hstamp ▸ hfact
        · simp only [Function.update_self, Function.update_of_ne hname] at hstamp
          exact ht.stamps _ _ _ hstamp
      · simp only [Function.update_of_ne hother] at hstamp
        exact ht.stamps _ _ _ hstamp
  · cases h

theorem safe_freshVerdict {site node : String} {k : Option (SiteVerdict × Option Stamp) → Sup β}
    (hk : ∀ (t : World) (verdict : Option (SiteVerdict × Option Stamp)), Inv env t.core →
      Sees env i w.core t.core → StampLasts (fun v => v.bind (·.2)) verdict t.core →
      SafeFrom env i post (k verdict) t) :
    SafeFrom env i post (Sup.freshVerdict env site node >>= k) w := by
  refine Discipline.Safe.atomic fun t ht hst o b u h => ?_
  split at h
  · obtain ⟨rfl, rfl⟩ := Prod.mk.inj (Option.some.inj h)
    refine ⟨ht, .refl, hk t _ ht hst ?_⟩
    intro st hst
    obtain ⟨_, hverdict, hstamp⟩ := Option.bind_eq_some_iff.mp hst
    obtain ⟨_, _, rfl⟩ := Option.map_eq_some_iff.mp hverdict
    exact ht.stamps site node st hstamp
  · cases h

theorem quiet_measureSite {node : Node} {url : String} {now : Int} :
    QuietTo env i (fun _ => True) (Sup.measureSite i node url now) := by
  rw [Sup.measureSite, Sup.reserve]
  refine quiet_ask fun reserved => ?_
  cases reserved with
  | error error => exact quiet_pure trivial
  | ok spec =>
      refine quiet_startPlane.bind fun started _ => ?_
      cases started with
      | error error => exact quiet_pure trivial
      | ok handle =>
          refine quiet_ask fun answer => quiet_stopPlane ?_
          cases answer with
          | error error => exact quiet_pure trivial
          | ok answer => exact quiet_pure trivial

theorem safe_probeSiteNode {node : Node} {site url : String} {takenAt : Nat} (hidle : w.core.Idle i)
    (htaken : takenAt ≤ w.core.published) :
    SafeFrom env i (fun result v => v.Idle i ∧ StampLasts (fun r => some r.2) result v)
      (Sup.probeSiteNode i node site url takenAt) w := by
  rw [Sup.probeSiteNode]
  refine safe_withGate hidle (stampLasts _) fun u hu hwu hidle hhold => ?_
  refine safe_look fun t _ hst => safe_ask fun now => ?_
  have hpublished : t.trail.published = u.core.published := (hst.subs (pinned_of_read hhold)).2
  rw [hpublished]
  refine safe_quiet quiet_measureSite hu fun verdict _ => ?_
  refine safe_recordSiteVerdict hhold (htaken.trans hwu.published) rfl ?_
  refine safe_pure fun v huv => ⟨huv.idle hidle, fun st hst => ?_⟩
  cases hst
  exact ⟨htaken.trans hwu.published, rfl, huv.published⟩

theorem safe_siteJob {request : Nat} {node : Node} {site url : String} {takenAt : Nat}
    (hw : Inv env w.core) (hidle : w.core.Idle i) (htaken : takenAt ≤ w.core.published) :
    SafeFrom env i (fun _ v => v.Idle i) (Sup.siteJob i request node site url takenAt) w := by
  rw [Sup.siteJob]
  refine safe_acquirePermit ?_
  refine (safe_probeSiteNode hidle htaken).bind hw fun _ u _ h => ?_
  exact safe_finishJob (k := pure) (safe_pure fun _ hst => hst.idle h.1)

theorem safe_noteVerdict {site node : String} {verdict : SiteVerdict} {stamp : Option Stamp}
    {k : Unit → Sup β} (hstamp : StampLasts id stamp w.core) (hk : SafeFrom env i post (k ()) w) :
    SafeFrom env i post (Sup.noteVerdict i site node verdict stamp >>= k) w :=
  safe_observe (fun _ _ hst => stampLasts id _ _ _ hst.later hstamp) fun _ _ _ => hk

theorem safe_siteProbeRequest {site : Option String} (hidle : w.core.Idle i) :
    SafeFrom env i (fun _ v => v.Idle i) (Sup.siteProbeRequest env i site) w := by
  have hstop : ∀ reply, SafeFrom env i (fun _ v => v.Idle i) (pure reply : Sup Reply) w :=
    fun _ => safe_pure fun _ hst => hst.idle hidle
  rw [Sup.siteProbeRequest]
  split
  · exact hstop _
  · exact hstop _
  · refine safe_lookHere fun t ht hst => safe_openRound fun request => safe_spawn ?_ ?_
    · intro job hjob
      obtain ⟨⟨name, url⟩, _, hjob⟩ := List.mem_flatMap.mp hjob
      obtain ⟨node, _, rfl⟩ := List.mem_map.mp hjob
      exact Nat.le_refl t.core.published
    · refine safe_joinAll fun _ => safe_saveAndReply ht (hst.idle hidle) fun u hidle => ?_
      refine safe_readState fun _ => safe_pushEvent (safe_readState fun _ => ?_)
      exact safe_pure fun _ hst => hst.idle hidle

/-! ### Site switches -/

theorem safe_incumbentVerdict {site url current : String} (hidle : w.core.Idle i) :
    SafeFrom env i (fun _ v => v.Idle i) (Sup.incumbentVerdict env i site url current) w := by
  rw [Sup.incumbentVerdict]
  refine safe_freshVerdict fun t verdict ht hst hstamp => ?_
  rcases verdict with _ | ⟨verdict, stamp⟩
  · refine safe_lookHere fun u hu htu => ?_
    have hidle' := htu.idle (hst.idle hidle)
    dsimp only
    cases u.subscriptions.nodes.find? fun node => node.name = current with
    | none => exact safe_ask fun _ => safe_pure fun _ hst => hst.idle hidle'
    | some node =>
        refine (safe_probeSiteNode hidle' (Nat.le_refl u.core.published)).bind hu ?_
        rintro ⟨verdict, stamp⟩ v _ ⟨hidle, hstamp⟩
        exact safe_noteVerdict hstamp (safe_pure fun _ hst => hst.idle hidle)
  · exact safe_noteVerdict hstamp (safe_pure fun _ htu => htu.idle (hst.idle hidle))

theorem safe_tryForSite {cls site url : String} {nodeBefore : Option String} {tried takenAt : Nat}
    {candidates : List Node} (hcls : cls ∈ env.classes) (hw : Inv env w.core) (hidle : w.core.Idle i)
    (htaken : takenAt ≤ w.core.published) :
    SafeFrom env i (fun _ v => v.Idle i)
      (Sup.tryForSite env i cls site url nodeBefore tried takenAt candidates) w := by
  induction candidates generalizing w with
  | nil =>
      rw [Sup.tryForSite]
      exact safe_saveAndReply hw hidle fun u hidle => safe_pure fun _ hst => hst.idle hidle
  | cons node candidates ih =>
      rw [Sup.tryForSite]
      refine (safe_probeSiteNode hidle htaken).later.bind hw ?_
      rintro ⟨verdict, stamp⟩ u hu ⟨⟨hidle, hstamp⟩, hwu⟩
      have hrest : ∀ v : World, Inv env v.core → v.core.Idle i → Later u.core v.core →
          SafeFrom env i (fun _ v => v.Idle i)
            (Sup.tryForSite env i cls site url nodeBefore tried takenAt candidates) v :=
        fun v hv hidle huv => ih hv hidle (htaken.trans (hwu.published.trans huv.published))
      dsimp only
      split
      · exact hrest u hu hidle .refl
      · refine safe_noteVerdict hstamp ?_
        have hrequester : (Requester.site nodeBefore site (some stamp)).Fact u.core := by
          rintro _ _ _ ⟨⟩
          exact hstamp stamp rfl
        refine (safe_switchTo hcls hidle hrequester).later.bind hu ?_
        rintro result v hv ⟨hidle, huv⟩
        cases result with
        | error error => exact hrest v hv hidle huv
        | ok outcome => exact safe_saveAndReply hv hidle fun _ hidle => safe_pure fun _ hst => hst.idle hidle

theorem safe_searchForSite {cls site url : String} {nodeBefore : Option String} (hcls : cls ∈ env.classes)
    (hidle : w.core.Idle i) :
    SafeFrom env i (fun _ v => v.Idle i) (Sup.searchForSite env i cls site url nodeBefore) w := by
  rw [Sup.searchForSite]
  refine safe_lookHere fun t ht hst => ?_
  have hlock : ∀ f : StateFile → List Node, SafeFrom env i (fun _ v => v.Idle i)
      (Sup.readState f >>= fun candidates =>
        Sup.tryForSite env i cls site url nodeBefore candidates.length t.trail.published candidates) t :=
    fun f => safe_readState fun st => safe_tryForSite hcls ht (hst.idle hidle) (Nat.le_refl t.core.published)
  exact hlock _

theorem safe_switchForSite {cls site : String} (hw : Inv env w.core) (hidle : w.core.Idle i) :
    SafeFrom env i (fun _ v => v.Idle i) (Sup.switchForSite env i cls site) w := by
  rw [Sup.switchForSite]
  split
  · exact safe_pure fun _ hst => hst.idle hidle
  · split
    · exact safe_pure fun _ hst => hst.idle hidle
    · rename_i hcls
      have hcls := not_not.mp hcls
      have hbefore : SafeFrom env i (fun _ v => v.Idle i)
          (Sup.withWrite i (.cls cls) (Sup.activeName cls)) w := by
        refine safe_inClass hcls hidle fun u _ _ hidle hclass _ => ?_
        exact safe_activeName (k := pure) hclass
          (safe_pure fun _ hst => ⟨hclass.sees hst, hst.idle hidle⟩)
      refine hbefore.bind hw fun nodeBefore u hu hidle => ?_
      cases nodeBefore with
      | none => exact safe_searchForSite hcls hidle
      | some current =>
          refine (safe_incumbentVerdict hidle).bind hu fun verdict v _ hidle => ?_
          split
          · exact safe_pure fun _ hst => hst.idle hidle
          · exact safe_searchForSite hcls hidle

end

end Causeway

import Causeway.Order.Comparator
import Causeway.Order.Distinct
import Causeway.Proof.Lanes
import Mathlib.Data.String.Basic

/-!
# Probe rounds on display

A reply makes a round if it covers the pool it was asked for, result by result. Whatever arrives and whatever is pressed, the round that the dashboard keeps is one of the pool on display, and the order and the recommendation come from it.
-/

namespace Causeway

namespace Dashboard

variable {turn : Turn} {app : App} {nodes pool : List String} {results : List ProbeResult} {tag : ProbeRoundTag}
  {snapshot : StatusSnapshot}

/-! ### Tags -/

theorem sortedLE_sortBy : (sortBy compare nodes).Pairwise (· ≤ ·) := by
  have hsorted := @Comparator.WeakOn.insertionSort_pairwise String compare Set.univ nodes .of_transCmp fun _ _ => Set.mem_univ _
  exact hsorted.imp fun h => not_lt.mp fun hlt => h (compare_gt_iff_gt.mpr hlt)

theorem sortedLT_sortedPool : (sortedPool nodes).SortedLT := by
  apply List.IsChain.sortedLT
  apply Distinct.isChain_lt
  · exact (sortedLE_sortBy.sublist (List.destutter_sublist _ _)).isChain
  · exact List.isChain_destutter _ _

theorem mem_sortedPool {node : String} : node ∈ sortedPool nodes ↔ node ∈ nodes := by
  rw [sortedPool, Distinct.mem_destutter_ne, mem_sortBy]

/-- The snapshot shows the profile, its generation and the pool that the tag names. -/
structure Tags (snapshot : StatusSnapshot) (tag : ProbeRoundTag) : Prop where
  taken : probeRoundTag snapshot = some tag
  profile : snapshot.activeSubscription = some tag.activeSubscription
  generation : snapshot.subscriptionGeneration = some tag.subscriptionGeneration
  pool : ∀ node, node ∈ tag.pool ↔ node ∈ snapshot.availableNodes
  sorted : tag.pool.SortedLT

theorem tags_of_probeRoundTag (h : probeRoundTag snapshot = some tag) : Tags snapshot tag := by
  have htaken := h
  unfold probeRoundTag at h
  obtain ⟨profile, hprofile, h⟩ := Option.bind_eq_some_iff.mp h
  obtain ⟨generation, hgeneration, h⟩ := Option.bind_eq_some_iff.mp h
  split at h
  · cases h
  · dsimp only at h
    split at h
    · cases h
    · cases h
      exact ⟨htaken, hprofile, hgeneration, fun node => mem_sortedPool, sortedLT_sortedPool⟩

/-! ### Replies -/

/-- The results name every node of the pool once and no other, and a latency belongs to each success and to nothing else. -/
structure Covers (results : List ProbeResult) (pool : List String) : Prop where
  named : (results.map (·.node)).Perm pool
  succeeded : ∀ result ∈ results, result.ok = true → ∃ rtt, result.rttMs = some rtt ∧ 0 ≤ rtt
  failed : ∀ result ∈ results, result.ok = false → result.rttMs = none

theorem validRtt_iff {result : ProbeResult} : validRtt result = true ↔
    (result.ok = true → ∃ rtt, result.rttMs = some rtt ∧ 0 ≤ rtt) ∧ (result.ok = false → result.rttMs = none) := by
  unfold validRtt
  cases result.ok <;> cases result.rttMs <;> simp

theorem collectResult_eq_some {byNode all : BTreeMap ProbeRoundResult} {result : ProbeResult} :
    collectResult byNode result = some all ↔
      validRtt result = true ∧ result.node ∉ byNode ∧ all = byNode.insert result.node ⟨result.ok, result.rttMs⟩ := by
  unfold collectResult
  by_cases hvalid : validRtt result = true
  · by_cases hmem : result.node ∈ byNode
    · simp [hmem]
    · rw [if_neg (by simp [hvalid, hmem]), Option.some.injEq]
      constructor
      · intro h
        exact ⟨hvalid, hmem, h.symm⟩
      · intro h
        exact h.2.2.symm
  · simp [hvalid]

theorem foldlM_collectResult {byNode : BTreeMap ProbeRoundResult} :
    (∃ all, results.foldlM collectResult byNode = some all) ↔
      (∀ result ∈ results, validRtt result = true) ∧ (results.map (·.node)).Nodup ∧ ∀ result ∈ results, result.node ∉ byNode := by
  induction results generalizing byNode with
  | nil => simp
  | cons result results ih =>
      simp only [List.foldlM_cons, Option.bind_eq_bind, Option.bind_eq_some_iff, collectResult_eq_some, List.map_cons,
        List.nodup_cons, List.mem_cons, forall_eq_or_imp]
      constructor
      · rintro ⟨all, _, ⟨hvalid, hfresh, rfl⟩, hrest⟩
        obtain ⟨hvalids, hnodup, hfreshs⟩ := ih.mp ⟨all, hrest⟩
        simp only [Std.ExtTreeMap.mem_insert, not_or] at hfreshs
        refine ⟨⟨hvalid, hvalids⟩, ⟨?_, hnodup⟩, hfresh, fun other hother => (hfreshs other hother).2⟩
        intro hmem
        obtain ⟨other, hother, heq⟩ := List.mem_map.mp hmem
        exact (hfreshs other hother).1 (by simp [heq])
      · rintro ⟨⟨hvalid, hvalids⟩, ⟨hnot, hnodup⟩, hfresh, hfreshs⟩
        obtain ⟨all, hall⟩ := (@ih (byNode.insert result.node ⟨result.ok, result.rttMs⟩)).mpr ⟨hvalids, hnodup, by
          intro other hother
          rw [Std.ExtTreeMap.mem_insert, not_or]
          refine ⟨fun heq => hnot ?_, hfreshs other hother⟩
          rw [Std.LawfulEqCmp.eq_of_compare heq]
          exact List.mem_map_of_mem hother⟩
        exact ⟨all, _, ⟨hvalid, hfresh, rfl⟩, hall⟩

theorem mem_of_foldlM_collectResult {byNode all : BTreeMap ProbeRoundResult} (h : results.foldlM collectResult byNode = some all)
    {node : String} : node ∈ all ↔ node ∈ byNode ∨ node ∈ results.map (·.node) := by
  induction results generalizing byNode with
  | nil =>
      cases h
      simp
  | cons result results ih =>
      rw [List.foldlM_cons] at h
      obtain ⟨next, hnext, hrest⟩ := Option.bind_eq_some_iff.mp h
      obtain ⟨-, -, rfl⟩ := collectResult_eq_some.mp hnext
      rw [ih hrest, Std.ExtTreeMap.mem_insert, Std.LawfulEqCmp.compare_eq_iff_eq, List.map_cons, List.mem_cons]
      tauto

theorem sortedLT_keys {results : BTreeMap ProbeRoundResult} : results.keys.SortedLT :=
  (Std.ExtTreeMap.ordered_keys.imp fun h => compare_lt_iff_lt.mp h).sortedLT

/-- The round of a reply, for a pool in order. -/
theorem probeRound_isSome (hsorted : tag.pool.SortedLT) : (probeRound results tag).isSome ↔ Covers results tag.pool := by
  have hcollected : (∃ all, results.foldlM collectResult ∅ = some all) ↔
      (∀ result ∈ results, validRtt result = true) ∧ (results.map (·.node)).Nodup := by
    rw [foldlM_collectResult]
    simp
  constructor
  · intro h
    obtain ⟨round, hround⟩ := Option.isSome_iff_exists.mp h
    obtain ⟨all, hall, hround⟩ := Option.bind_eq_some_iff.mp hround
    obtain ⟨hvalid, hnodup⟩ := hcollected.mp ⟨all, hall⟩
    split at hround
    · rename_i hkeys
      refine ⟨?_, fun result hresult => (validRtt_iff.mp (hvalid result hresult)).1,
        fun result hresult => (validRtt_iff.mp (hvalid result hresult)).2⟩
      rw [List.perm_ext_iff_of_nodup hnodup hsorted.nodup]
      intro node
      rw [← hkeys, Std.ExtTreeMap.mem_keys, mem_of_foldlM_collectResult hall]
      simp
    · cases hround
  · intro h
    obtain ⟨all, hall⟩ := hcollected.mpr ⟨fun result hresult => validRtt_iff.mpr ⟨h.succeeded result hresult,
      h.failed result hresult⟩, h.named.nodup_iff.mpr hsorted.nodup⟩
    have hkeys : all.keys = tag.pool := by
      apply sortedLT_keys.eq_of_mem_iff hsorted
      intro node
      rw [Std.ExtTreeMap.mem_keys, mem_of_foldlM_collectResult hall, h.named.mem_iff]
      simp
    unfold probeRound
    rw [hall, Option.bind_eq_bind, Option.bind_some, if_pos hkeys]
    rfl

theorem round_classifyProbeReply {requestedTag : Option ProbeRoundTag} {reply : Reply} (hok : reply.ok = true)
    (hprobe : reply.probe = some results) :
    (classifyProbeReply requestedTag (.ok reply)).round = requestedTag.bind (probeRound results) := by
  unfold classifyProbeReply
  simp only [hok, hprobe, if_true]
  cases hround : requestedTag.bind (probeRound results) with
  | none => rfl
  | some round => rfl

/-- The reply that a round is made of. -/
theorem round_eq_some {requestedTag : Option ProbeRoundTag} {result : ReplyResult} {round : ProbeRound} :
    (classifyProbeReply requestedTag result).round = some round ↔ ∃ reply results tag, result = .ok reply ∧ reply.ok = true ∧
      reply.probe = some results ∧ requestedTag = some tag ∧ probeRound results tag = some round := by
  constructor
  · intro h
    cases result with
    | error error => cases h
    | ok reply =>
        by_cases hok : reply.ok = true
        · cases hprobe : reply.probe with
          | none =>
              simp [classifyProbeReply, hok, hprobe] at h
          | some results =>
              rw [round_classifyProbeReply hok hprobe] at h
              obtain ⟨tag, htag, hround⟩ := Option.bind_eq_some_iff.mp h
              exact ⟨reply, results, tag, rfl, hok, hprobe, htag, hround⟩
        · simp [classifyProbeReply, hok] at h
  · rintro ⟨reply, results, tag, rfl, hok, hprobe, rfl, hround⟩
    rw [round_classifyProbeReply hok hprobe, Option.bind_some, hround]

theorem probeRound_eq_some {round : ProbeRound} (h : probeRound results tag = some round) :
    round.tag = tag ∧ round.results.keys = tag.pool := by
  obtain ⟨all, -, h⟩ := Option.bind_eq_some_iff.mp h
  split at h
  · cases h
    exact ⟨rfl, ‹_›⟩
  · cases h

theorem sortedLT_tag {round : ProbeRound} (h : probeRound results tag = some round) : tag.pool.SortedLT := by
  rw [← (probeRound_eq_some h).2]
  exact sortedLT_keys

/-! ### The ranking on display -/

/-- What the order and the recommendation come from, and the order itself. -/
structure Ranking where
  snapshot : Option StatusSnapshot
  subs : List String
  round : Option ProbeRound
  orderFull : List String
  order : List String

def App.ranking (app : App) : Ranking := ⟨app.snapshot, app.subs, app.lastProbeRound, app.orderFull, app.order⟩

/-- The round has a result for each node of its pool. -/
def ProbeRound.Complete (round : ProbeRound) : Prop := round.results.keys = round.tag.pool

/-- The round is of the snapshot on display, and there is no other behind the order. -/
structure Ranking.Current (ranking : Ranking) : Prop where
  round : ∀ round, ranking.round = some round → ∃ snapshot, ranking.snapshot = some snapshot ∧ Tags snapshot round.tag
  complete : ∀ round, ranking.round = some round → round.Complete
  orderFull : ranking.round = none ∧ ranking.orderFull = [] ∨
    ranking.orderFull = orderedNames ranking.snapshot ranking.subs ranking.round
  order : ∃ turn filter, ranking.order = filtered turn filter ranking.orderFull

theorem current_rebuildOrder (hcomplete : ∀ round, app.lastProbeRound = some round → round.Complete) :
    (rebuildOrder turn app).ranking.Current where
  round := by
    intro round hround
    obtain ⟨-, htag⟩ := Option.filter_eq_some_iff.mp hround
    obtain ⟨snapshot, hsnapshot, htaken⟩ := Option.bind_eq_some_iff.mp (of_decide_eq_true htag).symm
    exact ⟨snapshot, hsnapshot, tags_of_probeRoundTag htaken⟩
  complete := fun round hround => hcomplete round (Option.filter_eq_some_iff.mp hround).1
  orderFull := .inr rfl
  order := ⟨turn, app.filter, rfl⟩

/-! ### One turn -/

section

variable {app' : App} {flight : InFlight} {result : ReplyResult} {kind : MutationKind}

theorem App.Restyled.ranking (h : app.Restyled app') : app'.ranking = app.ranking := by
  obtain ⟨_, _, _, _, rfl⟩ := h
  rfl

theorem ranking_reconcile : (reconcileSubscriptionOutcome snapshot app).ranking = app.ranking := by
  unfold reconcileSubscriptionOutcome
  split <;> rfl

theorem round_applyLiveSnapshot : (applyLiveSnapshot snapshot app).lastProbeRound = app.lastProbeRound := by
  unfold applyLiveSnapshot
  generalize hsubs : (if snapshot.availableNodes.isEmpty then app else { app with subs := snapshot.availableNodes }) = shown
  have hround : shown.lastProbeRound = app.lastProbeRound := by
    rw [← hsubs]
    split <;> rfl
  rw [← hround]
  exact congrArg Ranking.round (@ranking_reconcile shown _)

theorem round_refreshFromFile : (refreshFromFile turn app).lastProbeRound = none ∨
    (refreshFromFile turn app).lastProbeRound = app.lastProbeRound := by
  unfold refreshFromFile
  split
  · exact .inr rfl
  · exact .inl rfl

theorem current_completeStatusReply (h : app.ranking.Current) : (completeStatusReply turn flight result app).ranking.Current := by
  unfold completeStatusReply
  split
  · exact h
  · split
    · split
      · apply current_rebuildOrder
        intro round hround
        exact h.complete round (round_applyLiveSnapshot.symm.trans hround)
      · exact h
    · apply current_rebuildOrder
      intro round hround
      rcases @round_refreshFromFile turn { app with connected := false } with hnone | hsame
      · cases hnone.symm.trans hround
      · exact h.complete round (hsame.symm.trans hround)

theorem current_pollStatus (h : app.ranking.Current) : (pollStatus turn app).ranking.Current := by
  unfold pollStatus
  split
  · exact current_completeStatusReply h
  · exact h

theorem ranking_pollEvents : (pollEvents turn app).ranking = app.ranking := by
  unfold pollEvents completeEventsReply
  split
  · split
    · rfl
    · split <;> rfl
  · rfl

theorem current_applyMutationReply {rx : Nat} (h : app.ranking.Current) :
    (applyMutationReply turn rx result app kind).ranking.Current := by
  cases kind with
  | nodeSwitch node => exact h
  | probeAll requestedTag =>
      have hcurrent : (rebuildOrder turn ({ app with lastProbeRound := (classifyProbeReply requestedTag result).round }.setMessage
          (classifyProbeReply requestedTag result).level (classifyProbeReply requestedTag result).message)).ranking.Current := by
        apply current_rebuildOrder
        intro round hround
        obtain ⟨reply, results, tag, -, -, -, -, hprobed⟩ := round_eq_some.mp hround
        obtain ⟨rfl, hkeys⟩ := probeRound_eq_some hprobed
        exact hkeys
      unfold applyMutationReply
      dsimp only
      split
      · exact hcurrent
      · exact hcurrent
  | subscriptionSwitch previous requested generationBefore =>
      unfold applyMutationReply applySubscriptionReplyResult
      cases classifySubscriptionReply result with
      | success outcome => exact h
      | failed message => exact h
      | unknown message => exact h

theorem current_pollMutation (h : app.ranking.Current) : (pollMutation turn app).ranking.Current := by
  unfold pollMutation completeMutation
  split
  · split
    · exact h
    · split
      · exact h
      · exact @current_applyMutationReply turn (({ app with mutationFlight := none } : App).note (.answered _)) _ _ _ h
  · exact h

theorem current_pollFlights (h : app.ranking.Current) : (pollFlights turn app).ranking.Current := by
  unfold pollFlights
  apply current_pollMutation
  rw [ranking_pollEvents]
  exact current_pollStatus h

theorem ranking_maybeSpawnRefresh : (maybeSpawnRefresh turn app).ranking = app.ranking := by
  unfold maybeSpawnRefresh
  dsimp only
  split <;> split <;> rfl

theorem ranking_submitMutation : (submitMutation kind app).ranking = app.ranking := by
  unfold submitMutation
  split <;> rfl

theorem ranking_submitSubscription {name : String} : (submitSubscription name app).ranking = app.ranking := by
  unfold submitSubscription
  split
  · rfl
  · dsimp only
    split
    · exact ranking_submitMutation
    · rfl

theorem current_filterEditKey {key : KeyCode} (h : app.ranking.Current) : (filterEditKey turn key app).ranking.Current := by
  have hrebuilt : ∀ filter filterEdit, (rebuildOrder turn { app with filter := filter, filterEdit := filterEdit }).ranking.Current :=
    fun filter filterEdit => current_rebuildOrder h.complete
  unfold filterEditKey
  split
  · exact hrebuilt _ _
  · exact hrebuilt _ _
  · exact hrebuilt _ app.filterEdit
  · split
    · exact h
    · exact hrebuilt _ app.filterEdit
  · exact h

/-- Another class: nothing is on display until it has been asked for. -/
theorem current_changeClass {forward : Bool} : (changeClass turn forward app).ranking.Current where
  round := nofun
  complete := nofun
  orderFull := .inl ⟨rfl, rfl⟩
  order := ⟨turn, none, rfl⟩

theorem current_unless {busy : Bool} (h : app.ranking.Current) (h' : busy = false → app'.ranking.Current) :
    (if busy = true then app else app').ranking.Current := by
  split
  · exact h
  · exact h' (by simp_all)

theorem current_submitMutation (h : app.ranking.Current) : (submitMutation kind app).ranking.Current := by
  rw [ranking_submitMutation]
  exact h

theorem current_switchSelected (h : app.ranking.Current) :
    (match app.order[app.selected]? with
      | some node => submitMutation (.nodeSwitch node) app
      | none => app).ranking.Current := by
  split
  · exact current_submitMutation h
  · exact h

theorem current_dashboardKey {key : KeyCode} (h : app.ranking.Current) : (dashboardKey turn key app).2.ranking.Current := by
  have hquit : (quitKey app).2.ranking = app.ranking := by
    unfold quitKey
    split <;> rfl
  have hopen : (openSubscriptionPicker app).ranking.Current := by
    rw [restyled_openSubscriptionPicker.ranking]
    exact h
  unfold dashboardKey
  split
  all_goals first
    | exact h
    | exact hquit ▸ h
    | exact restyled_selectUp.ranking ▸ h
    | exact restyled_selectDown.ranking ▸ h
    | exact current_unless h fun _ => h
    | exact current_unless h fun _ => hopen
    | exact current_unless h fun _ => current_changeClass
    | exact current_unless h fun _ => current_submitMutation h
    | exact current_unless h fun _ => current_switchSelected h

theorem current_pressKey {key : KeyEvent} (h : app.ranking.Current) : (pressKey turn key app).2.ranking.Current := by
  unfold pressKey
  split
  · exact h
  · split
    · exact h
    · split
      · exact current_filterEditKey h
      · split
        · rename_i picker _
          have hkey := (@restyled_pickerKey turn app key.code picker).ranking
          split
          · rename_i heq
            rw [heq] at hkey
            rw [ranking_submitSubscription, hkey]
            exact h
          · rename_i heq
            rw [heq] at hkey
            exact hkey ▸ h
        · have hkey := @current_dashboardKey turn _ key.code h
          split
          · rename_i heq
            rw [heq] at hkey
            exact hkey
          · rename_i heq
            rw [heq] at hkey
            exact hkey

theorem current_tuiTurn {last : App} (h : app.ranking.Current) (hturn : tuiTurn turn app = some last) : last.ranking.Current := by
  have hpolled := @current_pollFlights turn _ h
  unfold tuiTurn at hturn
  dsimp only at hturn
  split at hturn
  · rw [← Option.some.inj hturn, ranking_maybeSpawnRefresh]
    exact hpolled
  · rename_i key _
    have hkey := @current_pressKey turn _ key hpolled
    split at hturn
    · cases hturn
    · rename_i heq
      rw [heq] at hkey
      rw [← Option.some.inj hturn]
      exact hkey
    · rename_i heq
      rw [heq] at hkey
      rw [← Option.some.inj hturn, ranking_maybeSpawnRefresh]
      exact hkey

theorem current_tuiLoop {turns : List Turn} {last : App} (h : app.ranking.Current) (hrun : tuiLoop turns app = some last) :
    last.ranking.Current := by
  induction turns generalizing app with
  | nil => exact Option.some.inj hrun ▸ h
  | cons turn turns ih =>
      rw [tuiLoop, List.foldlM_cons] at hrun
      obtain ⟨next, hturn, hrest⟩ := Option.bind_eq_some_iff.mp hrun
      exact ih (current_tuiTurn h hturn) hrest

theorem Opened.current {cfg : Config} (h : Opened cfg app) : app.ranking.Current := by
  obtain ⟨turn, cls, hclasses, status, events⟩ := h
  have hrebuilt : (rebuildOrder turn (refreshStatus turn status (App.new turn cfg cls hclasses))).ranking.Current := by
    apply current_rebuildOrder
    intro round hround
    unfold refreshStatus at hround
    dsimp only at hround
    split at hround
    · cases round_applyLiveSnapshot.symm.trans hround
    · rcases round_refreshFromFile.imp (fun h => h.symm.trans hround) fun h => h.symm.trans hround with h | h <;> cases h
  unfold refresh refreshEvents
  dsimp only
  split
  · exact hrebuilt
  · exact hrebuilt

end

/-! ### Whole runs -/

theorem recommended_of_current (h : app.ranking.Current) {node : String} (hnode : recommendedNode app = some node) :
    ∃ snapshot round result, app.snapshot = some snapshot ∧ app.lastProbeRound = some round ∧ Tags snapshot round.tag ∧
      (orderedNames (some snapshot) app.subs (some round)).head? = some node ∧
      round.results[node]? = some result ∧ result.ok = true := by
  obtain ⟨head, hhead, hnode⟩ := Option.bind_eq_some_iff.mp hnode
  obtain ⟨round, hround, hnode⟩ := Option.bind_eq_some_iff.mp hnode
  obtain ⟨snapshot, hsnapshot, htags⟩ := h.round round hround
  split at hnode
  · rename_i hok
    obtain rfl := Option.some.inj hnode
    obtain ⟨result, hresult, hok⟩ := (Option.any_eq_true _ _).mp hok
    refine ⟨snapshot, round, result, hsnapshot, hround, htags, ?_, hresult, hok⟩
    rcases h.orderFull with ⟨hnone, -⟩ | horder
    · cases hround.symm.trans hnone
    · have horder : app.orderFull = orderedNames (some snapshot) app.subs (some round) := by
        rw [← hsnapshot, ← hround]
        exact horder
      rw [← horder]
      exact hhead
  · cases hnode

/-- A reply makes a round exactly when it covers the pool that was asked for, each rebuild keeps no round but the one of the snapshot on display, and at the end of every turn the order and the recommendation come from that one. -/
theorem probe_rounds_current {cfg : Config} {first last : App} {turns : List Turn} (hopened : Opened cfg first)
    (hrun : tuiLoop turns first = some last) :
    (∀ requestedTag result, (classifyProbeReply requestedTag result).round.isSome ↔
      ∃ reply results tag, result = .ok reply ∧ reply.ok = true ∧ reply.probe = some results ∧ requestedTag = some tag ∧
        tag.pool.SortedLT ∧ Covers results tag.pool) ∧
      (∀ snapshot tag, probeRoundTag snapshot = some tag → Tags snapshot tag) ∧
      (∀ turn app round, (rebuildOrder turn app).lastProbeRound = some round →
        ∃ snapshot, app.snapshot = some snapshot ∧ probeRoundTag snapshot = some round.tag) ∧
      (∀ turn app, (rebuildOrder turn app).orderFull =
        orderedNames app.snapshot app.subs (rebuildOrder turn app).lastProbeRound) ∧
      last.ranking.Current ∧
      ∀ node, recommendedNode last = some node → ∃ snapshot round result, last.snapshot = some snapshot ∧
        last.lastProbeRound = some round ∧ Tags snapshot round.tag ∧
        (orderedNames (some snapshot) last.subs (some round)).head? = some node ∧
        round.results[node]? = some result ∧ result.ok = true := by
  have hcurrent := current_tuiLoop hopened.current hrun
  refine ⟨fun requestedTag result => ?_, fun _ _ => tags_of_probeRoundTag, fun turn app round hround => ?_,
    fun _ _ => rfl, hcurrent, fun _ => recommended_of_current hcurrent⟩
  · constructor
    · intro h
      obtain ⟨round, hround⟩ := Option.isSome_iff_exists.mp h
      obtain ⟨reply, results, tag, hresult, hok, hprobe, htag, hprobed⟩ := round_eq_some.mp hround
      have hsorted := sortedLT_tag hprobed
      exact ⟨reply, results, tag, hresult, hok, hprobe, htag, hsorted,
        (probeRound_isSome hsorted).mp (Option.isSome_iff_exists.mpr ⟨round, hprobed⟩)⟩
    · rintro ⟨reply, results, tag, rfl, hok, hprobe, rfl, hsorted, hcovers⟩
      rw [round_classifyProbeReply hok hprobe]
      exact (probeRound_isSome hsorted).mpr hcovers
  · obtain ⟨-, htag⟩ := Option.filter_eq_some_iff.mp hround
    exact Option.bind_eq_some_iff.mp (of_decide_eq_true htag).symm

namespace Sample

/-- The pool is asked for, and its one node answers. -/
def probeTurns : List Turn :=
  [press (.char 't'),
    Sample.turn [(2, .ok { ok := true, probe := some [⟨"A", true, some 20, some 204, none⟩] })]]

end Sample

theorem probe_round_current : ∃ last, tuiLoop Sample.probeTurns Sample.opened = some last ∧
    recommendedNode last = some "A" ∧ last.ranking.Current := by
  have hends : (tuiLoop Sample.probeTurns Sample.opened).any
      (fun last => decide (recommendedNode last = some "A")) = true := by
    decide +kernel
  obtain ⟨last, hrun, hlast⟩ := (Option.any_eq_true _ _).mp hends
  obtain ⟨-, -, -, -, hcurrent, -⟩ := probe_rounds_current Sample.opens hrun
  exact ⟨last, hrun, of_decide_eq_true hlast, hcurrent⟩

end Dashboard

end Causeway

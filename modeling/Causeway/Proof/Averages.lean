import Causeway.Model.Score
import Causeway.Order.Rolling

/-!
# Rolling statistics

What a sequence of probes leaves in the default statistics: two moving averages and the end of a history. One average is of every outcome and knows its first sample by the count of probes, the other is of the latencies and knows it by having none yet; both are the moving average of what they were given.
-/

namespace Causeway

open Rolling

/-- `record_probe` for each probe of a sequence, with its latency if it succeeded and its time. -/
def NodeStats.recordAll (alpha : ℚ) (calls : List (Option ℚ × Int)) : NodeStats :=
  calls.foldl (fun stats call => stats.recordProbe call.1 alpha call.2) default

/-- The sample that a probe is for the success average. -/
def outcome (rtt : Option ℚ) : ℚ := if rtt.isSome then 1 else 0

def outcomes (calls : List (Option ℚ × Int)) : List ℚ := calls.map fun call => outcome call.1

/-- The latencies of the probes that succeeded, in order. -/
def latencies (calls : List (Option ℚ × Int)) : List ℚ := calls.filterMap (·.1)

section

variable {alpha : ℚ} {calls : List (Option ℚ × Int)} {stats : NodeStats} {rtt : Option ℚ} {now : Int}

@[simp] theorem outcome_none : outcome none = 0 := rfl

@[simp] theorem outcome_some (ms : ℚ) : outcome (some ms) = 1 := rfl

theorem outcome_nonneg (rtt : Option ℚ) : 0 ≤ outcome rtt := by
  cases rtt <;> simp

theorem outcome_le_one (rtt : Option ℚ) : outcome rtt ≤ 1 := by
  cases rtt <;> simp

theorem outcome_eq_one_iff : outcome rtt = 1 ↔ rtt.isSome = true := by
  cases rtt <;> simp

theorem outcome_eq_zero_iff : outcome rtt = 0 ↔ rtt = none := by
  cases rtt <;> simp

@[simp] theorem outcomes_concat : outcomes (calls ++ [(rtt, now)]) = outcomes calls ++ [outcome rtt] := by
  simp [outcomes]

@[simp] theorem latencies_concat : latencies (calls ++ [(rtt, now)]) = latencies calls ++ rtt.toList := by
  cases rtt <;> simp [latencies]

theorem outcomes_eq_nil_iff : outcomes calls = [] ↔ calls = [] := List.map_eq_nil_iff

theorem latencies_eq_nil_iff : latencies calls = [] ↔ ∀ call ∈ calls, call.1 = none := List.filterMap_eq_nil_iff

/-! ### One probe -/

theorem recordProbe_successEma : (stats.recordProbe rtt alpha now).successEma =
    if stats.probeCount = 0 then outcome rtt else blend alpha (outcome rtt) stats.successEma := by
  cases rtt <;> rfl

theorem recordProbe_rttEmaMs :
    (stats.recordProbe rtt alpha now).rttEmaMs = rtt.elim stats.rttEmaMs (absorb alpha stats.rttEmaMs) := by
  cases rtt with
  | none => rfl
  | some ms =>
      obtain ⟨_, average, _, _, _, _⟩ := stats
      cases average <;> rfl

theorem recordProbe_recentRttsMs : (stats.recordProbe rtt alpha now).recentRttsMs =
    rtt.elim stats.recentRttsMs (push rttHistory stats.recentRttsMs) := by
  cases rtt <;> rfl

/-! ### A sequence of probes -/

/-- The statistics are those of the probes so far. -/
structure NodeStats.Records (alpha : ℚ) (calls : List (Option ℚ × Int)) (stats : NodeStats) : Prop where
  probeCount : stats.probeCount = calls.length
  successEma : stats.successEma = (ema alpha (outcomes calls)).getD 0
  rttEmaMs : stats.rttEmaMs = ema alpha (latencies calls)
  recentRttsMs : stats.recentRttsMs = (latencies calls).rtake rttHistory

theorem NodeStats.Records.recordProbe (h : stats.Records alpha calls) (rtt : Option ℚ) (now : Int) :
    (stats.recordProbe rtt alpha now).Records alpha (calls ++ [(rtt, now)]) where
  probeCount := by
    rw [recordProbe_probeCount, h.probeCount, List.length_append, List.length_singleton]
  successEma := by
    rw [recordProbe_successEma, h.probeCount, h.successEma, outcomes_concat, ema_concat]
    cases haverage : ema alpha (outcomes calls) with
    | none =>
        -- The first probe is the one that finds no average yet.
        obtain rfl := outcomes_eq_nil_iff.mp (ema_eq_none_iff.mp haverage)
        rfl
    | some average =>
        have hcalls : calls.length ≠ 0 := by
          rw [ne_eq, List.length_eq_zero_iff, ← outcomes_eq_nil_iff, ← @ema_eq_none_iff _ _ alpha, haverage]
          exact Option.some_ne_none average
        rw [if_neg hcalls]
        rfl
  rttEmaMs := by
    rw [recordProbe_rttEmaMs, h.rttEmaMs, latencies_concat]
    cases rtt with
    | none => simp
    | some ms => simp
  recentRttsMs := by
    rw [recordProbe_recentRttsMs, h.recentRttsMs, latencies_concat]
    cases rtt with
    | none => simp
    | some ms => exact push_rtake _ _ _

theorem records_recordAll (alpha : ℚ) (calls : List (Option ℚ × Int)) :
    (NodeStats.recordAll alpha calls).Records alpha calls := by
  induction calls using List.reverseRecOn with
  | nil => exact ⟨rfl, rfl, rfl, rfl⟩
  | append_singleton calls call ih =>
      rw [NodeStats.recordAll, List.foldl_append]
      exact ih.recordProbe call.1 call.2

/-! ### What the averages say -/

theorem successEma_nonneg (h0 : 0 < alpha) (h1 : alpha ≤ 1) : 0 ≤ (NodeStats.recordAll alpha calls).successEma := by
  rw [(records_recordAll alpha calls).successEma]
  cases haverage : ema alpha (outcomes calls) with
  | none => exact le_rfl
  | some average =>
      exact le_ema h0.le h1 haverage (List.forall_mem_map.mpr fun call _ => outcome_nonneg call.1)

theorem successEma_le_one (h0 : 0 < alpha) (h1 : alpha ≤ 1) : (NodeStats.recordAll alpha calls).successEma ≤ 1 := by
  rw [(records_recordAll alpha calls).successEma]
  cases haverage : ema alpha (outcomes calls) with
  | none => exact zero_le_one
  | some average =>
      exact ema_le h0.le h1 haverage (List.forall_mem_map.mpr fun call _ => outcome_le_one call.1)

/-- After a probe there is an average. -/
theorem ema_successEma (hcalls : calls ≠ []) :
    ema alpha (outcomes calls) = some (NodeStats.recordAll alpha calls).successEma := by
  obtain ⟨average, haverage⟩ : ∃ average, ema alpha (outcomes calls) = some average :=
    Option.ne_none_iff_exists'.mp (mt ema_eq_none_iff.mp (mt outcomes_eq_nil_iff.mp hcalls))
  rw [(records_recordAll alpha calls).successEma, haverage]
  rfl

theorem successEma_eq_one_iff (h0 : 0 < alpha) (h1 : alpha < 1) (hcalls : calls ≠ []) :
    (NodeStats.recordAll alpha calls).successEma = 1 ↔ ∀ call ∈ calls, call.1.isSome = true := by
  have hbound : ∀ value ∈ outcomes calls, value ≤ 1 := List.forall_mem_map.mpr fun call _ => outcome_le_one call.1
  rw [ema_eq_iff_of_le h0 h1 (ema_successEma hcalls) hbound, outcomes, List.forall_mem_map]
  simp only [outcome_eq_one_iff]

theorem successEma_eq_zero_iff (h0 : 0 < alpha) (h1 : alpha < 1) (hcalls : calls ≠ []) :
    (NodeStats.recordAll alpha calls).successEma = 0 ↔ ∀ call ∈ calls, call.1 = none := by
  have hbound : ∀ value ∈ outcomes calls, 0 ≤ value := List.forall_mem_map.mpr fun call _ => outcome_nonneg call.1
  rw [ema_eq_iff_of_ge h0 h1 (ema_successEma hcalls) hbound, outcomes, List.forall_mem_map]
  simp only [outcome_eq_zero_iff]

/-- The latency average lies between the smallest and the largest latency. -/
theorem rttEmaMs_between (h0 : 0 < alpha) (h1 : alpha ≤ 1) {average : ℚ}
    (h : (NodeStats.recordAll alpha calls).rttEmaMs = some average) :
    ∃ lo hi, (latencies calls).min? = some lo ∧ (latencies calls).max? = some hi ∧ lo ≤ average ∧ average ≤ hi := by
  rw [(records_recordAll alpha calls).rttEmaMs] at h
  have hsome : latencies calls ≠ [] := by
    intro hnil
    rw [ema_eq_none_iff.mpr hnil] at h
    cases h
  obtain ⟨lo, hlo⟩ := Option.ne_none_iff_exists'.mp (mt List.min?_eq_none_iff.mp hsome)
  obtain ⟨hi, hhi⟩ := Option.ne_none_iff_exists'.mp (mt List.max?_eq_none_iff.mp hsome)
  refine ⟨lo, hi, hlo, hhi, ?_, ?_⟩
  · exact le_ema h0.le h1 h (List.min?_eq_some_iff.mp hlo).2
  · exact ema_le h0.le h1 h (List.max?_eq_some_iff.mp hhi).2

/-- Samples that are no worse have no lower average. -/
theorem successEma_mono (h0 : 0 < alpha) (h1 : alpha ≤ 1) {others : List (Option ℚ × Int)}
    (h : List.Forall₂ (· ≤ ·) (outcomes calls) (outcomes others)) :
    (NodeStats.recordAll alpha calls).successEma ≤ (NodeStats.recordAll alpha others).successEma := by
  rw [(records_recordAll alpha calls).successEma, (records_recordAll alpha others).successEma]
  have hrel := ema_mono h0.le h1 h
  generalize ema alpha (outcomes calls) = average at hrel ⊢
  generalize ema alpha (outcomes others) = other at hrel ⊢
  cases hrel with
  | none => exact le_rfl
  | some hle => exact hle

/-- A success in the place of a failure. -/
theorem successEma_le_replace (h0 : 0 < alpha) (h1 : alpha ≤ 1) (before after : List (Option ℚ × Int))
    (failed succeeded : Int) (ms : ℚ) :
    (NodeStats.recordAll alpha (before ++ (none, failed) :: after)).successEma ≤
      (NodeStats.recordAll alpha (before ++ (some ms, succeeded) :: after)).successEma := by
  refine successEma_mono h0 h1 ?_
  rw [outcomes, outcomes, List.map_append, List.map_append, List.map_cons, List.map_cons]
  have hsame : ∀ values : List ℚ, List.Forall₂ (· ≤ ·) values values := List.forall₂_refl
  exact List.rel_append (hsame _) (.cons zero_le_one (hsame _))

end

/-- From the default statistics, whatever is recorded: the count is that of the probes; the success average stays between 0 and 1 and is at an end, for a weight below 1, exactly if all samples are; the latency average is there exactly if a probe succeeded, and lies between the smallest and the largest latency; the history is the end of the latencies; and a success in the place of a failure never lowers the success average. -/
theorem rolling_statistics {alpha : ℚ} (h0 : 0 < alpha) (h1 : alpha ≤ 1) (calls : List (Option ℚ × Int)) :
    let stats := NodeStats.recordAll alpha calls
    stats.probeCount = calls.length ∧
    (0 ≤ stats.successEma ∧ stats.successEma ≤ 1) ∧
    (alpha < 1 → calls ≠ [] →
      (stats.successEma = 1 ↔ ∀ call ∈ calls, call.1.isSome = true) ∧
      (stats.successEma = 0 ↔ ∀ call ∈ calls, call.1 = none)) ∧
    (stats.rttEmaMs = none ↔ ∀ call ∈ calls, call.1 = none) ∧
    (∀ average, stats.rttEmaMs = some average →
      ∃ lo hi, (latencies calls).min? = some lo ∧ (latencies calls).max? = some hi ∧ lo ≤ average ∧ average ≤ hi) ∧
    stats.recentRttsMs = (latencies calls).rtake (min rttHistory (latencies calls).length) ∧
    ∀ before after failed succeeded ms, calls = before ++ (none, failed) :: after →
      stats.successEma ≤ (NodeStats.recordAll alpha (before ++ (some ms, succeeded) :: after)).successEma := by
  intro stats
  have hrecords := records_recordAll alpha calls
  refine ⟨hrecords.probeCount, ⟨successEma_nonneg h0 h1, successEma_le_one h0 h1⟩, fun hlt hcalls => ?_, ?_,
    fun average => rttEmaMs_between h0 h1, ?_, ?_⟩
  · exact ⟨successEma_eq_one_iff h0 hlt hcalls, successEma_eq_zero_iff h0 hlt hcalls⟩
  · rw [hrecords.rttEmaMs, ema_eq_none_iff, latencies_eq_nil_iff]
  · rw [hrecords.recentRttsMs, List.rtake, List.rtake]
    congr 1
    omega
  · rintro before after failed succeeded ms rfl
    exact successEma_le_replace h0 h1 before after failed succeeded ms

/-- A success, a failure and a success, and the same with the failure replaced. -/
theorem rolling_statistics_blends :
    let stats := NodeStats.recordAll (3 / 10) [(some 100, 1), (none, 2), (some 200, 3)]
    stats.successEma = 79 / 100 ∧ stats.rttEmaMs = some 130 ∧ stats.probeCount = 3 ∧
      stats.successEma ≤ (NodeStats.recordAll (3 / 10) [(some 100, 1), (some 150, 4), (some 200, 3)]).successEma := by
  intro stats
  obtain ⟨hcount, -, -, -, -, -, hreplace⟩ :=
    @rolling_statistics (3 / 10) (by decide +kernel) (by decide +kernel) [(some 100, 1), (none, 2), (some 200, 3)]
  refine ⟨by decide +kernel, by decide +kernel, hcount, ?_⟩
  exact hreplace [(some 100, 1)] [(some 200, 3)] 2 4 150 rfl

end Causeway

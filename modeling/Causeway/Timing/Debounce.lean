import Mathlib.Data.List.Basic
import Mathlib.Tactic.Common

/-!
# Debouncing with a cooldown

What a record of observations says about when a change of the observed value is delivered. A record has its newest observation first. A value is delivered once nothing else has been seen for long enough; for a while after a delivery, whatever is seen is absorbed.
-/

namespace Debounce

/-- A value seen at some time, with what was delivered then. -/
structure Observation (σ : Type) where
  value : σ
  time : Nat
  emitted : Option σ
deriving DecidableEq

structure Delays where
  stableFor : Nat
  cooldown : Nat

variable {σ : Type}

/-- A value has been delivered, and the cooldown is not over. -/
def CoolingDown (delays : Delays) (record : List (Observation σ)) (time : Nat) : Prop :=
  ∃ seen ∈ record, seen.emitted.isSome ∧ time < seen.time + delays.cooldown

/-- Every observation has been of the value since one outside any cooldown. -/
def SeenSince (delays : Delays) (record : List (Observation σ)) (value : σ) (time : Nat) : Prop :=
  ∃ since first earlier, record = since ++ first :: earlier ∧ (∀ seen ∈ since, seen.value = value) ∧
    first.value = value ∧ first.time = time ∧ ¬ CoolingDown delays earlier time

/-- Every observation has been of the value for long enough. -/
def Stable (delays : Delays) (record : List (Observation σ)) (value : σ) (now : Nat) : Prop :=
  ∃ time, SeenSince delays record value time ∧ time + delays.stableFor ≤ now

/-- The observation is the first one, or its value is absorbed or delivered. -/
inductive Settles (delays : Delays) (live : σ → Prop) (earlier : List (Observation σ)) (seen : Observation σ) : Prop where
  | first (h : earlier = [])
  | cooldown (h : CoolingDown delays earlier seen.time)
  | dead (h : Stable delays earlier seen.value seen.time) (hdead : ¬ live seen.value)
  | emitted (h : seen.emitted.isSome)

open Classical in
/-- The value of the last observation that settled one. -/
noncomputable def baseline (delays : Delays) (live : σ → Prop) : List (Observation σ) → Option σ
  | [] => none
  | seen :: earlier => if Settles delays live earlier seen then some seen.value else baseline delays live earlier

/-- The value seen is due for delivery. -/
structure Due (delays : Delays) (live : σ → Prop) (earlier : List (Observation σ)) (seen : Observation σ) : Prop where
  alive : live seen.value
  changed : baseline delays live earlier ≠ some seen.value
  ready : ¬ CoolingDown delays earlier seen.time
  stable : Stable delays earlier seen.value seen.time

/-- Times do not decrease, and a value is delivered when it is due. -/
inductive Faithful (delays : Delays) (live : σ → Prop) : List (Observation σ) → Prop where
  | nil : Faithful delays live []
  | cons {earlier seen} (hearlier : Faithful delays live earlier) (htimes : ∀ past ∈ earlier, past.time ≤ seen.time)
      (hemits : ∀ value, seen.emitted = some value ↔ value = seen.value ∧ Due delays live earlier seen) :
      Faithful delays live (seen :: earlier)

variable {delays : Delays} {live : σ → Prop} {record earlier since later between : List (Observation σ)}
  {seen now : Observation σ} {value : σ} {time : Nat}

/-! ### The baseline -/

theorem baseline_settled (h : Settles delays live earlier seen) :
    baseline delays live (seen :: earlier) = some seen.value := by
  rw [baseline, if_pos h]

theorem baseline_unsettled (h : ¬ Settles delays live earlier seen) :
    baseline delays live (seen :: earlier) = baseline delays live earlier := by
  rw [baseline, if_neg h]

theorem baseline_eq_none : baseline delays live record = none ↔ record = [] := by
  induction record with
  | nil => simp [baseline]
  | cons seen earlier ih =>
      by_cases h : Settles delays live earlier seen
      · simp [baseline_settled h]
      · rw [baseline_unsettled h, ih]
        simp only [reduceCtorEq, iff_false]
        intro hnil
        exact h (.first hnil)

/-- Seeing the baseline again keeps it. -/
theorem baseline_append (h : baseline delays live earlier = some value) (hsince : ∀ seen ∈ since, seen.value = value) :
    baseline delays live (since ++ earlier) = some value := by
  induction since with
  | nil => exact h
  | cons seen since ih =>
      have htail := ih fun past hpast => hsince past (List.mem_cons_of_mem _ hpast)
      by_cases hsettles : Settles delays live (since ++ earlier) seen
      · rw [List.cons_append, baseline_settled hsettles, hsince seen List.mem_cons_self]
      · rw [List.cons_append, baseline_unsettled hsettles, htail]

/-- Only another settled value moves the baseline away. -/
theorem settles_of_baseline_ne (h : baseline delays live earlier = some value)
    (hne : baseline delays live (between ++ earlier) ≠ some value) :
    ∃ since seen past, between = since ++ seen :: past ∧ seen.value ≠ value ∧ Settles delays live (past ++ earlier) seen := by
  induction between with
  | nil => exact absurd h hne
  | cons seen past ih =>
      by_cases htail : baseline delays live (past ++ earlier) = some value
      · by_cases hsettles : Settles delays live (past ++ earlier) seen
        · rw [List.cons_append, baseline_settled hsettles] at hne
          exact ⟨[], seen, past, rfl, fun heq => hne (heq ▸ rfl), hsettles⟩
        · rw [List.cons_append, baseline_unsettled hsettles] at hne
          exact absurd htail hne
      · obtain ⟨since, settled, past', rfl, hne, hsettles⟩ := ih htail
        exact ⟨seen :: since, settled, past', rfl, hne, hsettles⟩

/-! ### What a delivery says of the past -/

theorem not_seenSince_nil : ¬ SeenSince delays [] value time := by
  intro ⟨since, first, earlier, h, _⟩
  simp at h

theorem seenSince_cons : SeenSince delays (seen :: earlier) value time ↔
    seen.value = value ∧ (seen.time = time ∧ ¬ CoolingDown delays earlier time ∨ SeenSince delays earlier value time) := by
  constructor
  · intro ⟨since, first, older, hrecord, hsince, hvalue, htime, hready⟩
    cases since with
    | nil =>
        obtain ⟨rfl, rfl⟩ := List.cons.inj hrecord
        exact ⟨hvalue, .inl ⟨htime, hready⟩⟩
    | cons head since =>
        obtain ⟨rfl, rfl⟩ := List.cons.inj hrecord
        refine ⟨hsince seen (by simp), .inr ⟨since, first, older, rfl, ?_, hvalue, htime, hready⟩⟩
        exact fun past hpast => hsince past (List.mem_cons_of_mem _ hpast)
  · intro ⟨hvalue, h⟩
    rcases h with ⟨htime, hready⟩ | ⟨since, first, older, rfl, hsince, hfirst, htime, hready⟩
    · exact ⟨[], seen, earlier, rfl, by simp, hvalue, htime, hready⟩
    · refine ⟨seen :: since, first, older, rfl, ?_, hfirst, htime, hready⟩
      simp only [List.mem_cons, forall_eq_or_imp]
      exact ⟨hvalue, hsince⟩

theorem SeenSince.mem (h : SeenSince delays record value time) : ∃ seen ∈ record, seen.time = time := by
  obtain ⟨since, first, earlier, rfl, -, -, htime, -⟩ := h
  exact ⟨first, by simp, htime⟩

/-- Where an unbroken stretch begins: in the newer part of a record, or the newer part is all of it and so is what it is appended to. -/
theorem SeenSince.split (h : SeenSince delays (between ++ seen :: earlier) value time) :
    (∃ first ∈ between, first.time = time ∧ first.value = value ∧ ¬ CoolingDown delays (seen :: earlier) time) ∨
      (∀ past ∈ between, past.value = value) ∧ seen.value = value := by
  obtain ⟨since, first, older, hrecord, hsince, hvalue, htime, hready⟩ := h
  rcases List.append_eq_append_iff.mp hrecord with ⟨rest, rfl, hrest⟩ | ⟨rest, rfl, hrest⟩
  · right
    refine ⟨fun past hpast => hsince past (List.mem_append_left _ hpast), ?_⟩
    cases rest with
    | nil =>
        obtain ⟨rfl, rfl⟩ := List.cons.inj hrest
        exact hvalue
    | cons head rest =>
        obtain ⟨rfl, -⟩ := List.cons.inj hrest
        exact hsince seen (by simp)
  · cases rest with
    | nil =>
        obtain ⟨rfl, rfl⟩ := List.cons.inj hrest
        rw [List.append_nil]
        exact .inr ⟨hsince, hvalue⟩
    | cons head rest =>
        obtain ⟨rfl, rfl⟩ := List.cons.inj hrest
        left
        refine ⟨first, by simp, htime, hvalue, fun hcooling => hready ?_⟩
        obtain ⟨past, hpast, hcooling⟩ := hcooling
        exact ⟨past, List.mem_append_right _ hpast, hcooling⟩

theorem Faithful.of_append (h : Faithful delays live (later ++ earlier)) : Faithful delays live earlier := by
  induction later with
  | nil => exact h
  | cons seen later ih =>
      cases h with
      | cons hearlier _ _ => exact ih hearlier

theorem Faithful.times (h : Faithful delays live (now :: earlier)) : ∀ past ∈ earlier, past.time ≤ now.time := by
  cases h with
  | cons _ htimes _ => exact htimes

theorem Faithful.emits (h : Faithful delays live (later ++ now :: earlier)) :
    now.emitted = some value ↔ value = now.value ∧ Due delays live earlier now := by
  cases h.of_append with
  | cons _ _ hemits => exact hemits value

theorem Faithful.due (h : Faithful delays live (later ++ now :: earlier)) (hemitted : now.emitted.isSome) :
    Due delays live earlier now := by
  obtain ⟨value, hvalue⟩ := Option.isSome_iff_exists.mp hemitted
  exact (h.emits.mp hvalue).2

/-- What is due has been seen since some observation of the newer part, if the baseline was settled before that part. -/
theorem Due.first (h : Due delays live (between ++ seen :: earlier) now)
    (hbaseline : baseline delays live (seen :: earlier) = some seen.value) :
    ∃ first ∈ between, first.time + delays.stableFor ≤ now.time ∧ ¬ CoolingDown delays (seen :: earlier) first.time := by
  obtain ⟨time, hsince, hlong⟩ := h.stable
  rcases hsince.split with ⟨first, hfirst, rfl, -, hready⟩ | ⟨hall, hvalue⟩
  · exact ⟨first, hfirst, hlong, hready⟩
  · exact absurd (baseline_append (hvalue ▸ hbaseline) hall) h.changed

/-- Deliveries are at least both delays apart. -/
theorem Faithful.apart (h : Faithful delays live (later ++ now :: (between ++ seen :: earlier)))
    (hnow : now.emitted.isSome) (hseen : seen.emitted.isSome) :
    seen.time + delays.cooldown + delays.stableFor ≤ now.time := by
  obtain ⟨first, -, hlong, hready⟩ := (h.due hnow).first (baseline_settled (.emitted hseen))
  have hcooled : ¬ first.time < seen.time + delays.cooldown := fun hlt =>
    hready ⟨seen, List.mem_cons_self, hseen, hlt⟩
  omega

/-- What is seen for less than the delay, and comes after a baseline, is not delivered. -/
theorem Faithful.transient (h : Faithful delays live (later ++ (between ++ seen :: earlier)))
    (hbaseline : baseline delays live (seen :: earlier) = some seen.value)
    (hshort : ∀ first ∈ between, ∀ last ∈ between, last.time < first.time + delays.stableFor) (hnow : now ∈ between) :
    now.emitted = none := by
  obtain ⟨after, before, rfl⟩ := List.append_of_mem hnow
  rw [← Option.not_isSome_iff_eq_none]
  intro hemitted
  have hrun := h.of_append
  rw [List.append_assoc, List.cons_append] at hrun
  obtain ⟨first, hfirst, hlong, -⟩ := (hrun.due hemitted).first hbaseline
  have := hshort first (by simp [hfirst]) now hnow
  omega

/-- What is first seen in a cooldown is the baseline, and is delivered only if another value is settled first. -/
theorem Faithful.absorbed (h : Faithful delays live (later ++ now :: (between ++ seen :: earlier)))
    (hcooling : CoolingDown delays earlier seen.time) (hnow : now.emitted = some seen.value) :
    ∃ since settled past, between = since ++ settled :: past ∧ settled.value ≠ seen.value ∧
      Settles delays live (past ++ seen :: earlier) settled := by
  obtain ⟨hvalue, hdue⟩ := h.emits.mp hnow
  apply settles_of_baseline_ne (baseline_settled (.cooldown hcooling))
  rw [hvalue]
  exact hdue.changed

end Debounce

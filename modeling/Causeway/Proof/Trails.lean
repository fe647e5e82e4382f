import Causeway.Concurrent.Solo
import Causeway.Model.Trails
import Causeway.Proof.SiteInstalls

/-!
# Honest trails

The text of a switch that has installed nothing, word by word, against the candidates that were started and how their starts ended. A walk that ends early has seen the shutdown flag, and the flag stays: this is what lets the text speak of all candidates.
-/

namespace Causeway

open Concurrent Prog

variable {env : Env} {me : Nat} {cls : String} {cause : Cause} {chosenAt : Nat} {lastCause : Option String}

/-! ### The walks of the switches -/

theorem tryCandidates_walk {candidates : List Node} : Sup.tryCandidates env me cls cause chosenAt lastCause candidates =
    Prod.fst <$> Sup.tryCandidatesWalk env me cls cause chosenAt lastCause candidates := by
  induction candidates generalizing cause lastCause with
  | nil => rfl
  | cons candidate candidates ih =>
      rw [Sup.tryCandidates, Sup.tryCandidatesWalk, map_bind]
      congr 1
      funext stopping
      cases stopping with
      | true => rfl
      | false =>
          simp only [Bool.false_eq_true, if_false, map_bind]
          congr 1
          funext attempt
          cases attempt with
          | elapsed => rfl
          | activated active => simp only [map_bind, map_pure]
          | failed error =>
              simp only [map_bind, ih, map_pure]
              rfl

/-- The automatic switch is the one whose trail is kept. -/
theorem switchNodeLocked_walks {causeAt : SwitchField → Cause} :
    Sup.switchNodeLocked env me cls causeAt = (fun trail => trail.1.switched) <$> Sup.switchNodeWalks env me cls causeAt := by
  rw [Sup.switchNodeLocked, Sup.switchNodeWalks]
  simp only [map_bind, tryCandidates_walk, bind_map_left]
  congr 1
  funext current
  congr 1
  funext answer
  obtain ⟨nodes, chosenAt⟩ := answer
  congr 1
  funext answer
  obtain ⟨candidates, currentNode, st⟩ := answer
  congr 1
  funext answer
  obtain ⟨outcome, alternates⟩ := answer
  cases outcome with
  | ok name => rfl
  | error lastCause =>
      simp only [map_bind]
      congr 1
      funext stopping
      cases stopping with
      | true => rfl
      | false =>
          cases currentNode with
          | none => rfl
          | some node =>
              simp only [Bool.false_eq_true, if_false, map_bind]
              congr 1
              funext answer
              obtain ⟨outcome, rebuild⟩ := answer
              cases outcome with
              | ok name => rfl
              | error cause => rfl

/-- The manual switch is the one whose starts are kept. -/
theorem switchToLocked_walks {requested : String} {requester : Requester} :
    Sup.switchToLocked env me cls requested requester = Prod.fst <$> Sup.switchToWalks env me cls requested requester := by
  rw [Sup.switchToLocked, Sup.switchToWalks]
  simp only [map_bind]
  congr 1
  funext answer
  obtain ⟨nodes, chosenAt⟩ := answer
  dsimp only
  cases nodes.find? fun node => node.name = requested with
  | none => rfl
  | some node =>
      simp only [map_bind]
      congr 1
      funext current
      split
      · rfl
      · simp only [map_bind, tryCandidates_walk, bind_map_left]
        congr 1
        funext answer
        obtain ⟨outcome, first⟩ := answer
        cases outcome with
        | ok name => rfl
        | error requestedCause =>
            simp only [map_bind]
            congr 1
            funext candidates
            congr 1
            funext answer
            obtain ⟨outcome, others⟩ := answer
            cases outcome with
            | ok name => rfl
            | error lastCause => rfl

/-! ### What a text claims -/

def saidOutcome (text : String) : List Char := text.toList.takeWhile (· ≠ ',')

def saidTail (text : String) : List Char := text.toList.dropWhile (· ≠ ',')

def ClaimsAlternatesFailed (text : String) : Prop := "all candidates".toList <+: saidOutcome text

def ClaimsRebuildFailed (text : String) : Prop := "current-node rebuild failed".toList <:+ saidOutcome text

def ClaimsRebuildAborted (text : String) : Prop :=
  "current-node rebuild was aborted by shutdown".toList <:+ saidOutcome text

def ClaimsRebuildNotAttempted (text : String) : Prop :=
  "no current-node rebuild was attempted".toList <:+ saidOutcome text

def ClaimsNothingAttempted (text : String) : Prop := saidOutcome text = "no candidate was attempted".toList

def ClaimsNoneActivated (text : String) : Prop := saidOutcome text = "no candidate could be activated".toList

def ClaimsPathKept (text : String) : Prop := ", keeping current path".toList <+: saidTail text

section

variable {outcome tail rest : String} {alternates : Alternates} {rebuild : Rebuild} {active : Bool}

theorem said_append (h : ',' ∉ outcome.toList) :
    saidOutcome (outcome ++ (", " ++ tail)) = outcome.toList ∧ saidTail (outcome ++ (", " ++ tail)) = ", ".toList ++ tail.toList := by
  have hplain : ∀ c ∈ outcome.toList, decide (c ≠ ',') = true := by
    intro c hc
    rw [decide_eq_true_eq]
    rintro rfl
    exact h hc
  rw [saidOutcome, saidTail, String.toList_append, String.toList_append, List.takeWhile_append_of_pos hplain,
    List.dropWhile_append_of_pos hplain]
  exact ⟨List.append_nil _, rfl⟩

/-- A path is claimed to be kept exactly when one is active, whatever else the text says. -/
theorem claimsPathKept_iff (h : ',' ∉ outcome.toList) :
    ClaimsPathKept (outcome ++ (", " ++ (pathTail active ++ rest))) ↔ active = true := by
  rw [ClaimsPathKept, (said_append h).2, String.toList_append]
  cases active with
  | true => exact iff_of_true ⟨rest.toList, rfl⟩ rfl
  | false =>
      refine iff_of_false ?_ (by decide)
      rintro ⟨more, hmore⟩
      cases hmore

theorem comma_not_mem_recoveryOutcome : ',' ∉ (recoveryOutcome alternates rebuild).toList := by
  cases alternates <;> cases rebuild <;> rw [recoveryOutcome, String.toList_ofList] <;> decide

theorem recoveryHeadline_said : saidOutcome (recoveryHeadline alternates rebuild active) = (recoveryOutcome alternates rebuild).toList := by
  rw [recoveryHeadline, String.append_assoc]
  exact (said_append comma_not_mem_recoveryOutcome).1

/-- What a text claims of the alternates and of the rebuild, each exactly when it is so. -/
structure SpeaksOf (alternates : Alternates) (rebuild : Rebuild) (text : String) : Prop where
  alternatesFailed : ClaimsAlternatesFailed text ↔ alternates = .failed
  rebuildFailed : ClaimsRebuildFailed text ↔ rebuild = .failed
  rebuildAborted : ClaimsRebuildAborted text ↔ rebuild = .aborted
  rebuildNotAttempted : ClaimsRebuildNotAttempted text ↔ alternates = .failed ∧ rebuild = .notPossible
  nothingAttempted : ClaimsNothingAttempted text ↔ alternates = .notAttempted ∧ rebuild = .notPossible
  noneActivated : ¬ ClaimsNoneActivated text

/-- The headline claims what its states say, and no more. -/
theorem recoveryHeadline_speaks : SpeaksOf alternates rebuild (recoveryHeadline alternates rebuild active) := by
  constructor
  all_goals
    simp only [ClaimsAlternatesFailed, ClaimsRebuildFailed, ClaimsRebuildAborted, ClaimsRebuildNotAttempted,
      ClaimsNothingAttempted, ClaimsNoneActivated, recoveryHeadline_said]
    -- a literal is its list of characters, which decide compares
    cases alternates <;> cases rebuild <;> rw [recoveryOutcome] <;> repeat rw [String.toList_ofList]
  all_goals decide

theorem claimsPathKept_headline : ClaimsPathKept (recoveryHeadline alternates rebuild active) ↔ active = true := by
  have hempty : recoveryHeadline alternates rebuild active =
      recoveryOutcome alternates rebuild ++ (", " ++ (pathTail active ++ "")) := by
    rw [recoveryHeadline, String.append_assoc, String.append_empty]
  rw [hempty]
  exact claimsPathKept_iff comma_not_mem_recoveryOutcome

/-- The outcome of a manual switch that failed. -/
def failureOutcome : Option String → String
  | some _ => "no candidate could be activated"
  | none => "no candidate was attempted"

theorem comma_not_mem_failureOutcome {cause : Option String} : ',' ∉ (failureOutcome cause).toList := by
  cases cause <;> rw [failureOutcome, String.toList_ofList] <;> decide

/-- The words before the tail of a failure, taken apart at the comma. -/
theorem words_append {words mid cause last : String} (h : words = outcome ++ ", ") :
    words ++ tail ++ mid ++ cause ++ last = outcome ++ (", " ++ (tail ++ (mid ++ (cause ++ last)))) := by
  simp only [h, String.append_assoc]

theorem words_append_empty {words : String} (h : words = outcome ++ ", ") :
    words ++ tail = outcome ++ (", " ++ (tail ++ "")) := by
  rw [h, String.append_empty, String.append_assoc]

theorem switchFailure_none : Sup.switchFailure tail none = "no candidate was attempted, " ++ tail := rfl

theorem switchFailure_some {cause : String} : Sup.switchFailure tail (some cause) =
    "no candidate could be activated, " ++ tail ++ " (last failure: " ++ cause ++ ")" := rfl

theorem switchFailure_eq {cause : Option String} : ∃ rest,
    Sup.switchFailure (pathTail active) cause = failureOutcome cause ++ (", " ++ (pathTail active ++ rest)) := by
  cases cause with
  | none =>
      have hwords : "no candidate was attempted, " = failureOutcome none ++ ", " := by decide
      exact ⟨"", switchFailure_none.trans (words_append_empty hwords)⟩
  | some cause =>
      have hwords : "no candidate could be activated, " = failureOutcome (some cause) ++ ", " := by
        rw [failureOutcome]
        decide
      exact ⟨_, switchFailure_some.trans (words_append hwords)⟩

theorem switchFailure_said {cause : Option String} :
    saidOutcome (Sup.switchFailure (pathTail active) cause) = (failureOutcome cause).toList := by
  obtain ⟨rest, htext⟩ := @switchFailure_eq active cause
  rw [htext]
  exact (said_append comma_not_mem_failureOutcome).1

theorem claimsPathKept_failure {cause : Option String} :
    ClaimsPathKept (Sup.switchFailure (pathTail active) cause) ↔ active = true := by
  obtain ⟨rest, htext⟩ := @switchFailure_eq active cause
  rw [htext]
  exact claimsPathKept_iff comma_not_mem_failureOutcome

theorem failureOutcome_some {cause : String} : failureOutcome (some cause) = "no candidate could be activated" := rfl

/-- A manual switch says nothing of a rebuild, and never that all candidates failed. -/
theorem failure_modest {cause : Option String} : ¬ ClaimsAlternatesFailed (Sup.switchFailure (pathTail active) cause) ∧
    ¬ ClaimsRebuildFailed (Sup.switchFailure (pathTail active) cause) ∧
    ¬ ClaimsRebuildAborted (Sup.switchFailure (pathTail active) cause) ∧
    ¬ ClaimsRebuildNotAttempted (Sup.switchFailure (pathTail active) cause) := by
  simp only [ClaimsAlternatesFailed, ClaimsRebuildFailed, ClaimsRebuildAborted, ClaimsRebuildNotAttempted, switchFailure_said]
  cases cause <;> rw [failureOutcome] <;> refine ⟨?_, ?_, ?_, ?_⟩ <;> rw [String.toList_ofList, String.toList_ofList] <;> decide

theorem claimsNothingAttempted_failure {cause : Option String} :
    ClaimsNothingAttempted (Sup.switchFailure (pathTail active) cause) ↔ cause = none := by
  rw [ClaimsNothingAttempted, switchFailure_said]
  cases cause with
  | none => exact iff_of_true rfl rfl
  | some cause =>
      rw [failureOutcome_some, String.toList_ofList, String.toList_ofList]
      exact iff_of_false (by decide) nofun

theorem claimsNoneActivated_failure {cause : Option String} :
    ClaimsNoneActivated (Sup.switchFailure (pathTail active) cause) ↔ cause ≠ none := by
  rw [ClaimsNoneActivated, switchFailure_said]
  cases cause with
  | none =>
      rw [failureOutcome, String.toList_ofList, String.toList_ofList]
      exact iff_of_false (by decide) nofun
  | some cause => exact iff_of_true (congrArg String.toList failureOutcome_some) nofun

end

/-! ### Starts -/

/-- The shutdown flag stays once it is set, whoever sets it and when. -/
def Latched (steps : List (World × World)) : Prop :=
  (steps.map (·.1.drainShutdown)).Pairwise fun earlier later => earlier = true → later = true

/-- Shutdown was requested before one of the steps. -/
def Stopping (steps : List (World × World)) : Prop := ∃ m ∈ steps, m.1.drainShutdown = true

/-- The start is among the steps, all of it, and it failed. -/
def Start.Failed (env : Env) (me : Nat) (cls : String) (steps : List (World × World)) (start : Start) : Prop :=
  ∃ error before during after, start.error = some error ∧ steps = before ++ during ++ after ∧
    Prog.Path (Sup.tryActivate env me cls start.node false) during (.done (.failed error))

/-- A path to the node was installed on the class. -/
def Installs.Among (me : Nat) (cls name : String) (steps : List (World × World)) : Prop :=
  ∃ chosenAt publication, .installed me cls name chosenAt publication ∈ steps.flatMap noted

/-- A walk that has installed nothing: what was started failed, the last failure is the one reported, and if not all were started, shutdown was requested. -/
structure Missed (env : Env) (me : Nat) (cls : String) (lastCause : Option String) (candidates : List Node)
    (steps : List (World × World)) (cause : Option String) (starts : List Start) : Prop where
  failed : ∀ start ∈ starts, start.Failed env me cls steps
  order : starts.map (·.node) <+: candidates
  whole : starts.map (·.node) = candidates ∨ Stopping steps
  cause : cause = (starts.getLast?.bind Start.cause).or lastCause

section

variable {starts : List Start} {start : Start} {candidates : List Node} {steps : List (World × World)}
  {outcome : Except (Option String) String} {α : Type}

theorem Start.Failed.inside (before after : List (World × World)) (h : start.Failed env me cls steps) :
    start.Failed env me cls (before ++ (steps ++ after)) := by
  obtain ⟨error, first, during, last, herror, rfl, hpath⟩ := h
  exact ⟨error, before ++ first, during, last ++ after, herror, by simp, hpath⟩

theorem Start.Failed.isSome_cause (h : start.Failed env me cls steps) : start.cause.isSome = true := by
  obtain ⟨error, _, _, _, herror, -, -⟩ := h
  simp [Start.cause, herror]

theorem Stopping.inside (before after : List (World × World)) (h : Stopping steps) : Stopping (before ++ (steps ++ after)) := by
  obtain ⟨m, hm, hset⟩ := h
  exact ⟨m, by simp [hm], hset⟩

theorem path_look {f : World → α} {value : α} (h : Prog.Path (Sup.look f) steps (.done value)) :
    ∃ w, steps = [(w, w)] ∧ value = f w := by
  cases h with
  | cons taken rest =>
      cases rest
      obtain ⟨rfl, rfl⟩ := Prod.mk.inj (Option.some.inj taken)
      exact ⟨_, rfl, rfl⟩

theorem path_pure {a value : α} (h : Prog.Path (Pure.pure a : Sup α) steps (.done value)) : steps = [] ∧ value = a := by
  cases h
  exact ⟨rfl, rfl⟩

theorem path_later {β : Type} {p : Sup α} {k : α → Sup β} {value : β} (h : Prog.Path (p >>= k) steps (.done value)) :
    ∃ a rest, Prog.Path (k a) rest (.done value) := by
  obtain ⟨_, a, rest, -, -, hrest⟩ := h.of_bind
  exact ⟨a, rest, hrest⟩

theorem path_unfused {β : Type} {k : Bool → Sup β} {value : β}
    (h : Prog.Path (Sup.fuse false >>= k) steps (.done value)) : Prog.Path (k false) steps (.done value) := h

theorem started_unfused {spec : Sup.StartSpec} {started : Option (Except String Handle)}
    (h : Prog.Path (Sup.startFused me spec false) steps (.done started)) : started.isSome = true := by
  rw [Sup.startFused] at h
  obtain ⟨spawned, _, h⟩ := path_later h
  cases spawned with
  | error error =>
      obtain ⟨-, rfl⟩ := path_pure h
      rfl
  | ok handle =>
      obtain ⟨detail, _, h⟩ := path_later (path_unfused h)
      cases detail with
      | none =>
          obtain ⟨-, rfl⟩ := path_pure h
          rfl
      | some error =>
          obtain ⟨_, _, h⟩ := path_later h
          obtain ⟨-, rfl⟩ := path_pure h
          rfl

/-- Without a fuse no attempt elapses. -/
theorem not_elapsed {node : Node} {attempt : Attempt}
    (h : Prog.Path (Sup.tryActivate env me cls node false) steps (.done attempt)) : attempt ≠ .elapsed := by
  rw [Sup.tryActivate] at h
  obtain ⟨reserved, _, h⟩ := path_later h
  cases reserved with
  | error error =>
      obtain ⟨-, rfl⟩ := path_pure h
      simp
  | ok spec =>
      obtain ⟨_, started, _, -, hstarted, h⟩ := h.of_bind
      rcases started with _ | _ | handle
      · cases started_unfused hstarted
      · obtain ⟨-, rfl⟩ := path_pure h
        simp
      · obtain ⟨checked, _, h⟩ := path_later h
        have hchecked := path_unfused h
        rcases checked with error | ⟨code, rtt⟩
        · obtain ⟨_, _, hlast⟩ := path_later hchecked
          obtain ⟨_, _, hlast⟩ := path_later hlast
          obtain ⟨-, rfl⟩ := path_pure hlast
          simp
        · by_cases hcode : isSuccess code = true
          · simp only [hcode, Bool.false_eq_true, if_false, if_true] at hchecked
            obtain ⟨_, _, hlast⟩ := path_later hchecked
            obtain ⟨-, rfl⟩ := path_pure hlast
            simp
          · simp only [hcode, Bool.false_eq_true, if_false] at hchecked
            obtain ⟨_, _, hlast⟩ := path_later hchecked
            obtain ⟨_, _, hlast⟩ := path_later hlast
            obtain ⟨-, rfl⟩ := path_pure hlast
            simp

theorem Missed.cons {candidate : Node} {error : String} (before : List (World × World)) {first : List (World × World)}
    (second : List (World × World)) {rest : List (World × World)} {cause : Option String}
    (hstart : Prog.Path (Sup.tryActivate env me cls candidate false) first (.done (.failed error)))
    (h : Missed env me cls (some (candidate.name ++ ": " ++ error)) candidates rest cause starts) :
    Missed env me cls lastCause (candidate :: candidates) (before ++ first ++ second ++ rest) cause
      (⟨candidate, some error⟩ :: starts) where
  failed := by
    intro start hmem
    rcases List.mem_cons.mp hmem with rfl | hmem
    · exact ⟨error, before, first, second ++ rest, rfl, by simp, hstart⟩
    · have hinside := (h.failed start hmem).inside (before ++ first ++ second) []
      rwa [List.append_nil] at hinside
  order := List.cons_prefix_cons.mpr ⟨rfl, h.order⟩
  whole := by
    rcases h.whole with hall | ⟨m, hm, hset⟩
    · exact .inl (by rw [List.map_cons, hall])
    · exact .inr ⟨m, by simp [hm], hset⟩
  cause := by
    rw [h.cause, List.getLast?_cons]
    cases hlast : starts.getLast? with
    | none => rfl
    | some last =>
        have hcause := (h.failed last (List.mem_of_getLast? hlast)).isSome_cause
        obtain ⟨text, htext⟩ := Option.isSome_iff_exists.mp hcause
        simp [htext]

/-- A walk that ends without an install. -/
theorem missed_walk {cause' : Option String}
    (h : Prog.Path (Sup.tryCandidatesWalk env me cls cause chosenAt lastCause candidates) steps (.done (.error cause', starts))) :
    Missed env me cls lastCause candidates steps cause' starts := by
  induction candidates generalizing cause lastCause steps starts with
  | nil =>
      obtain ⟨rfl, heq⟩ := path_pure h
      cases heq
      exact ⟨by simp, List.nil_prefix, .inl rfl, rfl⟩
  | cons candidate candidates ih =>
      rw [Sup.tryCandidatesWalk] at h
      obtain ⟨_, stopping, _, rfl, hlook, h⟩ := h.of_bind
      obtain ⟨w, rfl, rfl⟩ := path_look hlook
      cases hset : w.drainShutdown with
      | true =>
          rw [hset] at h
          obtain ⟨rfl, heq⟩ := path_pure h
          cases heq
          exact ⟨by simp, List.nil_prefix, .inr ⟨(w, w), by simp, hset⟩, rfl⟩
      | false =>
          rw [hset] at h
          obtain ⟨first, attempt, _, rfl, hattempt, h⟩ := h.of_bind
          cases attempt with
          | elapsed => exact absurd rfl (not_elapsed hattempt)
          | activated active =>
              obtain ⟨_, _, h⟩ := path_later h
              cases (path_pure h).2
          | failed error =>
              obtain ⟨recorded, _, _, rfl, -, h⟩ := h.of_bind
              obtain ⟨pushed, _, _, rfl, -, h⟩ := h.of_bind
              obtain ⟨rest, ⟨outcome, others⟩, _, rfl, hrest, h⟩ := h.of_bind
              obtain ⟨rfl, heq⟩ := path_pure h
              cases heq
              have hcons : Missed env me cls lastCause (candidate :: candidates) ([(w, w)] ++ first ++ (recorded ++ pushed) ++ rest)
                  cause' (⟨candidate, some error⟩ :: others) := .cons _ _ hattempt (ih hrest)
              simpa using hcons

/-- A walk that ends with an install. -/
theorem installed_walk {name : String}
    (h : Prog.Path (Sup.tryCandidatesWalk env me cls cause chosenAt lastCause candidates) steps (.done (.ok name, starts))) :
    Installs.Among me cls name steps := by
  have hpath := h.map Prod.fst
  rw [← tryCandidates_walk] at hpath
  obtain ⟨-, failures, chosenAt, publication, -, hlog⟩ := notes_tryCandidates _ _ hpath
  exact ⟨chosenAt, publication, by rw [hlog]; simp⟩

theorem Missed.inside {cause : Option String} (before after : List (World × World))
    (h : Missed env me cls lastCause candidates steps cause starts) :
    Missed env me cls lastCause candidates (before ++ (steps ++ after)) cause starts :=
  ⟨fun start hmem => (h.failed start hmem).inside before after, h.order, h.whole.imp_right (·.inside before after), h.cause⟩

theorem Installs.Among.inside {name : String} (before after : List (World × World)) (h : Installs.Among me cls name steps) :
    Installs.Among me cls name (before ++ (steps ++ after)) := by
  obtain ⟨publishedAt, publication, hmem⟩ := h
  exact ⟨publishedAt, publication, by simp [hmem]⟩

theorem Missed.cause_eq_none {cause : Option String} (h : Missed env me cls none candidates steps cause starts) :
    cause = none ↔ starts = [] := by
  rw [h.cause, Option.or_none]
  cases hlast : starts.getLast? with
  | none => exact iff_of_true rfl (List.getLast?_eq_none_iff.mp hlast)
  | some last =>
      have hcause := (h.failed last (List.mem_of_getLast? hlast)).isSome_cause
      refine iff_of_false ?_ ?_
      · intro hnone
        rw [Option.bind_some] at hnone
        simp [hnone] at hcause
      · rintro rfl
        cases hlast

end

/-! ### Texts -/

/-- Every claim of the text holds of the starts. -/
structure Honest (env : Env) (me : Nat) (cls : String) (steps : List (World × World)) (walks : Walks) (text : String) : Prop where
  /-- The current node is none of the others. -/
  apart : ∀ node ∈ walks.candidates, ∀ current ∈ walks.currentNode, node.name ≠ current.name
  alternatesFailed : ClaimsAlternatesFailed text → walks.candidates ≠ [] ∧
    walks.alternates.map (·.node) = walks.candidates ∧ ∀ start ∈ walks.alternates, start.Failed env me cls steps
  rebuildFailed : ClaimsRebuildFailed text →
    ∃ start, walks.rebuild = [start] ∧ walks.currentNode = some start.node ∧ start.Failed env me cls steps
  rebuildAborted : ClaimsRebuildAborted text → walks.rebuild = []
  rebuildNotAttempted : ClaimsRebuildNotAttempted text → walks.rebuild = []
  nothingAttempted : ClaimsNothingAttempted text → walks.alternates = [] ∧ walks.rebuild = []
  /-- Of those that were run; they are all the candidates unless shutdown was requested. -/
  noneActivated : ClaimsNoneActivated text → walks.alternates ≠ [] ∧
    (∀ start ∈ walks.alternates, start.Failed env me cls steps) ∧
    (walks.alternates.map (·.node) = walks.candidates ∨ Stopping steps)
  pathKept : ClaimsPathKept text → ∃ m ∈ steps.getLast?, (m.2.runtime cls).active.isSome = true

section

variable {steps first rest : List (World × World)}

/-- Once a look has found the flag unset, nothing before it had found it set. -/
theorem Latched.not_stopping (h : Latched (first ++ rest)) (m : World × World) (hm : m ∈ rest)
    (hunset : m.1.drainShutdown = false) : ¬ Stopping first := by
  rintro ⟨earlier, hmem, hset⟩
  rw [Latched, List.map_append, List.pairwise_append] at h
  have hlater := h.2.2 _ (List.mem_map_of_mem hmem) _ (List.mem_map_of_mem hm) hset
  rw [hunset] at hlater
  cases hlater

/-- How an automatic switch ended, by what it has started. -/
inductive Ended (env : Env) (me : Nat) (cls : String) (steps : List (World × World)) (walks : Walks) : SwitchEnd → Prop where
  | installed (name : String) (h : Installs.Among me cls name steps) : Ended env me cls steps walks .installed
  | stopped (h : Stopping steps) : Ended env me cls steps walks .stopped
  | failed {alternates : Alternates} {rebuild : Rebuild} {lastCause : Option String}
      (apart : ∀ node ∈ walks.candidates, ∀ current ∈ walks.currentNode, node.name ≠ current.name)
      (order : walks.alternates.map (·.node) = walks.candidates)
      (started : alternates = .notAttempted ↔ walks.alternates = [])
      (failing : ∀ start ∈ walks.alternates ++ walks.rebuild, start.Failed env me cls steps)
      (rebuilt : rebuild = .failed ∧ (∃ start, walks.rebuild = [start] ∧ walks.currentNode = some start.node) ∨
        rebuild ≠ .failed ∧ walks.rebuild = []) :
      Ended env me cls steps walks (.failed alternates rebuild lastCause)

variable {current : Option String} {nodes candidates : List Node} {currentNode : Option Node} {walks : Walks}
  {causeAt : SwitchField → Cause}

theorem path_readState {α : Type} {f : StateFile → α} {value : α} (h : Prog.Path (Sup.readState f) steps (.done value)) :
    ∃ w, steps = [(w, w)] ∧ value = f w.state := by
  cases h with
  | cons taken rest =>
      cases rest
      dsimp only at taken
      split at taken
      · obtain ⟨rfl, rfl⟩ := Prod.mk.inj (Option.some.inj taken)
        exact ⟨_, rfl, rfl⟩
      · cases taken

theorem apart_switchField {st : StateFile}
    (h : Prog.Path (Sup.switchField env cls current nodes) steps (.done (candidates, currentNode, st))) :
    ∀ node ∈ candidates, ∀ other ∈ currentNode, node.name ≠ other.name := by
  obtain ⟨w, -, heq⟩ := path_readState h
  simp only [Prod.mk.injEq] at heq
  obtain ⟨rfl, rfl, -⟩ := heq
  intro node hnode other hother
  obtain ⟨name, rfl, hfound⟩ := Option.bind_eq_some_iff.mp hother
  have hname := List.find?_some hfound
  have hdiffers := List.of_mem_filter (List.mem_of_mem_take hnode)
  rw [decide_eq_true_eq] at hname hdiffers
  rintro heq
  exact hdiffers (congrArg some (heq.trans hname))

theorem alternatesOutcome_eq {cause : Option String} : alternatesOutcome cause = .notAttempted ↔ cause = none := by
  cases cause <;> simp [alternatesOutcome]

theorem ended_switchNodeWalks {ending : SwitchEnd}
    (h : Prog.Path (Sup.switchNodeWalks env me cls causeAt) steps (.done (ending, walks))) (hlatched : Latched steps) :
    Ended env me cls steps walks ending := by
  rw [Sup.switchNodeWalks] at h
  obtain ⟨atActive, current, _, rfl, -, h⟩ := h.of_bind
  obtain ⟨atPool, ⟨nodes, chosenAt⟩, _, rfl, -, h⟩ := h.of_bind
  obtain ⟨atField, ⟨candidates, currentNode, st⟩, _, rfl, hfield, h⟩ := h.of_bind
  obtain ⟨first, ⟨outcome, alternates⟩, _, rfl, hfirst, h⟩ := h.of_bind
  obtain ⟨before, hbefore⟩ : ∃ before, ∀ rest, atActive ++ (atPool ++ (atField ++ rest)) = before ++ rest :=
    ⟨atActive ++ (atPool ++ atField), by simp⟩
  rw [hbefore] at hlatched ⊢
  cases outcome with
  | ok name =>
      obtain ⟨rfl, heq⟩ := path_pure h
      cases heq
      exact .installed name ((installed_walk hfirst).inside before [])
  | error lastCause =>
      have hmissed := missed_walk hfirst
      obtain ⟨_, stopping, rest, rfl, hlook, h⟩ := h.of_bind
      obtain ⟨w, rfl, rfl⟩ := path_look hlook
      cases hset : w.drainShutdown with
      | true =>
          rw [hset] at h
          obtain ⟨rfl, heq⟩ := path_pure h
          cases heq
          exact .stopped ⟨(w, w), by simp, hset⟩
      | false =>
          rw [hset] at h
          have hunset : ¬ Stopping first := by
            rw [← List.append_assoc] at hlatched
            exact fun hstopping => hlatched.not_stopping (w, w) (by simp) hset (by simpa using hstopping.inside before [])
          have horder := hmissed.whole.resolve_right hunset
          have hstarted := alternatesOutcome_eq.trans hmissed.cause_eq_none
          have hinside := hmissed.inside before ([(w, w)] ++ rest)
          cases currentNode with
          | none =>
              obtain ⟨rfl, heq⟩ := path_pure h
              cases heq
              exact .failed (apart_switchField hfield) horder hstarted (by simpa using hinside.failed) (.inr ⟨nofun, rfl⟩)
          | some node =>
              obtain ⟨second, ⟨outcome, rebuild⟩, _, rfl, hsecond, h⟩ := h.of_bind
              cases outcome with
              | ok name =>
                  obtain ⟨rfl, heq⟩ := path_pure h
                  cases heq
                  have hamong := (installed_walk hsecond).inside (before ++ (first ++ [(w, w)])) []
                  exact .installed name (by simpa using hamong)
              | error rebuildCause =>
                  obtain ⟨rfl, heq⟩ := path_pure h
                  cases heq
                  have hrebuild := missed_walk hsecond
                  have hfailing : ∀ start ∈ alternates ++ rebuild, start.Failed env me cls
                      (before ++ (first ++ ([(w, w)] ++ (second ++ [])))) := by
                    intro start hstart
                    rcases List.mem_append.mp hstart with hstart | hstart
                    · exact hinside.failed start hstart
                    · have hlater := (hrebuild.failed start hstart).inside (before ++ (first ++ [(w, w)])) []
                      simpa using hlater
                  refine .failed (apart_switchField hfield) horder hstarted hfailing ?_
                  cases rebuildCause with
                  | none => exact .inr ⟨nofun, hrebuild.cause_eq_none.mp rfl⟩
                  | some cause =>
                      have hsome : rebuild ≠ [] := fun hnil => nomatch hrebuild.cause_eq_none.mpr hnil
                      obtain ⟨start, hstart, hnode⟩ : ∃ start, rebuild = [start] ∧ start.node = node := by
                        rcases List.sublist_singleton.mp hrebuild.order.sublist with hnil | hone
                        · exact absurd (List.map_eq_nil_iff.mp hnil) hsome
                        · exact List.map_eq_singleton_iff.mp hone
                      exact .inl ⟨rfl, start, hstart, congrArg some hnode.symm⟩

theorem Latched.left (h : Latched (first ++ rest)) : Latched first := by
  rw [Latched, List.map_append, List.pairwise_append] at h
  exact h.1

theorem honest_headline {alternates : Alternates} {rebuild : Rebuild} {lastCause : Option String} {w : World}
    (h : Ended env me cls first walks (.failed alternates rebuild lastCause)) :
    Honest env me cls (first ++ [(w, w)]) walks (recoveryHeadline alternates rebuild (w.runtime cls).active.isSome) := by
  cases h with
  | failed apart order started failing rebuilt =>
      have hfailed : ∀ start ∈ walks.alternates ++ walks.rebuild, start.Failed env me cls (first ++ [(w, w)]) :=
        fun start hstart => (failing start hstart).inside [] [(w, w)]
      constructor
      case apart => exact apart
      case alternatesFailed =>
        intro hclaim
        have hsome : walks.alternates ≠ [] := by
          rw [ne_eq, ← started, recoveryHeadline_speaks.alternatesFailed.mp hclaim]
          exact nofun
        refine ⟨?_, order, fun start hstart => hfailed start (List.mem_append_left _ hstart)⟩
        rw [← order]
        exact fun hnil => hsome (List.map_eq_nil_iff.mp hnil)
      case rebuildFailed =>
        intro hclaim
        obtain ⟨-, start, hstart, hnode⟩ := rebuilt.resolve_right fun h => h.1 (recoveryHeadline_speaks.rebuildFailed.mp hclaim)
        exact ⟨start, hstart, hnode, hfailed start (by simp [hstart])⟩
      case rebuildAborted =>
        intro hclaim
        rcases rebuilt with ⟨hrebuild, -⟩ | ⟨-, hnil⟩
        · cases hrebuild.symm.trans (recoveryHeadline_speaks.rebuildAborted.mp hclaim)
        · exact hnil
      case rebuildNotAttempted =>
        intro hclaim
        rcases rebuilt with ⟨hrebuild, -⟩ | ⟨-, hnil⟩
        · cases hrebuild.symm.trans (recoveryHeadline_speaks.rebuildNotAttempted.mp hclaim).2
        · exact hnil
      case nothingAttempted =>
        intro hclaim
        obtain ⟨halternates, hnot⟩ := recoveryHeadline_speaks.nothingAttempted.mp hclaim
        rcases rebuilt with ⟨hrebuild, -⟩ | ⟨-, hnil⟩
        · cases hrebuild.symm.trans hnot
        · exact ⟨started.mp halternates, hnil⟩
      case noneActivated => exact fun hclaim => absurd hclaim recoveryHeadline_speaks.noneActivated
      case pathKept =>
        intro hclaim
        exact ⟨(w, w), by simp, claimsPathKept_headline.mp hclaim⟩

theorem honest_switchNodeTrail {said : Option (String × Option String)}
    (h : Prog.Path (Sup.switchNodeTrail env me cls causeAt) steps (.done (said, walks))) (hlatched : Latched steps) :
    (∀ headline lastCause, said = some (headline, lastCause) → Honest env me cls steps walks headline) ∧
      (said = none → (∃ name, Installs.Among me cls name steps) ∨ Stopping steps) := by
  rw [Sup.switchNodeTrail] at h
  obtain ⟨first, ⟨ending, walks'⟩, _, rfl, hwalks, h⟩ := h.of_bind
  have hended := ended_switchNodeWalks hwalks hlatched.left
  cases ending with
  | installed =>
      obtain ⟨rfl, heq⟩ := path_pure h
      cases heq
      cases hended with
      | installed name hinstalled => exact ⟨nofun, fun _ => .inl ⟨name, hinstalled.inside [] []⟩⟩
  | stopped =>
      obtain ⟨rfl, heq⟩ := path_pure h
      cases heq
      cases hended with
      | stopped hstopping => exact ⟨nofun, fun _ => .inr (hstopping.inside [] [])⟩
  | failed alternates rebuild lastCause =>
      obtain ⟨_, active, _, rfl, hlook, h⟩ := h.of_bind
      obtain ⟨w, rfl, rfl⟩ := path_look hlook
      obtain ⟨rfl, heq⟩ := path_pure h
      cases heq
      refine ⟨?_, nofun⟩
      intro headline cause hsaid
      cases hsaid
      exact honest_headline hended

/-- The request names no node of the pool. -/
def Unknown (requested : String) (steps : List (World × World)) : Prop :=
  ∃ m ∈ steps, ∀ node ∈ m.1.subscriptions.nodes, node.name ≠ requested

def OnNode (cls name : String) (steps : List (World × World)) : Prop :=
  ∃ m ∈ steps, (m.1.runtime cls).active.map (·.node.name) = some name

theorem path_requestedFrom {requested : String} {requester : Requester}
    (h : Prog.Path (Sup.requestedFrom me cls requested requester) steps (.done current)) :
    ∃ m, steps = [m] ∧ current = (m.1.runtime cls).active.map (·.node.name) := by
  cases requester with
  | operator =>
      obtain ⟨w, rfl, rfl⟩ := path_look h
      exact ⟨_, rfl, rfl⟩
  | site nodeBefore site stamp =>
      cases h with
      | cons taken rest =>
          cases rest
          obtain ⟨rfl, -⟩ := Prod.mk.inj (Option.some.inj taken)
          exact ⟨_, rfl, rfl⟩

theorem honest_failure {node : Node} {others starts : List Start} {requestedCause lastCause : Option String} {w : World}
    (hfirst : Missed env me cls none [node] steps requestedCause starts)
    (hothers : Missed env me cls none candidates steps lastCause others) :
    Honest env me cls (steps ++ [(w, w)]) ⟨node :: candidates, starts ++ others, none, []⟩
      (Sup.switchFailure (pathTail (w.runtime cls).active.isSome) (lastCause.or requestedCause)) := by
  have hnone : lastCause.or requestedCause = none ↔ starts ++ others = [] := by
    rw [Option.or_eq_none_iff, hfirst.cause_eq_none, hothers.cause_eq_none, List.append_eq_nil_iff, and_comm]
  obtain ⟨halternates, hfailed, haborted, hnot⟩ := @failure_modest (w.runtime cls).active.isSome (lastCause.or requestedCause)
  constructor
  case apart =>
    intro _ _ current hcurrent
    cases hcurrent
  case alternatesFailed => exact fun hclaim => absurd hclaim halternates
  case rebuildFailed => exact fun hclaim => absurd hclaim hfailed
  case rebuildAborted => exact fun hclaim => absurd hclaim haborted
  case rebuildNotAttempted => exact fun hclaim => absurd hclaim hnot
  case nothingAttempted => exact fun hclaim => ⟨hnone.mp (claimsNothingAttempted_failure.mp hclaim), rfl⟩
  case noneActivated =>
    intro hclaim
    refine ⟨fun hnil => claimsNoneActivated_failure.mp hclaim (hnone.mpr hnil), ?_, ?_⟩
    · intro start hstart
      rcases List.mem_append.mp hstart with hstart | hstart
      · exact (hfirst.failed start hstart).inside [] [(w, w)]
      · exact (hothers.failed start hstart).inside [] [(w, w)]
    · rcases hfirst.whole with hone | hstopping
      · rcases hothers.whole with hall | hstopping
        · left
          rw [List.map_append, hone, hall]
          rfl
        · exact .inr (hstopping.inside [] [(w, w)])
      · exact .inr (hstopping.inside [] [(w, w)])
  case pathKept => exact fun hclaim => ⟨(w, w), by simp, claimsPathKept_failure.mp hclaim⟩

/-- A manual switch fails with a text that is true, or with no such node; else the class is on the node that the reply names. -/
theorem honest_switchToWalks {requested : String} {requester : Requester} {result : Except String SwitchOutcome}
    (h : Prog.Path (Sup.switchToWalks env me cls requested requester) steps (.done (result, walks))) :
    (∀ text, result = .error text → Honest env me cls steps walks text ∨
      Unknown requested steps ∧ text = "unknown node " ++ requested.quote ∧ walks.alternates = [] ∧ walks.rebuild = []) ∧
      ∀ outcome, result = .ok outcome → Installs.Among me cls outcome.installed steps ∨ OnNode cls outcome.installed steps := by
  rw [Sup.switchToWalks] at h
  obtain ⟨_, pool, _, rfl, hpool, h⟩ := h.of_bind
  obtain ⟨u, rfl, rfl⟩ := path_look hpool
  dsimp only at h
  cases hfind : u.subscriptions.nodes.find? fun node => node.name = requested with
  | none =>
      rw [hfind] at h
      obtain ⟨rfl, heq⟩ := path_pure h
      cases heq
      refine ⟨?_, nofun⟩
      rintro text ⟨⟩
      refine .inr ⟨⟨(u, u), by simp, ?_⟩, rfl, rfl, rfl⟩
      simpa using hfind
  | some node =>
      rw [hfind] at h
      obtain ⟨_, current, _, rfl, hcurrent, hrest⟩ := h.of_bind
      obtain ⟨m, rfl, hactive⟩ := path_requestedFrom hcurrent
      by_cases hon : current = some requested
      · rw [if_pos hon] at hrest
        obtain ⟨rfl, heq⟩ := path_pure hrest
        cases heq
        refine ⟨nofun, ?_⟩
        rintro outcome ⟨⟩
        exact .inr ⟨m, by simp, hactive.symm.trans hon⟩
      · rw [if_neg hon] at hrest
        obtain ⟨first, ⟨outcome, starts⟩, _, rfl, hfirst, h⟩ := hrest.of_bind
        cases outcome with
        | ok name =>
            obtain ⟨rfl, heq⟩ := path_pure h
            cases heq
            refine ⟨nofun, ?_⟩
            rintro outcome ⟨⟩
            exact .inl ((installed_walk hfirst).inside ([(u, u)] ++ [m]) [])
        | error requestedCause =>
            obtain ⟨atField, candidates, _, rfl, -, h⟩ := h.of_bind
            obtain ⟨second, ⟨outcome, others⟩, _, rfl, hsecond, h⟩ := h.of_bind
            cases outcome with
            | ok name =>
                obtain ⟨rfl, heq⟩ := path_pure h
                cases heq
                refine ⟨nofun, ?_⟩
                rintro outcome ⟨⟩
                have hamong := (installed_walk hsecond).inside ([(u, u)] ++ [m] ++ first ++ atField) []
                exact .inl (by simpa using hamong)
            | error lastCause =>
                obtain ⟨_, active, _, rfl, hlook, h⟩ := h.of_bind
                obtain ⟨w, rfl, rfl⟩ := path_look hlook
                obtain ⟨rfl, heq⟩ := path_pure h
                cases heq
                refine ⟨?_, nofun⟩
                rintro text ⟨⟩
                have hstarts := (missed_walk hfirst).inside ([(u, u)] ++ [m]) (atField ++ second)
                have hothers := (missed_walk hsecond).inside ([(u, u)] ++ [m] ++ first ++ atField) []
                have hhonest := @honest_failure env me cls ([(u, u)] ++ [m] ++ (first ++ (atField ++ second))) candidates node others
                  starts requestedCause lastCause w hstarts (by simpa using hothers)
                exact .inl (by simpa using hhonest)

end

/-- The recovery headline and the failure of a manual switch claim only what is true of the candidates that were started; a switch with nothing to say has installed a path, was stopped, or was asked for the node that the class is on. -/
theorem recovery_trail_honest (env : Env) (me : Nat) (cls : String) :
    (∀ causeAt, Sup.switchNodeLocked env me cls causeAt =
        (fun trail => trail.1.switched) <$> Sup.switchNodeWalks env me cls causeAt) ∧
      (∀ causeAt steps said walks, Prog.Path (Sup.switchNodeTrail env me cls causeAt) steps (.done (said, walks)) →
        Latched steps →
        (∀ headline lastCause, said = some (headline, lastCause) → Honest env me cls steps walks headline) ∧
          (said = none → (∃ name, Installs.Among me cls name steps) ∨ Stopping steps)) ∧
      (∀ requested requester, Sup.switchToLocked env me cls requested requester =
        Prod.fst <$> Sup.switchToWalks env me cls requested requester) ∧
      ∀ requested requester steps result walks,
        Prog.Path (Sup.switchToWalks env me cls requested requester) steps (.done (result, walks)) →
        (∀ text, result = .error text → Honest env me cls steps walks text ∨
          Unknown requested steps ∧ text = "unknown node " ++ requested.quote ∧ walks.alternates = [] ∧ walks.rebuild = []) ∧
          ∀ outcome, result = .ok outcome →
            Installs.Among me cls outcome.installed steps ∨ OnNode cls outcome.installed steps :=
  ⟨fun _ => switchNodeLocked_walks, fun _ _ _ _ => honest_switchNodeTrail, fun _ _ => switchToLocked_walks,
    fun _ _ _ _ _ => honest_switchToWalks⟩

namespace Sample

/-- An outside that refuses everything. -/
def refusing : Outside := { ok := false, detail := "refused" }

/-- The class is on a node of the pool. -/
def servingWorld : World :=
  { wideWorld web with
    runtime := fun _ => { active := some ⟨node "A" "home", ⟨0, 1, 2⟩, 0⟩, autoRecovery := ⟨0, none⟩, healthFailures := 2 } }

def recovering : Sup (Option (String × Option String) × Walks) :=
  Sup.switchNodeTrail (Sample.env web) 0 "web" fun _ => .healthFailures 0

end Sample

theorem refused_recovery_honest : ∃ steps walks, Honest (Sample.env Sample.web) 0 "web" steps walks
    "all candidates and current-node rebuild failed, keeping current path" := by
  have hends : (Sample.recovering.run (fun _ => Sample.refusing) Sample.servingWorld).any (fun r =>
      r.1.1 = some ("all candidates and current-node rebuild failed, keeping current path", some "A: refused")) = true := by
    decide +kernel
  obtain ⟨⟨⟨said, walks⟩, last⟩, hrun, hsaid⟩ := (Option.any_eq_true _ _).mp hends
  have hlatched : Latched (Sample.recovering.steps (fun _ => Sample.refusing) Sample.servingWorld) := by
    unfold Latched
    decide +kernel
  have hpath := Prog.run_path hrun
  exact ⟨_, walks, ((recovery_trail_honest (Sample.env Sample.web) 0 "web").2.1 _ _ _ _ hpath hlatched).1 _ _
    (of_decide_eq_true hsaid)⟩

end Causeway

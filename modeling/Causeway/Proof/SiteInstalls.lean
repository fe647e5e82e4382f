import Causeway.Proof.Frames
import Causeway.Proof.Sites

/-!
# What a site request installs

A request writes down the verdicts it goes by, the switches it asks for, and how each pre-check and install ends. Its own log, in the order it was written, has one of two shapes: nothing was installed, or the last switch ended in an install. Everything before that install came to nothing.
-/

namespace Causeway

open Concurrent Prog History

/-- What a step adds to the log. -/
def noted (m : World × World) : List Obs := m.2.trail.log.take (m.2.trail.log.length - m.1.trail.log.length)

/-- What thread `i` has noted in a run, oldest first. -/
def ownLog (i : Nat) (moves : List (Move World)) : List Obs := (Pool.own i moves).flatMap noted

/-- A passing pre-check or an install. -/
def Obs.effective : Obs → Bool
  | .precheck _ _ passed => passed
  | .installed _ _ _ _ _ => true
  | _ => false

/-- Every passing pre-check in the log is of the node that the switch before it asked for, so no fallback candidate ever passes. -/
def NoFallback (requested : Option String) : List Obs → Prop
  | [] => True
  | .siteSwitch _ _ node _ _ :: rest => NoFallback (some node) rest
  | .precheck _ node true :: rest => requested = some node ∧ NoFallback requested rest
  | _ :: rest => NoFallback requested rest

/-- Whatever the request has installed on the class, it had a verdict that the node serves the site, and it says so in its reply. -/
def InstallsConfirmed (cls site : String) (log : List Obs) (reply : Reply) : Prop :=
  ∀ thread node chosenAt publication, .installed thread cls node chosenAt publication ∈ log →
    (∃ stamp now, .siteVerdict thread site node .ok stamp now ∈ log) ∧
      reply.siteSwitch.bind (·.nodeAfter) = some node

abbrev Notes {α : Type} (post : List Obs → α → Prop) (p : Sup α) : Prop := Emits noted post p

def Silent (s t : World) : Prop := t.trail.log = s.trail.log

instance : Std.Refl Silent := ⟨fun _ => rfl⟩

theorem Silent.noted {s t : World} (h : Silent s t) : noted (s, t) = [] := by
  have hlog : t.trail.log = s.trail.log := h
  simp [Causeway.noted, hlog]

theorem noted_of_cons {s t : World} {obs : Obs} (h : t.trail.log = obs :: s.trail.log) :
    noted (s, t) = [obs] := by
  simp [noted, h]

section

variable {env : Env} {me : Nat} {cls site : String} {α β : Type}

theorem silent_of_plain {p : Sup α} (h : p.Within Plain) : p.Within Silent := h.mono fun _ _ h => h.log

theorem notes_silent {p : Sup α} (h : p.Within Silent) : Notes (fun log _ => log = []) p :=
  .silent h fun _ _ => Silent.noted

theorem notes_then {last : List Obs → β → Prop} {p : Sup α} {k : α → Sup β} (h : p.Within Silent)
    (hk : ∀ a, Notes last (k a)) : Notes last (p >>= k) :=
  .silent_bind h (fun _ _ => Silent.noted) hk

/-- A last part that notes nothing. -/
theorem notes_last {mid : List Obs → α → Prop} {last : List Obs → β → Prop} {p : Sup α} {k : α → Sup β}
    (hp : Notes mid p) (hk : ∀ a, Notes (fun log b => log = [] ∧ ∀ before, mid before a → last before b) (k a)) :
    Notes last (p >>= k) := by
  refine hp.bind fun log a hlog => (hk a).weaken ?_
  rintro _ b ⟨rfl, hb⟩
  simpa using hb log hlog

theorem notes_observe {f : World → α × Obs} {post : List Obs → α → Prop}
    (h : ∀ w, post [(f w).2] (f w).1) : Notes post (Sup.observe f) := by
  have hstep : Notes post (Sup.observe f >>= Pure.pure) := by
    refine .atomic fun o s b t heq => ?_
    obtain ⟨rfl, rfl⟩ := Prod.mk.inj (Option.some.inj heq)
    refine .pure ?_
    rw [noted_of_cons rfl]
    exact h s
  rwa [bind_pure] at hstep

/-! ### Shapes of the log -/

def Failures (log : List Obs) : Prop := ∀ obs ∈ log, ∃ thread node, obs = .precheck thread node false

/-- A passing pre-check and its install, after failing ones. -/
def Installs (me : Nat) (cls name : String) (log : List Obs) : Prop :=
  ∃ failures chosenAt publication, Failures failures ∧
    log = failures ++ [.precheck me name true, .installed me cls name chosenAt publication]

theorem Failures.append {log rest : List Obs} (h : Failures log) (hrest : Failures rest) :
    Failures (log ++ rest) :=
  List.forall_mem_append.mpr ⟨h, hrest⟩

theorem Installs.after {name : String} {log rest : List Obs} (h : Installs me cls name rest)
    (hlog : Failures log) : Installs me cls name (log ++ rest) := by
  obtain ⟨failures, chosenAt, publication, hfailures, rfl⟩ := h
  exact ⟨log ++ failures, chosenAt, publication, hlog.append hfailures, by simp⟩

/-- What an attempt at a candidate notes. -/
def Attempted (me : Nat) (node : Node) (log : List Obs) : Attempt → Prop
  | .activated active => active.node = node ∧ log = [.precheck me node.name true]
  | .elapsed | .failed _ => Failures log

/-- What a walk over candidates notes. -/
def Walked (me : Nat) (cls : String) (candidates : List Node) (log : List Obs) :
    Except (Option String) String → Prop
  | .ok name => (∃ node ∈ candidates, node.name = name) ∧ Installs me cls name log
  | .error _ => Failures log

theorem failures_nil : Failures [] := by simp [Failures]

theorem failures_one {thread : Nat} {node : String} : Failures [.precheck thread node false] := by
  simp [Failures]

/-! ### Candidates -/

theorem silent_release {name : LockName} : (Sup.release me name).Within Silent := silent_of_plain plain_release

theorem notes_tryActivate {node : Node} {fused : Bool} :
    Notes (Attempted me node) (Sup.tryActivate env me cls node fused) := by
  have hstop : ∀ {id : Nat} {log : List Obs} {attempt : Attempt}, Attempted me node log attempt →
      Notes (fun rest a => Attempted me node (log ++ rest) a) (do
        Sup.stopPlane id
        return attempt) := fun h => notes_then (silent_of_plain plain_stopPlane) fun _ => .pure (by simpa using h)
  have hchecked : ∀ passed, Notes (fun log _ => log = [.precheck me node.name passed])
      (Sup.observe fun _ => ((), .precheck me node.name passed)) := fun _ => notes_observe fun _ => rfl
  rw [Sup.tryActivate]
  refine notes_then within_ask fun reserved => ?_
  cases reserved with
  | error error => exact .pure failures_nil
  | ok spec =>
      refine notes_then (silent_of_plain plain_startFused) fun started => ?_
      rcases started with _ | _ | handle
      · exact .pure failures_nil
      · exact .pure failures_nil
      · refine notes_then within_ask fun checked => notes_then (within_fuse fused) fun elapsed => ?_
        cases elapsed with
        | true => exact hstop (show Attempted me node [] .elapsed from failures_nil)
        | false =>
            rcases checked with error | ⟨code, rtt⟩
            · exact (hchecked false).bind fun log _ hlog => hstop (hlog ▸ failures_one)
            · simp only [Bool.false_eq_true, if_false]
              split
              · exact (hchecked true).bind fun log _ hlog => .pure ⟨rfl, by simpa using hlog⟩
              · exact (hchecked false).bind fun log _ hlog => hstop (hlog ▸ failures_one)

theorem notes_installActive {newActive : ActiveNode} {cause : Cause} {chosenAt : Nat} :
    Notes (fun log _ => ∃ publication, log = [.installed me cls newActive.node.name chosenAt publication])
      (Sup.installActive env me cls newActive cause chosenAt) := by
  rw [Sup.installActive]
  refine notes_then within_look fun subscription => notes_then (silent_of_plain plain_replaceActive) fun old => ?_
  refine .atomic fun o s b t heq => ?_
  split at heq
  · obtain ⟨rfl, rfl⟩ := Prod.mk.inj (Option.some.inj heq)
    rw [noted_of_cons rfl]
    refine (notes_silent ?_).weaken fun log _ hlog => ⟨s.trail.published, by rw [hlog]; rfl⟩
    refine .bind (within_lockState fun _ _ => rfl) fun _ => ?_
    refine .bind (silent_of_plain (plain_of_minor minor_resetClassFailures)) fun _ => ?_
    refine .bind (silent_of_plain (plain_of_minor minor_saveState)) fun _ => .bind (silent_of_plain plain_pushEvent) fun _ => ?_
    cases old with
    | none => trivial
    | some old => exact within_modify fun _ => rfl
  · cases heq

theorem notes_tryCandidates {cause : Cause} {chosenAt : Nat} {lastCause : Option String} {candidates : List Node} :
    Notes (Walked me cls candidates) (Sup.tryCandidates env me cls cause chosenAt lastCause candidates) := by
  induction candidates generalizing cause lastCause with
  | nil => exact .pure failures_nil
  | cons candidate candidates ih =>
      rw [Sup.tryCandidates]
      refine notes_then within_look fun stopping => ?_
      split
      · exact .pure failures_nil
      refine notes_tryActivate.bind fun log attempt hattempt => ?_
      cases attempt with
      | elapsed =>
          have hfailures : Failures log := hattempt
          exact .pure (show Failures (log ++ []) by simpa using hfailures)
      | activated active =>
          obtain ⟨rfl, rfl⟩ := hattempt
          refine notes_last notes_installActive fun _ => .pure ⟨rfl, ?_⟩
          rintro _ ⟨publication, rfl⟩
          exact ⟨⟨active.node, List.mem_cons_self, rfl⟩, [], chosenAt, publication, failures_nil, rfl⟩
      | failed error =>
          have hfailures : Failures log := hattempt
          refine notes_then ?_ fun _ => notes_then (silent_of_plain plain_pushEvent) fun _ => ih.weaken ?_
          · unfold Sup.recordFailedCandidate
            split
            · exact within_lockState fun _ _ => rfl
            · trivial
          · intro rest outcome hrest
            cases outcome with
            | error error => exact hfailures.append hrest
            | ok name =>
                obtain ⟨⟨node, hmem, hname⟩, hinstalls⟩ := hrest
                exact ⟨⟨node, List.mem_cons_of_mem _ hmem, hname⟩, hinstalls.after hfailures⟩

/-! ### Switches -/

/-- Nothing effective was noted. -/
def Harmless (log : List Obs) : Prop := ∀ obs ∈ log, obs.effective = false

theorem harmless_nil : Harmless [] := by simp [Harmless]

theorem Failures.harmless {log : List Obs} (h : Failures log) : Harmless log := by
  intro obs hobs
  obtain ⟨thread, node, rfl⟩ := h obs hobs
  rfl

theorem Harmless.append {log rest : List Obs} (h : Harmless log) (hrest : Harmless rest) :
    Harmless (log ++ rest) :=
  List.forall_mem_append.mpr ⟨h, hrest⟩

/-- What a switch for a site notes. -/
def Switched (me : Nat) (cls site requested : String) (log : List Obs) : Except String SwitchOutcome → Prop
  | .ok _ => ∃ stamp now rest, log = .siteSwitch me site requested stamp now :: rest ∧
      (rest = [] ∨ ∃ name, Installs me cls name rest)
  | .error _ => Harmless log

theorem notes_switchToLocked {requested : String} {nodeBefore : Option String} {stamp : Option Stamp} :
    Notes (Switched me cls site requested)
      (Sup.switchToLocked env me cls requested (.site nodeBefore site stamp)) := by
  rw [Sup.switchToLocked]
  refine notes_then within_look fun pool => ?_
  dsimp only
  split
  · exact .pure harmless_nil
  rename_i node hnode
  have hasking : Notes (fun log _ => ∃ now, log = [.siteSwitch me site requested stamp now])
      (Sup.requestedFrom me cls requested (.site nodeBefore site stamp)) := notes_observe fun _ => ⟨_, rfl⟩
  refine hasking.bind ?_
  rintro _ current ⟨now, rfl⟩
  split
  · exact .pure ⟨stamp, now, [], rfl, .inl rfl⟩
  have hasked : ∀ {rest : List Obs}, Failures rest → Harmless (.siteSwitch me site requested stamp now :: rest) :=
    fun hrest => List.forall_mem_cons.mpr ⟨rfl, hrest.harmless⟩
  refine notes_tryCandidates.bind fun log outcome hwalked => ?_
  cases outcome with
  | ok installed => exact .pure ⟨stamp, now, log, by simp, .inr ⟨installed, hwalked.2⟩⟩
  | error error =>
      have hfailures : Failures log := hwalked
      refine notes_then within_readState fun candidates => ?_
      refine notes_tryCandidates.bind fun rest outcome hwalked => ?_
      cases outcome with
      | ok installed =>
          exact .pure ⟨stamp, now, log ++ rest, by simp, .inr ⟨installed, hwalked.2.after hfailures⟩⟩
      | error error =>
          have hrest : Failures rest := hwalked
          refine notes_then within_look fun _ => .pure ?_
          exact (show Harmless _ by simpa using hasked (hfailures.append hrest))

theorem notes_switchTo {requested : String} {nodeBefore : Option String} {stamp : Option Stamp} :
    Notes (Switched me cls site requested)
      (Sup.switchTo env me cls requested (.site nodeBefore site stamp)) := by
  refine notes_then (silent_of_plain plain_acquireRead) fun _ => ?_
  refine notes_last ?_ fun outcome => notes_then silent_release fun _ => .pure ⟨rfl, fun _ h => h⟩
  refine notes_then (silent_of_plain plain_acquireWrite) fun _ => ?_
  exact notes_last notes_switchToLocked fun outcome =>
    notes_then silent_release fun _ => .pure ⟨rfl, fun _ h => h⟩

/-! ### Requests -/

theorem notes_probeSiteNode {node : Node} {url : String} {takenAt : Nat} :
    Notes (fun log _ => Harmless log) (Sup.probeSiteNode me node site url takenAt) := by
  refine notes_then (silent_of_plain plain_acquireRead) fun _ => ?_
  refine notes_last ?_ fun _ => notes_then silent_release fun _ => .pure ⟨rfl, fun _ h => h⟩
  refine notes_then within_look fun gateAt => notes_then within_ask fun now => ?_
  refine notes_then (silent_of_plain plain_measureSite) fun verdict => ?_
  refine .atomic fun o s b t heq => ?_
  split at heq
  · obtain ⟨rfl, rfl⟩ := Prod.mk.inj (Option.some.inj heq)
    rw [noted_of_cons rfl]
    exact .pure (by simp [Harmless, Obs.effective])
  · cases heq

/-- The last switch of the request ended in an install. -/
structure Moved (me : Nat) (cls site requested installed : String) (log : List Obs) : Prop where
  shape : ∃ before stamp now stamp' now' rest, Harmless before ∧
    log = before ++ .siteVerdict me site requested .ok stamp now ::
      .siteSwitch me site requested stamp' now' :: rest ∧
    Installs me cls installed rest

/-- What the request notes: nothing effective, or a last switch that installs. -/
def Requested (me : Nat) (cls site : String) (log : List Obs) (reply : Reply) : Prop :=
  Harmless log ∨ ∃ requested installed, Moved me cls site requested installed log ∧
    reply.siteSwitch.bind (·.nodeAfter) = some requested

theorem Requested.after {log rest : List Obs} {reply : Reply} (h : Requested me cls site rest reply)
    (hlog : Harmless log) : Requested me cls site (log ++ rest) reply := by
  rcases h with hrest | ⟨requested, installed, ⟨before, stamp, now, stamp', now', last, hbefore, rfl, hlast⟩, hreply⟩
  · exact .inl (hlog.append hrest)
  · exact .inr ⟨requested, installed,
      ⟨log ++ before, stamp, now, stamp', now', last, hlog.append hbefore, by simp, hlast⟩, hreply⟩

theorem notes_noteVerdict {node : String} {verdict : SiteVerdict} {stamp : Option Stamp} :
    Notes (fun log _ => ∃ now, log = [.siteVerdict me site node verdict.status stamp now])
      (Sup.noteVerdict me site node verdict stamp) := notes_observe fun _ => ⟨_, rfl⟩

theorem notes_tryForSite {url : String} {nodeBefore : Option String} {tried takenAt : Nat} {candidates : List Node} :
    Notes (Requested me cls site)
      (Sup.tryForSite env me cls site url nodeBefore tried takenAt candidates) := by
  induction candidates with
  | nil => exact notes_then (silent_of_plain (plain_of_minor minor_saveState)) fun _ => .pure (.inl harmless_nil)
  | cons candidate candidates ih =>
      rw [Sup.tryForSite]
      refine notes_probeSiteNode.bind fun probed found hprobed => ?_
      obtain ⟨verdict, stamp⟩ := found
      dsimp only
      split
      · exact ih.weaken fun _ _ h => h.after hprobed
      rename_i hok
      refine notes_noteVerdict.bind ?_
      rintro _ _ ⟨now, rfl⟩
      refine notes_switchTo.bind fun switched outcome hswitched => ?_
      rw [not_not.mp hok]
      have hverdict : Harmless [.siteVerdict me site candidate.name .ok (some stamp) now] := by
        simp [Harmless, Obs.effective]
      cases outcome with
      | error error =>
          refine ih.weaken fun rest reply h => ?_
          exact ((h.after hswitched).after hverdict).after hprobed
      | ok outcome =>
          obtain ⟨stamp', now', rest, rfl, hrest⟩ := hswitched
          refine notes_then (silent_of_plain (plain_of_minor minor_saveState)) fun _ => .pure ?_
          rcases hrest with rfl | ⟨installed, hinstalls⟩
          · refine .inl (hprobed.append ?_)
            simp [Harmless, Obs.effective]
          · exact .inr ⟨candidate.name, installed,
              ⟨probed, some stamp, now, stamp', now', rest, hprobed, by simp, hinstalls⟩, rfl⟩

theorem notes_incumbentVerdict {url current : String} :
    Notes (fun log _ => Harmless log) (Sup.incumbentVerdict env me site url current) := by
  refine notes_then (silent_of_plain (plain_of_minor minor_freshVerdict)) fun fresh => ?_
  split
  · refine notes_last notes_noteVerdict fun _ => .pure ⟨rfl, ?_⟩
    rintro _ ⟨now, rfl⟩
    simp [Harmless, Obs.effective]
  · refine notes_then within_look fun pool => ?_
    dsimp only
    split
    · refine notes_probeSiteNode.bind fun log _ hlog => ?_
      refine notes_last notes_noteVerdict fun _ => .pure ⟨rfl, ?_⟩
      rintro _ ⟨now, rfl⟩
      exact hlog.append (by simp [Harmless, Obs.effective])
    · exact notes_then within_ask fun _ => .pure harmless_nil

theorem notes_switchForSite : Notes (Requested me cls site) (Sup.switchForSite env me cls site) := by
  have hnone : ∀ {reply : Reply}, Requested me cls site [] reply := .inl harmless_nil
  have hsearch : ∀ {url : String} {nodeBefore : Option String},
      Notes (Requested me cls site) (Sup.searchForSite env me cls site url nodeBefore) :=
    notes_then within_look fun _ => notes_then within_readState fun _ => notes_tryForSite
  have hread : (Sup.withWrite me (.cls cls) (Sup.activeName cls)).Within Silent :=
    .bind (silent_of_plain plain_acquireWrite) fun _ => .bind within_look fun _ => .bind silent_release fun _ => trivial
  rw [Sup.switchForSite]
  split
  · exact .pure hnone
  split
  · exact .pure hnone
  refine notes_then hread fun nodeBefore => ?_
  cases nodeBefore with
  | none => exact hsearch
  | some current =>
      refine notes_incumbentVerdict.bind fun log verdict hlog => ?_
      split
      · exact .pure (.inl (by simpa using hlog))
      · exact hsearch.weaken fun _ _ h => h.after hlog

/-! ### The two shapes -/

/-- What is not effective asks nothing of the log after it. -/
theorem NoFallback.skip {log rest : List Obs} (hlog : Harmless log) (requested : Option String) :
    ∃ requested', NoFallback requested (log ++ rest) ↔ NoFallback requested' rest := by
  induction log generalizing requested with
  | nil => exact ⟨requested, Iff.rfl⟩
  | cons obs log ih =>
      obtain ⟨hobs, hrest⟩ := List.forall_mem_cons.mp hlog
      cases obs with
      | siteSwitch thread site node stamp now => exact ih hrest (some node)
      | precheck thread node passed =>
          cases hobs
          exact ih hrest requested
      | installed thread cls node chosenAt publication => cases hobs
      | siteVerdict thread site node status stamp now => exact ih hrest requested
      | siteRecorded site node stamp => exact ih hrest requested
      | probeErred node => exact ih hrest requested
      | probeRecorded node readAt stamp => exact ih hrest requested

theorem NoFallback.failures {log rest : List Obs} (hlog : Failures log) (requested : Option String) :
    NoFallback requested (log ++ rest) ↔ NoFallback requested rest := by
  induction log with
  | nil => exact Iff.rfl
  | cons obs log ih =>
      obtain ⟨⟨thread, node, rfl⟩, hrest⟩ := List.forall_mem_cons.mp hlog
      exact ih hrest

theorem Harmless.noFallback {log : List Obs} (h : Harmless log) (requested : Option String) :
    NoFallback requested log := by
  have hskip : ∃ requested', NoFallback requested (log ++ []) ↔ NoFallback requested' [] :=
    NoFallback.skip h requested
  obtain ⟨requested', hiff⟩ := hskip
  rw [List.append_nil] at hiff
  exact hiff.mpr trivial

theorem Harmless.not_installed {log : List Obs} (h : Harmless log) {thread : Nat} {node : String}
    {chosenAt publication : Nat} : .installed thread cls node chosenAt publication ∉ log := by
  intro hmem
  cases h _ hmem

theorem Moved.noFallback_iff {requested installed : String} {log : List Obs}
    (h : Moved me cls site requested installed log) : NoFallback none log ↔ requested = installed := by
  obtain ⟨before, stamp, now, stamp', now', rest, hbefore, rfl, failures, chosenAt, publication, hfailures, rfl⟩ := h.shape
  obtain ⟨requested', hskip⟩ := NoFallback.skip hbefore none
  rw [hskip]
  simp only [NoFallback]
  rw [NoFallback.failures hfailures]
  simp [NoFallback]

theorem Moved.installed_iff {thread : Nat} {requested installed node : String} {log : List Obs}
    (h : Moved me cls site requested installed log) :
    (∃ chosenAt publication, .installed thread cls node chosenAt publication ∈ log) ↔
      thread = me ∧ node = installed := by
  obtain ⟨before, stamp, now, stamp', now', rest, hbefore, rfl, failures, chosenAt, publication, hfailures, rfl⟩ := h.shape
  constructor
  · rintro ⟨chosenAt', publication', hmem⟩
    simp only [List.mem_append, List.mem_cons] at hmem
    rcases hmem with hmem | hmem | hmem | hmem | hmem | hmem | hmem
    · exact absurd hmem hbefore.not_installed
    · cases hmem
    · cases hmem
    · exact absurd hmem hfailures.harmless.not_installed
    · cases hmem
    · cases hmem
      exact ⟨rfl, rfl⟩
    · cases hmem
  · rintro ⟨rfl, rfl⟩
    exact ⟨chosenAt, publication, by simp⟩

theorem Moved.verdict {requested installed : String} {log : List Obs}
    (h : Moved me cls site requested installed log) :
    ∃ stamp now, .siteVerdict me site requested .ok stamp now ∈ log := by
  obtain ⟨before, stamp, now, stamp', now', rest, _, rfl, _⟩ := h.shape
  exact ⟨stamp, now, by simp⟩

end

/-- A finished site request has confirmed whatever it installed exactly if no fallback candidate passed its pre-check in place of the node it asked for. -/
theorem site_installs_iff {env : Env} {w : World} {tasks : Nat → Task} {moves : List (Move World)}
    {last : Pool World Outside Reply} (run : (daemon env tasks w).Run moves last) {i : Nat} {cls site : String}
    (htask : tasks i = .switchForSite cls site) {reply : Reply} (hdone : last.thread i = .done reply) :
    InstallsConfirmed cls site (ownLog i moves) reply ↔ NoFallback none (ownLog i moves) := by
  have hpath := run.path i
  rw [hdone, show (daemon env tasks w).thread i = Sup.switchForSite env i cls site by simp [daemon, htask, Task.prog]]
    at hpath
  have hshape : Requested i cls site (ownLog i moves) reply := notes_switchForSite _ _ hpath
  rcases hshape with hnothing | ⟨requested, installed, hmoved, hreply⟩
  · exact ⟨fun _ => hnothing.noFallback none, fun _ _ _ _ _ hmem => absurd hmem hnothing.not_installed⟩
  rw [hmoved.noFallback_iff]
  constructor
  · intro hconfirmed
    obtain ⟨chosenAt, publication, hmem⟩ := hmoved.installed_iff.mpr ⟨rfl, rfl⟩
    have hafter := (hconfirmed i installed chosenAt publication hmem).2
    exact Option.some.inj (hreply.symm.trans hafter)
  · rintro rfl thread node chosenAt publication hmem
    obtain ⟨rfl, rfl⟩ := hmoved.installed_iff.mp ⟨chosenAt, publication, hmem⟩
    exact ⟨hmoved.verdict, hreply⟩

/-- What the request notes before it switches: the site blocks A and serves B. -/
def Sample.foundLog : List Obs :=
  [.siteRecorded "site" "A" ⟨0, 0, 0⟩, .siteVerdict 1 "site" "A" .blocked (some ⟨0, 0, 0⟩) 0,
    .siteRecorded "site" "B" ⟨0, 0, 0⟩, .siteVerdict 1 "site" "B" .ok (some ⟨0, 0, 0⟩) 0,
    .siteSwitch 1 "site" "B" (some ⟨0, 0, 0⟩) 0]

/-- The request installs the node it has confirmed. -/
theorem site_installs_requested : ∃ moves last reply,
    (daemon (Sample.env Sample.web) (Sample.assign Sample.leaveTasks) (Sample.wideWorld Sample.web)).Run
      moves last ∧ last.thread 1 = .done reply ∧
    .installed 1 "web" "B" 0 0 ∈ ownLog 1 moves ∧ InstallsConfirmed "web" "site" (ownLog 1 moves) reply := by
  obtain ⟨moves, last, run, hends⟩ := Pool.trace_reaches (Sample.leaveSchedule ++ Sample.steps 1 43 Sample.fine)
    (daemon (Sample.env Sample.web) (Sample.assign Sample.leaveTasks) (Sample.wideWorld Sample.web))
    (fun moves last => Sample.answered 1 (fun _ => true) last &&
      ownLog 1 moves = Sample.foundLog ++ [.precheck 1 "B" true, .installed 1 "web" "B" 0 0]) (by decide +kernel)
  rw [Bool.and_eq_true, decide_eq_true_eq] at hends
  obtain ⟨reply, hdone, _⟩ := Sample.of_answered hends.1
  have hstraight : NoFallback none (ownLog 1 moves) := by
    rw [hends.2]
    simp [Sample.foundLog, NoFallback]
  exact ⟨moves, last, reply, run, hdone, by simp [hends.2], (site_installs_iff run rfl hdone).mpr hstraight⟩

/-- The confirmed node fails its pre-check, a node the site was never asked about is installed, and the reply names the first. -/
theorem site_installs_unconfirmed : ∃ moves last reply,
    (daemon (Sample.env Sample.web) (Sample.assign Sample.leaveTasks) (Sample.wideWorld Sample.web)).Run
      moves last ∧ last.thread 1 = .done reply ∧ reply.siteSwitch.bind (·.nodeAfter) = some "B" ∧
    .installed 1 "web" "C" 0 0 ∈ ownLog 1 moves ∧ ¬ InstallsConfirmed "web" "site" (ownLog 1 moves) reply := by
  obtain ⟨moves, last, run, hends⟩ := Pool.trace_reaches
    (Sample.leaveSchedule ++ Sample.steps 1 8 Sample.fine ++
      Sample.steps 1 1 { Sample.fine with status := fun _ => none } ++ Sample.steps 1 44 Sample.fine)
    (daemon (Sample.env Sample.web) (Sample.assign Sample.leaveTasks) (Sample.wideWorld Sample.web))
    (fun moves last => Sample.answered 1 (fun reply => reply.siteSwitch.bind (·.nodeAfter) = some "B") last &&
      ownLog 1 moves = Sample.foundLog ++
        [.precheck 1 "B" false, .precheck 1 "C" true, .installed 1 "web" "C" 0 0]) (by decide +kernel)
  rw [Bool.and_eq_true, decide_eq_true_eq] at hends
  obtain ⟨reply, hdone, hreply⟩ := Sample.of_answered hends.1
  have hafter : reply.siteSwitch.bind (·.nodeAfter) = some "B" := by simpa using hreply
  have hinstalled : .installed 1 "web" "C" 0 0 ∈ ownLog 1 moves := by simp [hends.2]
  refine ⟨moves, last, reply, run, hdone, hafter, hinstalled, fun hconfirmed => ?_⟩
  have hnode := (hconfirmed 1 "C" 0 0 hinstalled).2
  rw [hafter] at hnode
  exact absurd hnode (by decide)

end Causeway

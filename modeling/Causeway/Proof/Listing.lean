import Causeway.Order.Slots
import Causeway.Proof.Jobs

/-!
# The listing of an on-demand round

A request lists the nodes of its pool in the pool's order, each with the result of its own task, whatever order the tasks end in and whichever of them panic. A task tells by its steps whether it was skipped, and what it recorded.
-/

namespace Causeway

open Concurrent Prog History

/-! ### One task -/

def KeepsStats (step : World × World) : Prop := step.2.state.nodes = step.1.state.nodes

/-- The step records one sample of the node in the statistics. -/
def Samples (env : Env) (name : String) (rtt : Option ℚ) (step : World × World) : Prop :=
  ∃ now, step.2.state = { step.1.state.updateStats name fun stats =>
    stats.recordProbe rtt env.cfg.selection.emaAlpha now with updatedUnix := now }

def TakesGate (me : Nat) (step : World × World) : Prop :=
  ∃ lock, (step.1.locks .reconfiguration).acquireRead me = some lock ∧
    step.2 = { step.1 with locks := Function.update step.1.locks .reconfiguration lock }

/-- A 64-bit era tells two numbers of publications apart unless a multiple of `2 ^ 64` lies between them. -/
theorem era_eq_iff {earlier later : Nat} (h : earlier ≤ later) :
    UInt64.ofNat later = UInt64.ofNat earlier ↔ 2 ^ 64 ∣ later - earlier := by
  rw [← UInt64.toNat_inj, UInt64.toNat_ofNat', UInt64.toNat_ofNat']
  omega

/-- How the test of a node ends. -/
inductive TestOutcome where
  | unreserved (error : String)
  | unstarted (error : String)
  | answered (code : Nat) (rtt : ℚ)
  | unanswered (error : String)

namespace TestOutcome

/-- Only an answer with a status of success has a latency. -/
def latency : TestOutcome → Option ℚ
  | .answered code rtt => if 200 ≤ code ∧ code < 300 then some rtt else none
  | _ => none

def httpStatus : TestOutcome → Option Nat
  | .answered code _ => if 200 ≤ code ∧ code < 300 then none else some code
  | _ => none

def error : TestOutcome → Option String
  | .unreserved error => some ("reserve adapter ports: " ++ error)
  | .unstarted error => some error
  | .answered _ _ => none
  | .unanswered error => some error

/-- What the listing has of it. -/
def result (name : String) (outcome : TestOutcome) : ProbeResult where
  node := name
  ok := outcome.latency.isSome
  rttMs := outcome.latency
  httpStatus := outcome.httpStatus
  error := outcome.error

/-- What is recorded of it, a latency or a failure; nothing if there were no ports. -/
def sample : TestOutcome → Option (Option ℚ)
  | .unreserved _ => none
  | outcome => some outcome.latency

end TestOutcome

/-- The answers of the outside to the start of a plane. -/
inductive Starts : List Outside → Except String Unit → Prop
  | unspawned (spawned : Outside) (h : spawned.ok = false) : Starts [spawned] (.error spawned.detail)
  | unready (spawned ready killed : Outside) (hspawned : spawned.ok = true) (h : ready.ok = false) :
      Starts [spawned, ready, killed] (.error ready.detail)
  | ready (spawned ready : Outside) (hspawned : spawned.ok = true) (h : ready.ok = true) : Starts [spawned, ready] (.ok ())

/-- The answers of the outside decide the outcome: those to the reservation, the start, the check and the stop. -/
inductive Decides (url : String) : List Outside → TestOutcome → Prop
  | unreserved (reserved : Outside) (h : reserved.ok = false) : Decides url [reserved] (.unreserved reserved.detail)
  | unstarted (reserved : Outside) (start : List Outside) (error : String) (hreserved : reserved.ok = true)
      (hstart : Starts start (.error error)) : Decides url (reserved :: start) (.unstarted error)
  | answered (reserved checked stopped : Outside) (start : List Outside) (code : Nat) (hreserved : reserved.ok = true)
      (hstart : Starts start (.ok ())) (h : checked.status url = some code) :
      Decides url (reserved :: start ++ [checked, stopped]) (.answered code checked.rtt)
  | unanswered (reserved checked stopped : Outside) (start : List Outside) (hreserved : reserved.ok = true)
      (hstart : Starts start (.ok ())) (h : checked.status url = none) :
      Decides url (reserved :: start ++ [checked, stopped]) (.unanswered checked.detail)

/-- Exactly one of the steps records a sample, of this node and with this time. -/
def SamplesOnce (env : Env) (name : String) (rtt : Option ℚ) (steps : List (World × World)) : Prop :=
  ∃ before step after, steps = before ++ step :: after ∧ Samples env name rtt step ∧
    (∀ other ∈ before, KeepsStats other) ∧ ∀ other ∈ after, KeepsStats other

/-- The sample of an outcome is recorded once; without one nothing is. -/
def Reported (env : Env) (name : String) (record : Bool) (outcome : TestOutcome) (steps : List (World × World)) : Prop :=
  match outcome.sample with
  | none => ∀ step ∈ steps, KeepsStats step
  | some rtt => record = true → SamplesOnce env name rtt steps

/-- A task was let in, has taken the gate after the era was read, and leaves the statistics alone around its test. -/
structure Gated (me readAt : Nat) (entered gate check release : Outside × World × World) : Prop where
  admitted : entered.1.panicked = false
  takes : TakesGate me gate.2
  since : readAt ≤ gate.2.1.trail.published
  kept : ∀ step ∈ [entered, gate, check, release], KeepsStats step.2

/-- How a task of a round ends, by what the outside answered at its steps: with a panic, skipped because something was published after the era was read, or with the outcome of its test. -/
inductive Probed (env : Env) (me : Nat) (node : Node) (cls : String) (readAt : Nat) :
    List (Outside × World × World) → Option ProbeResult → Prop
  | panicked {entered : Outside × World × World} (panicked : entered.1.panicked = true) (kept : KeepsStats entered.2) :
      Probed env me node cls readAt [entered] none
  | skipped {entered gate check release : Outside × World × World} (gated : Gated me readAt entered gate check release)
      (era : ¬ 2 ^ 64 ∣ gate.2.1.trail.published - readAt) :
      Probed env me node cls readAt [entered, gate, check, release]
        (some ⟨node.name, false, none, none, some "skipped: subscription changed"⟩)
  | tested {entered gate check release : Outside × World × World} {test report : List (Outside × World × World)}
      {outcome : TestOutcome} (gated : Gated me readAt entered gate check release)
      (era : 2 ^ 64 ∣ gate.2.1.trail.published - readAt)
      (decided : Decides (env.cfg.classHealthUrl cls) (test.map Prod.fst) outcome)
      (kept : ∀ step ∈ test, KeepsStats step.2)
      (reported : Reported env node.name (env.cfg.classHealthOverride cls).isNone outcome (report.map Prod.snd)) :
      Probed env me node cls readAt (entered :: gate :: check :: (test ++ report) ++ [release])
        (some (outcome.result node.name))

section

variable {env : Env} {me : Nat} {node : Node} {cls url : String} {record : Bool} {takenAt readAt : Nat} {α : Type}
  {steps : List (World × World)} {told : List (Outside × World × World)} {result : ProbeResult}

theorem keeps_of_plain {p q : Sup α} (h : p.Within Plain) (path : Prog.Told p told q) :
    ∀ step ∈ told, KeepsStats step.2 :=
  fun _ hstep => ((h.path path.path).1 _ (List.mem_map_of_mem hstep)).nodes

theorem samples_recordProbeResult {rtt : Option ℚ}
    (path : Prog.Path (Sup.recordProbeResult env node rtt takenAt readAt) steps (.done ())) :
    ∃ step, steps = [step] ∧ Samples env node.name rtt step := by
  cases path with
  | cons taken rest =>
      dsimp only at taken
      split at taken
      · obtain ⟨rfl, rfl⟩ := Prod.mk.inj (Option.some.inj taken)
        rw [rest.of_done]
        exact ⟨_, rfl, _, rfl⟩
      · cases taken

/-- A report that records does so once after all it does beside. -/
theorem samplesOnce_after {before last : List (World × World)} {rtt : Option ℚ} {value answer : α}
    (hbefore : ∀ step ∈ before, KeepsStats step)
    (path : Prog.Path (Sup.recordProbeResult env node rtt takenAt readAt >>= fun _ => pure answer : Sup α) last (.done value)) :
    value = answer ∧ SamplesOnce env node.name rtt (before ++ last) := by
  obtain ⟨first, _, second, rfl, hrecord, hanswer⟩ := path.of_bind
  obtain ⟨step, rfl, hsample⟩ := samples_recordProbeResult hrecord
  cases hanswer
  exact ⟨rfl, before, step, [], by simp, hsample, hbefore, by simp⟩

theorem samplesOnce_of_path {rtt : Option ℚ} {value answer : α}
    (path : Prog.Path (do
      if record then Sup.recordProbeResult env node rtt takenAt readAt
      return answer : Sup α) steps (.done value)) :
    value = answer ∧ (record = true → SamplesOnce env node.name rtt steps) := by
  cases record with
  | true =>
      obtain ⟨heq, hsampled⟩ := samplesOnce_after (fun _ hnone => absurd hnone List.not_mem_nil) path
      exact ⟨heq, fun _ => hsampled⟩
  | false =>
      cases path
      exact ⟨rfl, fun h => absurd h Bool.false_ne_true⟩

theorem isSuccess_iff {code : Nat} : isSuccess code = true ↔ 200 ≤ code ∧ code < 300 := by simp [isSuccess]

theorem told_ask {β : Type} {f : Outside → α} {k : α → Sup β} {value : β}
    (path : Prog.Told (Sup.ask f >>= k) told (.done value)) :
    ∃ o s rest, told = (o, s, s) :: rest ∧ Prog.Told (k (f o)) rest (.done value) := by
  obtain ⟨o, s, answer, t, rest, rfl, hasked, hafter⟩ := Prog.Told.of_atomic path
  obtain ⟨rfl, rfl⟩ := Prod.mk.inj (Option.some.inj hasked)
  exact ⟨o, s, rest, rfl, hafter⟩

theorem starts_of_told {spec : Sup.StartSpec} {started : Except String Handle}
    (path : Prog.Told (Sup.startPlane me spec) told (.done started)) :
    Starts (told.map Prod.fst) (started.map fun _ => ()) := by
  rw [Sup.startPlane] at path
  obtain ⟨spawned, s, answer, t, rest, rfl, hspawn, hafter⟩ := Prog.Told.of_atomic path
  replace hspawn := Option.some.inj hspawn
  dsimp only at hspawn
  split at hspawn
  · rename_i hspawned
    obtain ⟨rfl, rfl⟩ := Prod.mk.inj hspawn
    obtain ⟨ready, u, rest, rfl, hsettled⟩ := told_ask hafter
    by_cases hready : ready.ok = true
    · rw [if_pos hready] at hsettled
      cases hsettled
      exact .ready spawned ready hspawned hready
    · rw [if_neg hready] at hsettled
      obtain ⟨killed, _, _, _, rest, rfl, -, hfailed⟩ := Prog.Told.of_atomic hsettled
      cases hfailed
      exact .unready spawned ready killed hspawned (Bool.eq_false_of_not_eq_true hready)
  · rename_i hspawned
    obtain ⟨rfl, rfl⟩ := Prod.mk.inj hspawn
    cases hafter
    exact .unspawned spawned (Bool.eq_false_of_not_eq_true hspawned)

/-- `test_node`: what the outside answers decides what is listed and what is recorded. -/
theorem testNode_told (path : Prog.Told (Sup.testNode env me url node record takenAt readAt) told (.done result)) :
    ∃ test report outcome, told = test ++ report ∧ Decides url (test.map Prod.fst) outcome ∧
      (∀ step ∈ test, KeepsStats step.2) ∧ Reported env node.name record outcome (report.map Prod.snd) ∧
      result = outcome.result node.name := by
  rw [Sup.testNode, Sup.reserve] at path
  obtain ⟨reserved, s, rest, rfl, hafter⟩ := told_ask path
  by_cases hreserved : reserved.ok = true
  · rw [if_pos hreserved] at hafter
    obtain ⟨start, started, rest, rfl, hstarting, hgoes⟩ := Prog.Told.of_bind hafter
    have hstarts := starts_of_told hstarting
    have hstarted : ∀ step ∈ (reserved, s, s) :: start, KeepsStats step.2 :=
      List.forall_mem_cons.mpr ⟨rfl, keeps_of_plain plain_startPlane hstarting⟩
    cases started with
    | error error =>
        obtain ⟨rfl, hsampled⟩ := samplesOnce_of_path hgoes.path
        exact ⟨_ :: start, rest, .unstarted error, rfl, .unstarted reserved _ error hreserved hstarts, hstarted, hsampled,
          rfl⟩
    | ok handle =>
        obtain ⟨checked, u, rest, rfl, hchecked⟩ := told_ask hgoes
        obtain ⟨stopped, x, _, y, report, rfl, hstop, hreport⟩ := Prog.Told.of_atomic hchecked
        have hstopped : KeepsStats (x, y) := by
          obtain ⟨-, rfl⟩ := Prod.mk.inj (Option.some.inj hstop)
          rfl
        have hkept : ∀ step ∈ (reserved, s, s) :: start ++ [(checked, u, u), (stopped, x, y)], KeepsStats step.2 :=
          List.forall_mem_append.mpr ⟨hstarted, List.forall_mem_cons.mpr ⟨rfl, List.forall_mem_singleton.mpr hstopped⟩⟩
        refine ⟨(reserved, s, s) :: start ++ [(checked, u, u), (stopped, x, y)], report, ?_⟩
        cases hstatus : checked.status url with
        | none =>
            rw [hstatus] at hreport
            -- This arm records even if it was not asked to.
            obtain ⟨o, v, _, w, rest, rfl, hobserve, hrecord⟩ := Prog.Told.of_atomic hreport
            have hobserved : KeepsStats (v, w) := by
              obtain ⟨-, rfl⟩ := Prod.mk.inj (Option.some.inj hobserve)
              rfl
            obtain ⟨rfl, hsampled⟩ := samplesOnce_after (List.forall_mem_singleton.mpr hobserved) hrecord.path
            refine ⟨.unanswered checked.detail, by simp, ?_, hkept, fun _ => hsampled, rfl⟩
            rw [List.map_append]
            exact .unanswered reserved checked stopped _ hreserved hstarts hstatus
        | some code =>
            rw [hstatus] at hreport
            refine ⟨.answered code checked.rtt, by simp, ?_, hkept, ?_⟩
            · rw [List.map_append]
              exact .answered reserved checked stopped _ code hreserved hstarts hstatus
            dsimp only at hreport
            split at hreport
            · rename_i hsuccess
              obtain ⟨rfl, hsampled⟩ := samplesOnce_of_path hreport.path
              have hlatency : (TestOutcome.answered code checked.rtt).latency = some checked.rtt :=
                if_pos (isSuccess_iff.mp hsuccess)
              have hstatus : (TestOutcome.answered code checked.rtt).httpStatus = none := if_pos (isSuccess_iff.mp hsuccess)
              rw [TestOutcome.result, hlatency, hstatus]
              refine ⟨?_, rfl⟩
              show record = true → SamplesOnce env node.name (TestOutcome.answered code checked.rtt).latency _
              rwa [hlatency]
            · rename_i hfailure
              obtain ⟨rfl, hsampled⟩ := samplesOnce_of_path hreport.path
              have hlatency : (TestOutcome.answered code checked.rtt).latency = none :=
                if_neg fun h => hfailure (isSuccess_iff.mpr h)
              have hstatus : (TestOutcome.answered code checked.rtt).httpStatus = some code :=
                if_neg fun h => hfailure (isSuccess_iff.mpr h)
              rw [TestOutcome.result, hlatency, hstatus]
              refine ⟨?_, rfl⟩
              show record = true → SamplesOnce env node.name (TestOutcome.answered code checked.rtt).latency _
              rwa [hlatency]
  · rw [if_neg hreserved] at hafter
    cases hafter
    exact ⟨[_], [], .unreserved reserved.detail, rfl, .unreserved reserved (Bool.eq_false_of_not_eq_true hreserved),
      List.forall_mem_singleton.mpr rfl, by simp [Reported, TestOutcome.sample], rfl⟩

/-- A scope that holds a lock for reading: it is taken, the body runs, and it is released. -/
theorem withRead_told {name : LockName} {body : Sup α} {value : α}
    (path : Prog.Told (Sup.withRead me name body) told (.done value)) :
    ∃ taken inner release lock, told = taken :: inner ++ [release] ∧
      (taken.2.1.locks name).acquireRead me = some lock ∧
      taken.2.2 = { taken.2.1 with locks := Function.update taken.2.1.locks name lock } ∧
      Prog.Told body inner (.done value) ∧ KeepsStats release.2 := by
  obtain ⟨o, s, _, _, rest, rfl, htaken, hrest⟩ := Prog.Told.of_atomic path
  obtain ⟨lock, hlock, heq⟩ := Option.map_eq_some_iff.mp htaken
  obtain ⟨-, rfl⟩ := Prod.mk.inj heq
  obtain ⟨inner, result, last, rfl, hinner, hlast⟩ := Prog.Told.of_bind hrest
  obtain ⟨o', u, _, _, rest, rfl, hreleased, hreturn⟩ := Prog.Told.of_atomic hlast
  obtain ⟨-, rfl⟩ := Prod.mk.inj (Option.some.inj hreleased)
  cases hreturn
  exact ⟨(o, s, _), inner, (o', u, _), lock, rfl, hlock, rfl, hinner, rfl⟩

/-- `probe_now_node`: under the gate the era is checked, and the node tested if it is current. -/
theorem probeNowNode_told {era : UInt64}
    (path : Prog.Told (Sup.probeNowNode env me node era url record takenAt readAt) told (.done result)) :
    ∃ gate check test release, told = gate :: check :: test ++ [release] ∧ TakesGate me gate.2 ∧
      (∀ step ∈ [gate, check, release], KeepsStats step.2) ∧
      (check.2.1.subscriptions.generation ≠ era ∧ test = [] ∧
          result = ⟨node.name, false, none, none, some "skipped: subscription changed"⟩ ∨
        check.2.1.subscriptions.generation = era ∧
          Prog.Told (Sup.testNode env me url node record takenAt readAt) test (.done result)) := by
  obtain ⟨gate, inner, release, lock, rfl, hlock, hgate, hinner, hrelease⟩ := withRead_told path
  obtain ⟨o, s, _, _, test, rfl, hcheck, htest⟩ := Prog.Told.of_atomic hinner
  obtain ⟨rfl, rfl⟩ := Prod.mk.inj (Option.some.inj hcheck)
  have hkept : KeepsStats gate.2 := by rw [KeepsStats, hgate]
  have hlooked : KeepsStats (s, s) := rfl
  refine ⟨gate, (o, s, s), test, release, rfl, ⟨lock, hlock, hgate⟩, by simp [hkept, hlooked, hrelease], ?_⟩
  split at htest
  · rename_i hera
    cases htest
    exact .inl ⟨hera, rfl, rfl⟩
  · rename_i hera
    exact .inr ⟨not_not.mp hera, htest⟩

theorem probed_of_told {request : Nat} {era : UInt64} {outcome : Option ProbeResult} (hera : era = UInt64.ofNat readAt)
    (hgate : ∀ entered gate check later, told.map Prod.snd = entered :: gate :: check :: later → TakesGate me gate →
      readAt ≤ gate.1.trail.published ∧ check.1.subscriptions.generation = UInt64.ofNat gate.1.trail.published)
    (path : Prog.Told (Sup.probeTask env me request node era cls takenAt readAt) told (.done outcome)) :
    Probed env me node cls readAt told outcome := by
  subst hera
  obtain ⟨o, s, panicked, t, rest, rfl, hentered, hrest⟩ := Prog.Told.of_atomic path
  obtain ⟨hpanicked, hkept⟩ : panicked = o.panicked ∧ KeepsStats (s, t) := by
    split at hentered
    · obtain ⟨rfl, rfl⟩ := Prod.mk.inj (Option.some.inj hentered)
      exact ⟨rfl, rfl⟩
    · cases hentered
  cases panicked with
  | true =>
      cases hrest
      exact .panicked hpanicked.symm hkept
  | false =>
      obtain ⟨testing, result, last, rfl, hnode, hlast⟩ := Prog.Told.of_bind hrest
      cases hlast
      rw [List.append_nil] at hgate ⊢
      obtain ⟨gate, check, test, release, rfl, htaken, hkeeps, hend⟩ := probeNowNode_told hnode
      obtain ⟨hsince, hgeneration⟩ := hgate (s, t) gate.2 check.2 ((test ++ [release]).map Prod.snd) rfl htaken
      rw [hgeneration, Ne, era_eq_iff hsince] at hend
      have hgated : Gated me readAt (o, s, t) gate check release :=
        ⟨hpanicked.symm, htaken, hsince, List.forall_mem_cons.mpr ⟨hkept, hkeeps⟩⟩
      rcases hend with ⟨hera, rfl, rfl⟩ | ⟨hera, htest⟩
      · exact .skipped hgated hera
      · obtain ⟨test, report, outcome, rfl, hdecided, hkept, hreported, rfl⟩ := testNode_told htest
        exact .tested hgated hera hdecided hkept hreported

end

/-! ### The request -/

section

variable {cls : String} {steps : List (World × World)} {request count : Nat} {slots filled : List (Option ProbeResult)}

theorem joinNext_path {entry : Nat × Option ProbeResult} (path : Prog.Path (Sup.joinNext request) steps (.done entry)) :
    ∃ step, steps = [step] ∧ KeepsStats step ∧ ∃ choice, step.1.finished[choice]? = some (request, entry) ∧
      step.2.finished = step.1.finished.eraseIdx choice := by
  cases path with
  | cons taken rest =>
      dsimp only at taken
      split at taken
      · rename_i hget
        split at taken
        · rename_i hof
          obtain ⟨rfl, rfl⟩ := Prod.mk.inj (Option.some.inj taken)
          cases rest
          exact ⟨_, rfl, rfl, _, hof ▸ hget, rfl⟩
        · cases taken
      · cases taken

theorem fall_ended {s t : World} {choice : Nat} {entry : JobResult}
    {kind : JobResult → Bool} (hentry : s.finished[choice]? = some entry)
    (hfinished : t.finished = s.finished.eraseIdx choice) :
    fall (ended kind) (s, t) = if kind entry = true then 1 else 0 := by
  obtain ⟨hlt, hget⟩ := List.getElem?_eq_some_iff.mp hentry
  have hperm := (List.getElem_cons_eraseIdx_perm hlt).countP_eq kind
  rw [hget, List.countP_cons] at hperm
  rw [fall_mk, ended, ended, hfinished]
  omega

/-- The joins of a round fill the slots with as many results as they take from it. -/
theorem joinAll_path (path : Prog.Path (Sup.joinAll request count slots) steps (.done filled)) :
    ∃ joined : List (Nat × Option ProbeResult), joined.length = count ∧ filled = Slots.fill slots joined ∧
      (∀ kind, joined.countP (fun entry => kind (request, entry)) = tally (fall (ended kind)) steps) ∧
      ∀ step ∈ steps, KeepsStats step := by
  induction count generalizing slots steps with
  | zero =>
      cases path
      exact ⟨[], rfl, rfl, fun _ => rfl, by simp⟩
  | succ count ih =>
      obtain ⟨first, entry, rest, rfl, hfirst, hrest⟩ := Prog.Path.of_bind path
      obtain ⟨step, rfl, hkept, choice, hget, hfinished⟩ := joinNext_path hfirst
      obtain ⟨joined, rfl, rfl, hcount, hkeeps⟩ := ih hrest
      refine ⟨entry :: joined, rfl, rfl, fun kind => ?_, List.forall_mem_cons.mpr ⟨hkept, hkeeps⟩⟩
      have hfall : fall (ended kind) step = if kind (request, entry) = true then 1 else 0 := fall_ended hget hfinished
      rw [List.singleton_append, tally_cons, hfall, ← hcount, List.countP_cons, Nat.add_comm]

/-- How a request for a listing begins: the pool is taken, the era is read, a round is opened and its jobs are spawned. -/
structure OpensRound (cls : String) (taken read opening spawning : World × World) : Prop where
  takes : taken.2 = taken.1
  reads : read.2 = read.1
  unspawned : opening.2.jobs = opening.1.jobs
  next : opening.2.nextRequest = opening.1.nextRequest + 1
  jobs : spawning.2.jobs = spawning.1.jobs ++ probeJobs taken.1.subscriptions.nodes opening.1.nextRequest
    read.1.subscriptions.generation cls taken.1.trail.published read.1.trail.published
  kept : KeepsStats opening ∧ KeepsStats spawning

theorem probeNowInner_path {results : List ProbeResult} {total : Nat}
    (path : Prog.Path (Sup.probeNowInner cls) steps (.done (results, total))) :
    ∃ taken read opening spawning joins slots, steps = taken :: read :: opening :: spawning :: joins ∧
      OpensRound cls taken read opening spawning ∧ total = taken.1.subscriptions.nodes.length ∧ results = slots.filterMap id ∧
      Prog.Path (Sup.joinAll opening.1.nextRequest total (List.replicate total none)) joins (.done slots) := by
  obtain ⟨_, a, _, _, _, rfl, htaken, htail⟩ := Prog.Path.of_atomic path
  obtain ⟨rfl, rfl⟩ := Prod.mk.inj (Option.some.inj htaken)
  obtain ⟨_, b, _, _, _, rfl, hread, hround⟩ := Prog.Path.of_atomic htail
  obtain ⟨rfl, rfl⟩ := Prod.mk.inj (Option.some.inj hread)
  obtain ⟨_, c, _, _, _, rfl, hopening, hjobs⟩ := Prog.Path.of_atomic hround
  obtain ⟨rfl, rfl⟩ := Prod.mk.inj (Option.some.inj hopening)
  obtain ⟨_, d, _, _, _, rfl, hspawning, hrest⟩ := Prog.Path.of_atomic hjobs
  obtain ⟨-, rfl⟩ := Prod.mk.inj (Option.some.inj hspawning)
  obtain ⟨joins, slots, last, rfl, hjoins, hlast⟩ := Prog.Path.of_bind hrest
  cases hlast
  rw [List.append_nil]
  exact ⟨(a, a), (b, b), (c, _), (d, _), joins, slots, rfl, ⟨rfl, rfl, rfl, rfl, rfl, rfl, rfl⟩, rfl, rfl, hjoins⟩

/-- A request that replies with a listing has made one. -/
theorem listing_of_reply {env : Env} {r : Nat} {reply : Reply} {results : List ProbeResult}
    (hprobe : reply.probe = some results)
    (path : Prog.Path (Task.prog env r (.probeNow cls)) steps (.done reply)) :
    ∃ first later total, steps = first ++ later ∧ Prog.Path (Sup.probeNowInner cls) first (.done (results, total)) := by
  rw [Task.prog, Sup.probeNow] at path
  split at path
  · cases path
    cases hprobe
  · obtain ⟨first, ⟨listed, total⟩, later, rfl, hlisting, hlater⟩ := Prog.Path.of_bind path
    obtain ⟨_, _, _, _, _, hreport⟩ := Prog.Path.of_bind hlater
    obtain ⟨_, _, _, _, _, _, _, hreply⟩ := Prog.Path.of_atomic hreport
    cases hreply
    cases hprobe
    exact ⟨first, later, total, rfl, hlisting⟩

/-- Once its jobs are spawned, a request spawns no others. -/
theorem probeNow_later {env : Env} {r : Nat} {taken read opening spawning : World × World} {q : Sup Reply}
    (path : Prog.Path (Task.prog env r (.probeNow cls)) (taken :: read :: opening :: spawning :: steps) q) :
    ∀ step ∈ steps, Inert step.1 step.2 := by
  rw [Task.prog, Sup.probeNow] at path
  split at path
  · cases path
  · have hreport : ∀ outcome : List ProbeResult × Nat, (do
        Sup.saveState env r
        Sup.pushEvent fun o => .probed o.now "on-demand" (outcome.1.filter (·.ok)).length outcome.2
        return { ok := true, probe := some outcome.1 } : Sup Reply).Within Inert :=
      fun _ => .bind (inert_of_minor minor_saveState) fun _ => .bind (inert_of_minor minor_pushEvent) fun _ => trivial
    have hjoin : ∀ request total : Nat, (do
        let slots ← Sup.joinAll request total (List.replicate total none)
        return (slots.filterMap id, total) : Sup (List ProbeResult × Nat)).Within Inert :=
      fun _ _ => .bind inert_joinAll fun _ => trivial
    cases path with
    | cons _ path =>
        cases path with
        | cons _ path =>
            cases path with
            | cons _ path =>
                cases path with
                | cons _ path => exact ((Within.bind (hjoin _ _) fun _ => hreport _).path path).1

/-- What a request spawns. -/
theorem tally_spawned {env : Env} {r : Nat} {taken read opening spawning : World × World} {q : Sup Reply}
    (hopens : OpensRound cls taken read opening spawning)
    (path : Prog.Path (Task.prog env r (.probeNow cls)) (taken :: read :: opening :: spawning :: steps) q)
    (kind : Job → Bool) :
    tally (rise (waiting kind)) (taken :: read :: opening :: spawning :: steps) =
      (probeJobs taken.1.subscriptions.nodes opening.1.nextRequest read.1.subscriptions.generation cls
        taken.1.trail.published read.1.trail.published).countP kind := by
  have hslots : ∀ job ∈ probeJobs taken.1.subscriptions.nodes opening.1.nextRequest read.1.subscriptions.generation cls
      taken.1.trail.published read.1.trail.published, job.slot.isSome := by
    intro job hjob
    obtain ⟨_, _, rfl⟩ := List.mem_map.mp hjob
    rfl
  have htaken : rise (waiting kind) taken = 0 := by rw [rise, hopens.takes, Nat.sub_self]
  have hread : rise (waiting kind) read = 0 := by rw [rise, hopens.reads, Nat.sub_self]
  have hopening : rise (waiting kind) opening = 0 := by
    rw [rise, waiting, waiting, rounds_jobs, rounds_jobs, hopens.unspawned, Nat.sub_self]
  have hspawning : rise (waiting kind) spawning = _ := rise_waiting_append hopens.jobs hslots kind
  rw [tally_cons, tally_cons, tally_cons, tally_cons, htaken, hread, hopening, hspawning,
    tally_rise_waiting (probeNow_later path)]
  omega

/-- There is one job for each place of the pool. -/
theorem countP_probeJobs {nodes : List Node} {era : UInt64} {takenAt readAt index : Nat} :
    (probeJobs nodes request era cls takenAt readAt).countP (jobAt request index) =
      if index < nodes.length then 1 else 0 := by
  have hcount : (nodes.zipIdx.map Prod.snd).count index = if index < nodes.length then 1 else 0 := by
    rw [List.zipIdx_map_snd, List.Nodup.count List.nodup_range']
    simp
  rw [← hcount, probeJobs, List.countP_map, List.count, List.countP_map]
  apply List.countP_congr
  simp [Job.slot]

theorem of_mem_probeJobs {nodes : List Node} {era : UInt64} {takenAt readAt index : Nat} {job : Job}
    (hjob : job ∈ probeJobs nodes request era cls takenAt readAt) (hslot : job.slot = some (request, index)) :
    ∃ node, nodes[index]? = some node ∧ job = .probe request index node era cls takenAt readAt := by
  obtain ⟨⟨node, place⟩, hmem, rfl⟩ := List.mem_map.mp hjob
  obtain ⟨-, rfl⟩ := Prod.mk.inj (Option.some.inj hslot)
  exact ⟨node, List.mem_zipIdx_iff_getElem?.mp hmem, rfl⟩

end

/-! ### The round -/

section

variable {env : Env} {w : World} {tasks : Nat → Task} {cls : String} {moves : List (Move World)}
  {last : Pool World Outside Reply} {taken read opening spawning : World × World}
  {later : List (World × World)} {r index : Nat}

theorem opener_opens (hopens : OpensRound cls taken read opening spawning)
    (hown : Pool.own r moves = taken :: read :: opening :: spawning :: later) :
    0 < tally (rise (opened opening.1.nextRequest)) (Pool.own r moves) := by
  have hrise : rise (opened opening.1.nextRequest) opening = 1 := by
    have hnext := @rise_opened opening.1 opening.2 opening.1.nextRequest hopens.next
    rwa [if_pos rfl] at hnext
  have hle : rise (opened opening.1.nextRequest) opening ≤
      tally (rise (opened opening.1.nextRequest)) (Pool.own r moves) := le_tally (by simp [hown])
  omega

/-- The job of a place is taken at most once, and there is none outside the pool. -/
theorem taken_le_one (hstart : Started env w) (run : (daemon env tasks w).Run moves last)
    (htask : tasks r = .probeNow cls)
    (hopens : OpensRound cls taken read opening spawning)
    (hown : Pool.own r moves = taken :: read :: opening :: spawning :: later) :
    tally (fall (waiting (jobAt opening.1.nextRequest index))) (Pool.steps moves) ≤
      if index < taken.1.subscriptions.nodes.length then 1 else 0 := by
  have hpath := own_path run htask
  rw [hown] at hpath
  have hplace : ∀ job, jobAt opening.1.nextRequest index job = true → job.In opening.1.nextRequest :=
    fun job hjob => ⟨index, jobAt_iff.mp hjob⟩
  have hspawned := taken_le_spawned hstart run (opener_opens hopens hown) hplace
  rwa [hown, tally_spawned hopens hpath, countP_probeJobs] at hspawned

/-- A job of the round is that of a node of the pool. -/
theorem job_of_round (hstart : Started env w) (run : (daemon env tasks w).Run moves last)
    (htask : tasks r = .probeNow cls)
    (hopens : OpensRound cls taken read opening spawning)
    (hown : Pool.own r moves = taken :: read :: opening :: spawning :: later) {j : Nat} {job : Job} {step : World × World}
    (hstep : step ∈ Pool.own j moves) (hjob : job ∈ step.1.jobs)
    (hslot : job.slot = some (opening.1.nextRequest, index)) :
    ∃ node, taken.1.subscriptions.nodes[index]? = some node ∧
      job = .probe opening.1.nextRequest index node read.1.subscriptions.generation cls taken.1.trail.published
        read.1.trail.published := by
  obtain ⟨i, hi⟩ := spawned_of_taken hstart run (by rw [hslot]; rfl) hstep hjob
  have hin : ∀ other, decide (other = job) = true → other.In opening.1.nextRequest := by
    intro other hother
    rw [of_decide_eq_true hother]
    exact ⟨index, hslot⟩
  obtain rfl : i = r := by
    by_contra hne
    have hnone := spawned_by_opener run (opener_opens hopens hown) hin hne
    omega
  have hpath := own_path run htask
  rw [hown] at hpath
  rw [hown, tally_spawned hopens hpath] at hi
  obtain ⟨other, hother, heq⟩ := List.countP_pos_iff.mp hi
  obtain rfl := of_decide_eq_true heq
  exact of_mem_probeJobs hother hslot

/-- A result that is joined is that of a thread that has run the job of its place. -/
theorem runner_of_joined (hstart : Started env w) (run : (daemon env tasks w).Run moves last) {request : Nat}
    {result : Option ProbeResult}
    (hjoined : 0 < tally (fall (ended fun entry => entry = (request, index, result))) (Pool.own r moves)) :
    ∃ runner take body finish job, Pool.own runner moves = take :: body ++ [finish] ∧ TakesJob runner job take ∧
      job.slot = some (request, index) ∧ Prog.Path (job.body env runner) body (.done result) ∧
      EndsJob request index result finish := by
  have hbalance := run.balance (ended fun entry => entry = (request, index, result))
  have hzero : ended (fun entry => entry = (request, index, result)) (daemon env tasks w).shared = 0 := hstart.ended _
  have hle := @Pool.own_le _ moves (fall (ended fun entry => entry = (request, index, result))) r
  obtain ⟨runner, hrunner⟩ :=
    @Pool.exists_own_of_tally_pos _ moves (rise (ended fun entry => entry = (request, index, result))) (by omega)
  have hjob : tasks runner = .job := by
    by_contra hne
    have hnone := ended_by_job run hne fun entry => entry = (request, index, result)
    omega
  rcases job_steps (own_path run hjob) with hnil | ⟨take, rest, job, hown, htake, hinert | hends⟩
  · rw [hnil, tally_nil] at hrunner
    omega
  · rw [hown, tally_cons, htake.rise_ended, tally_rise_ended hinert] at hrunner
    omega
  · obtain ⟨of, place, body, value, finish, hslot, rfl, hinert, hbody, hend⟩ := hends
    rw [hown, tally_cons, tally_append, tally_cons, htake.rise_ended, tally_rise_ended hinert, hend.rise_ended] at hrunner
    have hentry : (of, place, value) = (request, index, result) := by
      by_contra hne
      rw [if_neg (by simpa using hne), tally_nil] at hrunner
      omega
    cases hentry
    exact ⟨runner, take, body, finish, job, hown, htake, hslot, hbody, hend⟩

theorem inv_of_own (hstart : Started env w) (run : (daemon env tasks w).Run moves last) {j : Nat} {step : World × World}
    (hstep : step ∈ Pool.own j moves) : Inv env step.1.core := by
  obtain ⟨m, hm, rfl⟩ := List.mem_map.mp hstep
  exact (reachable_moves hstart run m (List.mem_of_mem_filter hm)).1

/-- Publications are not undone between two steps of a thread. -/
theorem published_le (hstart : Started env w) (run : (daemon env tasks w).Run moves last) {i : Nat}
    {before between after : List (World × World)} {step other : World × World}
    (hown : Pool.own i moves = before ++ step :: (between ++ other :: after)) :
    step.1.trail.published ≤ other.1.trail.published := by
  obtain ⟨early, rest, rfl, -, hrest⟩ := Pool.own_eq_append hown
  have hrise : ∀ m ∈ early ++ ⟨i, step.1, step.2⟩ :: rest, m.before.trail.published ≤ m.after.trail.published :=
    fun m hm => (reachable_moves hstart run m hm).2.2.sees.published
  have hother : other ∈ Pool.own i rest := by
    rw [hrest]
    simp
  obtain ⟨m, hm, rfl⟩ := List.mem_map.mp hother
  have hlater := (run.climbs (f := fun u => u.trail.published) hrise).2 m (List.mem_of_mem_filter hm)
  exact (hrise _ (by simp)).trans hlater

/-- Nothing is published between the taking of the gate and the look at the era. -/
theorem era_under_gate (hstart : Started env w) (run : (daemon env tasks w).Run moves last) {i : Nat}
    {before after : List (World × World)} {gate check : World × World} (hgate : TakesGate i gate)
    (hown : Pool.own i moves = before ++ gate :: check :: after) :
    check.1.subscriptions.generation = UInt64.ofNat gate.1.trail.published := by
  obtain ⟨s, t⟩ := gate
  obtain ⟨u, v⟩ := check
  obtain ⟨lock, hlock, ht⟩ := hgate
  have ht : t = { s with locks := Function.update s.locks .reconfiguration lock } := ht
  subst ht
  obtain ⟨hsees, hinv⟩ := (daemon_holds hstart tasks).between run hown
  have hhold : (World.core { s with locks := Function.update s.locks .reconfiguration lock }).hold i .reconfiguration =
      .read := by
    simpa [Core.hold, World.core] using Lock.acquireRead_hold hlock
  have hpublished : u.trail.published = s.trail.published := (hsees.subs (pinned_of_read hhold)).2
  have hera : u.subscriptions.generation = UInt64.ofNat u.trail.published := hinv.era
  rw [hera, hpublished]

end

/-- The listing of a round: one runner for the job of each node, the results in the order of the pool, and one sample for each test. -/
theorem probe_listing {env : Env} {w : World} (hstart : Started env w) {tasks : Nat → Task} {cls : String}
    {moves : List (Move World)} {last : Pool World Outside Reply} (run : (daemon env tasks w).Run moves last) {r : Nat}
    (htask : tasks r = .probeNow cls) {steps others : List (World × World)} (hown : Pool.own r moves = steps ++ others)
    {results : List ProbeResult} {total : Nat} (path : Prog.Path (Sup.probeNowInner cls) steps (.done (results, total))) :
    ∃ taken read opening joins, ∃ outcome : Nat → Option ProbeResult, steps = taken :: read :: opening :: joins ∧
      total = taken.1.subscriptions.nodes.length ∧ results = (List.range total).filterMap outcome ∧
      (∀ step ∈ steps, KeepsStats step) ∧
      (∀ index j, (∃ step ∈ Pool.own j moves, Takes opening.1.nextRequest index step) → index < total) ∧
      ∀ index node, taken.1.subscriptions.nodes[index]? = some node → ∃ runner take body finish,
        (∀ j, (∃ step ∈ Pool.own j moves, Takes opening.1.nextRequest index step) ↔ j = runner) ∧
        Pool.own runner moves = take :: body ++ [finish] ∧ KeepsStats take ∧ KeepsStats finish ∧
        Prog.Path (Sup.probeTask env runner opening.1.nextRequest node read.1.subscriptions.generation cls
          taken.1.trail.published read.1.trail.published) body (.done (outcome index)) ∧
        ∀ told value, told.map Prod.snd = body →
          Prog.Told (Sup.probeTask env runner opening.1.nextRequest node read.1.subscriptions.generation cls
            taken.1.trail.published read.1.trail.published) told (.done value) →
          Probed env runner node cls read.1.trail.published told value := by
  obtain ⟨taken, read, opening, spawning, joins, slots, rfl, hopens, rfl, rfl, hjoins⟩ := probeNowInner_path path
  obtain ⟨joined, hlength, rfl, hcount, hkeeps⟩ := joinAll_path hjoins
  have hown' : Pool.own r moves = taken :: read :: opening :: spawning :: (joins ++ others) := hown
  have htakes : ∀ index, tally (fall (waiting (jobAt opening.1.nextRequest index))) (Pool.steps moves) ≤
      if index < taken.1.subscriptions.nodes.length then 1 else 0 :=
    fun index => taken_le_one hstart run htask hopens hown'
  have hjoinsLe : ∀ g : World × World → Nat, tally g joins ≤ tally g (Pool.own r moves) := by
    intro g
    simp only [hown', tally_cons, tally_append]
    omega
  have hplaces : ∀ index,
      (joined.map Prod.fst).count index ≤ if index < taken.1.subscriptions.nodes.length then 1 else 0 := by
    intro index
    have hplace := hcount (resultAt opening.1.nextRequest index)
    have hsame : (joined.map Prod.fst).count index =
        joined.countP fun entry => resultAt opening.1.nextRequest index (opening.1.nextRequest, entry) := by
      rw [List.count, List.countP_map]
      apply List.countP_congr
      simp
    rw [hsame, hplace]
    exact (hjoinsLe _).trans (Pool.own_le.trans ((joined_le_taken hstart run _ index).trans (htakes index)))
  obtain ⟨outcome, hentry, hfill⟩ := Slots.exists_fill hlength (List.length_replicate (a := none)) hplaces
  refine ⟨taken, read, opening, spawning :: joins, outcome, rfl, rfl, ?_, ?_, ?_, ?_⟩
  · rw [hfill, List.filterMap_map]
    rfl
  · have htaken : KeepsStats taken := by rw [KeepsStats, hopens.takes]
    have hread : KeepsStats read := by rw [KeepsStats, hopens.reads]
    simp only [List.forall_mem_cons]
    exact ⟨htaken, hread, hopens.kept.1, hopens.kept.2, hkeeps⟩
  · rintro index j ⟨step, hstep, htake⟩
    by_contra hout
    have hle := htakes index
    have hpos := (le_tally hstep).trans (@Pool.own_le _ moves (fall (waiting (jobAt opening.1.nextRequest index))) j)
    rw [if_neg hout] at hle
    rw [htake.fall] at hpos
    omega
  · intro index node hnode
    have hindex : index < taken.1.subscriptions.nodes.length := (List.getElem?_eq_some_iff.mp hnode).1
    have hjoined : 0 < joined.countP fun entry =>
        (opening.1.nextRequest, entry) = (opening.1.nextRequest, index, outcome index) :=
      List.countP_pos_iff.mpr ⟨_, hentry index hindex, decide_eq_true rfl⟩
    rw [hcount fun entry => entry = (opening.1.nextRequest, index, outcome index)] at hjoined
    obtain ⟨runner, take, body, finish, job, hrun, htake, hslot, hbody, hend⟩ :=
      runner_of_joined hstart run (hjoined.trans_le (hjoinsLe _))
    have hmem : take ∈ Pool.own runner moves := by simp [hrun]
    have hwaits : job ∈ take.1.jobs := by
      obtain ⟨choice, hget, -⟩ := htake
      exact List.mem_of_getElem? hget
    obtain ⟨other, hother, rfl⟩ := job_of_round hstart run htask hopens hown' hmem hwaits hslot
    obtain rfl : other = node := Option.some.inj (hother.symm.trans hnode)
    have hera : read.1.subscriptions.generation = UInt64.ofNat read.1.trail.published :=
      (inv_of_own hstart run (show read ∈ Pool.own r moves by simp [hown'])).era
    refine ⟨runner, take, body, finish, fun j => ⟨?_, ?_⟩, hrun, ?_, ?_, hbody,
      fun told value htold => probed_of_told hera ?_⟩
    · rintro ⟨step, hstep, hagain⟩
      by_contra hne
      have hboth := (@Pool.own_add_own_le _ moves _ j runner hne).trans (htakes index)
      have hfirst := le_tally (g := fall (waiting (jobAt opening.1.nextRequest index))) hmem
      have hsecond := le_tally (g := fall (waiting (jobAt opening.1.nextRequest index))) hstep
      rw [(htake.takes hslot).fall] at hfirst
      rw [hagain.fall] at hsecond
      rw [if_pos hindex] at hboth
      omega
    · rintro rfl
      exact ⟨take, hmem, htake.takes hslot⟩
    · obtain ⟨choice, -, hstep⟩ := htake
      rw [KeepsStats, hstep]
    · rw [KeepsStats, hend]
    · intro entered gate check later heq hgate
      obtain rfl : body = entered :: gate :: check :: later := htold.symm.trans heq
      have hgated : Pool.own runner moves = [take, entered] ++ gate :: check :: (later ++ [finish]) := by simp [hrun]
      have hordered : Pool.own runner moves = [] ++ take :: ([entered] ++ gate :: (check :: (later ++ [finish]))) := by
        simp [hrun]
      have hread := (inv_of_own hstart run hmem).jobs _ hwaits
      exact ⟨hread.2.1.trans (published_le hstart run hordered), era_under_gate hstart run hgate hgated⟩

namespace Sample

/-- A request, the task of its first node panics, and the other one tests its node. -/
def listingSchedule : List (Nat × Outside) :=
  steps 0 4 fine ++ steps 1 3 { fine with panicked := true } ++ steps 2 12 fine ++ steps 0 15 fine

def listingTasks : Nat → Task := assign [.probeNow "web", .job, .job]

/-- What the listing has of a node that answers at once. -/
def passed (name : String) : ProbeResult := ⟨name, true, some 0, none, none⟩

def sampleCounts (w : World) : List (Option Nat) := ["A", "B"].map fun name => (w.state.nodes[name]?).map (·.probeCount)

/-- The first thread has replied with a listing, and the statistics have these samples. -/
def repliesWith (results : List ProbeResult) (counts : List (Option Nat)) (pool : Pool World Outside Reply) : Bool :=
  match pool.thread 0 with
  | .done reply => decide (reply.probe = some results) && decide (sampleCounts pool.shared = counts)
  | .step _ _ => false

theorem of_repliesWith {results : List ProbeResult} {counts : List (Option Nat)} {pool : Pool World Outside Reply}
    (h : repliesWith results counts pool = true) :
    ∃ reply, pool.thread 0 = .done reply ∧ reply.probe = some results ∧ sampleCounts pool.shared = counts := by
  unfold repliesWith at h
  split at h
  · rename_i reply hthread
    rw [Bool.and_eq_true, decide_eq_true_eq, decide_eq_true_eq] at h
    exact ⟨reply, hthread, h⟩
  · cases h

end Sample

/-- The listing of two nodes is short of the one whose task panicked, and only the other one has a sample. -/
theorem probe_listing_short : ∃ moves last taken, ∃ outcome : Nat → Option ProbeResult,
    (daemon (Sample.env Sample.web) Sample.listingTasks (Sample.world Sample.web)).Run moves last ∧
      Sample.sampleCounts last.shared = [none, some 1] ∧ taken ∈ Pool.own 0 moves ∧
      (List.range taken.1.subscriptions.nodes.length).filterMap outcome = [Sample.passed "B"] := by
  obtain ⟨moves, last, run, _, hlast⟩ := Pool.exec_reaches Sample.listingSchedule
    (daemon (Sample.env Sample.web) Sample.listingTasks (Sample.world Sample.web))
    (Sample.repliesWith [Sample.passed "B"] [none, some 1]) (by decide +kernel)
  obtain ⟨reply, hdone, hprobe, hcounts⟩ := Sample.of_repliesWith hlast
  have htask : Sample.listingTasks 0 = .probeNow "web" := rfl
  have hpath := own_path run htask
  rw [hdone] at hpath
  obtain ⟨first, later, total, hown, hlisting⟩ := listing_of_reply hprobe hpath
  obtain ⟨taken, read, opening, joins, outcome, rfl, rfl, hresults, -⟩ :=
    probe_listing (Sample.started Sample.web) run htask hown hlisting
  exact ⟨moves, last, taken, outcome, run, hcounts, by simp [hown], hresults.symm⟩

end Causeway

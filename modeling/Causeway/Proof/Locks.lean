import Causeway.Model.Locks
import Causeway.Proof.Daemon
import Mathlib.Data.String.Basic

/-!
# No deadlock

The locks have a rank, classes and routes by their names, and every operation asks for locks in rank order only. The rules for waiting do the rest: no tasks of the supervisor ever wait for each other in a circle, however many operations run and however they interleave, and while one of them is unfinished one of them can go on.
-/

namespace Causeway.Locks

open Concurrent.Waiting

def Name.kind : Name → Nat
  | .probeTasks => 0
  | .subscriptionTxn => 1
  | .reconfiguration => 2
  | .timingTasks => 3
  | .cls _ => 4
  | .route _ => 5
  | .state => 6
  | .subscriptions => 7
  | .traffic => 8
  | .events => 9
  | .draining => 10

def Name.label : Name → String
  | .cls name | .route name => name
  | _ => ""

/-- The order the locks are taken in. -/
def Name.rank (name : Name) : ℕ ×ₗ String := toLex (name.kind, name.label)

abbrev Ordered (low : WithBot (ℕ ×ₗ String)) (code : Code) : Prop := Code.Ordered Name.rank low code

theorem rank_lt_rank {name other : Name} : name.rank < other.rank ↔
    name.kind < other.kind ∨ name.kind = other.kind ∧ name.label < other.label :=
  Prod.Lex.toLex_lt_toLex

theorem rank_lt_of_kind {name other : Name} {kind : Nat} (hname : name.kind ≤ kind) (hother : kind < other.kind) :
    name.rank < other.rank := rank_lt_rank.mpr (.inl (hname.trans_lt hother))

variable {low : WithBot (ℕ ×ₗ String)} {cls : String} {classes : List String} {held : Name}

@[simp] theorem steps_ordered {codes : List Code} : Ordered low (steps codes) ↔ ∀ code ∈ codes, Ordered low code := by
  induction codes with
  | nil => simp [steps, Code.Ordered]
  | cons code codes ih => simp [steps, Code.Ordered, ih]

@[simp] theorem maybe_ordered {code : Code} : Ordered low (maybe code) ↔ Ordered low code := by
  simp [maybe, Code.Ordered]

@[simp] theorem brief_ordered {access : Access} {name : Name} : Ordered low (brief access name) ↔ low < name.rank := by
  simp [brief, Code.Ordered]

attribute [local simp] Code.Ordered pool lockState saveState pushEvent scheduleDrain subscriptionFailure rank_lt_rank
  Name.kind Name.label WithBot.bot_lt_coe

/-! ### The operations -/

theorem installActive_ordered : Ordered (Name.cls cls).rank (installActive cls) := by
  simp [installActive]

theorem tryCandidates_ordered : Ordered (Name.cls cls).rank (tryCandidates cls) := by
  simp [tryCandidates, installActive_ordered]

theorem switchNodeLocked_ordered : Ordered (Name.cls cls).rank (switchNodeLocked cls) := by
  simp [switchNodeLocked, tryCandidates_ordered]

theorem recoverAfterHealthFailure_ordered : Ordered Name.reconfiguration.rank (recoverAfterHealthFailure cls) := by
  simp [recoverAfterHealthFailure, switchNodeLocked_ordered]

theorem switchNode_ordered : Ordered ⊥ (switchNode cls) := by
  simp [switchNode, switchNodeInner, switchNodeLocked_ordered]

theorem switchTo_ordered : Ordered ⊥ (switchTo cls) := by
  simp [switchTo, tryCandidates_ordered]

theorem lockRoutes_ordered {body : Code} (hsorted : classes.Pairwise (· < ·)) (hkind : held.kind ≤ 5)
    (hheld : ∀ cls ∈ classes, (held.rank : WithBot (ℕ ×ₗ String)) < (Name.route cls).rank)
    (hbody : ∀ name : Name, name.kind ≤ 5 → Ordered name.rank body) : Ordered held.rank (lockRoutes body classes) := by
  induction classes generalizing held with
  | nil => exact hbody held hkind
  | cons cls classes ih =>
      obtain ⟨hfirst, hsorted⟩ := List.pairwise_cons.mp hsorted
      refine ⟨hheld cls List.mem_cons_self, ih hsorted (le_refl _) ?_⟩
      intro other hother
      simp [hfirst other hother]

theorem lockClasses_ordered {body : Code} (hsorted : classes.Pairwise (· < ·)) (hkind : held.kind ≤ 4)
    (hheld : ∀ cls ∈ classes, (held.rank : WithBot (ℕ ×ₗ String)) < (Name.cls cls).rank)
    (hbody : ∀ name : Name, name.kind ≤ 4 → Ordered name.rank body) : Ordered held.rank (lockClasses body classes) := by
  induction classes generalizing held with
  | nil => exact hbody held hkind
  | cons cls classes ih =>
      obtain ⟨hfirst, hsorted⟩ := List.pairwise_cons.mp hsorted
      refine ⟨hheld cls List.mem_cons_self, ih hsorted (le_refl _) ?_, ?_⟩
      · intro other hother
        simp [hfirst other hother]
      · exact brief_ordered.mpr (WithBot.coe_lt_coe.mpr (rank_lt_of_kind hkind (by decide)))

theorem publish_ordered (hsorted : classes.Pairwise (· < ·)) (hkind : held.kind ≤ 4) :
    Ordered held.rank (publish classes) := by
  refine lockRoutes_ordered hsorted (hkind.trans (by decide)) ?_ ?_
  · intro cls _
    exact WithBot.coe_lt_coe.mpr (rank_lt_of_kind hkind (Nat.lt_succ_self 4))
  · intro name hname
    have hstate : name.rank < Name.state.rank := rank_lt_of_kind hname (by decide)
    simp [hstate]

theorem commit_ordered (hsorted : classes.Pairwise (· < ·)) (hkind : held.kind ≤ 4) :
    Ordered held.rank (commit classes) := by
  have hroute (cls : String) : held.rank < (Name.route cls).rank := rank_lt_of_kind hkind (Nat.lt_succ_self 4)
  have hstate : held.rank < Name.state.rank := rank_lt_of_kind hkind (by decide)
  have hevents : held.rank < Name.events.rank := rank_lt_of_kind hkind (by decide)
  have hdraining : held.rank < Name.draining.rank := rank_lt_of_kind hkind (by decide)
  simp [commit, publish_ordered hsorted hkind, hroute, hstate, hevents, hdraining]

theorem switchSubscriptionLocked_ordered (hsorted : classes.Pairwise (· < ·)) :
    Ordered Name.subscriptionTxn.rank (switchSubscriptionLocked classes) := by
  have hlocks : Ordered Name.reconfiguration.rank (lockClasses (commit classes) classes) := by
    refine lockClasses_ordered hsorted (by decide) ?_ fun name => commit_ordered hsorted
    intro cls _
    simp
  simp [switchSubscriptionLocked, hlocks]

theorem switchSubscription_ordered (hsorted : classes.Pairwise (· < ·)) : Ordered ⊥ (switchSubscription classes) := by
  simp [switchSubscription, switchSubscriptionLocked_ordered hsorted]

theorem reload_ordered (hsorted : classes.Pairwise (· < ·)) : Ordered ⊥ (reload classes) := by
  simp [reload, switchSubscriptionLocked_ordered hsorted]

theorem probeNowNode_ordered : Ordered ⊥ probeNowNode := by
  simp [probeNowNode]

theorem probeSiteNode_ordered : Ordered ⊥ probeSiteNode := by
  simp [probeSiteNode]

theorem switchForSite_ordered : Ordered ⊥ (switchForSite cls) := by
  simp [switchForSite, probeSiteNode_ordered, switchTo_ordered]

theorem healthLoop_ordered : Ordered ⊥ (healthLoop cls) := by
  simp [healthLoop, healthTick, recordHealthOutcome, recoverAfterHealthFailure_ordered]

theorem probeCycle_ordered : Ordered ⊥ probeCycle := by
  simp [probeCycle]

theorem probeLoop_ordered : Ordered ⊥ (probeLoop classes) := by
  simp [probeLoop, probeCycle_ordered, challenge, switchNode_ordered]

theorem egressObserverLoop_ordered : Ordered ⊥ (egressObserverLoop classes) := by
  simp [egressObserverLoop, rebuildCurrentAfterEgressChange, installActive_ordered]

/-- Every operation asks for its locks in rank order. -/
theorem operation_ordered (operation : Operation) (hsorted : classes.Pairwise (· < ·)) :
    Ordered ⊥ (operation.code classes) := by
  cases operation with
  | status => simp [Operation.code, classSnapshot]
  | switch cls => exact switchTo_ordered
  | switchForSite cls => exact switchForSite_ordered
  | probeNow => simp [Operation.code, probeNow, probeNowNode]
  | siteProbe => simp [Operation.code, siteProbeRequest, probeSiteNode]
  | switchSubscription => exact switchSubscription_ordered hsorted
  | reload => exact reload_ordered hsorted
  | events => simp [Operation.code]
  | siteStatus => simp [Operation.code]
  | probeCycle => exact probeCycle_ordered
  | activateInitial cls => simp [Operation.code, activateInitial, installActive_ordered]
  | healthLoop cls => exact healthLoop_ordered
  | probeLoop => exact probeLoop_ordered
  | egressObserverLoop => exact egressObserverLoop_ordered
  | scheduleDrain => simp [Operation.code]
  | connection cls => simp [Operation.code, handleConn]

/-- The classes of a configuration come in name order. -/
theorem classes_sorted (env : Env) : env.classes.Pairwise (· < ·) :=
  Std.ExtTreeMap.ordered_keys.imp fun h => compare_lt_iff_lt.mp h

/-! ### No deadlock -/

/-- Whatever operations a supervisor runs, none of their tasks wait for each other in a circle, and while one of them is unfinished one of them can move. -/
theorem deadlock_free (env : Env) {net : Net Name} (h : net.Reachable Name.Fair (Runs env)) :
    (∀ task, ¬ Relation.TransGen net.WaitsFor task task) ∧
      ∀ task < net.workers.length, ¬ net.Done task → ∃ other next, net.Turn Name.Fair other next := by
  have hsound : Sound Name.rank net := by
    refine Sound.reachable ?_ h
    rintro code ⟨operation, rfl⟩
    exact operation_ordered operation (classes_sorted env)
  exact ⟨hsound.acyclic, fun task htask hunfinished => hsound.progress htask hunfinished⟩

namespace Sample

def twoClasses : Env :=
  Causeway.Sample.env [("mail", ⟨"127.0.0.1:1081", none, none⟩), ("web", ⟨"127.0.0.1:1080", none, none⟩)]

/-- An activation and a switch of one class, a subscription switch, a probe cycle, and the activation once more. -/
def operations : List Operation :=
  [.activateInitial "web", .switch "web", .switchSubscription, .probeCycle, .activateInitial "web"]

def crowd (classes : List String) : Net Name :=
  operations.foldl (fun net operation => net.spawn [⟨none, [.run (operation.code classes)]⟩]) Net.empty

/-- The switch waits for the class, the subscription switch for its read guard, and the probe cycle is behind in line. -/
def queueMoves : List (Nat × Bool) :=
  List.replicate 2 (0, false) ++ List.replicate 3 (1, false) ++
    List.replicate 20 (2, false) ++ [(2, true), (2, false), (2, true)] ++ List.replicate 4 (2, false) ++ [(3, false)]

/-- Activation and switch end, and the subscription switch has the first class when the second is taken from it. -/
def nestMoves : List (Nat × Bool) :=
  List.replicate 16 (0, false) ++ [(0, true)] ++ List.replicate 3 (0, false) ++
    List.replicate 7 (1, false) ++ [(1, true)] ++ List.replicate 4 (1, false) ++
    List.replicate 2 (4, false) ++ List.replicate 4 (2, false)

end Sample

theorem crowd_reachable (env : Env) : (Sample.crowd env.classes).Reachable Name.Fair (Runs env) := by
  have hfold : ∀ (operations : List Operation) (net : Net Name), net.Reachable Name.Fair (Runs env) →
      (operations.foldl (fun net operation => net.spawn [⟨none, [.run (operation.code env.classes)]⟩]) net).Reachable
        Name.Fair (Runs env) := by
    intro operations
    induction operations with
    | nil => exact fun _ h => h
    | cons operation operations ih => exact fun net h => ih _ (h.tail (.start ⟨operation, rfl⟩))
  exact hfold _ _ .refl

/-- A writer in line holds up a reader, then a task that holds one class waits for another. -/
theorem waiting_reachable (env : Env) (hclasses : env.classes = ["mail", "web"]) : ∃ busy nested : Net Name,
    (busy.Reachable Name.Fair (Runs env) ∧ busy.WaitsFor 1 0 ∧ busy.WaitsFor 2 1 ∧ busy.WaitsFor 3 2) ∧
    nested.Reachable Name.Fair (Runs env) ∧ (2, Access.write) ∈ nested.holders (.cls "mail") ∧ nested.WaitsFor 2 4 ∧
      nested.WaitsFor 3 2 := by
  have hqueue : ((Sample.crowd ["mail", "web"]).advanceAll Name.Fair Sample.queueMoves).any (fun busy =>
      (1 ∈ busy.queue (.cls "web") ∧ (0, Access.write) ∈ busy.holders (.cls "web")) ∧
      (2 ∈ busy.queue .reconfiguration ∧ (1, Access.read) ∈ busy.holders .reconfiguration) ∧
      3 ∈ busy.queue .reconfiguration ∧ (busy.queue .reconfiguration).idxOf 2 < (busy.queue .reconfiguration).idxOf 3) := by
    decide +kernel
  have hnest : ((Sample.crowd ["mail", "web"]).advanceAll Name.Fair (Sample.queueMoves ++ Sample.nestMoves)).any (fun nested =>
      (2, Access.write) ∈ nested.holders (.cls "mail") ∧
      (2 ∈ nested.queue (.cls "web") ∧ (4, Access.write) ∈ nested.holders (.cls "web")) ∧
      3 ∈ nested.queue .reconfiguration ∧ (2, Access.write) ∈ nested.holders .reconfiguration) := by
    decide +kernel
  obtain ⟨busy, hbusy, hfacts⟩ := (Option.any_eq_true _ _).mp hqueue
  obtain ⟨nested, hnested, hfacts'⟩ := (Option.any_eq_true _ _).mp hnest
  obtain ⟨⟨hone, hzero⟩, ⟨htwo, hread⟩, hthree, hahead⟩ := of_decide_eq_true hfacts
  obtain ⟨hmail, ⟨hweb, hfour⟩, hcycle, hwrite⟩ := of_decide_eq_true hfacts'
  have hstart := crowd_reachable env
  rw [hclasses] at hstart
  exact ⟨busy, nested, ⟨Net.reachable_advanceAll hstart hbusy, .holder hone hzero, .holder htwo hread, .ahead hthree hahead⟩,
    Net.reachable_advanceAll hstart hnested, hmail, .holder hweb hfour, .holder hcycle hwrite⟩

theorem deadlock_free_waiting : ∃ busy nested : Net Name,
    (busy.WaitsFor 1 0 ∧ busy.WaitsFor 2 1 ∧ busy.WaitsFor 3 2 ∧ nested.WaitsFor 2 4 ∧ nested.WaitsFor 3 2) ∧
    ∀ net, net = busy ∨ net = nested → (∀ task, ¬ Relation.TransGen net.WaitsFor task task) ∧
      ∀ task < net.workers.length, ¬ net.Done task → ∃ other next, net.Turn Name.Fair other next := by
  obtain ⟨busy, nested, ⟨hbusy, hzero, hone, htwo⟩, hnested, -, hfour, hthree⟩ :=
    waiting_reachable Sample.twoClasses (by decide +kernel)
  refine ⟨busy, nested, ⟨hzero, hone, htwo, hfour, hthree⟩, fun net hnet => ?_⟩
  rcases hnet with rfl | rfl
  · exact deadlock_free Sample.twoClasses hbusy
  · exact deadlock_free Sample.twoClasses hnested

end Causeway.Locks

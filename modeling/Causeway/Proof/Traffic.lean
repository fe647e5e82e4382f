import Mathlib
import Causeway.Proof.Daemon

/-!
# Traffic attribution

What a node's counters should hold is a sum over the connections that captured a route to it since the selected profile last changed. The counters themselves know a connection only by the name of its profile, so an older one counts again as soon as its profile is back.
-/

namespace Causeway

open Concurrent

/-- The completed connections that captured a route to the node since the last change of the selected profile. -/
def counted (node : String) (selections : Nat) (carried : List Carried) : List Carried :=
  carried.filter fun entry => entry.node = node ∧ entry.capturedAt = selections

/-- What they relayed, up to the bound of the counters. -/
def tally (node : String) (selections : Nat) (carried : List Carried) : Option NodeTraffic :=
  if (counted node selections carried).isEmpty then none
  else some ⟨min ((counted node selections carried).map (·.up)).sum (2 ^ 64 - 1),
    min ((counted node selections carried).map (·.down)).sum (2 ^ 64 - 1)⟩

/-- The connections that end in this move. -/
def completed (m : Move World) : List Carried :=
  m.after.trail.carried.take (m.after.trail.carried.length - m.before.trail.carried.length)

/-- A connection to this node that ends in this move has captured its route since the last change of the selected profile, and the node has a name; or its profile is not the selected one. -/
def Fair (node : String) (m : Move World) : Prop :=
  ∀ entry ∈ completed m, entry.node = node →
    if entry.capturedAt = m.before.trail.selections then node ≠ ""
    else m.before.traffic.subscription ≠ some entry.profile

instance (node : String) (m : Move World) : Decidable (Fair node m) :=
  inferInstanceAs (Decidable (∀ entry ∈ completed m, _))

section

variable {node : String} {selections : Nat} {entry : Carried} {carried : List Carried}

theorem min_add_min (a b bound : Nat) : min (min a bound + b) bound = min (b + a) bound := by
  omega

theorem tally_skip (h : entry.node = node → entry.capturedAt ≠ selections) :
    tally node selections (entry :: carried) = tally node selections carried := by
  have hskip : counted node selections (entry :: carried) = counted node selections carried := by
    rw [counted, counted, List.filter_cons_of_neg]
    simpa using h
  rw [tally, tally, hskip]

theorem tally_count (hnode : entry.node = node) (hcurrent : entry.capturedAt = selections) :
    tally node selections (entry :: carried) =
      some (((tally node selections carried).getD ⟨0, 0⟩).add entry.up entry.down) := by
  have hcounted : counted node selections (entry :: carried) = entry :: counted node selections carried := by
    simp [counted, hnode, hcurrent]
  rw [tally, tally, hcounted, List.isEmpty_cons, if_neg Bool.false_ne_true]
  split
  · rename_i hnone
    simp [List.isEmpty_iff.mp hnone, NodeTraffic.add]
  · simp only [List.map_cons, List.sum_cons, Option.getD_some, NodeTraffic.add, min_add_min]

theorem tally_changed (h : ∀ entry ∈ carried, entry.capturedAt ≤ selections) :
    tally node (selections + 1) carried = none := by
  have hnone : counted node (selections + 1) carried = [] := by
    rw [counted, List.filter_eq_nil_iff]
    intro entry hentry
    have hle := h entry hentry
    simp only [decide_eq_true_eq, not_and]
    omega
  rw [tally, hnone, List.isEmpty_nil, if_pos rfl]

/-- The counters of the node are what they should be. -/
structure Attributed (node : String) (ledger : Ledger) : Prop where
  past : ∀ entry ∈ ledger.carried, entry.capturedAt ≤ ledger.selections
  counters : ledger.nodes[node]? = tally node ledger.selections ledger.carried

variable {selected next : Option String} {ledger later : Ledger}

theorem Attributed.carry (h : Attributed node ledger) (earlier : entry.capturedAt ≤ ledger.selections)
    (current : entry.capturedAt = ledger.selections → selected = some entry.profile)
    (hfair : entry.node = node →
      if entry.capturedAt = ledger.selections then node ≠ "" else selected ≠ some entry.profile) :
    Attributed node { ledger with
      nodes :=
        if entry.node ≠ "" then
          ((⟨selected, ledger.nodes⟩ : TrafficState).add entry.profile entry.node entry.up entry.down).nodes
        else ledger.nodes
      carried := entry :: ledger.carried } := by
  refine ⟨List.forall_mem_cons.mpr ⟨earlier, h.past⟩, ?_⟩
  show (if entry.node ≠ "" then _ else ledger.nodes)[node]? = tally node ledger.selections (entry :: ledger.carried)
  by_cases hnode : entry.node = node
  · have hfair := hfair hnode
    by_cases hcurrent : entry.capturedAt = ledger.selections
    · rw [if_pos hcurrent] at hfair
      rw [tally_count hnode hcurrent, ← h.counters, hnode, if_pos hfair, TrafficState.add,
        if_neg (not_not.mpr (current hcurrent))]
      exact Std.ExtTreeMap.getElem?_insert_self
    · rw [if_neg hcurrent] at hfair
      rw [tally_skip fun _ => hcurrent, TrafficState.add, if_pos hfair, ite_self]
      exact h.counters
  · rw [tally_skip fun heq => absurd heq hnode, ← h.counters, TrafficState.add]
    split
    · split
      · rfl
      · simp [Std.ExtTreeMap.getElem?_insert, hnode]
    · rfl

theorem Attributed.step (h : Attributed node ledger) (step : Books selected ledger next later)
    (hfair : ∀ entry, later.carried = entry :: ledger.carried → entry.node = node →
      if entry.capturedAt = ledger.selections then node ≠ "" else selected ≠ some entry.profile) :
    Attributed node later := by
  cases step with
  | still => exact h
  | select changed =>
      refine ⟨fun entry hentry => Nat.le_succ_of_le (h.past entry hentry), ?_⟩
      rw [tally_changed h.past]
      rfl
  | carry entry earlier current => exact h.carry earlier current (hfair entry rfl)

theorem mem_completed {m : Move World} (h : m.after.trail.carried = entry :: m.before.trail.carried) :
    entry ∈ completed m := by
  simp [completed, h]

end

/-- As long as no connection that captured its route before the selected profile changed ends while its own profile is selected again, every entry of the counters is the sum it should be. -/
theorem traffic_attribution {env : Env} {w : World} (hstart : Started env w) {tasks : Nat → Task}
    {moves : List (Move World)} {last : Pool World Outside Reply} (run : (daemon env tasks w).Run moves last)
    {node : String} (hfair : ∀ m ∈ moves, Fair node m) :
    last.shared.traffic.nodes[node]? = tally node last.shared.trail.selections last.shared.trail.carried := by
  have hbegin : Attributed node w.core.ledger := by
    obtain ⟨stateDir, cacheDir, recorded, st, active, nodes, _⟩ := hstart
    exact ⟨fun entry h => (nomatch h), rfl⟩
  have hend := @Pool.Run.keeps _ _ _ _ _ _ run (fun u => Attributed node u.core.ledger) hbegin fun m hm h =>
    h.step (reachable_moves hstart run m hm).2.2.books fun entry hentry =>
      hfair m hm entry (mem_completed hentry)
  exact hend.counters

def Sample.trafficTasks : List Task :=
  [.activateInitial "web", .connection "web" .http, .switchSubscription "work", .connection "web" .http,
    .switchSubscription "home"]

/-- A connection outlives its profile, and one of the new profile ends after it. -/
theorem traffic_attribution_left : ∃ moves last,
    (daemon (Sample.env Sample.web) (Sample.assign Sample.trafficTasks) (Sample.world Sample.web)).Run moves last ∧
    last.shared.trail.carried = [⟨"A", "work", 1, 2, 1⟩, ⟨"A", "home", 7, 9, 0⟩] ∧
    last.shared.traffic.nodes["A"]? = tally "A" last.shared.trail.selections last.shared.trail.carried := by
  obtain ⟨moves, last, run, hends⟩ := Pool.trace_reaches
    (Sample.steps 0 28 Sample.fine ++ Sample.steps 1 4 Sample.fine ++ Sample.steps 2 56 Sample.fine ++
      Sample.steps 1 4 { Sample.fine with relayed := (7, 9) } ++
      Sample.steps 3 8 { Sample.fine with relayed := (1, 2) })
    (daemon (Sample.env Sample.web) (Sample.assign Sample.trafficTasks) (Sample.world Sample.web))
    (fun moves last => decide (∀ m ∈ moves, Fair "A" m) &&
      decide (last.shared.trail.carried = [⟨"A", "work", 1, 2, 1⟩, ⟨"A", "home", 7, 9, 0⟩])) (by decide +kernel)
  simp only [Bool.and_eq_true, decide_eq_true_eq] at hends
  obtain ⟨hfair, hcarried⟩ := hends
  exact ⟨moves, last, run, hcarried, traffic_attribution (Sample.started Sample.web) run hfair⟩

/-- A connection captures its route, the profile changes to another one and back, and the connection ends: its bytes appear among those of the connections captured since. -/
theorem traffic_returned : ∃ moves last,
    (daemon (Sample.env Sample.web) (Sample.assign Sample.trafficTasks) (Sample.world Sample.web)).Run moves last ∧
    last.shared.trail.selections = 2 ∧ last.shared.trail.carried = [⟨"A", "home", 7, 9, 0⟩] ∧
    last.shared.traffic.nodes["A"]? = some ⟨7, 9⟩ ∧
    last.shared.traffic.nodes["A"]? ≠ tally "A" last.shared.trail.selections last.shared.trail.carried := by
  obtain ⟨moves, last, run, _, hends⟩ := Pool.exec_reaches
    (Sample.steps 0 28 Sample.fine ++ Sample.steps 1 4 Sample.fine ++ Sample.steps 2 56 Sample.fine ++
      Sample.steps 4 56 Sample.fine ++ Sample.steps 1 4 { Sample.fine with relayed := (7, 9) })
    (daemon (Sample.env Sample.web) (Sample.assign Sample.trafficTasks) (Sample.world Sample.web))
    (fun last => decide (last.shared.trail.selections = 2) &&
      decide (last.shared.trail.carried = [⟨"A", "home", 7, 9, 0⟩]) &&
      decide (last.shared.traffic.nodes["A"]? = some ⟨7, 9⟩)) (by decide +kernel)
  simp only [Bool.and_eq_true, decide_eq_true_eq] at hends
  obtain ⟨⟨hselections, hcarried⟩, hcounters⟩ := hends
  refine ⟨moves, last, run, hselections, hcarried, hcounters, ?_⟩
  rw [hcounters, hselections, hcarried]
  simp [tally, counted]

end Causeway

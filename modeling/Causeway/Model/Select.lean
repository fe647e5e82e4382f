import Causeway.Model.State
import Causeway.Model.Subscription

/-!
# Candidate selection

`ranked_candidates` and `profile_candidates`: which nodes an operation tries, and in which order.
-/

namespace Causeway

def maxSwitchCandidates : Nat := 5

def inRegions (regions : List String) (node : Node) : Bool :=
  regions.any fun region => contains node.name region

/-- Probed nodes from highest to lowest score; an empty allowlist allows all. -/
def rankedCandidates (nodes : List Node) (st : StateFile) (regions : List String) : List Node :=
  let probed := nodes.filter fun node => (st.nodes[node.name]?).any NodeStats.isProbed
  let probed := if regions.isEmpty then probed else probed.filter (inRegions regions)
  sortBy (fun a b => scoreCmp ((st.nodes[b.name]?).getD default) ((st.nodes[a.name]?).getD default)) probed

theorem mem_of_mem_rankedCandidates {nodes : List Node} {st : StateFile} {regions : List String}
    {node : Node} (h : node ∈ rankedCandidates nodes st regions) : node ∈ nodes := by
  unfold rankedCandidates at h
  rw [mem_sortBy] at h
  split at h
  · exact (List.mem_filter.mp h).1
  · exact (List.mem_filter.mp (List.mem_filter.mp h).1).1

theorem inRegions_of_mem_rankedCandidates {nodes : List Node} {st : StateFile} {regions : List String}
    {node : Node} (h : node ∈ rankedCandidates nodes st regions) :
    regions.isEmpty ∨ inRegions regions node := by
  unfold rankedCandidates at h
  rw [mem_sortBy] at h
  split at h
  · exact .inl ‹_›
  · exact .inr (List.mem_filter.mp h).2

/-- Append nodes whose name is not there yet. -/
def appendUnseen (ordered nodes : List Node) : List Node :=
  nodes.foldl (fun ordered node =>
    if ordered.any fun seen => seen.name = node.name then ordered else ordered ++ [node]) ordered

theorem mem_appendUnseen {ordered nodes : List Node} {node : Node} (h : node ∈ appendUnseen ordered nodes) :
    node ∈ ordered ∨ node ∈ nodes := by
  induction nodes generalizing ordered with
  | nil => exact .inl h
  | cons head nodes ih =>
      rw [appendUnseen, List.foldl_cons] at h
      rcases ih h with h | h
      · split at h
        · exact .inl h
        · rcases List.mem_append.mp h with h | h
          · exact .inl h
          · exact .inr (List.mem_cons.mpr (.inl (List.mem_singleton.mp h)))
      · exact .inr (List.mem_cons_of_mem _ h)

/-- The preferred node, then the probed ones by score, then the unprobed ones by name. -/
def profileCandidates (nodes : List Node) (stats : Option (BTreeMap NodeStats)) (preferred : Option String)
    (regions : List String) : List Node :=
  let pool := nodes.filter fun node => regions.isEmpty || inRegions regions node
  let statsOf := fun (node : Node) => stats.bind fun all => all[node.name]?
  let probed := pool.filter fun node => (statsOf node).any NodeStats.isProbed
  let probed :=
    if stats.isSome then
      sortBy (fun a b => scoreCmp ((statsOf b).getD default) ((statsOf a).getD default)) probed
    else probed
  let ordered := (preferred.bind fun name => pool.find? fun node => node.name = name).toList
  let unprobed := sortBy (fun a b => compare a.name b.name)
    (pool.filter fun node => !(statsOf node).any NodeStats.isProbed)
  appendUnseen (appendUnseen ordered probed) unprobed

theorem mem_profileCandidates {nodes : List Node} {stats : Option (BTreeMap NodeStats)}
    {preferred : Option String} {regions : List String} {node : Node}
    (h : node ∈ profileCandidates nodes stats preferred regions) :
    node ∈ nodes ∧ (regions.isEmpty ∨ inRegions regions node) := by
  suffices hpool : node ∈ nodes.filter fun node => regions.isEmpty || inRegions regions node by
    simpa using hpool
  unfold profileCandidates at h
  rcases mem_appendUnseen h with h | h
  · rcases mem_appendUnseen h with h | h
    · cases preferred with
      | none => simp at h
      | some name =>
          rw [Option.bind_some, Option.mem_toList] at h
          exact List.mem_of_find?_eq_some h
    · split at h
      · rw [mem_sortBy] at h
        exact (List.mem_filter.mp h).1
      · exact (List.mem_filter.mp h).1
  · rw [mem_sortBy] at h
    exact (List.mem_filter.mp h).1

end Causeway

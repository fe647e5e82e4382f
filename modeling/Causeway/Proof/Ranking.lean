import Mathlib.Data.String.Basic
import Mathlib.Order.WithBot
import Mathlib.Tactic.Linarith
import Causeway.Model.Dashboard
import Causeway.Order.Comparator
import Causeway.Proof.Selection

/-!
# Rankings

What `score.rs` and the candidate lists promise: the order of scores, the two directions of the hysteresis decision, and the order in which candidates are tried.
-/

namespace Causeway

open Comparator Concurrent

/-! ### The order of scores -/

namespace NodeStats

/-- Higher is better; a node that never succeeded is at the bottom. -/
def latency (stats : NodeStats) : WithBot (OrderDual ℚ) :=
  match stats.rttEmaMs with
  | some ms => (OrderDual.toDual ms : OrderDual ℚ)
  | none => ⊥

/-- The success rates are too close to call. -/
def Close (a b : NodeStats) : Prop := |a.successEma - b.successEma| ≤ successTieEps

instance (a b : NodeStats) : Decidable (Close a b) := inferInstanceAs (Decidable (_ ≤ _))

theorem close_iff {a b : NodeStats} :
    Close a b ↔ a.successEma ≤ b.successEma + successTieEps ∧ b.successEma ≤ a.successEma + successTieEps := by
  rw [Close, abs_le]
  constructor
  · rintro ⟨hlow, hhigh⟩
    exact ⟨by linarith, by linarith⟩
  · rintro ⟨hlow, hhigh⟩
    exact ⟨by linarith, by linarith⟩

theorem Close.symm {a b : NodeStats} (h : Close a b) : Close b a := by
  rw [close_iff] at h ⊢
  exact h.symm

/-- Rates that are not close are far apart. -/
theorem far_of_lt {a b : NodeStats} (h : ¬ Close a b) (hlt : a.successEma < b.successEma) :
    a.successEma + successTieEps < b.successEma := by
  by_contra hle
  refine h (close_iff.mpr ⟨?_, not_lt.mp hle⟩)
  have heps : (0 : ℚ) < successTieEps := by norm_num [successTieEps]
  linarith

end NodeStats

open NodeStats

section

variable {a b c : NodeStats} {S : Set NodeStats}

theorem totalCmp_swap (x y : ℚ) : totalCmp y x = (totalCmp x y).swap := by
  unfold totalCmp
  rcases lt_trichotomy x y with h | rfl | h
  · simp [h, h.ne', h.not_gt]
  · simp
  · simp [h, h.ne', h.not_gt]

theorem totalCmp_not_gt_iff {x y : ℚ} : totalCmp x y ≠ .gt ↔ x ≤ y := by
  unfold totalCmp
  rcases lt_trichotomy x y with h | rfl | h
  · simp [h, h.le]
  · simp
  · simp [h.ne', h.not_gt, h.not_ge]

theorem successCmp_swap (x y : ℚ) : successCmp y x = (successCmp x y).swap := by
  unfold successCmp
  rw [abs_sub_comm]
  split
  · rfl
  · exact totalCmp_swap x y

theorem scoreCmp_swap (a b : NodeStats) : scoreCmp b a = (scoreCmp a b).swap := by
  unfold scoreCmp
  rw [successCmp_swap a.successEma b.successEma]
  cases successCmp a.successEma b.successEma with
  | lt => rfl
  | gt => rfl
  | eq =>
      cases a.rttEmaMs <;> cases b.rttEmaMs <;> first | rfl | exact totalCmp_swap _ _

/-- Close success rates are decided by latency, others by themselves. -/
theorem scoreCmp_not_gt_iff : scoreCmp a b ≠ .gt ↔
    Close a b ∧ a.latency ≤ b.latency ∨ ¬ Close a b ∧ a.successEma < b.successEma := by
  unfold scoreCmp successCmp
  by_cases hclose : |a.successEma - b.successEma| ≤ successTieEps
  · have hclose' : Close a b := hclose
    simp only [if_pos hclose, hclose', latency]
    cases a.rttEmaMs <;> cases b.rttEmaMs <;> simp [totalCmp_not_gt_iff]
  · have hclose' : ¬ Close a b := hclose
    have hne : a.successEma ≠ b.successEma := by
      intro heq
      rw [heq, sub_self, abs_zero] at hclose
      exact hclose (by norm_num [successTieEps])
    simp only [if_neg hclose, hclose']
    have hcmp : totalCmp a.successEma b.successEma = if a.successEma < b.successEma then .lt else .gt := by
      simp [totalCmp, hne]
    rw [hcmp]
    by_cases hlt : a.successEma < b.successEma <;> simp [hlt]

/-- Three statistics on a ladder: each rung is too close to the next to call, the ends are not, and latency never improves on the way up. -/
structure Ladder (a b c : NodeStats) : Prop where
  low : Close a b
  high : Close b c
  apart : ¬ Close a c
  up : a.successEma < c.successEma
  slower : b.latency ≤ a.latency
  slowest : c.latency ≤ b.latency

instance (a b c : NodeStats) : Decidable (Ladder a b c) :=
  decidable_of_iff (Close a b ∧ Close b c ∧ ¬ Close a c ∧ a.successEma < c.successEma ∧
      b.latency ≤ a.latency ∧ c.latency ≤ b.latency)
    ⟨fun ⟨low, high, apart, up, slower, slowest⟩ => ⟨low, high, apart, up, slower, slowest⟩,
      fun h => ⟨h.low, h.high, h.apart, h.up, h.slower, h.slowest⟩⟩

/-- On a ladder the order goes in a circle. -/
theorem Ladder.circle (h : Ladder a b c) : scoreCmp c b ≠ .gt ∧ scoreCmp b a ≠ .gt ∧ scoreCmp a c = .lt := by
  refine ⟨scoreCmp_not_gt_iff.mpr (.inl ⟨h.high.symm, h.slowest⟩), scoreCmp_not_gt_iff.mpr (.inl ⟨h.low.symm, h.slower⟩), ?_⟩
  have hback : scoreCmp c a = .gt := by
    by_contra hle
    rcases scoreCmp_not_gt_iff.mp hle with ⟨hclose, _⟩ | ⟨_, hlt⟩
    · exact h.apart hclose.symm
    · exact absurd h.up hlt.not_gt
  rw [scoreCmp_swap, hback]
  rfl

/-- Otherwise "not above" is transitive. -/
theorem scoreCmp_not_gt_trans (hcba : ¬ Ladder c b a) (hacb : ¬ Ladder a c b) (hbac : ¬ Ladder b a c)
    (hab : scoreCmp a b ≠ .gt) (hbc : scoreCmp b c ≠ .gt) : scoreCmp a c ≠ .gt := by
  rw [scoreCmp_not_gt_iff] at hab hbc ⊢
  by_cases hac : Close a c
  · refine .inl ⟨hac, ?_⟩
    by_contra hlatency
    have hlatency := (not_le.mp hlatency).le
    rcases hab with ⟨hab, hle⟩ | ⟨hab, hlt⟩
    · rcases hbc with ⟨hbc, hle'⟩ | ⟨hbc, hlt'⟩
      · exact absurd (hle.trans hle') ‹_›
      · exact hbac ⟨hab.symm, hac, hbc, hlt', hle, hlatency⟩
    · rcases hbc with ⟨hbc, hle'⟩ | ⟨hbc, hlt'⟩
      · exact hacb ⟨hac, hbc.symm, hab, hlt, hlatency, hle'⟩
      · have hfar := far_of_lt hab hlt
        have hclose := (close_iff.mp hac).2
        linarith
  · refine .inr ⟨hac, ?_⟩
    by_contra hge
    have hca : c.successEma < a.successEma := by
      refine lt_of_le_of_ne (not_lt.mp hge) fun heq => hac ?_
      rw [Close, heq, sub_self, abs_zero]
      norm_num [successTieEps]
    have hfar := far_of_lt (fun hclose => hac hclose.symm) hca
    rcases hab with ⟨hab, hle⟩ | ⟨hab, hlt⟩
    · rcases hbc with ⟨hbc, hle'⟩ | ⟨hbc, hlt'⟩
      · exact hcba ⟨hbc.symm, hab.symm, fun hclose => hac hclose.symm, hca, hle', hle⟩
      · have hclose := (close_iff.mp hab).1
        have hfar' := far_of_lt hbc hlt'
        linarith
    · rcases hbc with ⟨hbc, hle'⟩ | ⟨hbc, hlt'⟩
      · have hclose := (close_iff.mp hbc).1
        have hfar' := far_of_lt hab hlt
        linarith
      · linarith

/-- The order of scores is a weak order exactly on the statistics without a ladder. -/
theorem scoreCmp_weakOn_iff : WeakOn scoreCmp S ↔ ∀ a ∈ S, ∀ b ∈ S, ∀ c ∈ S, ¬ Ladder a b c := by
  constructor
  · intro h a ha b hb c hc hladder
    obtain ⟨hcb, hba, hac⟩ := hladder.circle
    refine h.not_gt_trans hc hb ha hcb hba ?_
    rw [scoreCmp_swap, hac]
    rfl
  · intro h
    refine .of_not_gt_trans (fun a _ b _ => scoreCmp_swap a b) fun a ha b hb c hc hab hbc => ?_
    exact scoreCmp_not_gt_trans (h c hc b hb a ha) (h a ha c hc b hb) (h b hb a ha c hc) hab hbc

end

/-! ### The order of candidates -/

section

variable {nodes nodes' : List Node} {stats : Option (BTreeMap NodeStats)} {preferred : Option String}
  {regions : List String} {node : Node}

/-- Automatic selection may choose the node. -/
def eligibleIn (regions : List String) (node : Node) : Bool := regions.isEmpty || inRegions regions node

def probedIn (stats : Option (BTreeMap NodeStats)) (node : Node) : Bool :=
  (stats.bind fun all => all[node.name]?).any NodeStats.isProbed

def scoreIn (stats : Option (BTreeMap NodeStats)) (node : Node) : NodeStats :=
  (stats.bind fun all => all[node.name]?).getD default

def rankedPart (stats : Option (BTreeMap NodeStats)) (pool : List Node) : List Node :=
  sortBy (fun a b => scoreCmp (scoreIn stats b) (scoreIn stats a)) (pool.filter (probedIn stats))

def namedPart (stats : Option (BTreeMap NodeStats)) (pool : List Node) : List Node :=
  sortBy (fun a b => compare a.name b.name) (pool.filter fun node => !probedIn stats node)

theorem sortBy_perm {α : Type} (cmp : α → α → Ordering) (l : List α) : (sortBy cmp l).Perm l :=
  List.perm_insertionSort _ l

/-- Nodes whose names differ are appended unless their name is there. -/
theorem appendUnseen_eq {ordered : List Node} (hunique : (nodes.map Node.name).Nodup) :
    appendUnseen ordered nodes = ordered ++ nodes.filter fun node => !ordered.any fun seen => seen.name = node.name := by
  induction nodes generalizing ordered with
  | nil => simp [appendUnseen]
  | cons head nodes ih =>
      obtain ⟨hhead, hunique⟩ := List.nodup_cons.mp hunique
      have hstep : appendUnseen ordered (head :: nodes) =
          appendUnseen (if ordered.any fun seen => seen.name = head.name then ordered else ordered ++ [head]) nodes := rfl
      rw [hstep, ih hunique, List.filter_cons]
      cases hseen : ordered.any fun seen => decide (seen.name = head.name) with
      | true => simp
      | false =>
          have hrest : ∀ node ∈ nodes, ¬ head.name = node.name := fun node hnode heq =>
            hhead (heq ▸ List.mem_map_of_mem hnode)
          simp only [Bool.false_eq_true, if_false, Bool.not_false, if_true, List.append_assoc, List.singleton_append]
          congr 2
          refine List.filter_congr fun node hnode => ?_
          simp [hrest node hnode]

theorem unique_filter (hunique : (nodes.map Node.name).Nodup) (p : Node → Bool) :
    ((nodes.filter p).map Node.name).Nodup :=
  hunique.sublist (List.filter_sublist.map Node.name)

theorem unique_sortBy {cmp : Node → Node → Ordering} (hunique : (nodes.map Node.name).Nodup) :
    ((sortBy cmp nodes).map Node.name).Nodup :=
  ((sortBy_perm cmp nodes).map Node.name).nodup_iff.mpr hunique

def preferredIn (preferred : Option String) (pool : List Node) : List Node :=
  (preferred.bind fun name => pool.find? fun node => node.name = name).toList

theorem any_preferredIn (hnode : node ∈ nodes) :
    ((preferredIn preferred nodes).any fun seen => seen.name = node.name) = decide (preferred = some node.name) := by
  cases preferred with
  | none => simp [preferredIn]
  | some name =>
      cases hfind : nodes.find? fun node => node.name = name with
      | none =>
          have hne : ¬ node.name = name := by simpa using List.find?_eq_none.mp hfind node hnode
          simp [preferredIn, hfind, Ne.symm hne]
      | some found =>
          have hname : found.name = name := by simpa using List.find?_some hfind
          simp [preferredIn, hfind, hname]

theorem mem_rankedPart : node ∈ rankedPart stats nodes ↔ node ∈ nodes ∧ probedIn stats node = true := by
  rw [rankedPart, mem_sortBy, List.mem_filter]

theorem mem_namedPart : node ∈ namedPart stats nodes ↔ node ∈ nodes ∧ probedIn stats node = false := by
  rw [namedPart, mem_sortBy, List.mem_filter, Bool.not_eq_true']

/-- What the three sublists come to. -/
theorem profileCandidates_eq (hunique : (nodes.map Node.name).Nodup) :
    profileCandidates nodes stats preferred regions =
      preferredIn preferred (nodes.filter (eligibleIn regions)) ++
        (rankedPart stats (nodes.filter (eligibleIn regions)) ++
          namedPart stats (nodes.filter (eligibleIn regions))).filter fun node => preferred ≠ some node.name := by
  have hpool := unique_filter hunique (eligibleIn regions)
  have hranked : (if stats.isSome then rankedPart stats (nodes.filter (eligibleIn regions))
      else (nodes.filter (eligibleIn regions)).filter (probedIn stats)) =
      rankedPart stats (nodes.filter (eligibleIn regions)) := by
    cases stats with
    | none => simp [rankedPart, probedIn, sortBy]
    | some all => rfl
  have hsplit : profileCandidates nodes stats preferred regions = appendUnseen (appendUnseen
      (preferredIn preferred (nodes.filter (eligibleIn regions)))
      (if stats.isSome then rankedPart stats (nodes.filter (eligibleIn regions))
        else (nodes.filter (eligibleIn regions)).filter (probedIn stats)))
      (namedPart stats (nodes.filter (eligibleIn regions))) := rfl
  generalize nodes.filter (eligibleIn regions) = pool at hpool hranked hsplit ⊢
  have hnames : ((rankedPart stats pool).map Node.name).Nodup := unique_sortBy (unique_filter hpool _)
  have hnames' : ((namedPart stats pool).map Node.name).Nodup := unique_sortBy (unique_filter hpool _)
  rw [hsplit, hranked, appendUnseen_eq hnames, appendUnseen_eq hnames', List.filter_append, List.append_assoc]
  congr 2
  · refine List.filter_congr fun node hnode => ?_
    rw [any_preferredIn (mem_rankedPart.mp hnode).1]
    simp
  · refine List.filter_congr fun node hnode => ?_
    obtain ⟨hmem, hprobed⟩ := mem_namedPart.mp hnode
    rw [List.any_append, any_preferredIn hmem]
    -- Two nodes of one name are one node, and that is not probed.
    have hapart : ((rankedPart stats pool).filter fun node =>
        !(preferredIn preferred pool).any fun seen => seen.name = node.name).any
          (fun seen => seen.name = node.name) = false := by
      rw [List.any_eq_false]
      intro seen hseen heq
      obtain ⟨hseen, hprobed'⟩ := mem_rankedPart.mp (List.mem_filter.mp hseen).1
      have hsame := List.inj_on_of_nodup_map hpool hseen hmem (by simpa using heq)
      simp [hsame, hprobed] at hprobed'
    rw [hapart]
    simp

theorem preferredIn_eq (hunique : (nodes.map Node.name).Nodup) :
    preferredIn preferred nodes = nodes.filter fun node => preferred = some node.name := by
  cases preferred with
  | none => simp [preferredIn]
  | some name =>
      rw [preferredIn, Option.bind_some]
      induction nodes with
      | nil => rfl
      | cons head nodes ih =>
          obtain ⟨hhead, hunique⟩ := List.nodup_cons.mp hunique
          by_cases hname : head.name = name
          · subst hname
            have hrest : ∀ node ∈ nodes, ¬ head.name = node.name := fun node hnode heq =>
              hhead (heq ▸ List.mem_map_of_mem hnode)
            simpa using hrest
          · have hname' : ¬ name = head.name := Ne.symm hname
            simpa [hname, hname'] using ih hunique

/-- The parts of a pool, put together again. -/
theorem parts_perm : (rankedPart stats nodes ++ namedPart stats nodes).Perm nodes :=
  ((sortBy_perm _ _).append (sortBy_perm _ _)).trans (List.filter_append_perm (probedIn stats) nodes)

theorem namedPart_pairwise (hunique : (nodes.map Node.name).Nodup) :
    (namedPart stats nodes).Pairwise fun a b => a.name < b.name := by
  have hweak := (show WeakOn (fun a b : String => compare a b) Set.univ from .of_transCmp).comap Node.name
  have hsorted := hweak.insertionSort_pairwise (l := nodes.filter fun node => !probedIn stats node) (by simp)
  have hnames : ((namedPart stats nodes).map Node.name).Nodup := unique_sortBy (unique_filter hunique _)
  rw [List.nodup_iff_pairwise_ne, List.pairwise_map] at hnames
  refine (hsorted.and hnames).imp fun ⟨hle, hne⟩ => ?_
  exact lt_of_le_of_ne (compare_le_iff_le.mp hle) hne

/-- What is promised of the list of candidates. -/
structure CandidateOrder (nodes : List Node) (stats : Option (BTreeMap NodeStats)) (preferred : Option String)
    (regions : List String) (ordered : List Node) : Prop where
  exact : ordered.Perm (nodes.filter (eligibleIn regions))
  first : ∀ node ∈ nodes, eligibleIn regions node = true → preferred = some node.name → ordered.head? = some node
  probedFirst : (ordered.filter fun node => preferred ≠ some node.name).Pairwise fun a b =>
    probedIn stats b = true → probedIn stats a = true
  byName : (ordered.filter fun node => preferred ≠ some node.name).Pairwise fun a b =>
    probedIn stats a = false → probedIn stats b = false → a.name < b.name
  ranked : preferred = none → ∀ st : StateFile, st.nodes = stats.getD ∅ →
    ordered.filter (probedIn stats) = rankedCandidates nodes st regions

/-- Without a preferred node the filter leaves everything. -/
theorem rankedPart_eq {st : StateFile} (hst : st.nodes = stats.getD ∅) :
    rankedPart stats (nodes.filter (eligibleIn regions)) = rankedCandidates nodes st regions := by
  have hlookup : ∀ name : String, st.nodes[name]? = stats.bind fun all => all[name]? := by
    intro name
    rw [hst]
    cases stats <;> simp
  have hprobed : (fun node : Node => (st.nodes[node.name]?).any NodeStats.isProbed) = probedIn stats := by
    funext node
    rw [hlookup, probedIn]
  have hscore : (fun a b : Node => scoreCmp ((st.nodes[b.name]?).getD default) ((st.nodes[a.name]?).getD default)) =
      fun a b => scoreCmp (scoreIn stats b) (scoreIn stats a) := by
    funext a b
    rw [hlookup, hlookup, scoreIn, scoreIn]
  rw [rankedCandidates, hprobed, hscore, rankedPart, List.filter_filter]
  congr 1
  split
  · rename_i hempty
    simp [eligibleIn, hempty]
  · rename_i hregions
    rw [List.filter_filter]
    refine List.filter_congr fun node _ => ?_
    simp [eligibleIn, hregions, Bool.and_comm]

/-- The nodes other than the preferred one, in their order. -/
theorem rest_eq (hunique : (nodes.map Node.name).Nodup) :
    (profileCandidates nodes stats preferred regions).filter (fun node => preferred ≠ some node.name) =
      (rankedPart stats (nodes.filter (eligibleIn regions)) ++
        namedPart stats (nodes.filter (eligibleIn regions))).filter fun node => preferred ≠ some node.name := by
  rw [profileCandidates_eq hunique, preferredIn_eq (unique_filter hunique _), List.filter_append, List.filter_filter,
    List.filter_filter]
  simp

/-- The candidates of a pool whose names are unique are as promised. -/
theorem candidate_order {nodes : List Node} (hunique : (nodes.map Node.name).Nodup) (stats : Option (BTreeMap NodeStats))
    (preferred : Option String) (regions : List String) :
    CandidateOrder nodes stats preferred regions (profileCandidates nodes stats preferred regions) := by
  have hpool := unique_filter hunique (eligibleIn regions)
  have hrest := @rest_eq nodes stats preferred regions hunique
  refine ⟨?_, fun node hnode heligible hpreferred => ?_, ?_, ?_, fun hnone st hst => ?_⟩
  · rw [profileCandidates_eq hunique, preferredIn_eq hpool]
    refine (List.Perm.append_left _ (parts_perm.filter _)).trans ?_
    simpa using List.filter_append_perm (fun node => decide (preferred = some node.name)) (nodes.filter (eligibleIn regions))
  · have hmem : node ∈ nodes.filter (eligibleIn regions) := List.mem_filter.mpr ⟨hnode, heligible⟩
    have hfirst : node ∈ preferredIn preferred (nodes.filter (eligibleIn regions)) := by
      rw [preferredIn_eq hpool]
      exact List.mem_filter.mpr ⟨hmem, by simpa using hpreferred⟩
    obtain ⟨found, hfound⟩ : ∃ found, preferredIn preferred (nodes.filter (eligibleIn regions)) = [found] := by
      unfold preferredIn at hfirst ⊢
      generalize (preferred.bind fun name => (nodes.filter (eligibleIn regions)).find? fun node => node.name = name) = found
        at hfirst ⊢
      cases found with
      | none => simp at hfirst
      | some found => exact ⟨found, rfl⟩
    rw [hfound, List.mem_singleton] at hfirst
    rw [profileCandidates_eq hunique, hfound, hfirst]
    rfl
  · rw [hrest]
    refine List.Pairwise.filter _ (List.pairwise_append.mpr ⟨?_, ?_, ?_⟩)
    · exact List.pairwise_of_forall_mem_list fun a ha b hb _ => (mem_rankedPart.mp ha).2
    · exact List.pairwise_of_forall_mem_list fun a ha b hb hprobed => by simp [(mem_namedPart.mp hb).2] at hprobed
    · exact fun a ha b hb _ => (mem_rankedPart.mp ha).2
  · rw [hrest]
    refine List.Pairwise.filter _ (List.pairwise_append.mpr ⟨?_, ?_, ?_⟩)
    · exact List.pairwise_of_forall_mem_list fun a ha b hb hprobed => by simp [(mem_rankedPart.mp ha).2] at hprobed
    · exact (namedPart_pairwise hpool).imp fun hlt _ _ => hlt
    · exact fun a ha b hb hprobed => by simp [(mem_rankedPart.mp ha).2] at hprobed
  · rw [hnone, profileCandidates_eq hunique, ← rankedPart_eq hst]
    have hprobed : ∀ node ∈ rankedPart stats (nodes.filter (eligibleIn regions)), probedIn stats node = true :=
      fun node hnode => (mem_rankedPart.mp hnode).2
    have hnamed : ∀ node ∈ namedPart stats (nodes.filter (eligibleIn regions)), ¬ probedIn stats node = true :=
      fun node hnode => by simp [(mem_namedPart.mp hnode).2]
    simp [preferredIn, List.filter_append, List.filter_eq_self.mpr hprobed, List.filter_eq_nil_iff.mpr hnamed]

end

/-- A node with statistics, one without, one that is asked for, and one that no region allows. -/
theorem candidate_order_preferred :
    let nodes := Sample.wideNodes ++ [Sample.node "D" "home"]
    let ordered := profileCandidates nodes (some (.ofList [("A", Sample.probed)])) (some "C") ["A", "B", "C"]
    CandidateOrder nodes (some (.ofList [("A", Sample.probed)])) (some "C") ["A", "B", "C"] ordered ∧
      ordered.map Node.name = ["C", "A", "B"] :=
  ⟨candidate_order (by decide +kernel) _ _ _, by decide +kernel⟩

/-! ### Rankings do not depend on the order of the pool -/

section

variable {nodes nodes' : List Node} {stats : Option (BTreeMap NodeStats)} {preferred : Option String}
  {regions : List String} {S : Set NodeStats}

def Scored (S : Set NodeStats) (stats : Option (BTreeMap NodeStats)) (nodes : List Node) : Prop :=
  ∀ node ∈ nodes, ∀ found, (stats.bind fun all => all[node.name]?) = some found → found ∈ S

/-- One node, or two probed nodes of one score. -/
def Tied (stats : Option (BTreeMap NodeStats)) (a b : Node) : Prop :=
  a = b ∨ probedIn stats a = true ∧ probedIn stats b = true ∧ scoreCmp (scoreIn stats a) (scoreIn stats b) = .eq

namespace Dashboard

theorem probedCmp_eq (a b : String) (sa sb : Option NodeStats) :
    probedCmp a b sa sb =
      (someFirst (fun sa sb => scoreCmp sb sa) (sa.filter NodeStats.isProbed) (sb.filter NodeStats.isProbed)).then
        (compare a b) := by
  unfold probedCmp
  cases sa.filter NodeStats.isProbed <;> cases sb.filter NodeStats.isProbed <;> rfl

/-- The names that the table shows, before they are sorted. -/
def shownNames (snapshot : Option StatusSnapshot) (subs : List String) : List String :=
  match snapshot with
  | some snapshot =>
      if snapshot.availableNodes.isEmpty then
        snapshot.nodes.keys.foldl (fun names node => if node ∈ names then names else names ++ [node]) subs
      else subs
  | none => subs

theorem appendKeys_perm {subs subs' : List String} (hperm : subs.Perm subs') (keys : List String) :
    (keys.foldl (fun names node => if node ∈ names then names else names ++ [node]) subs).Perm
      (keys.foldl (fun names node => if node ∈ names then names else names ++ [node]) subs') := by
  induction keys generalizing subs subs' with
  | nil => exact hperm
  | cons key keys ih =>
      rw [List.foldl_cons, List.foldl_cons]
      apply ih
      by_cases hkey : key ∈ subs
      · rwa [if_pos hkey, if_pos (hperm.mem_iff.mp hkey)]
      · rw [if_neg hkey, if_neg fun hkey' => hkey (hperm.mem_iff.mpr hkey')]
        exact hperm.append_right _

/-- The statistics of the snapshot are in the set. -/
def ScoredIn (S : Set NodeStats) (snapshot : Option StatusSnapshot) : Prop :=
  ∀ (name : String) found, ((snapshot.map (·.nodes)).bind fun all => all[name]?) = some found → found ∈ S

theorem orderCmp_weakOn {snapshot : Option StatusSnapshot} (hweak : WeakOn scoreCmp S) (hscored : ScoredIn S snapshot) :
    WeakOn (orderCmp (snapshot.map (·.nodes)) none) Set.univ := by
  have hscores := hweak.flip.someFirst.comap fun name : String =>
    ((snapshot.map (·.nodes)).bind fun all => all[name]?).filter NodeStats.isProbed
  have hall : Set.univ ⊆ Set.preimage (fun name : String =>
      ((snapshot.map (·.nodes)).bind fun all => all[name]?).filter NodeStats.isProbed)
      {o | ∀ a, o = some a → a ∈ S} := by
    intro name _ found hfound
    exact hscored name found (Option.filter_eq_some_iff.mp hfound).1
  have hthen := (hscores.mono hall).thenWith (@WeakOn.of_transCmp String compare _)
  have heq : orderCmp (snapshot.map (·.nodes)) none = _ := funext fun a => funext fun b => probedCmp_eq a b _ _
  rw [heq]
  exact hthen

/-- Before a probe round the table does not depend on the order of the pool. -/
theorem orderedNames_perm {snapshot : Option StatusSnapshot} {subs subs' : List String} (hweak : WeakOn scoreCmp S)
    (hscored : ScoredIn S snapshot) (hperm : subs.Perm subs') :
    orderedNames snapshot subs none = orderedNames snapshot subs' none := by
  have hcmp := orderCmp_weakOn hweak hscored
  have hnames : (shownNames snapshot subs).Perm (shownNames snapshot subs') := by
    unfold shownNames
    split
    · split
      · exact appendKeys_perm hperm _
      · exact hperm
    · exact hperm
  have hsorted : ∀ names, (orderedNames snapshot names none).Pairwise fun a b =>
      orderCmp (snapshot.map (·.nodes)) none a b ≠ .gt := fun names =>
    hcmp.insertionSort_pairwise fun _ _ => Set.mem_univ _
  have hties := hcmp.ties_of_perm (fun _ _ => Set.mem_univ _)
    (((sortBy_perm _ _).trans hnames).trans (sortBy_perm _ _).symm) (hsorted subs) (hsorted subs')
  have hsame : List.Forall₂ (· = ·) (orderedNames snapshot subs none) (orderedNames snapshot subs' none) := by
    refine hties.imp fun a b htie => ?_
    have hnamed := (Ordering.then_eq_eq.mp ((probedCmp_eq a b _ _).symm.trans htie)).2
    exact compare_eq_iff_eq.mp hnamed
  rwa [List.forall₂_eq_eq_eq] at hsame

end Dashboard

/-- What a sort by score needs, and what it gives. -/
structure ScoreOrder (S : Set NodeStats) : Prop where
  weak : WeakOn scoreCmp S
  ranked : ∀ (nodes nodes' : List Node) (st : StateFile) (regions : List String), nodes.Perm nodes' →
    Scored S (some st.nodes) nodes →
    List.Forall₂ (Tied (some st.nodes)) (rankedCandidates nodes st regions) (rankedCandidates nodes' st regions)
  profile : ∀ (nodes nodes' : List Node) (stats : Option (BTreeMap NodeStats)) (preferred : Option String)
    (regions : List String), (nodes.map Node.name).Nodup → nodes.Perm nodes' → Scored S stats nodes →
    List.Forall₂ (Tied stats) (profileCandidates nodes stats preferred regions)
      (profileCandidates nodes' stats preferred regions)
  displayed : ∀ (snapshot : Option StatusSnapshot) (subs subs' : List String), subs.Perm subs' →
    Dashboard.ScoredIn S snapshot → Dashboard.orderedNames snapshot subs none = Dashboard.orderedNames snapshot subs' none

theorem Scored.mem {node : Node} (h : Scored S stats nodes) (hnode : node ∈ nodes) (hprobed : probedIn stats node = true) :
    scoreIn stats node ∈ S := by
  unfold probedIn at hprobed
  unfold scoreIn
  have hfound := h node hnode
  cases hlookup : stats.bind fun all => all[node.name]? with
  | none => simp [hlookup] at hprobed
  | some found => exact hfound found hlookup

/-- The probed nodes of two orders of one pool, without those that are left out. -/
theorem rankedPart_tied (hweak : WeakOn scoreCmp S) (hperm : nodes.Perm nodes') (hscored : Scored S stats nodes)
    (p : Node → Bool) :
    List.Forall₂ (Tied stats) ((rankedPart stats nodes).filter p) ((rankedPart stats nodes').filter p) := by
  have hby := hweak.flip.comap (scoreIn stats)
  have hmem : ∀ node ∈ nodes.filter (probedIn stats), node ∈ Set.preimage (scoreIn stats) S := by
    intro node hnode
    obtain ⟨hnode, hprobed⟩ := List.mem_filter.mp hnode
    exact hscored.mem hnode hprobed
  have hmem' : ∀ node ∈ nodes'.filter (probedIn stats), node ∈ Set.preimage (scoreIn stats) S := fun node hnode =>
    hmem node ((hperm.filter _).mem_iff.mpr hnode)
  have hsame : ((rankedPart stats nodes).filter p).Perm ((rankedPart stats nodes').filter p) :=
    (((sortBy_perm _ _).trans (hperm.filter _)).trans (sortBy_perm _ _).symm).filter p
  have hties := hby.ties_of_perm (fun node hnode => hmem node ?_) hsame
    ((hby.insertionSort_pairwise hmem).filter p) ((hby.insertionSort_pairwise hmem').filter p)
  · refine (List.forall₂_iff_get.mpr ⟨hties.length_eq, fun n hn hn' => .inr ?_⟩)
    have hleft := mem_rankedPart.mp (List.mem_filter.mp (List.get_mem _ ⟨n, hn⟩)).1
    have hright := mem_rankedPart.mp (List.mem_filter.mp (List.get_mem _ ⟨n, hn'⟩)).1
    have htie := (List.forall₂_iff_get.mp hties).2 n hn hn'
    refine ⟨hleft.2, hright.2, ?_⟩
    rw [scoreCmp_swap]
    exact congrArg Ordering.swap htie
  · exact (mem_sortBy.mp (List.mem_filter.mp hnode).1)

theorem namedPart_perm (hunique : (nodes.map Node.name).Nodup) (hperm : nodes.Perm nodes') :
    namedPart stats nodes = namedPart stats nodes' := by
  have hunique' : (nodes'.map Node.name).Nodup := (hperm.map _).nodup_iff.mp hunique
  have hsame : (namedPart stats nodes).Perm (namedPart stats nodes') :=
    ((sortBy_perm _ _).trans (hperm.filter _)).trans (sortBy_perm _ _).symm
  exact hsame.eq_of_pairwise (fun a b _ _ hab hba => absurd hab (not_lt_of_gt hba)) (namedPart_pairwise hunique)
    (namedPart_pairwise hunique')

theorem preferredIn_perm (hunique : (nodes.map Node.name).Nodup) (hperm : nodes.Perm nodes') :
    preferredIn preferred nodes = preferredIn preferred nodes' := by
  have hsame : (preferredIn preferred nodes).Perm (preferredIn preferred nodes') := by
    rw [preferredIn_eq hunique, preferredIn_eq ((hperm.map _).nodup_iff.mp hunique)]
    exact hperm.filter _
  unfold preferredIn at hsame ⊢
  generalize (preferred.bind fun name => nodes'.find? fun node => node.name = name) = right at hsame ⊢
  cases right with
  | none => simpa using hsame
  | some found => simpa using hsame

theorem tied_refl (l : List Node) : List.Forall₂ (Tied stats) l l :=
  List.forall₂_same.mpr fun _ _ => .inl rfl

/-- The order of scores does what a sort needs, and rankings do not depend on the order of the pool, exactly on the statistics without a ladder. -/
theorem score_order_iff (S : Set NodeStats) : ScoreOrder S ↔ ∀ a ∈ S, ∀ b ∈ S, ∀ c ∈ S, ¬ Ladder a b c := by
  rw [← scoreCmp_weakOn_iff]
  refine ⟨ScoreOrder.weak, fun hweak => ⟨hweak, ?_, ?_, ?_⟩⟩
  · intro nodes nodes' st regions hperm hscored
    have hfilter : Scored S (some st.nodes) (nodes.filter (eligibleIn regions)) := fun node hnode =>
      hscored node (List.mem_filter.mp hnode).1
    have htied := rankedPart_tied hweak (hperm.filter (eligibleIn regions)) hfilter fun _ => true
    rwa [List.filter_true, List.filter_true, rankedPart_eq rfl, rankedPart_eq rfl] at htied
  · intro nodes nodes' stats preferred regions hunique hperm hscored
    have hpool := hperm.filter (eligibleIn regions)
    have hnames := unique_filter hunique (eligibleIn regions)
    have hfilter : Scored S stats (nodes.filter (eligibleIn regions)) := fun node hnode =>
      hscored node (List.mem_filter.mp hnode).1
    rw [profileCandidates_eq hunique, profileCandidates_eq ((hperm.map _).nodup_iff.mp hunique),
      preferredIn_perm hnames hpool, List.filter_append, List.filter_append, namedPart_perm hnames hpool]
    exact List.rel_append (tied_refl _) (List.rel_append (rankedPart_tied hweak hpool hfilter _) (tied_refl _))
  · intro snapshot subs subs' hperm hscored
    exact Dashboard.orderedNames_perm hweak hscored hperm

/-- Rates of 0, 0.00009 and 0.00018 at one latency. -/
def Sample.ladder : List NodeStats :=
  [{ Sample.probed with successEma := 0 }, { Sample.probed with successEma := 9 / 100000 },
    { Sample.probed with successEma := 18 / 100000 }]

/-- The middle one ties with both others, which do not tie. -/
theorem score_order_ladder : ¬ ScoreOrder {stats | stats ∈ Sample.ladder} := by
  intro h
  have heq := h.weak.eq_trans { Sample.probed with successEma := 0 } (by decide +kernel)
    { Sample.probed with successEma := 9 / 100000 } (by decide +kernel)
    { Sample.probed with successEma := 18 / 100000 } (by decide +kernel) (by decide +kernel) (by decide +kernel)
  exact absurd heq (by decide +kernel)

end

/-! ### Both directions of the hysteresis decision -/

namespace NodeStats

/-- The averages of a node that has been probed. -/
structure Averages (stats : NodeStats) : Prop where
  probed : stats.isProbed = true
  rate : 0 ≤ stats.successEma ∧ stats.successEma ≤ 1
  latency : ∀ ms, stats.rttEmaMs = some ms → 0 ≤ ms

/-- Lower latency by the ratio, or any against none. -/
def Faster (a b : NodeStats) (hysteresis : ℚ) : Prop :=
  match a.rttEmaMs, b.rttEmaMs with
  | some x, some y => x * (1 + hysteresis) < y
  | some _, none => True
  | none, _ => False

/-- The lead of `a` is outside the band around `b` but inside the wider one around `a`, and `b` is faster. -/
structure Overlap (a b : NodeStats) (hysteresis : ℚ) : Prop where
  lead : hysteresis * max b.successEma (1 / 20) < a.successEma - b.successEma
  within : a.successEma - b.successEma ≤ hysteresis * max a.successEma (1 / 20)
  faster : Faster b a hysteresis

end NodeStats

section

variable {a b : NodeStats} {hysteresis : ℚ}

theorem challengerWins_iff (ha : a.isProbed = true) (hb : b.isProbed = true) :
    challengerWins a b hysteresis = true ↔
      hysteresis * max b.successEma (1 / 20) < |a.successEma - b.successEma| ∧ b.successEma < a.successEma ∨
      |a.successEma - b.successEma| ≤ hysteresis * max b.successEma (1 / 20) ∧ Faster a b hysteresis := by
  unfold challengerWins
  generalize hysteresis * max b.successEma (1 / 20) = margin
  by_cases hband : margin < |a.successEma - b.successEma|
  · simp [ha, hb, hband, hband.not_ge]
  · simp only [ha, hb, hband, not_lt.mp hband, Bool.not_true, Bool.false_eq_true, if_false, gt_iff_lt, false_and,
      true_and, false_or, Faster]
    cases a.rttEmaMs <;> cases b.rttEmaMs <;> simp

/-- Two nodes are not both faster than the other. -/
theorem NodeStats.Faster.not_both (ha : a.Averages) (hb : b.Averages) (hh : 0 ≤ hysteresis) (hab : Faster a b hysteresis)
    (hba : Faster b a hysteresis) : False := by
  unfold Faster at hab hba
  cases hx : a.rttEmaMs with
  | none => simp [hx] at hab
  | some x =>
      cases hy : b.rttEmaMs with
      | none => simp [hy] at hba
      | some y =>
          simp only [hx, hy] at hab hba
          have hxh := mul_nonneg (ha.latency x hx) hh
          have hyh := mul_nonneg (hb.latency y hy) hh
          linarith

/-- Both win exactly if the bands overlap in one direction or the other. -/
theorem challengerWins_both_iff (ha : a.Averages) (hb : b.Averages) (hh : 0 ≤ hysteresis) :
    challengerWins a b hysteresis = true ∧ challengerWins b a hysteresis = true ↔
      Overlap a b hysteresis ∨ Overlap b a hysteresis := by
  rw [challengerWins_iff ha.probed hb.probed, challengerWins_iff hb.probed ha.probed, abs_sub_comm b.successEma]
  have hfloor : (0 : ℚ) < 1 / 20 := by norm_num
  have hbandA : 0 ≤ hysteresis * max a.successEma (1 / 20) :=
    mul_nonneg hh (hfloor.le.trans (le_max_right _ _))
  have hbandB : 0 ≤ hysteresis * max b.successEma (1 / 20) :=
    mul_nonneg hh (hfloor.le.trans (le_max_right _ _))
  constructor
  · rintro ⟨⟨hout, hlt⟩ | ⟨hin, hfast⟩, ⟨hout', hlt'⟩ | ⟨hin', hfast'⟩⟩
    · exact absurd hlt' hlt.not_gt
    · rw [abs_of_pos (sub_pos.mpr hlt)] at hout hin'
      exact .inl ⟨hout, hin', hfast'⟩
    · rw [abs_sub_comm, abs_of_pos (sub_pos.mpr hlt')] at hout' hin
      exact .inr ⟨hout', hin, hfast⟩
    · exact (hfast.not_both ha hb hh hfast').elim
  · rintro (⟨hlead, hwithin, hfast⟩ | ⟨hlead, hwithin, hfast⟩)
    · have hpos := hbandB.trans_lt hlead
      rw [abs_of_pos hpos]
      exact ⟨.inl ⟨hlead, sub_pos.mp hpos⟩, .inr ⟨hwithin, hfast⟩⟩
    · have hpos := hbandA.trans_lt hlead
      rw [abs_sub_comm, abs_of_pos hpos]
      exact ⟨.inr ⟨hwithin, hfast⟩, .inl ⟨hlead, sub_pos.mp hpos⟩⟩

/-- The hysteresis step has moved the class from node `y` to node `x`, which it compared on these statistics. -/
def MovedBy (hist : History) (x y : String) (a b : NodeStats) : Prop :=
  ∃ newer new old cause older field failed, hist = newer ++ .installed new old cause :: older ∧
    cause.hysteresis = some (⟨y, x, some b, some a⟩, field, failed) ∧
    old.map (·.node.name) = some y ∧ new.node.name = x

/-- Of two nodes with these statistics only one beats the other, and the hysteresis step does not move a class to and fro between them. -/
structure NoFlip (a b : NodeStats) (hysteresis : ℚ) : Prop where
  law : ¬ (challengerWins a b hysteresis = true ∧ challengerWins b a hysteresis = true)
  step : ∀ (env : Env) (w : World) (tasks : Nat → Task) (moves : List (Move World)) (last : Pool World Outside Reply),
    Started env w → (daemon env tasks w).Run moves last → env.cfg.selection.hysteresis = hysteresis →
    ∀ cls ∈ env.classes, ∀ x y, x ≠ y →
      ¬ (MovedBy (last.shared.trail.hist cls) x y a b ∧ MovedBy (last.shared.trail.hist cls) y x b a)

/-- A move of the step is a win. -/
theorem MovedBy.wins {env : Env} {w : World} (hstart : Started env w) {tasks : Nat → Task} {moves : List (Move World)}
    {last : Pool World Outside Reply} (run : (daemon env tasks w).Run moves last) {cls : String} (hcls : cls ∈ env.classes)
    {x y : String} (hne : x ≠ y) (h : MovedBy (last.shared.trail.hist cls) x y a b) :
    challengerWins a b env.cfg.selection.hysteresis = true := by
  obtain ⟨newer, new, old, cause, older, field, failed, hhist, hstep, hold, hnew⟩ := h
  have hchosen := (reachable_install hstart run hcls hhist).2
  cases cause with
  | challengerWins seen found names =>
      cases hstep
      exact hchosen.2.2.1
  | pathRecovery inner =>
      have hsame : old.map (·.node.name) = some new.node.name := hchosen
      rw [hold, hnew] at hsame
      exact absurd (Option.some.inj hsame).symm hne
  | initial => cases hstep
  | manual => cases hstep
  | healthFailures bookedAt => cases hstep
  | egressChange => cases hstep
  | subscriptionChange refreshed => cases hstep
  | site nodeBefore active => cases hstep

/-- There is no to and fro exactly if the two bands do not overlap against the faster node. -/
theorem hysteresis_flip_iff {a b : NodeStats} {hysteresis : ℚ} (ha : a.Averages) (hb : b.Averages)
    (hh : 0 ≤ hysteresis ∧ hysteresis ≤ 1) :
    NoFlip a b hysteresis ↔ ¬ Overlap a b hysteresis ∧ ¬ Overlap b a hysteresis := by
  have hboth := challengerWins_both_iff ha hb hh.1
  rw [← not_or, ← hboth]
  refine ⟨NoFlip.law, fun hlaw => ⟨hlaw, ?_⟩⟩
  rintro env w tasks moves last hstart run rfl cls hcls x y hne ⟨hto, hfro⟩
  exact hlaw ⟨hto.wins hstart run hcls hne, hfro.wins hstart run hcls hne.symm⟩

/-- Statistics of one probe, with these averages. -/
def Sample.averages (rate ms : ℚ) : NodeStats :=
  { Sample.probed with successEma := rate, rttEmaMs := some ms }

theorem Sample.averages_ok {rate ms : ℚ} (hrate : 0 ≤ rate ∧ rate ≤ 1) (hms : 0 ≤ ms) : (averages rate ms).Averages :=
  ⟨rfl, hrate, fun _ h => Option.some.inj h ▸ hms⟩

/-- A lead of 0.1 is inside both bands. -/
theorem hysteresis_flip_calm : NoFlip (Sample.averages (9 / 10) 50) (Sample.averages (8 / 10) 100) (3 / 10) :=
  (hysteresis_flip_iff (Sample.averages_ok (by norm_num) (by norm_num)) (Sample.averages_ok (by norm_num) (by norm_num))
    (by norm_num)).mpr ⟨fun h => absurd h.lead (by decide +kernel), fun h => absurd h.lead (by decide +kernel)⟩

/-- A lead of 0.16 is outside the band of 0.15 around the lower rate and inside that of 0.198 around the higher one. -/
theorem hysteresis_flip_both : ∃ a b : NodeStats, ∃ hysteresis : ℚ, a.Averages ∧ b.Averages ∧
    0 ≤ hysteresis ∧ hysteresis ≤ 1 ∧ challengerWins a b hysteresis = true ∧ challengerWins b a hysteresis = true :=
  ⟨Sample.averages (66 / 100) 100, Sample.averages (1 / 2) 10, 3 / 10,
    Sample.averages_ok (by norm_num) (by norm_num), Sample.averages_ok (by norm_num) (by norm_num), by norm_num, by norm_num,
    by decide +kernel, by decide +kernel⟩

end

end Causeway

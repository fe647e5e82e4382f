import Mathlib.Data.List.Sort
import Mathlib.Data.List.Destutter

/-!
# Sorted lists without repetitions

Sorting a list and dropping what repeats its neighbour leaves a list that only the set of the elements decides. The elements of least measure are such a set.
-/

namespace Distinct

variable {α : Type} {l l' : List α} {a x : α}

section Sorted

variable [LinearOrder α]

/-- Sort, then drop every element that equals the one before it. -/
def sortDedup (l : List α) : List α := (l.mergeSort fun a b => decide (a ≤ b)).destutter (· ≠ ·)

theorem mem_destutter'_ne : x ∈ l.destutter' (· ≠ ·) a ↔ x ∈ a :: l := by
  induction l generalizing a with
  | nil => simp
  | cons b l ih =>
      rw [List.destutter'_cons]
      split
      · simp [ih]
      · rename_i heq
        simp [ih, ← not_not.mp heq]

theorem mem_destutter_ne : x ∈ l.destutter (· ≠ ·) ↔ x ∈ l := by
  cases l with
  | nil => simp
  | cons a l => rw [List.destutter_cons', mem_destutter'_ne]

@[simp] theorem mem_sortDedup : x ∈ sortDedup l ↔ x ∈ l := by
  rw [sortDedup, mem_destutter_ne, List.mem_mergeSort]

theorem isChain_lt (hle : l.IsChain (· ≤ ·)) (hne : l.IsChain (· ≠ ·)) : l.IsChain (· < ·) := by
  induction l with
  | nil => simp
  | cons a l ih =>
      cases l with
      | nil => simp
      | cons b l =>
          rw [List.isChain_cons_cons] at *
          exact ⟨lt_of_le_of_ne hle.1 hne.1, ih hle.2 hne.2⟩

theorem pairwise_le_mergeSort : (l.mergeSort fun a b => decide (a ≤ b)).Pairwise (· ≤ ·) := by
  have hsorted := @List.pairwise_mergeSort α (fun a b => decide (a ≤ b))
    (fun a b c hab hbc => by
      rw [decide_eq_true_eq] at *
      exact hab.trans hbc)
    (fun a b => by simpa using le_total a b) l
  exact hsorted.imp fun h => of_decide_eq_true h

theorem sortedLT_sortDedup : (sortDedup l).SortedLT := by
  apply List.IsChain.sortedLT
  apply isChain_lt
  · exact (pairwise_le_mergeSort.sublist (List.destutter_sublist _ _)).isChain
  · exact List.isChain_destutter _ _

end Sorted

section Least

variable {measure : α → Nat} {m : Nat}

/-- An element with no other below it. -/
def Least (measure : α → Nat) (l : List α) (x : α) : Prop := x ∈ l ∧ ∀ y ∈ l, measure x ≤ measure y

theorem mem_filter_min (h : (l.map measure).min? = some m) :
    x ∈ l.filter (fun y => decide (measure y = m)) ↔ Least measure l x := by
  obtain ⟨hmem, hle⟩ := List.min?_eq_some_iff.mp h
  rw [List.mem_filter, decide_eq_true_eq]
  constructor
  · rintro ⟨hx, rfl⟩
    exact ⟨hx, fun y hy => hle _ (List.mem_map_of_mem hy)⟩
  · intro hx
    obtain ⟨y, hy, rfl⟩ := List.mem_map.mp hmem
    exact ⟨hx.1, le_antisymm (hx.2 y hy) (hle _ (List.mem_map_of_mem hx.1))⟩

/-- More elements of greater measure change nothing, once there is an element at all. -/
theorem least_congr (hx : x ∈ l) (h : ∀ y, measure y ≤ measure x → (y ∈ l ↔ y ∈ l')) (y : α) :
    Least measure l y ↔ Least measure l' y := by
  have hlow : ∀ z, (∀ w ∈ l, measure z ≤ measure w) ↔ ∀ w ∈ l', measure z ≤ measure w := by
    intro z
    constructor
    · intro hz w hw
      rcases le_total (measure w) (measure x) with hle | hle
      · exact hz w ((h w hle).mpr hw)
      · exact (hz x hx).trans hle
    · intro hz w hw
      rcases le_total (measure w) (measure x) with hle | hle
      · exact hz w ((h w hle).mp hw)
      · exact (hz x ((h x le_rfl).mp hx)).trans hle
  constructor
  · intro hy
    exact ⟨(h y (hy.2 x hx)).mp hy.1, (hlow y).mp hy.2⟩
  · intro hy
    have hall := (hlow y).mpr hy.2
    exact ⟨(h y (hall x hx)).mpr hy.1, hall⟩

end Least

end Distinct

import Mathlib.Data.List.Nodup
import Mathlib.Data.List.NodupEquivFin
import Mathlib.Data.List.Range
import Mathlib.Data.List.Perm.Subperm

/-!
# Values put into numbered slots

Entries come in any order, each with the number of its slot. If no slot is named twice, each holds the value of its entry at the end, whatever the order was.
-/

namespace Slots

variable {α : Type}

/-- Put each entry into its slot. -/
def fill (slots : List α) (entries : List (Nat × α)) : List α :=
  entries.foldl (fun slots entry => slots.set entry.1 entry.2) slots

variable {slots : List α} {entries : List (Nat × α)} {entry : Nat × α} {i n : Nat} {a : α}

@[simp] theorem fill_cons : fill slots (entry :: entries) = fill (slots.set entry.1 entry.2) entries := rfl

@[simp] theorem length_fill : (fill slots entries).length = slots.length := by
  induction entries generalizing slots with
  | nil => rfl
  | cons entry entries ih => rw [fill_cons, ih, List.length_set]

/-- A slot that no entry names keeps what it holds. -/
theorem fill_of_unnamed (h : i ∉ entries.map Prod.fst) : (fill slots entries)[i]? = slots[i]? := by
  induction entries generalizing slots with
  | nil => rfl
  | cons entry entries ih =>
      rw [List.map_cons, List.mem_cons, not_or] at h
      rw [fill_cons, ih h.2, List.getElem?_set_ne (Ne.symm h.1)]

theorem fill_of_mem (hnodup : (entries.map Prod.fst).Nodup) (h : (i, a) ∈ entries) (hi : i < slots.length) :
    (fill slots entries)[i]? = some a := by
  induction entries generalizing slots with
  | nil => cases h
  | cons entry entries ih =>
      rw [List.map_cons, List.nodup_cons] at hnodup
      rcases List.mem_cons.mp h with rfl | hmem
      · rw [fill_cons, fill_of_unnamed hnodup.1, List.getElem?_set_self hi]
      · rw [fill_cons]
        exact ih hnodup.2 hmem (by rwa [List.length_set])

/-- As many entries as slots, none of them named twice: each slot has its entry. -/
theorem exists_fill [Inhabited α] (hlength : entries.length = n) (hslots : slots.length = n)
    (hcount : ∀ i, (entries.map Prod.fst).count i ≤ if i < n then 1 else 0) :
    ∃ value : Nat → α, (∀ i, i < n → (i, value i) ∈ entries) ∧ fill slots entries = (List.range n).map value := by
  have hnodup : (entries.map Prod.fst).Nodup := by
    rw [List.nodup_iff_count_le_one]
    intro i
    have hi := hcount i
    split at hi <;> omega
  have hsubset : entries.map Prod.fst ⊆ List.range n := by
    intro i hi
    rw [List.mem_range]
    by_contra hout
    have hzero := hcount i
    rw [if_neg hout] at hzero
    have hpos := List.count_pos_iff.mpr hi
    omega
  have hperm : (entries.map Prod.fst).Perm (List.range n) :=
    (hnodup.subperm hsubset).perm_of_length_le (by simp [hlength])
  have hnamed : ∀ i, i < n → ∃ a, (i, a) ∈ entries := by
    intro i hi
    obtain ⟨⟨_, a⟩, ha, rfl⟩ := List.mem_map.mp (hperm.mem_iff.mpr (List.mem_range.mpr hi))
    exact ⟨a, ha⟩
  have hvalue : ∀ i, ∃ a, i < n → (i, a) ∈ entries := by
    intro i
    by_cases hi : i < n
    · obtain ⟨a, ha⟩ := hnamed i hi
      exact ⟨a, fun _ => ha⟩
    · exact ⟨default, fun h => absurd h hi⟩
  choose value hentry using hvalue
  refine ⟨value, hentry, ?_⟩
  apply List.ext_getElem?
  intro i
  by_cases hi : i < n
  · rw [fill_of_mem hnodup (hentry i hi) (by omega)]
    simp [hi]
  · rw [List.getElem?_eq_none (by rw [length_fill]; omega), List.getElem?_eq_none (by simp; omega)]

end Slots

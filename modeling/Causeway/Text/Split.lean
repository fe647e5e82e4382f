import Mathlib.Algebra.Ring.Nat
import Mathlib.Data.List.Basic

/-!
# Splitting at a separator

The parts of a list between the occurrences of an element, and the lines that a text is made of.
-/

namespace Text

variable {α : Type} [BEq α] {a : α} {l : List α}

theorem length_splitOn : (l.splitOn a).length = l.count a + 1 := by
  induction l with
  | nil => rfl
  | cons b l ih =>
      rw [List.splitOn_cons_eq_if_modifyHead, List.count_cons]
      split <;> simp [ih]

/-- The parts, each with its separator. -/
theorem sum_splitOn : ((l.splitOn a).map fun part => part.length + 1).sum = l.length + 1 := by
  induction l with
  | nil => rfl
  | cons b l ih =>
      rw [List.splitOn_cons_eq_if_modifyHead]
      split
      · simp only [List.map_cons, List.sum_cons, ih, List.length_nil, List.length_cons]
        omega
      · cases hparts : l.splitOn a with
        | nil => exact absurd hparts (List.splitOn_ne_nil a l)
        | cons part parts =>
            rw [hparts] at ih
            simp only [List.modifyHead_cons, List.map_cons, List.sum_cons, List.length_cons] at ih ⊢
            omega

section Lawful

variable [LawfulBEq α]

/-- A map that neither makes nor unmakes separators commutes with the splitting. -/
theorem splitOn_map {β : Type} [BEq β] [LawfulBEq β] {b : β} {f : α → β} (h : ∀ x ∈ l, f x = b ↔ x = a) :
    (l.map f).splitOn b = (l.splitOn a).map fun part => part.map f := by
  induction l with
  | nil => rfl
  | cons x l ih =>
      rw [List.map_cons, List.splitOn_cons_eq_if_modifyHead, List.splitOn_cons_eq_if_modifyHead,
        ih fun y hy => h y (List.mem_cons_of_mem _ hy)]
      by_cases hx : x = a
      · simp [hx, (h a (hx ▸ List.mem_cons_self)).mpr rfl]
      · have hfx : f x ≠ b := mt (h x List.mem_cons_self).mp hx
        rw [if_neg (by simpa using hfx), if_neg (by simpa using hx)]
        cases l.splitOn a <;> simp

/-- Every element that is no separator is in a part. -/
theorem mem_splitOn {x : α} (hx : x ∈ l) (hne : x ≠ a) : ∃ part ∈ l.splitOn a, x ∈ part := by
  induction l with
  | nil => cases hx
  | cons y l ih =>
      rw [List.splitOn_cons_eq_if_modifyHead]
      by_cases hy : y = a
      · rw [if_pos (by simpa using hy)]
        rcases List.mem_cons.mp hx with rfl | hx
        · exact absurd hy hne
        · obtain ⟨part, hpart, hmem⟩ := ih hx
          exact ⟨part, List.mem_cons_of_mem _ hpart, hmem⟩
      · rw [if_neg (by simpa using hy)]
        cases hparts : l.splitOn a with
        | nil => exact absurd hparts (List.splitOn_ne_nil a l)
        | cons first parts =>
            rw [hparts] at ih
            rcases List.mem_cons.mp hx with rfl | hx
            · exact ⟨x :: first, List.mem_cons_self, List.mem_cons_self⟩
            · obtain ⟨part, hpart, hmem⟩ := ih hx
              rcases List.mem_cons.mp hpart with rfl | hpart
              · exact ⟨y :: part, List.mem_cons_self, List.mem_cons_of_mem _ hmem⟩
              · exact ⟨part, List.mem_cons_of_mem _ hpart, hmem⟩

/-- Lines, each ended by a separator. -/
theorem splitOn_lines {lines : List (List α)} {rest : List α} (h : ∀ line ∈ lines, a ∉ line) :
    (lines.flatMap (fun line => line ++ [a]) ++ rest).splitOn a = lines ++ rest.splitOn a := by
  induction lines with
  | nil => rfl
  | cons line lines ih =>
      rw [List.flatMap_cons, List.append_assoc, List.append_assoc, List.singleton_append,
        List.splitOn_append_cons_self_of_not_mem (h line List.mem_cons_self),
        ih fun other hother => h other (List.mem_cons_of_mem _ hother), List.cons_append]

end Lawful

end Text

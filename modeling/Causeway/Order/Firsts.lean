import Mathlib.Data.List.Nodup

/-!
# The first element of each key

A list without the elements whose key an earlier one has, and the loop that computes it with the keys it has seen.
-/

namespace Firsts

variable {α κ : Type} [DecidableEq κ]

/-- Keep the first element of each key. -/
def firsts (key : α → κ) : List α → List α
  | [] => []
  | a :: l => a :: (firsts key l).filter fun b => key b ≠ key a

variable {key : α → κ} {l l' : List α} {a : α} {k : κ}

theorem firsts_sublist : (firsts key l).Sublist l := by
  induction l with
  | nil => exact .slnil
  | cons a l ih => exact (List.filter_sublist.trans ih).cons_cons a

theorem mem_of_mem_firsts (h : a ∈ firsts key l) : a ∈ l := firsts_sublist.mem h

theorem nodup_keys : ((firsts key l).map key).Nodup := by
  induction l with
  | nil => simp [firsts]
  | cons a l ih =>
      rw [firsts, List.map_cons, List.nodup_cons]
      constructor
      · intro h
        obtain ⟨b, hb, hkey⟩ := List.mem_map.mp h
        simpa [hkey] using (List.mem_filter.mp hb).2
      · exact ih.sublist (List.filter_sublist.map key)

@[simp] theorem mem_keys : k ∈ (firsts key l).map key ↔ k ∈ l.map key := by
  induction l with
  | nil => simp [firsts]
  | cons a l ih =>
      simp only [firsts, List.map_cons, List.mem_cons, ← ih]
      by_cases hk : k = key a
      · simp [hk]
      · simp only [hk, false_or, List.mem_map, List.mem_filter]
        constructor
        · intro ⟨b, hb, hkey⟩
          exact ⟨b, hb.1, hkey⟩
        · intro ⟨b, hb, hkey⟩
          exact ⟨b, ⟨hb, by simpa [hkey] using hk⟩, hkey⟩

theorem firsts_append :
    firsts key (l ++ l') = firsts key l ++ (firsts key l').filter fun b => key b ∉ l.map key := by
  induction l with
  | nil => simp [firsts]
  | cons a l ih =>
      rw [List.cons_append, firsts, ih, firsts, List.filter_append, List.filter_filter, List.cons_append]
      congr 2
      apply List.filter_congr
      intro b _
      simp

/-- A loop that passes over the keys it has seen. -/
def unseen (key : α → κ) : List κ → List α → List α
  | _, [] => []
  | seen, a :: l => if key a ∈ seen then unseen key seen l else a :: unseen key (key a :: seen) l

theorem unseen_eq {seen : List κ} : unseen key seen l = (firsts key l).filter fun b => key b ∉ seen := by
  induction l generalizing seen with
  | nil => rfl
  | cons a l ih =>
      rw [unseen, firsts]
      split
      · rename_i hseen
        rw [ih, List.filter_cons_of_neg (by simpa using hseen), List.filter_filter]
        apply List.filter_congr
        intro b _
        by_cases hkey : key b = key a <;> simp [hkey, hseen]
      · rename_i hseen
        rw [ih, List.filter_cons_of_pos (by simpa using hseen), List.filter_filter]
        congr 1
        apply List.filter_congr
        intro b _
        simp [Bool.and_comm]

/-- The loop, after all it has kept. -/
theorem firsts_append_unseen : firsts key l ++ unseen key ((firsts key l).map key) l' = firsts key (l ++ l') := by
  rw [firsts_append, unseen_eq]
  simp only [mem_keys]

/-- Elements that satisfy `P` put in anywhere. -/
inductive Padded (P : α → Prop) : List α → List α → Prop where
  | nil : Padded P [] []
  | keep {l l' : List α} (a : α) (h : Padded P l l') : Padded P (a :: l) (a :: l')
  | insert {l l' : List α} (a : α) (ha : P a) (h : Padded P l l') : Padded P l (a :: l')

theorem Padded.filterMap_eq {β : Type} {P : α → Prop} {f : α → Option β} (hP : ∀ a, P a → f a = none)
    (h : Padded P l l') : l'.filterMap f = l.filterMap f := by
  induction h with
  | nil => rfl
  | keep a _ ih => simp [List.filterMap_cons, ih]
  | insert a ha _ ih => simp [hP a ha, ih]

end Firsts

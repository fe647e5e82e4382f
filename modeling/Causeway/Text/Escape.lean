import Mathlib.Data.List.Basic

/-!
# Escaped text

A backslash escapes the character after it. A text is read as marks: characters that stand for themselves, at which a grammar may split, and escaped ones.
-/

namespace Text

inductive Mark where
  | plain (c : Char)
  | escaped (c : Char)
deriving DecidableEq

def Mark.char : Mark → Char
  | .plain c => c
  | .escaped c => c

/-- The marks of a text, unless it ends with a backslash that escapes nothing. -/
def marks : List Char → Option (List Mark)
  | [] => some []
  | ['\\'] => none
  | '\\' :: c :: text => (marks text).map (.escaped c :: ·)
  | c :: text => (marks text).map (.plain c :: ·)

/-- A backslash before each of the special characters. -/
def escape (special : Char → Bool) (text : List Char) : List Char :=
  text.flatMap fun c => if special c then ['\\', c] else [c]

/-- What becomes of a character that has been escaped if it is special. -/
def markOf (special : Char → Bool) (c : Char) : Mark := if special c then .escaped c else .plain c

variable {text rest : List Char} {ms : List Mark} {c : Char} {special : Char → Bool}

@[simp] theorem char_markOf : (markOf special c).char = c := by
  unfold markOf
  split <;> rfl

theorem marks_cons (hc : c ≠ '\\') : marks (c :: text) = (marks text).map (.plain c :: ·) := by
  rw [marks]
  · intro h
    exact absurd h hc
  · intro d rest h
    exact absurd h hc

theorem ne_backslash (hnil : c = '\\' → text = [] → False) (hcons : ∀ d rest, c = '\\' → text = d :: rest → False) :
    c ≠ '\\' := by
  intro hc
  cases text with
  | nil => exact hnil hc rfl
  | cons d rest => exact hcons d rest hc rfl

theorem marks_append (h : '\\' ∉ text) : marks (text ++ rest) = (marks rest).map (text.map .plain ++ ·) := by
  induction text with
  | nil => simp
  | cons c text ih =>
      rw [List.mem_cons, not_or] at h
      rw [List.cons_append, marks_cons (Ne.symm h.1), ih h.2, Option.map_map]
      rfl

theorem marks_plain (h : '\\' ∉ text) : marks text = some (text.map .plain) := by
  have happend : marks (text ++ []) = (marks []).map (text.map .plain ++ ·) := marks_append h
  rw [List.append_nil] at happend
  simpa [marks] using happend

/-- Each mark takes a character or two. -/
theorem length_marks_le (h : marks text = some ms) : ms.length ≤ text.length := by
  induction text using marks.induct generalizing ms with
  | case1 =>
      cases h
      simp
  | case2 => cases h
  | case3 c text ih =>
      obtain ⟨ms', hms', rfl⟩ := Option.map_eq_some_iff.mp h
      have := ih hms'
      simp only [List.length_cons]
      omega
  | case4 c text hne hne' ih =>
      rw [marks_cons (ne_backslash hne hne')] at h
      obtain ⟨ms', hms', rfl⟩ := Option.map_eq_some_iff.mp h
      have := ih hms'
      simp only [List.length_cons]
      omega

/-- A text with as many marks as characters has no backslash. -/
theorem not_mem_of_length_marks (h : marks text = some ms) (hlength : ms.length = text.length) : '\\' ∉ text := by
  induction text using marks.induct generalizing ms with
  | case1 => simp
  | case2 => cases h
  | case3 c text ih =>
      obtain ⟨ms', hms', rfl⟩ := Option.map_eq_some_iff.mp h
      have := length_marks_le hms'
      simp only [List.length_cons] at hlength
      omega
  | case4 c text hne hne' ih =>
      have hc := ne_backslash hne hne'
      rw [marks_cons hc] at h
      obtain ⟨ms', hms', rfl⟩ := Option.map_eq_some_iff.mp h
      rw [List.mem_cons, not_or]
      refine ⟨Ne.symm hc, ih hms' ?_⟩
      simpa using hlength

/-- What was escaped is read back, whatever follows. -/
theorem marks_escape_append (hspecial : special '\\' = true) :
    marks (escape special text ++ rest) = (marks rest).map (text.map (markOf special) ++ ·) := by
  induction text with
  | nil => simp [escape]
  | cons c text ih =>
      have hcons : escape special (c :: text) = (if special c then ['\\', c] else [c]) ++ escape special text := by
        simp [escape]
      rw [hcons, List.append_assoc, List.map_cons, markOf]
      split
      · rw [List.cons_append, List.singleton_append, marks, ih, Option.map_map]
        rfl
      · rename_i hc
        have hne : c ≠ '\\' := by
          intro h
          rw [h] at hc
          exact hc hspecial
        rw [List.singleton_append, marks_cons hne, ih, Option.map_map]
        rfl

theorem mem_escape (hc : c ≠ '\\') : c ∈ escape special text ↔ c ∈ text := by
  simp only [escape, List.mem_flatMap]
  constructor
  · intro ⟨d, hd, hmem⟩
    split at hmem <;> simp [hc] at hmem <;> rw [hmem] <;> exact hd
  · intro hmem
    refine ⟨c, hmem, ?_⟩
    split <;> simp

end Text

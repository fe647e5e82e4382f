import Mathlib.Data.List.Basic

/-!
# Unsigned numerals

The reader of a standard integer parser: decimal digits after at most one plus sign, below a limit. What the printer of natural numbers writes is read back.
-/

namespace Text

/-- Read an unsigned integer below the limit. -/
def parseUnsigned (limit : Nat) (text : List Char) : Option Nat :=
  let digits :=
    match text with
    | '+' :: digits => digits
    | digits => digits
  if digits.isEmpty || digits.any fun c => !c.isDigit then none
  else
    let n := digits.foldl (fun n c => 10 * n + (c.toNat - 48)) 0
    if n < limit then some n else none

/-- At least one digit, and nothing else. -/
structure Digits (text : List Char) : Prop where
  ne_nil : text ≠ []
  isDigit : ∀ c ∈ text, c.isDigit = true

variable {limit n : Nat} {text digits : List Char}

theorem digits_iff : Digits text ↔ (text.isEmpty || text.any fun c => !c.isDigit) = false := by
  rw [Bool.or_eq_false_iff, List.isEmpty_eq_false_iff, List.any_eq_false]
  constructor
  · intro h
    exact ⟨h.ne_nil, fun c hc => by simpa using h.isDigit c hc⟩
  · intro ⟨hne, hdigit⟩
    exact ⟨hne, fun c hc => by simpa using hdigit c hc⟩

theorem Digits.not_mem (h : Digits text) {c : Char} (hc : c.isDigit = false) : c ∉ text := by
  intro hmem
  rw [h.isDigit c hmem] at hc
  cases hc

/-- The value of digits without a sign. -/
theorem parseUnsigned_digits (h : Digits digits) :
    parseUnsigned limit digits =
      if Nat.ofDigitChars 10 digits 0 < limit then some (Nat.ofDigitChars 10 digits 0) else none := by
  unfold parseUnsigned
  split
  · rename_i rest
    exact absurd (h.isDigit '+' List.mem_cons_self) (by decide)
  · dsimp only
    rw [digits_iff.mp h]
    rfl

theorem parseUnsigned_plus (h : Digits digits) :
    parseUnsigned limit ('+' :: digits) = parseUnsigned limit digits := by
  rw [parseUnsigned_digits h, parseUnsigned]
  dsimp only
  rw [digits_iff.mp h]
  rfl

theorem parseUnsigned_eq_some : parseUnsigned limit text = some n ↔
    ∃ digits, (text = digits ∨ text = '+' :: digits) ∧ Digits digits ∧ Nat.ofDigitChars 10 digits 0 = n ∧ n < limit := by
  constructor
  · intro h
    unfold parseUnsigned at h
    split at h
    · rename_i digits
      dsimp only at h
      split at h
      · cases h
      · rename_i hdigits
        split at h
        · rename_i hlimit
          cases h
          exact ⟨digits, .inr rfl, digits_iff.mpr (by simpa using hdigits), rfl, hlimit⟩
        · cases h
    · dsimp only at h
      split at h
      · cases h
      · rename_i hdigits
        split at h
        · rename_i hlimit
          cases h
          exact ⟨text, .inl rfl, digits_iff.mpr (by simpa using hdigits), rfl, hlimit⟩
        · cases h
  · rintro ⟨digits, rfl | rfl, hdigits, rfl, hlimit⟩
    · rw [parseUnsigned_digits hdigits, if_pos hlimit]
    · rw [parseUnsigned_plus hdigits, parseUnsigned_digits hdigits, if_pos hlimit]

theorem ascii_of_isAlphanum {c : Char} (hc : c.isAlphanum = true) : c.toNat < 128 := by
  have hranges : ((decide ('A'.val ≤ c.val ∧ c.val ≤ 'Z'.val) || ('a'.val ≤ c.val && c.val ≤ 'z'.val)) ||
      ('0'.val ≤ c.val && c.val ≤ '9'.val)) = true := hc
  simp only [Bool.or_eq_true, Bool.and_eq_true, decide_eq_true_eq, UInt32.le_iff_toNat_le] at hranges
  have hz : 'z'.val.toNat = 122 := rfl
  have hZ : 'Z'.val.toNat = 90 := rfl
  have h9 : '9'.val.toNat = 57 := rfl
  have hval : c.val.toNat = c.toNat := rfl
  omega

theorem Digits.isAlphanum (h : Digits text) {c : Char} (hc : c ∈ text) : c.isAlphanum = true := by
  show (c.isAlpha || c.isDigit) = true
  rw [h.isDigit c hc, Bool.or_true]

theorem digits_toDigits (n : Nat) : Digits (Nat.toDigits 10 n) where
  ne_nil := Nat.toDigits_ne_nil
  isDigit := fun _ hc => Nat.isDigit_of_mem_toDigits (by decide) (by decide) hc

theorem toList_toString (n : Nat) : (toString n).toList = Nat.toDigits 10 n := by
  simp

theorem digits_toString (n : Nat) : Digits (toString n).toList := by
  rw [toList_toString]
  exact digits_toDigits n

/-- A number that is written is read back. -/
theorem parseUnsigned_toString (h : n < limit) : parseUnsigned limit (toString n).toList = some n := by
  rw [toList_toString, parseUnsigned_digits (digits_toDigits n), Nat.ofDigitChars_ten_toDigits, if_pos h]

end Text

import Mathlib.Algebra.Ring.Nat
import Mathlib.Data.List.Basic

/-!
# Hexadecimal numerals of a fixed width

What a printer of upper-case hexadecimals with leading zeros writes: the digits of a number from the highest place down, and for a number of whole bytes two digits for each byte.
-/

namespace Text

def hexDigit (n : Nat) : Char := (Nat.digitChar n).toUpper

/-- Upper-case digits, padded with zeros to a width. -/
def paddedHex (width n : Nat) : List Char := List.leftpad width '0' ((Nat.toDigits 16 n).map Char.toUpper)

/-- The digits of the lowest places. -/
def placesHex : Nat → Nat → List Char
  | 0, _ => []
  | width + 1, n => placesHex width (n / 16) ++ [hexDigit (n % 16)]

/-- Two digits for a byte. -/
def byteHex (byte : UInt8) : List Char := [hexDigit (byte.toNat / 16), hexDigit (byte.toNat % 16)]

variable {width m n : Nat}

theorem placesHex_zero : placesHex width 0 = List.replicate width '0' := by
  have hdigit : hexDigit 0 = '0' := by decide
  induction width with
  | zero => rfl
  | succ width ih => rw [placesHex, ih, Nat.zero_mod, hdigit, List.replicate_succ']

theorem length_placesHex : (placesHex width n).length = width := by
  induction width generalizing n with
  | zero => rfl
  | succ width ih => rw [placesHex, List.length_append, ih, List.length_singleton]

/-- A number that fits is printed place by place. -/
theorem paddedHex_eq (hwidth : 0 < width) (h : n < 16 ^ width) : paddedHex width n = placesHex width n := by
  induction width generalizing n with
  | zero => omega
  | succ width ih =>
      rw [placesHex]
      by_cases hn : n < 16
      · rw [paddedHex, Nat.toDigits_of_lt_base hn, Nat.div_eq_of_lt hn, Nat.mod_eq_of_lt hn, placesHex_zero]
        rfl
      · have hquotient : n / 16 < 16 ^ width := by
          rw [Nat.div_lt_iff_lt_mul (by decide), ← Nat.pow_succ]
          exact h
        have hpositive : 0 < width := by
          by_contra hzero
          rw [Nat.eq_zero_of_not_pos hzero] at h
          omega
        have hpad : paddedHex (width + 1) n = paddedHex width (n / 16) ++ [hexDigit (n % 16)] := by
          rw [paddedHex, paddedHex, Nat.toDigits_of_base_le (by decide) (by omega), List.map_append, List.leftpad,
            List.leftpad, List.length_append, List.append_assoc]
          rw [List.map_singleton, List.length_singleton, Nat.add_sub_add_right]
          rfl
        rw [hpad, ih hpositive hquotient]

theorem hexDigit_injective : ∀ m < 16, ∀ n < 16, hexDigit m = hexDigit n → m = n := by decide

/-- The places tell numbers that fit apart. -/
theorem placesHex_injective (hm : m < 16 ^ width) (hn : n < 16 ^ width) (h : placesHex width m = placesHex width n) :
    m = n := by
  induction width generalizing m n with
  | zero => omega
  | succ width ih =>
      rw [Nat.pow_succ] at hm hn
      obtain ⟨hplaces, hlast⟩ := List.append_inj h (by rw [length_placesHex, length_placesHex])
      have hquotient := ih (by omega) (by omega) hplaces
      have hdigit := hexDigit_injective _ (Nat.mod_lt m (by decide)) _ (Nat.mod_lt n (by decide)) (List.cons.inj hlast).1
      omega

/-- A byte at the lowest places. -/
theorem placesHex_byte (byte : UInt8) :
    placesHex (width + 2) (256 * n + byte.toNat) = placesHex width n ++ byteHex byte := by
  have hbyte := byte.toNat_lt
  have hquotient : (256 * n + byte.toNat) / 16 / 16 = n := by omega
  have hhigh : (256 * n + byte.toNat) / 16 % 16 = byte.toNat / 16 := by omega
  have hlow : (256 * n + byte.toNat) % 16 = byte.toNat % 16 := by omega
  rw [placesHex, placesHex, hquotient, hhigh, hlow, List.append_assoc]
  rfl

theorem placesHex_two (byte : UInt8) : placesHex 2 byte.toNat = byteHex byte := by
  have hbyte := @placesHex_byte 0 0 byte
  simp only [Nat.mul_zero, Nat.zero_add, placesHex_zero, List.replicate_zero, List.nil_append] at hbyte
  exact hbyte

/-- Bytes are read back from their digits. -/
theorem flatMap_byteHex_injective {bytes others : List UInt8} (h : bytes.flatMap byteHex = others.flatMap byteHex) :
    bytes = others := by
  induction bytes generalizing others with
  | nil =>
      cases others with
      | nil => rfl
      | cons other others => cases h
  | cons byte bytes ih =>
      cases others with
      | nil => cases h
      | cons other others =>
          rw [List.flatMap_cons, List.flatMap_cons] at h
          obtain ⟨hbyte, hbytes⟩ := List.append_inj h rfl
          rw [← placesHex_two, ← placesHex_two] at hbyte
          have hlt := byte.toNat_lt
          have hlt' := other.toNat_lt
          rw [UInt8.toNat_inj.mp (placesHex_injective (by omega) (by omega) hbyte), ih hbytes]

end Text

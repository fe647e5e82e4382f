import Mathlib.Algebra.Order.Ring.Defs
import Mathlib.Data.List.DropRight
import Mathlib.Data.List.Forall2
import Mathlib.Data.Option.Basic
import Mathlib.Tactic.Ring

/-!
# Rolling averages and histories

An exponential moving average is its first value, and each later value is blended into it. It never leaves the range of its values, is at an end of that range exactly if all values are, and grows with each of them. A capped history is the end of the whole one.
-/

namespace Rolling

/-! ### Blending -/

section

variable {K : Type} [CommRing K]

/-- A value's part of the average is `alpha`. -/
def blend (alpha value previous : K) : K := alpha * value + (1 - alpha) * previous

theorem blend_self (alpha value : K) : blend alpha value value = value := by
  rw [blend]
  ring

theorem blend_neg (alpha value previous : K) : blend alpha (-value) (-previous) = -blend alpha value previous := by
  rw [blend, blend]
  ring

variable [LinearOrder K] [IsStrictOrderedRing K] {alpha value value' previous previous' bound : K}

theorem blend_le_blend (h0 : 0 ≤ alpha) (h1 : alpha ≤ 1) (hvalue : value ≤ value') (hprevious : previous ≤ previous') :
    blend alpha value previous ≤ blend alpha value' previous' :=
  add_le_add (mul_le_mul_of_nonneg_left hvalue h0) (mul_le_mul_of_nonneg_left hprevious (sub_nonneg.mpr h1))

theorem blend_le (h0 : 0 ≤ alpha) (h1 : alpha ≤ 1) (hvalue : value ≤ bound) (hprevious : previous ≤ bound) :
    blend alpha value previous ≤ bound :=
  (blend_le_blend h0 h1 hvalue hprevious).trans_eq (blend_self alpha bound)

theorem le_blend (h0 : 0 ≤ alpha) (h1 : alpha ≤ 1) (hvalue : bound ≤ value) (hprevious : bound ≤ previous) :
    bound ≤ blend alpha value previous :=
  (blend_self alpha bound).ge.trans (blend_le_blend h0 h1 hvalue hprevious)

/-- Only two values at a bound blend to it. -/
theorem blend_eq_iff_of_le (h0 : 0 < alpha) (h1 : alpha < 1) (hvalue : value ≤ bound) (hprevious : previous ≤ bound) :
    blend alpha value previous = bound ↔ value = bound ∧ previous = bound := by
  constructor
  · intro h
    have hsum : alpha * (bound - value) + (1 - alpha) * (bound - previous) = 0 := by
      calc alpha * (bound - value) + (1 - alpha) * (bound - previous)
          = bound - blend alpha value previous := by rw [blend]; ring
        _ = 0 := by rw [h, sub_self]
    have h1' : 0 < 1 - alpha := sub_pos.mpr h1
    obtain ⟨hleft, hright⟩ := (add_eq_zero_iff_of_nonneg (mul_nonneg h0.le (sub_nonneg.mpr hvalue))
      (mul_nonneg h1'.le (sub_nonneg.mpr hprevious))).mp hsum
    constructor
    · exact (sub_eq_zero.mp ((mul_eq_zero.mp hleft).resolve_left h0.ne')).symm
    · exact (sub_eq_zero.mp ((mul_eq_zero.mp hright).resolve_left h1'.ne')).symm
  · rintro ⟨rfl, rfl⟩
    exact blend_self _ _

end

/-! ### Averages -/

section

variable {K : Type} [CommRing K] {alpha : K} {values : List K}

/-- The first value is the average, later ones are blended in. -/
def absorb (alpha : K) (average : Option K) (value : K) : Option K :=
  some (match average with
    | none => value
    | some previous => blend alpha value previous)

/-- The exponential moving average, if there are values. -/
def ema (alpha : K) (values : List K) : Option K := values.foldl (absorb alpha) none

@[simp] theorem ema_nil : ema alpha [] = none := rfl

@[simp] theorem ema_concat (values : List K) (value : K) :
    ema alpha (values ++ [value]) = absorb alpha (ema alpha values) value := by
  rw [ema, List.foldl_append]
  rfl

theorem ema_eq_none_iff : ema alpha values = none ↔ values = [] := by
  rcases List.eq_nil_or_concat values with rfl | ⟨values, value, rfl⟩
  · simp
  · simp [absorb]

theorem ema_neg (values : List K) : ema alpha (values.map Neg.neg) = (ema alpha values).map Neg.neg := by
  induction values using List.reverseRecOn with
  | nil => rfl
  | append_singleton values value ih =>
      rw [List.map_append, List.map_singleton, ema_concat, ema_concat, ih]
      cases ema alpha values with
      | none => rfl
      | some previous => exact congrArg some (blend_neg alpha value previous)

/-- What holds of every value and of what they blend to holds of the average. -/
theorem ema_rule {P : K → Prop} {average : K} (h : ema alpha values = some average) (hvalue : ∀ value ∈ values, P value)
    (hblend : ∀ value ∈ values, ∀ previous, P previous → P (blend alpha value previous)) : P average := by
  induction values using List.reverseRecOn generalizing average with
  | nil => cases h
  | append_singleton values value ih =>
      rw [ema_concat] at h
      cases hprevious : ema alpha values with
      | none =>
          rw [hprevious] at h
          cases h
          exact hvalue value (by simp)
      | some previous =>
          rw [hprevious] at h
          cases h
          refine hblend value (by simp) previous (ih hprevious (fun other hmem => ?_) fun other hmem => ?_)
          · exact hvalue other (by simp [hmem])
          · exact hblend other (by simp [hmem])

variable [LinearOrder K] [IsStrictOrderedRing K] {average bound : K}

theorem ema_le (h0 : 0 ≤ alpha) (h1 : alpha ≤ 1) (h : ema alpha values = some average)
    (hvalues : ∀ value ∈ values, value ≤ bound) : average ≤ bound :=
  ema_rule (P := (· ≤ bound)) h hvalues fun value hmem _ hprevious => blend_le h0 h1 (hvalues value hmem) hprevious

theorem le_ema (h0 : 0 ≤ alpha) (h1 : alpha ≤ 1) (h : ema alpha values = some average)
    (hvalues : ∀ value ∈ values, bound ≤ value) : bound ≤ average :=
  ema_rule (P := (bound ≤ ·)) h hvalues fun value hmem _ hprevious => le_blend h0 h1 (hvalues value hmem) hprevious

/-- The average is at an upper bound exactly if every value is. -/
theorem ema_eq_iff_of_le (h0 : 0 < alpha) (h1 : alpha < 1) (h : ema alpha values = some average)
    (hvalues : ∀ value ∈ values, value ≤ bound) : average = bound ↔ ∀ value ∈ values, value = bound := by
  induction values using List.reverseRecOn generalizing average with
  | nil => cases h
  | append_singleton values value ih =>
      have hrest : ∀ other ∈ values, other ≤ bound := fun other hmem => hvalues other (by simp [hmem])
      rw [ema_concat] at h
      cases hprevious : ema alpha values with
      | none =>
          obtain rfl := ema_eq_none_iff.mp hprevious
          cases h
          simp
      | some previous =>
          rw [hprevious] at h
          cases h
          have hle := ema_le h0.le h1.le hprevious hrest
          rw [blend_eq_iff_of_le h0 h1 (hvalues value (by simp)) hle, ih hprevious hrest, List.forall_mem_append,
            List.forall_mem_singleton, and_comm]

/-- And at a lower bound. -/
theorem ema_eq_iff_of_ge (h0 : 0 < alpha) (h1 : alpha < 1) (h : ema alpha values = some average)
    (hvalues : ∀ value ∈ values, bound ≤ value) : average = bound ↔ ∀ value ∈ values, value = bound := by
  have hneg : ema alpha (values.map Neg.neg) = some (-average) := by rw [ema_neg, h, Option.map_some]
  have hiff := ema_eq_iff_of_le h0 h1 hneg (List.forall_mem_map.mpr fun value hmem => neg_le_neg (hvalues value hmem))
  rw [neg_inj, List.forall_mem_map] at hiff
  simpa only [neg_inj] using hiff

/-- Greater values have no smaller average. -/
theorem ema_mono {others : List K} (h0 : 0 ≤ alpha) (h1 : alpha ≤ 1) (h : List.Forall₂ (· ≤ ·) values others) :
    Option.Rel (· ≤ ·) (ema alpha values) (ema alpha others) := by
  refine List.rel_foldl (fun previous previous' hprevious value value' hvalue => ?_) .none h
  cases hprevious with
  | none => exact .some hvalue
  | some hprevious => exact .some (blend_le_blend h0 h1 hvalue hprevious)

end

/-! ### Histories -/

section

variable {α : Type}

/-- A new entry drops the oldest one once there are more than `cap`. -/
def push (cap : Nat) (history : List α) (entry : α) : List α :=
  if (history ++ [entry]).length > cap then (history ++ [entry]).drop 1 else history ++ [entry]

theorem push_rtake (cap : Nat) (entries : List α) (entry : α) :
    push cap (entries.rtake cap) entry = (entries ++ [entry]).rtake cap := by
  rw [push, List.rtake, List.rtake]
  by_cases hfull : cap ≤ entries.length
  · have hlength : (entries.drop (entries.length - cap) ++ [entry]).length = cap + 1 := by
      rw [List.length_append, List.length_drop, List.length_singleton]
      omega
    rw [if_pos (by omega), List.length_append, List.length_singleton,
      ← List.drop_append_of_le_length (Nat.sub_le _ _), List.drop_drop]
    congr 1
    omega
  · have hnone : entries.length - cap = 0 := by omega
    have hshort : (entries ++ [entry]).length - cap = 0 := by
      rw [List.length_append, List.length_singleton]
      omega
    rw [hnone, hshort, List.drop_zero, List.drop_zero, if_neg (by omega)]

end

end Rolling

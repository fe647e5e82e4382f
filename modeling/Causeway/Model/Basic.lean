import Mathlib.Data.List.Sort
import Mathlib.Data.List.Infix
import Mathlib.Data.Rat.Defs
import Mathlib.Algebra.Order.Ring.Rat
import Std.Data.ExtTreeMap
import Std.Data.ExtTreeSet

/-!
# Standard-library types of the program

String-keyed ordered maps, the stable sort, substring search and the float comparison. Floats are exact rationals throughout.
-/

namespace Causeway

abbrev BTreeMap (α : Type) := Std.ExtTreeMap String α

namespace BTreeMap

variable {α : Type}

/-- `entry(key).or_default()`, then modify in place. -/
def upsert [Inhabited α] (m : BTreeMap α) (key : String) (f : α → α) : BTreeMap α :=
  m.insert key (f (m[key]?.getD default))

@[simp] theorem getElem?_upsert_self [Inhabited α] (m : BTreeMap α) (key : String) (f : α → α) :
    (m.upsert key f)[key]? = some (f (m[key]?.getD default)) := by
  simp [upsert]

theorem getElem?_upsert_of_ne [Inhabited α] (m : BTreeMap α) {key other : String} (f : α → α)
    (h : key ≠ other) : (m.upsert key f)[other]? = m[other]? := by
  simp [upsert, Std.ExtTreeMap.getElem?_insert, h]

/-- `get_mut(key)`, then modify in place if present. -/
def adjust (m : BTreeMap α) (key : String) (f : α → α) : BTreeMap α :=
  match m[key]? with
  | some value => m.insert key (f value)
  | none => m

theorem getElem?_adjust (m : BTreeMap α) (key other : String) (f : α → α) :
    (m.adjust key f)[other]? = if key = other then m[other]?.map f else m[other]? := by
  unfold adjust
  cases h : m[key]? with
  | none =>
      by_cases hk : key = other
      · subst hk
        simp [h]
      · simp [hk]
  | some value =>
      by_cases hk : key = other
      · subst hk
        simp [h]
      · simp [hk, Std.ExtTreeMap.getElem?_insert]

end BTreeMap

/-- The stable `sort_by`, as an insertion sort: the same list whenever `cmp` is a total preorder. -/
def sortBy {α : Type} (cmp : α → α → Ordering) (l : List α) : List α :=
  l.insertionSort fun a b => cmp a b ≠ .gt

@[simp] theorem mem_sortBy {α : Type} {cmp : α → α → Ordering} {l : List α} {a : α} :
    a ∈ sortBy cmp l ↔ a ∈ l := by
  simp [sortBy]

def contains (text pattern : String) : Bool := pattern.toList <:+: text.toList

/-- `f64::total_cmp` on numbers. -/
def totalCmp (a b : ℚ) : Ordering := if a < b then .lt else if a = b then .eq else .gt

end Causeway

import Causeway.Model.World

/-!
# Class histories

The events of one class, newest first: which path was installed last, how many installs there were, and how long the current streak of failing verdicts is. An older state of a history is a suffix of it, so the number of events up to some moment names that moment for good.
-/

namespace Causeway

abbrev History := List ClassEvent

namespace History

def installs : History → Nat
  | [] => 0
  | .installed _ _ _ :: older => installs older + 1
  | .booked _ _ _ :: older => installs older

def lastActive : History → Option ActiveNode
  | [] => none
  | .installed new _ _ :: _ => some new
  | .booked _ _ _ :: older => lastActive older

/-- The path in the route. -/
def lastInstalled (hist : History) : Option Nat := (lastActive hist).map (·.pathConnections)

/-- Failing verdicts booked since the last install or passing verdict. -/
def streak : History → Nat
  | [] => 0
  | .installed _ _ _ :: _ => 0
  | .booked _ _ true :: _ => 0
  | .booked _ _ false :: older => streak older + 1

/-- The history when it had `count` events. -/
def atCount (hist : History) (count : Nat) : History := hist.drop (hist.length - count)

/-- Nothing was installed since the history had `count` events. -/
def QuietSince (hist : History) (count : Nat) : Prop := installs hist = installs (atCount hist count)

instance (hist : History) (count : Nat) : Decidable (QuietSince hist count) :=
  inferInstanceAs (Decidable (_ = _))

/-! ### Suffixes -/

variable {hist older : History} {count : Nat}

theorem atCount_suffix (hist : History) (count : Nat) : atCount hist count <:+ hist :=
  List.drop_suffix _ _

/-- A suffix is the history at its own length. -/
theorem atCount_of_suffix (h : older <:+ hist) : atCount hist older.length = older := by
  obtain ⟨newer, rfl⟩ := h
  simp [atCount]

/-- Later events leave an earlier moment as it was. -/
theorem atCount_of_le (hs : older <:+ hist) (h : count ≤ older.length) :
    atCount hist count = atCount older count := by
  obtain ⟨newer, rfl⟩ := hs
  have hlen : (newer ++ older).length - count = newer.length + (older.length - count) := by
    rw [List.length_append]
    omega
  rw [atCount, hlen, List.drop_append, List.drop_eq_nil_of_le (by omega)]
  simp [atCount]

theorem installs_append (newer older : History) :
    installs (newer ++ older) = installs newer + installs older := by
  induction newer with
  | nil => simp [installs]
  | cons event newer ih =>
      cases event with
      | installed path old cause =>
          simp only [List.cons_append, installs, ih]
          omega
      | booked samples sampledAt ok => exact ih

theorem installs_le_of_suffix (h : older <:+ hist) : installs older ≤ installs hist := by
  obtain ⟨newer, rfl⟩ := h
  rw [installs_append]
  omega

/-- Without an install in between, the path that was installed last stays. -/
theorem lastActive_of_suffix (h : older <:+ hist) (hquiet : installs hist = installs older) :
    lastActive hist = lastActive older := by
  obtain ⟨newer, rfl⟩ := h
  rw [installs_append] at hquiet
  induction newer with
  | nil => rfl
  | cons event newer ih =>
      cases event with
      | installed path old cause => simp [installs] at hquiet
      | booked samples sampledAt ok => exact ih hquiet

theorem lastInstalled_of_suffix (h : older <:+ hist) (hquiet : installs hist = installs older) :
    lastInstalled hist = lastInstalled older := by
  rw [lastInstalled, lastInstalled, lastActive_of_suffix h hquiet]

/-! ### Facts about events -/

/-- What the events of a class are held to: how many failures are a reason to recover, and which node may follow which for which cause. -/
structure Law where
  threshold : Nat
  chosen : Node → Option ActiveNode → Cause → Prop

/-- The verdict at the head of `older` after it was booked is a reason to recover: the class had no path, or its streak had reached the threshold. -/
def Reason (threshold : Nat) (booked : History) : Prop :=
  lastInstalled booked = none ∨ threshold ≤ streak booked

/-- The verdict booked as the event with this number was a reason to recover. -/
def Justified (threshold : Nat) (hist : History) (bookedAt : Nat) : Prop :=
  bookedAt ≤ hist.length ∧ Reason threshold (atCount hist bookedAt)

theorem Justified.later {threshold : Nat} (h : Justified threshold older count) (hs : older <:+ hist) :
    Justified threshold hist count :=
  ⟨h.1.trans hs.length_le, by rw [atCount_of_le hs h.1]; exact h.2⟩

/-- What holds of an event, given the events before it. -/
def EventFact (law : Law) (older : History) : ClassEvent → Prop
  | .installed new old cause =>
      old = lastActive older ∧ law.chosen new.node old cause ∧
      ∀ bookedAt, cause.recovery = some bookedAt → Justified law.threshold older bookedAt
  | .booked samples sampledAt _ =>
      samples ≠ [] ∧
      ∀ path, .through path ∈ samples → ∃ seen, seen <:+ older ∧ sampledAt ≤ seen.length ∧ path = lastInstalled seen

/-- Every event of the history was right when it happened. -/
def Fact (law : Law) : History → Prop
  | [] => True
  | event :: older => EventFact law older event ∧ Fact law older

theorem Fact.of_suffix {law : Law} (h : Fact law hist) (hs : older <:+ hist) : Fact law older := by
  obtain ⟨newer, rfl⟩ := hs
  induction newer with
  | nil => exact h
  | cons event newer ih => exact ih h.2

/-- A property of the active path that every install since has kept. -/
theorem Fact.lastActive_keeps {law : Law} {newer : History} {X : ActiveNode → Prop}
    (h : Fact law (newer ++ older)) (h0 : ∃ active, lastActive older = some active ∧ X active)
    (hX : ∀ new old cause, .installed new (some old) cause ∈ newer → law.chosen new.node (some old) cause →
      X old → X new) : ∃ active, lastActive (newer ++ older) = some active ∧ X active := by
  induction newer with
  | nil => exact h0
  | cons event newer ih =>
      obtain ⟨hevent, hrest⟩ := h
      have hbefore := ih hrest fun new old cause hmem => hX new old cause (List.mem_cons_of_mem _ hmem)
      cases event with
      | booked samples sampledAt ok => exact hbefore
      | installed new old cause =>
          obtain ⟨active, hactive, hkept⟩ := hbefore
          have hold : old = some active := hevent.1.trans hactive
          subst hold
          exact ⟨new, rfl, hX new active cause List.mem_cons_self hevent.2.1 hkept⟩

/-- Each event of the history with what happened before it. -/
theorem Fact.event {law : Law} {event : ClassEvent} {newer : History}
    (h : Fact law (newer ++ event :: older)) : EventFact law older event :=
  (h.of_suffix (List.suffix_append newer (event :: older))).1

end History

end Causeway

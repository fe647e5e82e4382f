import Mathlib.Logic.Function.Basic
import Mathlib.Data.List.Basic

/-!
# Locks

A lock is held by one writer or by any number of readers. A mutex is a lock that is only ever taken for writing. The representation cannot hold two writers, or a writer and a reader, so exclusion needs no invariant: it is read off the state (`Lock.write_unique`, `Lock.read_write`).
-/

namespace Concurrent

inductive Lock where
  | readers (ids : List Nat)
  | writer (id : Nat)
deriving DecidableEq

inductive Hold where
  | none
  | read
  | write
deriving DecidableEq

namespace Lock

def free : Lock := .readers []

def hold (lock : Lock) (i : Nat) : Hold :=
  match lock with
  | .readers ids => if i ∈ ids then .read else .none
  | .writer id => if id = i then .write else .none

def acquireWrite (lock : Lock) (i : Nat) : Option Lock :=
  if lock = free then some (.writer i) else none

def acquireRead (lock : Lock) (i : Nat) : Option Lock :=
  match lock with
  | .readers ids => some (.readers (i :: ids))
  | .writer _ => none

/-- Drop what thread `i` holds; nothing happens if it holds nothing. -/
def release (lock : Lock) (i : Nat) : Lock :=
  match lock with
  | .readers ids => .readers (ids.filter (· ≠ i))
  | .writer id => if id = i then free else .writer id

variable {lock other : Lock} {i j : Nat}

theorem hold_eq_write : lock.hold i = .write ↔ lock = .writer i := by
  cases lock with
  | readers ids => by_cases h : i ∈ ids <;> simp [hold, h]
  | writer id => by_cases h : id = i <;> simp [hold, h]

@[simp] theorem hold_free : free.hold i = .none := by
  simp [hold, free]

/-- Two writers are the same thread. -/
theorem write_unique (hi : lock.hold i = .write) (hj : lock.hold j = .write) : i = j := by
  rw [hold_eq_write] at hi hj
  rw [hi] at hj
  exact Lock.writer.inj hj

/-- While thread `i` writes, every other thread holds nothing. -/
theorem hold_of_write (hi : lock.hold i = .write) (hij : j ≠ i) : lock.hold j = .none := by
  rw [hold_eq_write] at hi
  subst hi
  simp [hold, Ne.symm hij]

theorem read_write (hi : lock.hold i = .read) (hj : lock.hold j = .write) : False := by
  have hij : i ≠ j := by
    rintro rfl
    rw [hi] at hj
    cases hj
  rw [hold_of_write hj hij] at hi
  cases hi

theorem acquireWrite_eq (h : lock.acquireWrite i = some other) : lock = free ∧ other = .writer i := by
  unfold acquireWrite at h
  split at h
  · exact ⟨‹_›, (Option.some.inj h).symm⟩
  · cases h

theorem acquireRead_hold (h : lock.acquireRead i = some other) : other.hold i = .read := by
  cases lock with
  | readers ids =>
      cases h
      simp [hold]
  | writer id => cases h

theorem acquireRead_hold_of_ne (h : lock.acquireRead i = some other) (hij : j ≠ i) :
    other.hold j = lock.hold j := by
  cases lock with
  | readers ids =>
      cases h
      simp [hold, hij]
  | writer id => cases h

@[simp] theorem release_hold : (lock.release i).hold i = .none := by
  cases lock with
  | readers ids => simp [release, hold]
  | writer id =>
      by_cases h : id = i
      · simp [release, h]
      · simp [release, hold, h]

theorem release_hold_of_ne (hij : j ≠ i) : (lock.release i).hold j = lock.hold j := by
  cases lock with
  | readers ids => simp [release, hold, hij]
  | writer id =>
      by_cases h : id = i
      · subst h
        simp [release, hold, free, Ne.symm hij]
      · simp [release, h]

end Lock

end Concurrent

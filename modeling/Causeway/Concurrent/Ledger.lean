import Mathlib.Algebra.BigOperators.Group.Finset.Basic
import Mathlib.Algebra.BigOperators.Group.Finset.Piecewise
import Mathlib.Algebra.Order.BigOperators.Group.Finset
import Mathlib.Algebra.Ring.Nat
import Causeway.Concurrent.Pool

/-!
# Counting along runs

A measure counts something in the shared state. Along a run its rises and falls balance with its values at the ends (`Run.balance`), and what all threads do is the sum of what each of them does on its own steps (`tally_eq_sum`). So a bound that holds of every thread alone holds of the run, in whatever order the threads were scheduled.
-/

namespace Concurrent

variable {σ ε α β : Type}

def rise (f : σ → Nat) (step : σ × σ) : Nat := f step.2 - f step.1

def fall (f : σ → Nat) (step : σ × σ) : Nat := f step.1 - f step.2

/-- What a quantity of single steps sums up to. -/
def tally (g : σ × σ → Nat) (steps : List (σ × σ)) : Nat := (steps.map g).sum

section

variable {f : σ → Nat} {g : σ × σ → Nat} {steps others : List (σ × σ)} {step : σ × σ} {s t : σ}

@[simp] theorem rise_mk : rise f (s, t) = f t - f s := rfl

@[simp] theorem fall_mk : fall f (s, t) = f s - f t := rfl

@[simp] theorem tally_nil : tally g [] = 0 := rfl

@[simp] theorem tally_cons : tally g (step :: steps) = g step + tally g steps := by
  simp [tally]

@[simp] theorem tally_append : tally g (steps ++ others) = tally g steps + tally g others := by
  simp [tally]

theorem tally_eq_zero (h : ∀ step ∈ steps, g step = 0) : tally g steps = 0 := by
  induction steps with
  | nil => rfl
  | cons step steps ih =>
      rw [tally_cons, h step List.mem_cons_self, ih fun other hother => h other (List.mem_cons_of_mem _ hother)]

theorem le_tally (h : step ∈ steps) : g step ≤ tally g steps := by
  obtain ⟨before, after, rfl⟩ := List.append_of_mem h
  simp only [tally_append, tally_cons]
  omega

end

/-! ### All threads -/

namespace Pool

def steps (moves : List (Move σ)) : List (σ × σ) := moves.map fun m => (m.before, m.after)

variable {first last : Pool σ ε α} {moves : List (Move σ)} {f : σ → Nat} {g h : σ × σ → Nat} {i j : Nat}

/-- What is there at the end and what went is what was there and what came. -/
theorem Run.balance (run : first.Run moves last) (f : σ → Nat) :
    f last.shared + tally (fall f) (steps moves) = f first.shared + tally (rise f) (steps moves) := by
  induction run with
  | refl => simp [steps]
  | snoc run step ih =>
      obtain ⟨running, taken⟩ := step
      simp only [steps, List.map_append, List.map_cons, List.map_nil, tally_append, tally_cons, tally_nil, rise,
        fall] at ih ⊢
      omega

theorem own_cons_of_ne {m : Move σ} (hm : m.thread ≠ i) : own i (m :: moves) = own i moves := by
  simp [own, hm]

/-- What all threads do is the sum of what each of them does. -/
theorem tally_eq_sum (threads : Finset Nat) (hthreads : ∀ m ∈ moves, m.thread ∈ threads) :
    tally g (steps moves) = ∑ i ∈ threads, tally g (own i moves) := by
  induction moves with
  | nil => simp [steps, own]
  | cons m moves ih =>
      have hrest := ih fun other hother => hthreads other (List.mem_cons_of_mem _ hother)
      have hown : ∀ i ∈ threads, tally g (own i (m :: moves)) =
          (if m.thread = i then g (m.before, m.after) else 0) + tally g (own i moves) := by
        intro i _
        by_cases hi : m.thread = i
        · subst hi
          rw [if_pos rfl, ← tally_cons]
          simp [own]
        · rw [own_cons_of_ne hi, if_neg hi, Nat.zero_add]
      rw [Finset.sum_congr rfl hown, Finset.sum_add_distrib, Finset.sum_ite_eq,
        if_pos (hthreads m List.mem_cons_self), ← hrest]
      exact tally_cons

theorem tally_eq_sum_toFinset : tally g (steps moves) =
    ∑ i ∈ (moves.map (·.thread)).toFinset, tally g (own i moves) :=
  tally_eq_sum _ fun _ hm => List.mem_toFinset.mpr (List.mem_map_of_mem hm)

/-- A bound that each thread keeps on its own steps is kept by the run. -/
theorem tally_le_tally (hle : ∀ i, tally g (own i moves) ≤ tally h (own i moves)) :
    tally g (steps moves) ≤ tally h (steps moves) := by
  rw [tally_eq_sum_toFinset, tally_eq_sum_toFinset]
  exact Finset.sum_le_sum fun i _ => hle i

theorem exists_own_of_tally_pos (hpos : 0 < tally g (steps moves)) : ∃ i, 0 < tally g (own i moves) := by
  rw [tally_eq_sum_toFinset] at hpos
  obtain ⟨i, _, hi⟩ := Finset.exists_ne_zero_of_sum_ne_zero (Nat.ne_of_gt hpos)
  exact ⟨i, Nat.pos_of_ne_zero hi⟩

/-- Only one thread does any of it. -/
theorem tally_eq_own (honly : ∀ j, j ≠ i → tally g (own j moves) = 0) :
    tally g (steps moves) = tally g (own i moves) := by
  rw [tally_eq_sum (insert i (moves.map (·.thread)).toFinset)
    fun _ hm => Finset.mem_insert_of_mem (List.mem_toFinset.mpr (List.mem_map_of_mem hm))]
  exact Finset.sum_eq_single_of_mem i (Finset.mem_insert_self _ _) fun j _ hj => honly j hj

/-- Two threads together do no more than all. -/
theorem own_add_own_le (hij : i ≠ j) : tally g (own i moves) + tally g (own j moves) ≤ tally g (steps moves) := by
  rw [tally_eq_sum (insert i (insert j (moves.map (·.thread)).toFinset)) fun _ hm =>
    Finset.mem_insert_of_mem (Finset.mem_insert_of_mem (List.mem_toFinset.mpr (List.mem_map_of_mem hm)))]
  have hpair : ∑ k ∈ {i, j}, tally g (own k moves) = tally g (own i moves) + tally g (own j moves) := Finset.sum_pair hij
  rw [← hpair]
  apply Finset.sum_le_sum_of_subset
  intro k hk
  rcases Finset.mem_insert.mp hk with rfl | hk
  · exact Finset.mem_insert_self _ _
  · rw [Finset.mem_singleton.mp hk]
    exact Finset.mem_insert_of_mem (Finset.mem_insert_self _ _)

theorem own_le : tally g (own i moves) ≤ tally g (steps moves) := by
  have hboth := @own_add_own_le _ moves g i (i + 1) (by omega)
  omega

end Pool

end Concurrent

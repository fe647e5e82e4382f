import Causeway.Concurrent.Pool

/-!
# Where a thread comes to on its own

While only one thread of a pool is scheduled, and on events of one kind, it is a sequential program again. `Concludes` is its total weakest precondition, and `Arrives` says that it comes to a state of interest, though it may go on from there.
-/

namespace Concurrent

variable {σ ε α β : Type}

namespace Prog

/-- On any events of this kind the program ends, with the postcondition. -/
def Concludes (allowed : ε → Prop) (post : α → σ → Prop) : Prog σ ε α → σ → Prop
  | .done value, s => post value s
  | .step act next, s => ∀ e, allowed e → ∃ b t, act e s = some (b, t) ∧ Concludes allowed post (next b) t

/-- On any events of this kind the program comes to such a state. -/
def Arrives (allowed : ε → Prop) (X : σ → Prop) : Prog σ ε α → σ → Prop
  | .done _, s => X s
  | .step act next, s => X s ∨ ∀ e, allowed e → ∃ b t, act e s = some (b, t) ∧ Arrives allowed X (next b) t

variable {allowed : ε → Prop} {X : σ → Prop} {post : α → σ → Prop} {s : σ}

theorem Path.eq_of_nil {p q : Prog σ ε α} (h : Path p [] q) : q = p := by
  cases h
  rfl

theorem Concludes.bind {last : β → σ → Prop} {p : Prog σ ε α} {k : α → Prog σ ε β} (hp : Concludes allowed post p s)
    (hk : ∀ a t, post a t → Concludes allowed last (k a) t) : Concludes allowed last (p >>= k) s := by
  induction p generalizing s with
  | done a => exact hk a s hp
  | step act next ih =>
      intro e he
      obtain ⟨b, t, hact, hrest⟩ := hp e he
      exact ⟨b, t, hact, ih b hrest⟩

theorem Arrives.now {p : Prog σ ε α} (h : X s) : Arrives allowed X p s := by
  cases p with
  | done a => exact h
  | step act next => exact .inl h

/-- In the first part of the program. -/
theorem Arrives.first {p : Prog σ ε α} {k : α → Prog σ ε β} (hp : Arrives allowed X p s) :
    Arrives allowed X (p >>= k) s := by
  induction p generalizing s with
  | done a => exact .now hp
  | step act next ih =>
      rcases hp with hs | hrest
      · exact .now hs
      · refine .inr fun e he => ?_
        obtain ⟨b, t, hact, ht⟩ := hrest e he
        exact ⟨b, t, hact, ih b ht⟩

/-- In the second part, when the first has ended. -/
theorem Arrives.second {p : Prog σ ε α} {k : α → Prog σ ε β} (hp : Concludes allowed post p s)
    (hk : ∀ a t, post a t → Arrives allowed X (k a) t) : Arrives allowed X (p >>= k) s := by
  induction p generalizing s with
  | done a => exact hk a s hp
  | step act next ih =>
      refine .inr fun e he => ?_
      obtain ⟨b, t, hact, hrest⟩ := hp e he
      exact ⟨b, t, hact, ih b hrest⟩

end Prog

namespace Pool

/-- The schedule of thread `i` alone. -/
def alone (i : Nat) (events : Nat → ε) (count : Nat) : List (Nat × ε) := (List.range count).map fun n => (i, events n)

theorem alone_succ {i : Nat} {events : Nat → ε} {count : Nat} :
    alone i events (count + 1) = (i, events 0) :: alone i (fun n => events (n + 1)) count := by
  simp [alone, List.range_succ_eq_map, Function.comp_def]

/-- Scheduled alone for long enough, a thread comes there. -/
theorem exec_arrives {allowed : ε → Prop} {X : σ → Prop} {pool : Pool σ ε α} {i : Nat}
    (h : Prog.Arrives allowed X (pool.thread i) pool.shared) {events : Nat → ε} (hevents : ∀ n, allowed (events n)) :
    ∃ count last, exec (alone i events count) pool = some last ∧ X last.shared := by
  generalize hp : pool.thread i = p at h
  induction p generalizing pool events with
  | done value => exact ⟨0, pool, rfl, h⟩
  | step act next ih =>
      rcases h with hs | hrest
      · exact ⟨0, pool, rfl, hs⟩
      · obtain ⟨b, t, hact, ht⟩ := hrest (events 0) (hevents 0)
        obtain ⟨count, last, hexec, hlast⟩ := @ih b ⟨t, Function.update pool.thread i (next b)⟩ (fun n => events (n + 1))
          (fun n => hevents (n + 1)) (Function.update_self _ _ _) ht
        refine ⟨count + 1, last, ?_, hlast⟩
        rw [alone_succ, exec, hp, advance, hact]
        exact hexec

end Pool

end Concurrent

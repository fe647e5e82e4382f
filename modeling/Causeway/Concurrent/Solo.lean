import Causeway.Concurrent.Program

/-!
# A program that runs alone

Without other threads a program is a function of the shared state and of what the outside answers at each step. `Alone` is its weakest precondition, for answers of one kind.
-/

namespace Concurrent

namespace Prog

variable {σ ε α β : Type}

/-- Run to the end on a stream of events; nothing if a step is disabled. -/
def run : Prog σ ε α → (Nat → ε) → σ → Option (α × σ)
  | .done value, _, s => some (value, s)
  | .step act next, events, s =>
      match act (events 0) s with
      | none => none
      | some (b, t) => (next b).run (fun n => events (n + 1)) t

def steps : Prog σ ε α → (Nat → ε) → σ → List (σ × σ)
  | .done _, _, _ => []
  | .step act next, events, s =>
      match act (events 0) s with
      | none => []
      | some (b, t) => (s, t) :: (next b).steps (fun n => events (n + 1)) t

theorem run_path {p : Prog σ ε α} {events : Nat → ε} {s t : σ} {a : α} (h : p.run events s = some (a, t)) :
    Path p (p.steps events s) (.done a) := by
  induction p generalizing events s with
  | done value =>
      cases h
      exact .nil _
  | step act next ih =>
      cases hact : act (events 0) s with
      | none => simp [run, hact] at h
      | some step =>
          simp only [run, hact] at h
          simp only [steps, hact]
          exact .cons hact (ih _ h)

/-- No step is ever disabled. -/
def Enabled : Prog σ ε α → Prop
  | .done _ => True
  | .step act next => (∀ e s, (act e s).isSome = true) ∧ ∀ b, (next b).Enabled

namespace Enabled

theorem pure (value : α) : (Pure.pure value : Prog σ ε α).Enabled := trivial

theorem bind {p : Prog σ ε α} {k : α → Prog σ ε β} (hp : p.Enabled) (hk : ∀ a, (k a).Enabled) :
    (p >>= k).Enabled := by
  induction p with
  | done a => exact hk a
  | step act next ih => exact ⟨hp.1, fun b => ih b (hp.2 b)⟩

theorem atomic {act : ε → σ → Option (α × σ)} (h : ∀ e s, (act e s).isSome = true) :
    (Prog.atomic act).Enabled := ⟨h, fun _ => trivial⟩

theorem run {p : Prog σ ε α} (h : p.Enabled) (events : Nat → ε) (s : σ) :
    ∃ a t, p.run events s = some (a, t) := by
  induction p generalizing events s with
  | done a => exact ⟨a, s, rfl⟩
  | step act next ih =>
      obtain ⟨⟨b, t⟩, hact⟩ := Option.isSome_iff_exists.mp (h.1 (events 0) s)
      obtain ⟨a, u, hrun⟩ := ih b (h.2 b) (fun n => events (n + 1)) t
      refine ⟨a, u, ?_⟩
      simp only [Prog.run, hact]
      exact hrun

end Enabled

/-- Run from this state on events of this kind, the program can only end with the postcondition. -/
def Alone (allowed : ε → Prop) (post : α → σ → Prop) : Prog σ ε α → σ → Prop
  | .done value, s => post value s
  | .step act next, s => ∀ e b t, allowed e → act e s = some (b, t) → Alone allowed post (next b) t

namespace Alone

variable {allowed : ε → Prop} {post : α → σ → Prop} {s : σ}

theorem pure {value : α} (h : post value s) : Alone allowed post (Pure.pure value) s := h

theorem bind {mid : α → σ → Prop} {last : β → σ → Prop} {p : Prog σ ε α} {k : α → Prog σ ε β}
    (hp : Alone allowed mid p s) (hk : ∀ a t, mid a t → Alone allowed last (k a) t) :
    Alone allowed last (p >>= k) s := by
  induction p generalizing s with
  | done a => exact hk a s hp
  | step act next ih => exact fun e b t he hact => ih b (hp e b t he hact)

theorem atomic {act : ε → σ → Option (α × σ)} {last : β → σ → Prop} {k : α → Prog σ ε β}
    (h : ∀ e b t, allowed e → act e s = some (b, t) → Alone allowed last (k b) t) :
    Alone allowed last (Prog.atomic act >>= k) s := h

theorem run {p : Prog σ ε α} (hp : Alone allowed post p s) {events : Nat → ε} (hevents : ∀ n, allowed (events n))
    {a : α} {t : σ} (h : p.run events s = some (a, t)) : post a t := by
  induction p generalizing events s with
  | done b =>
      cases h
      exact hp
  | step act next ih =>
      simp only [Prog.run] at h
      split at h
      · cases h
      · rename_i b u hact
        exact ih b (hp _ b u (hevents 0) hact) (fun n => hevents (n + 1)) h

end Alone

end Prog

end Concurrent

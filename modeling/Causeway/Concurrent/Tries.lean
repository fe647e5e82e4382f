import Causeway.Concurrent.Story

/-!
# Programs that may end early

A program that ends with a value or with an error of its own tells a story to either end. What was begun has to be cleared away on both ways out, so every rule has one postcondition for each.
-/

namespace Concurrent

variable {σ ε χ α β κ : Type} {R : κ → σ → σ → κ → Prop} {k : κ}

namespace Prog

/-- How a program may end: with a value, or early. -/
inductive Results (G : α → κ → Prop) (B : χ → κ → Prop) : Except χ α → κ → Prop
  | ok {a : α} {k : κ} (h : G a k) : Results G B (.ok a) k
  | error {x : χ} {k : κ} (h : B x k) : Results G B (.error x) k

/-- Every step of the program carries the story on, to one end or the other. -/
def Tries (R : κ → σ → σ → κ → Prop) (p : ExceptT χ (Prog σ ε) α) (k : κ) (G : α → κ → Prop) (B : χ → κ → Prop) : Prop :=
  Tells R (Results G B) p.run k

namespace Tries

variable {G : α → κ → Prop} {B : χ → κ → Prop} {p : ExceptT χ (Prog σ ε) α}

theorem pure {a : α} (h : G a k) : Tries R (Pure.pure a : ExceptT χ (Prog σ ε) α) k G B := Results.ok h

theorem throw {x : χ} (h : B x k) : Tries R (throwThe χ x : ExceptT χ (Prog σ ε) α) k G B := Results.error h

theorem bind {q : α → ExceptT χ (Prog σ ε) β} {H : β → κ → Prop} (hp : Tries R p k G B)
    (hq : ∀ a l, G a l → Tries R (q a) l H B) : Tries R (p >>= q) k H B := by
  rw [Tries, ExceptT.run_bind]
  refine Tells.bind hp fun r l hr => ?_
  cases hr with
  | ok h => exact hq _ l h
  | error h => exact Results.error h

theorem map {f : α → β} {H : β → κ → Prop} (hp : Tries R p k G B) (hf : ∀ a l, G a l → H (f a) l) :
    Tries R (f <$> p) k H B := by
  rw [map_eq_pure_bind]
  exact hp.bind fun a l h => pure (hf a l h)

theorem weaken {G' : α → κ → Prop} {B' : χ → κ → Prop} (h : Tries R p k G B) (hgood : ∀ a l, G a l → G' a l)
    (hbad : ∀ x l, B x l → B' x l) : Tries R p k G' B' := by
  refine Tells.weaken h fun r l hr => ?_
  cases hr with
  | ok h => exact .ok (hgood _ l h)
  | error h => exact .error (hbad _ l h)

theorem step {act : ε → σ → Option (Except χ α × σ)}
    (h : ∀ e s r t, act e s = some (r, t) → ∃ l, R k s t l ∧ Results G B r l) :
    Tries R (ExceptT.mk (Prog.atomic act)) k G B := h

/-- What is done after an early end. -/
theorem tryCatch {handle : χ → ExceptT χ (Prog σ ε) α} {M : χ → κ → Prop} (hp : Tries R p k G M)
    (hhandle : ∀ x l, M x l → Tries R (handle x) l G B) : Tries R (tryCatchThe χ p handle) k G B := by
  have hrun : (tryCatchThe χ p handle).run = p.run >>= fun r =>
      match r with
      | .ok a => Pure.pure (.ok a)
      | .error x => (handle x).run := rfl
  rw [Tries, hrun]
  refine Tells.bind hp fun r l hr => ?_
  cases hr with
  | ok h => exact Results.ok h
  | error h => exact hhandle _ l h

end Tries

end Prog

end Concurrent

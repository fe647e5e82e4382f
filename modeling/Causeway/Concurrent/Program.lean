import Mathlib.Logic.Function.Basic
import Mathlib.Data.List.Basic

/-!
# Programs as trees of atomic steps

A concurrent program over a shared state is a tree: it is done with a value, or it takes one atomic step and continues with what the step returned. A step sees the shared state and one outside event, and it may be disabled, which is how a program waits for a lock or for an event of the right kind. Nothing here fixes what the shared state is.

`Path` lists the own steps of one program. Nothing relates the state after one step to the state before the next, so a fact about every path is a fact about every interleaving with any environment.
-/

namespace Concurrent

/-- A program over shared states `σ` whose steps are resolved by outside events `ε`. -/
inductive Prog (σ ε α : Type) : Type 1 where
  | done (value : α)
  | step {β : Type} (act : ε → σ → Option (β × σ)) (next : β → Prog σ ε α)

namespace Prog

variable {σ ε α β γ : Type}

def bind : Prog σ ε α → (α → Prog σ ε β) → Prog σ ε β
  | .done value, k => k value
  | .step act next, k => .step act fun b => (next b).bind k

instance : Monad (Prog σ ε) where
  pure := .done
  bind := bind

def atomic (act : ε → σ → Option (α × σ)) : Prog σ ε α := .step act .done

@[simp] theorem pure_bind (value : α) (k : α → Prog σ ε β) : (pure value >>= k) = k value := rfl

@[simp] theorem step_bind (act : ε → σ → Option (γ × σ)) (next : γ → Prog σ ε α) (k : α → Prog σ ε β) :
    (.step act next >>= k) = .step act fun b => next b >>= k := rfl

@[simp] theorem atomic_bind (act : ε → σ → Option (α × σ)) (k : α → Prog σ ε β) :
    (atomic act >>= k) = .step act k := rfl

theorem bind_pure (p : Prog σ ε α) : (p >>= pure) = p := by
  induction p with
  | done value => rfl
  | step act next ih =>
      rw [step_bind]
      exact congrArg (Prog.step act) (funext ih)

theorem bind_assoc (p : Prog σ ε α) (k : α → Prog σ ε β) (l : β → Prog σ ε γ) :
    (p >>= k >>= l) = p >>= fun a => k a >>= l := by
  induction p with
  | done value => rfl
  | step act next ih =>
      simp only [step_bind]
      exact congrArg (Prog.step act) (funext ih)

instance : LawfulMonad (Prog σ ε) :=
  LawfulMonad.mk' (Prog σ ε) bind_pure (fun _ _ => rfl) bind_assoc

/-! ### Paths -/

/-- The own steps from one program to what is left of it, each with the state before and after. -/
inductive Path : Prog σ ε α → List (σ × σ) → Prog σ ε α → Prop
  | nil (p : Prog σ ε α) : Path p [] p
  | cons {γ : Type} {act : ε → σ → Option (γ × σ)} {next : γ → Prog σ ε α} {e : ε} {s t : σ} {b : γ}
      {steps : List (σ × σ)} {q : Prog σ ε α} (taken : act e s = some (b, t))
      (rest : Path (next b) steps q) : Path (.step act next) ((s, t) :: steps) q

theorem Path.snoc {p : Prog σ ε α} {steps : List (σ × σ)} {act : ε → σ → Option (γ × σ)}
    {next : γ → Prog σ ε α} {e : ε} {s t : σ} {b : γ} (h : Path p steps (.step act next))
    (taken : act e s = some (b, t)) : Path p (steps ++ [(s, t)]) (next b) := by
  generalize hq : Prog.step act next = q at h
  induction h with
  | nil p =>
      subst hq
      exact .cons taken (.nil _)
  | cons first rest ih => exact .cons first (ih hq)

/-- A finished sequence of two programs is a finished first one followed by a finished second one. -/
theorem Path.of_bind {p : Prog σ ε α} {k : α → Prog σ ε β} {steps : List (σ × σ)} {value : β}
    (h : Path (p >>= k) steps (.done value)) :
    ∃ first a second, steps = first ++ second ∧ Path p first (.done a) ∧
      Path (k a) second (.done value) := by
  induction p generalizing steps with
  | done a => exact ⟨[], a, steps, rfl, .nil _, h⟩
  | step act next ih =>
      rw [step_bind] at h
      cases h with
      | cons taken rest =>
          obtain ⟨first, a, second, rfl, hfirst, hsecond⟩ := ih _ rest
          exact ⟨_ :: first, a, second, rfl, .cons taken hfirst, hsecond⟩

/-- A path through a sequence has not left the first program yet, or has finished it. -/
theorem Path.split_bind {p : Prog σ ε α} {k : α → Prog σ ε β} {steps : List (σ × σ)} {q : Prog σ ε β}
    (h : Path (p >>= k) steps q) :
    (∃ rest, Path p steps rest) ∨
      ∃ first a second, steps = first ++ second ∧ Path p first (.done a) ∧ Path (k a) second q := by
  induction p generalizing steps with
  | done a => exact .inr ⟨[], a, steps, rfl, .nil _, h⟩
  | step act next ih =>
      rw [step_bind] at h
      cases h with
      | nil => exact .inl ⟨_, .nil _⟩
      | cons taken rest =>
          rcases ih _ rest with ⟨left, hleft⟩ | ⟨first, a, second, rfl, hfirst, hsecond⟩
          · exact .inl ⟨left, .cons taken hleft⟩
          · exact .inr ⟨_ :: first, a, second, rfl, .cons taken hfirst, hsecond⟩

theorem Path.of_done {value : α} {steps : List (σ × σ)} {q : Prog σ ε α} (h : Path (.done value) steps q) :
    steps = [] := by
  cases h
  rfl

/-- A finished sequence that begins with an atomic step has taken it. -/
theorem Path.of_atomic {act : ε → σ → Option (γ × σ)} {k : γ → Prog σ ε α} {steps : List (σ × σ)} {value : α}
    (h : Path (atomic act >>= k) steps (.done value)) :
    ∃ e s b t rest, steps = (s, t) :: rest ∧ act e s = some (b, t) ∧ Path (k b) rest (.done value) := by
  cases h with
  | cons taken rest => exact ⟨_, _, _, _, _, rfl, taken, rest⟩

theorem Path.bind {p q : Prog σ ε α} {steps : List (σ × σ)} (h : Path p steps q) (k : α → Prog σ ε β) :
    Path (p >>= k) steps (q >>= k) := by
  induction h with
  | nil p => exact .nil _
  | cons taken rest ih => exact .cons taken ih

theorem Path.map {p : Prog σ ε α} {steps : List (σ × σ)} {value : α} (h : Path p steps (.done value)) (f : α → β) :
    Path (f <$> p) steps (.done (f value)) := by
  rw [map_eq_pure_bind]
  exact h.bind _

/-- A path with the outside event of each step. -/
inductive Told : Prog σ ε α → List (ε × σ × σ) → Prog σ ε α → Prop
  | nil (p : Prog σ ε α) : Told p [] p
  | cons {γ : Type} {act : ε → σ → Option (γ × σ)} {next : γ → Prog σ ε α} {e : ε} {s t : σ} {b : γ}
      {told : List (ε × σ × σ)} {q : Prog σ ε α} (taken : act e s = some (b, t))
      (rest : Told (next b) told q) : Told (.step act next) ((e, s, t) :: told) q

theorem Told.path {p q : Prog σ ε α} {told : List (ε × σ × σ)} (h : Told p told q) : Path p (told.map Prod.snd) q := by
  induction h with
  | nil p => exact .nil p
  | cons taken rest ih => exact .cons taken ih

theorem Told.of_bind {p : Prog σ ε α} {k : α → Prog σ ε β} {told : List (ε × σ × σ)} {value : β}
    (h : Told (p >>= k) told (.done value)) :
    ∃ first a second, told = first ++ second ∧ Told p first (.done a) ∧ Told (k a) second (.done value) := by
  induction p generalizing told with
  | done a => exact ⟨[], a, told, rfl, .nil _, h⟩
  | step act next ih =>
      rw [step_bind] at h
      cases h with
      | cons taken rest =>
          obtain ⟨first, a, second, rfl, hfirst, hsecond⟩ := ih _ rest
          exact ⟨_ :: first, a, second, rfl, .cons taken hfirst, hsecond⟩

theorem Told.of_atomic {act : ε → σ → Option (γ × σ)} {k : γ → Prog σ ε α} {told : List (ε × σ × σ)} {value : α}
    (h : Told (atomic act >>= k) told (.done value)) :
    ∃ e s b t rest, told = (e, s, t) :: rest ∧ act e s = some (b, t) ∧ Told (k b) rest (.done value) := by
  cases h with
  | cons taken rest => exact ⟨_, _, _, _, _, rfl, taken, rest⟩

/-- Every step of the program, from whatever state it is taken, is in the relation. -/
def Within (R : σ → σ → Prop) : Prog σ ε α → Prop
  | .done _ => True
  | .step act next => (∀ e s b t, act e s = some (b, t) → R s t) ∧ ∀ b, (next b).Within R

theorem Within.pure {R : σ → σ → Prop} (value : α) :
    (Pure.pure value : Prog σ ε α).Within R := trivial

theorem Within.bind {R : σ → σ → Prop} {p : Prog σ ε α} {k : α → Prog σ ε β} (hp : p.Within R)
    (hk : ∀ a, (k a).Within R) : (p >>= k).Within R := by
  induction p with
  | done a => exact hk a
  | step act next ih => exact ⟨hp.1, fun b => ih b (hp.2 b)⟩

theorem Within.mono {R S : σ → σ → Prop} {p : Prog σ ε α} (hp : p.Within R)
    (hRS : ∀ s t, R s t → S s t) : p.Within S := by
  induction p with
  | done a => trivial
  | step act next ih => exact ⟨fun e s b t h => hRS s t (hp.1 e s b t h), fun b => ih b (hp.2 b)⟩

theorem Within.path {R : σ → σ → Prop} {p q : Prog σ ε α} {steps : List (σ × σ)} (hp : p.Within R)
    (h : Path p steps q) : (∀ m ∈ steps, R m.1 m.2) ∧ q.Within R := by
  induction h with
  | nil p => exact ⟨by simp, hp⟩
  | cons taken rest ih =>
      obtain ⟨hsteps, hq⟩ := ih (hp.2 _)
      refine ⟨?_, hq⟩
      intro m hm
      rcases List.mem_cons.mp hm with rfl | hm
      · exact hp.1 _ _ _ _ taken
      · exact hsteps m hm

/-! ### What finished paths emit -/

/-- Every finished path of the program, with what its steps emit in order, satisfies the postcondition. -/
def Emits {ω : Type} (emit : σ × σ → List ω) (post : List ω → α → Prop) (p : Prog σ ε α) : Prop :=
  ∀ steps value, Path p steps (.done value) → post (steps.flatMap emit) value

namespace Emits

variable {ω : Type} {emit : σ × σ → List ω} {post : List ω → α → Prop}

theorem pure {value : α} (h : post [] value) : Emits emit post (Pure.pure value : Prog σ ε α) := by
  intro steps last path
  cases path
  exact h

theorem weaken {other : List ω → α → Prop} {p : Prog σ ε α} (h : Emits emit post p)
    (himp : ∀ log a, post log a → other log a) : Emits emit other p :=
  fun steps value path => himp _ _ (h steps value path)

theorem bind {mid : List ω → α → Prop} {last : List ω → β → Prop} {p : Prog σ ε α} {k : α → Prog σ ε β}
    (hp : Emits emit mid p) (hk : ∀ log a, mid log a → Emits emit (fun rest b => last (log ++ rest) b) (k a)) :
    Emits emit last (p >>= k) := by
  intro steps value path
  obtain ⟨first, a, second, rfl, hfirst, hsecond⟩ := path.of_bind
  rw [List.flatMap_append]
  exact hk _ a (hp first a hfirst) second value hsecond

theorem atomic {act : ε → σ → Option (γ × σ)} {k : γ → Prog σ ε α}
    (h : ∀ e s b t, act e s = some (b, t) → Emits emit (fun rest a => post (emit (s, t) ++ rest) a) (k b)) :
    Emits emit post (Prog.atomic act >>= k) := by
  intro steps value path
  cases path with
  | cons taken rest => exact h _ _ _ _ taken _ _ rest

/-- A program none of whose steps emits anything. -/
theorem silent {R : σ → σ → Prop} {p : Prog σ ε α} (hp : p.Within R) (hR : ∀ s t, R s t → emit (s, t) = []) :
    Emits emit (fun log _ => log = []) p := by
  intro steps value path
  rw [List.flatMap_eq_nil_iff]
  exact fun step hstep => hR _ _ ((hp.path path).1 step hstep)

theorem silent_bind {R : σ → σ → Prop} {last : List ω → β → Prop} {p : Prog σ ε α} {k : α → Prog σ ε β}
    (hp : p.Within R) (hR : ∀ s t, R s t → emit (s, t) = []) (hk : ∀ a, Emits emit last (k a)) :
    Emits emit last (p >>= k) := by
  refine (silent hp hR).bind fun log a hlog => ?_
  subst hlog
  exact hk a

end Emits

end Prog

end Concurrent

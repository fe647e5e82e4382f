import Causeway.Concurrent.Pool

/-!
# Rely and guarantee

A discipline says what every thread may assume and what it must keep: an invariant of the shared state, the steps thread `i` is allowed to take (`guar i`), and the changes thread `i` may see between two of its own steps (`rely i`). A program is safe from a state if each of its steps, taken from any state the environment can lead to, is allowed and keeps the invariant.

A safety fact is anchored at the state it starts from: what the program knows about that state it still knows, as far as `rely` carries it, at its next step. A step that the environment could have taken as well does not move the anchor (`Safe.quiet`), so most steps of a program disappear from its proof.
-/

namespace Concurrent

structure Discipline (σ : Type) where
  inv : σ → Prop
  guar : Nat → σ → σ → Prop
  rely : Nat → σ → σ → Prop
  refl : ∀ i s, rely i s s
  trans : ∀ {i s t u}, rely i s t → rely i t u → rely i s u
  /-- What one thread may do, every other thread may see. -/
  compat : ∀ {i j s t}, i ≠ j → inv s → inv t → guar i s t → rely j s t

namespace Discipline

variable {σ ε α β γ : Type} (D : Discipline σ)

/-- Thread `i` runs the program safely from the anchor state, and ends with the postcondition. -/
def Safe (i : Nat) (post : α → σ → Prop) : Prog σ ε α → σ → Prop
  | .done value, s => ∀ t, D.inv t → D.rely i s t → post value t
  | .step act next, s => ∀ t, D.inv t → D.rely i s t → ∀ e b u, act e t = some (b, u) →
      (D.inv u ∧ D.guar i t u) ∧ Safe i post (next b) u

variable {D} {i : Nat} {post : α → σ → Prop} {s t : σ}

theorem Safe.mono {p : Prog σ ε α} (h : D.Safe i post p s) (hst : D.rely i s t) :
    D.Safe i post p t := by
  cases p with
  | done value => exact fun u hu htu => h u hu (D.trans hst htu)
  | step act next => exact fun u hu htu => h u hu (D.trans hst htu)

theorem Safe.weaken {p : Prog σ ε α} {other : α → σ → Prop} (h : D.Safe i post p s)
    (himp : ∀ a t, D.inv t → post a t → other a t) : D.Safe i other p s := by
  induction p generalizing s with
  | done value => exact fun t ht hst => himp value t ht (h t ht hst)
  | step act next ih =>
      intro t ht hst e b u hact
      obtain ⟨hstep, hrest⟩ := h t ht hst e b u hact
      exact ⟨hstep, ih b hrest⟩

theorem Safe.pure {value : α} (h : ∀ t, D.inv t → D.rely i s t → post value t) :
    D.Safe (ε := ε) i post (Pure.pure value) s := h

theorem Safe.bind {p : Prog σ ε α} {k : α → Prog σ ε β} {last : β → σ → Prop}
    (hp : D.Safe i post p s) (hs : D.inv s)
    (hk : ∀ a t, D.inv t → post a t → D.Safe i last (k a) t) : D.Safe i last (p >>= k) s := by
  induction p generalizing s with
  | done a => exact hk a s hs (hp s hs (D.refl i s))
  | step act next ih =>
      intro t ht hst e b u hact
      obtain ⟨hstep, hrest⟩ := hp t ht hst e b u hact
      exact ⟨hstep, ih b hrest hstep.1⟩

/-- What every step of every thread only lets grow has grown at the end. -/
theorem Safe.grows {G : σ → σ → Prop} (htrans : ∀ {s t u}, G s t → G t u → G s u)
    (hrely : ∀ {s t}, D.rely i s t → G s t) (hguar : ∀ {s t}, D.guar i s t → G s t)
    {p : Prog σ ε α} (h : D.Safe i post p s) : D.Safe i (fun a t => post a t ∧ G s t) p s := by
  have hG : G s s := hrely (D.refl i s)
  suffices hbase : ∀ base, G base s → D.Safe i (fun a t => post a t ∧ G base t) p s from hbase s hG
  intro base hbs
  clear hG
  induction p generalizing s with
  | done a => exact fun t ht hst => ⟨h t ht hst, htrans hbs (hrely hst)⟩
  | step act next ih =>
      intro t ht hst e b u hact
      obtain ⟨hstep, hrest⟩ := h t ht hst e b u hact
      exact ⟨hstep, ih b hrest (htrans (htrans hbs (hrely hst)) (hguar hstep.2))⟩

theorem Safe.atomic {act : ε → σ → Option (γ × σ)} {k : γ → Prog σ ε α}
    (h : ∀ t, D.inv t → D.rely i s t → ∀ e b u, act e t = some (b, u) →
      D.inv u ∧ D.guar i t u ∧ D.Safe i post (k b) u) :
    D.Safe i post (Prog.atomic act >>= k) s := by
  intro t ht hst e b u hact
  obtain ⟨hu, hguar, hrest⟩ := h t ht hst e b u hact
  exact ⟨⟨hu, hguar⟩, hrest⟩

/-- A step the environment could have taken as well keeps the anchor. -/
theorem Safe.quiet {act : ε → σ → Option (γ × σ)} {k : γ → Prog σ ε α} {R : γ → Prop}
    (hact : ∀ t, D.inv t → D.rely i s t → ∀ e b u, act e t = some (b, u) →
      D.inv u ∧ D.guar i t u ∧ D.rely i t u ∧ R b)
    (hk : ∀ b, R b → D.Safe i post (k b) s) : D.Safe i post (Prog.atomic act >>= k) s := by
  refine Safe.atomic fun t ht hst e b u h => ?_
  obtain ⟨hu, hguar, hrely, hb⟩ := hact t ht hst e b u h
  exact ⟨hu, hguar, (hk b hb).mono (D.trans hst hrely)⟩

theorem Safe.quiet_bind {R : σ → σ → Prop} {p : Prog σ ε γ} {k : γ → Prog σ ε α} (hp : p.Within R)
    (hR : ∀ t u, D.inv t → R t u → D.inv u ∧ D.guar i t u ∧ D.rely i t u) (hk : ∀ a, D.Safe i post (k a) s) :
    D.Safe i post (p >>= k) s := by
  induction p with
  | done a => exact hk a
  | step act next ih =>
      intro t ht hst e b u hact
      obtain ⟨hu, hguar, hrely⟩ := hR t u ht (hp.1 e t b u hact)
      exact ⟨⟨hu, hguar⟩, (ih b (hp.2 b)).mono (D.trans hst hrely)⟩

/-- A program whose every step is allowed from wherever it is taken. -/
theorem Safe.of_within {R : σ → σ → Prop} {p : Prog σ ε α} (hp : p.Within R)
    (hR : ∀ t u, D.inv t → R t u → D.inv u ∧ D.guar i t u) : D.Safe i (fun _ _ => True) p s := by
  induction p generalizing s with
  | done a => exact fun _ _ _ => trivial
  | step act next ih => exact fun t ht _ e b u hact => ⟨hR t u ht (hp.1 e t b u hact), ih b (hp.2 b)⟩

/-- `E` allows every step that `D` allows, and says the same otherwise. -/
structure Allows (E D : Discipline σ) : Prop where
  inv : E.inv = D.inv
  rely : E.rely = D.rely
  guar : ∀ {i s t}, D.guar i s t → E.guar i s t

theorem Safe.relax {E : Discipline σ} (hE : E.Allows D) {p : Prog σ ε α} (h : D.Safe i post p s) :
    E.Safe i post p s := by
  induction p generalizing s with
  | done value =>
      intro t ht hst
      rw [hE.inv] at ht
      rw [hE.rely] at hst
      exact h t ht hst
  | step act next ih =>
      intro t ht hst e b u hact
      rw [hE.inv] at ht
      rw [hE.rely] at hst
      obtain ⟨⟨hu, hguar⟩, hrest⟩ := h t ht hst e b u hact
      exact ⟨⟨hE.inv ▸ hu, hE.guar hguar⟩, ih b hrest⟩

/-! ### Soundness -/

/-- A pool whose shared state satisfies the invariant and whose threads are all safe. -/
structure Holds (D : Discipline σ) (post : Nat → α → σ → Prop) (pool : Pool σ ε α) : Prop where
  inv : D.inv pool.shared
  safe : ∀ i, D.Safe i (post i) (pool.thread i) pool.shared

variable {pool last : Pool σ ε α} {moves : List (Move σ)} {posts : Nat → α → σ → Prop}

theorem Holds.step (h : D.Holds posts pool) {e : ε} {t : σ} (step : pool.Step i e t last) :
    D.Holds posts last ∧ D.inv t ∧ D.guar i pool.shared t := by
  obtain ⟨running, taken⟩ := step
  have hsafe := h.safe i
  rw [running] at hsafe
  obtain ⟨⟨hinv, hguar⟩, hrest⟩ := hsafe _ h.inv (D.refl i _) e _ _ taken
  refine ⟨⟨hinv, fun j => ?_⟩, hinv, hguar⟩
  by_cases hj : j = i
  · subst hj
    simpa using hrest
  · simpa [Function.update_of_ne hj] using (h.safe j).mono (D.compat (Ne.symm hj) h.inv hinv hguar)

theorem Holds.run (h : D.Holds posts pool) (run : pool.Run moves last) : D.Holds posts last := by
  induction run with
  | refl => exact h
  | snoc run step ih => exact (ih.step step).1

/-- Every move of a run is allowed, between states that satisfy the invariant. -/
theorem Holds.allowed (h : D.Holds posts pool) (run : pool.Run moves last) :
    ∀ m ∈ moves, D.inv m.before ∧ D.inv m.after ∧ D.guar m.thread m.before m.after := by
  induction run with
  | refl => simp
  | snoc run step ih =>
      intro m hm
      rcases List.mem_append.mp hm with hm | hm
      · exact ih m hm
      · obtain ⟨_, hinv, hguar⟩ := (h.run run).step step
        rw [List.mem_singleton.mp hm]
        exact ⟨(h.run run).inv, hinv, hguar⟩

/-- What a thread may see happen is all that happens between two of its own steps. -/
theorem Holds.between (h : D.Holds posts pool) (run : pool.Run moves last) {steps others : List (σ × σ)} {s t u v : σ}
    (hown : Pool.own i moves = steps ++ (s, t) :: (u, v) :: others) : D.rely i t u ∧ D.inv u := by
  obtain ⟨before, after, rfl, -, hafter⟩ := Pool.own_eq_append hown
  obtain ⟨mid, later, rfl, hmid, -⟩ := @Pool.own_eq_append _ _ _ [] _ _ _ hafter
  have hsplit : before ++ ⟨i, s, t⟩ :: (mid ++ ⟨i, u, v⟩ :: later) =
      (before ++ [⟨i, s, t⟩]) ++ (mid ++ ⟨i, u, v⟩ :: later) := by simp
  rw [hsplit] at run
  obtain ⟨start, hfirst, hrest⟩ := run.split
  obtain ⟨stop, hothers, hlast⟩ := hrest.split
  have hstart := h.run hfirst
  have hallowed := hstart.allowed hothers
  have hu : stop.shared = u := hlast.before_eq.symm
  have ht : start.shared = t := hfirst.after_eq.symm
  have hrely : D.rely i t stop.shared := by
    refine hothers.keeps (X := D.rely i t) (ht ▸ D.refl i _) fun m hm hseen => ?_
    have hne : m.thread ≠ i := by
      intro heq
      have hmem := Pool.mem_own hm
      rw [heq, hmid] at hmem
      cases hmem
    obtain ⟨hbefore, hafter, hguar⟩ := hallowed m hm
    exact D.trans hseen (D.compat hne hbefore hafter hguar)
  exact ⟨hu ▸ hrely, hu ▸ (hstart.run hothers).inv⟩

/-- A property that every allowed step keeps holds in every state a run reaches. -/
theorem Holds.preserves (h : D.Holds posts pool) (run : pool.Run moves last) {X : σ → Prop}
    (hX : ∀ i s t, D.inv s → D.inv t → D.guar i s t → X s → X t) (h0 : X pool.shared) :
    X last.shared := by
  induction run with
  | refl => exact h0
  | @snoc mid last moves i e t run step ih =>
      obtain ⟨_, hinv, hguar⟩ := (h.run run).step step
      cases step with
      | take running taken => exact hX i _ _ (h.run run).inv hinv hguar ih

/-- What a finished thread's postcondition says holds from then on. -/
theorem Holds.finished (h : D.Holds posts pool) (run : pool.Run moves last) {value : α}
    (hdone : last.thread i = .done value) : posts i value last.shared := by
  have hlast := h.run run
  have hsafe := hlast.safe i
  rw [hdone] at hsafe
  exact hsafe _ hlast.inv (D.refl i _)

end Discipline

end Concurrent

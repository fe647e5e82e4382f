import Causeway.Concurrent.Ledger

/-!
# Stories

What a program may do at one step can depend on what it did before: it stops what it has started, and writes to what it has opened. A story keeps what there is to remember, and a relation says how one step carries it on. `Tells` is a fact about the program alone, whatever happens between its steps; a `Chronicle` puts the stories of all threads of a pool together with what the threads leave alone for each other.
-/

namespace Concurrent

variable {σ ε α β κ : Type} {R : κ → σ → σ → κ → Prop} {k l m : κ} {steps others : List (σ × σ)}

/-- Steps that carry a story on. -/
inductive Story (R : κ → σ → σ → κ → Prop) : κ → List (σ × σ) → κ → Prop
  | nil (k : κ) : Story R k [] k
  | cons {k l m : κ} {s t : σ} {steps : List (σ × σ)} (step : R k s t l) (rest : Story R l steps m) :
      Story R k ((s, t) :: steps) m

namespace Story

theorem split {step : σ × σ} (h : Story R k (steps ++ step :: others) m) :
    ∃ before after, Story R k steps before ∧ R before step.1 step.2 after ∧ Story R after others m := by
  induction steps generalizing k with
  | nil =>
      cases h with
      | cons step rest => exact ⟨k, _, .nil k, step, rest⟩
  | cons head steps ih =>
      cases h with
      | cons step rest =>
          obtain ⟨before, after, hfirst, hstep, hrest⟩ := ih rest
          exact ⟨before, after, .cons step hfirst, hstep, hrest⟩

/-- A story up to one of its steps, and from there on. -/
theorem split_append (h : Story R k (steps ++ others) m) : ∃ l, Story R k steps l ∧ Story R l others m := by
  induction steps generalizing k with
  | nil => exact ⟨k, .nil k, h⟩
  | cons head steps ih =>
      cases h with
      | cons step rest =>
          obtain ⟨l, hfirst, hrest⟩ := ih rest
          exact ⟨l, .cons step hfirst, hrest⟩

theorem weaken {S : κ → σ → σ → κ → Prop} (h : Story R k steps l) (himp : ∀ k s t l, R k s t l → S k s t l) :
    Story S k steps l := by
  induction h with
  | nil k => exact .nil k
  | cons step rest ih => exact .cons (himp _ _ _ _ step) ih

theorem append (h : Story R k steps l) (g : Story R l others m) : Story R k (steps ++ others) m := by
  induction h with
  | nil k => exact g
  | cons first rest ih => exact .cons first (ih g)

theorem snoc {s t : σ} (h : Story R k steps l) (step : R l s t m) : Story R k (steps ++ [(s, t)]) m :=
  h.append (.cons step (.nil _))

theorem held {X : κ → Prop} (h : Story R k steps l) (hl : X l) (hstep : ∀ k s t l, R k s t l → X l → X k) : X k := by
  induction h with
  | nil k => exact hl
  | cons first rest ih => exact hstep _ _ _ _ first (ih hl)

theorem lost {X : κ → Prop} (h : Story R k steps l) (hk : X k) (hl : ¬ X l) :
    ∃ first step rest before after, steps = first ++ step :: rest ∧ Story R k first before ∧
      R before step.1 step.2 after ∧ Story R after rest l ∧ X before ∧ ¬ X after := by
  induction h with
  | nil k => exact absurd hk hl
  | @cons k mid l s t steps first rest ih =>
      by_cases hmid : X mid
      · obtain ⟨others, step, later, before, after, rfl, hothers, hlost⟩ := ih hmid hl
        exact ⟨(s, t) :: others, step, later, before, after, rfl, .cons first hothers, hlost⟩
      · exact ⟨[], (s, t), steps, k, mid, rfl, .nil k, first, rest, hk, hmid⟩

theorem kept {X : κ → Prop} (h : Story R k steps l) (hk : X k) (hstep : ∀ k s t l, R k s t l → X k → X l) : X l := by
  induction h with
  | nil k => exact hk
  | cons first rest ih => exact ih (hstep _ _ _ _ first hk)

/-- What holds at the end and not at the beginning holds without a break since some step. -/
theorem gained {X : κ → Prop} (h : Story R k steps l) (hk : ¬ X k) (hl : X l) :
    ∃ first step rest before after, steps = first ++ step :: rest ∧ Story R k first before ∧
      R before step.1 step.2 after ∧ ¬ X before ∧ X after ∧ Story (fun k s t l => R k s t l ∧ X l) after rest l := by
  have hsince : (X k ∧ Story (fun k s t l => R k s t l ∧ X l) k steps l) ∨
      ∃ first step rest before after, steps = first ++ step :: rest ∧ Story R k first before ∧
        R before step.1 step.2 after ∧ ¬ X before ∧ X after ∧ Story (fun k s t l => R k s t l ∧ X l) after rest l := by
    clear hk
    induction h with
    | nil k => exact .inl ⟨hl, .nil k⟩
    | @cons k mid l s t steps first rest ih =>
        rcases ih hl with ⟨hmid, hrest⟩ | ⟨others, step, later, before, after, rfl, hothers, hgained⟩
        · by_cases hk : X k
          · exact .inl ⟨hk, .cons ⟨first, hmid⟩ hrest⟩
          · exact .inr ⟨[], (s, t), steps, k, mid, rfl, .nil k, first, hk, hmid, hrest⟩
        · exact .inr ⟨(s, t) :: others, step, later, before, after, rfl, .cons first hothers, hgained⟩
  exact hsince.resolve_left fun h => hk h.1

end Story

namespace Prog

/-- Every step carries the story on, and it ends with the postcondition. -/
def Tells (R : κ → σ → σ → κ → Prop) (post : α → κ → Prop) : Prog σ ε α → κ → Prop
  | .done value, k => post value k
  | .step act next, k => ∀ e s b t, act e s = some (b, t) → ∃ l, R k s t l ∧ Tells R post (next b) l

namespace Tells

theorem pure {value : α} {post : α → κ → Prop} (h : post value k) : Tells R post (Pure.pure value : Prog σ ε α) k := h

theorem bind {mid : α → κ → Prop} {post : β → κ → Prop} {p : Prog σ ε α} {q : α → Prog σ ε β} (hp : Tells R mid p k)
    (hq : ∀ a l, mid a l → Tells R post (q a) l) : Tells R post (p >>= q) k := by
  induction p generalizing k with
  | done a => exact hq a k hp
  | step act next ih =>
      intro e s b t hact
      obtain ⟨l, hstep, hrest⟩ := hp e s b t hact
      exact ⟨l, hstep, ih b hrest⟩

theorem atomic {act : ε → σ → Option (α × σ)} {post : β → κ → Prop} {q : α → Prog σ ε β}
    (h : ∀ e s b t, act e s = some (b, t) → ∃ l, R k s t l ∧ Tells R post (q b) l) :
    Tells R post (Prog.atomic act >>= q) k := h

theorem weaken {post other : α → κ → Prop} {p : Prog σ ε α} (h : Tells R post p k)
    (himp : ∀ a l, post a l → other a l) : Tells R other p k := by
  induction p generalizing k with
  | done a => exact himp a k h
  | step act next ih =>
      intro e s b t hact
      obtain ⟨l, hstep, hrest⟩ := h e s b t hact
      exact ⟨l, hstep, ih b hrest⟩

/-- A program of steps of one kind, which keep what is known of the story. -/
theorem within {S : σ → σ → Prop} {X : κ → Prop} {p : Prog σ ε α} (hp : p.Within S) (hk : X k)
    (hS : ∀ k s t, X k → S s t → ∃ l, R k s t l ∧ X l) : Tells R (fun _ l => X l) p k := by
  induction p generalizing k with
  | done a => exact hk
  | step act next ih =>
      intro e s b t hact
      obtain ⟨l, hstep, hl⟩ := hS k s t hk (hp.1 e s b t hact)
      exact ⟨l, hstep, ih b (hp.2 b) hl⟩

end Tells

end Prog

/-! ### The stories of a pool -/

namespace Pool

/-- Each thread of a pool tells its story, what holds of it is kept by its own steps, and the other threads leave it alone. -/
structure Chronicle (R : Nat → κ → σ → σ → κ → Prop) (post : Nat → α → κ → Prop) (start : Nat → κ) (X : σ → Prop)
    (Y : Nat → κ → σ → Prop) (first : Pool σ ε α) (moves : List (Move σ)) : Prop where
  tells : ∀ i, (first.thread i).Tells (R i) (post i) (start i)
  shared : X first.shared
  threads : ∀ i, Y i (start i) first.shared
  own : ∀ m ∈ moves, ∀ k l, R m.thread k m.before m.after l → X m.before → Y m.thread k m.before →
    X m.after ∧ Y m.thread l m.after
  others : ∀ m ∈ moves, ∀ i, i ≠ m.thread → ∀ j k l, R m.thread j m.before m.after l → Y m.thread j m.before →
    Y i k m.before → Y i k m.after

variable {R : Nat → κ → σ → σ → κ → Prop} {post : Nat → α → κ → Prop} {start : Nat → κ} {X : σ → Prop}
  {Y : Nat → κ → σ → Prop} {first last : Pool σ ε α} {moves before after : List (Move σ)} {i : Nat}

theorem Chronicle.earlier (h : Chronicle R post start X Y first (before ++ after)) :
    Chronicle R post start X Y first before where
  tells := h.tells
  shared := h.shared
  threads := h.threads
  own m hm := h.own m (List.mem_append_left _ hm)
  others m hm := h.others m (List.mem_append_left _ hm)

/-- An own step of a thread is one of its moves. -/
theorem of_mem_own {step : σ × σ} (h : step ∈ own i moves) : ∃ m ∈ moves, m.thread = i ∧ (m.before, m.after) = step := by
  obtain ⟨m, hm, hstep⟩ := List.mem_map.mp h
  obtain ⟨hmem, hthread⟩ := List.mem_filter.mp hm
  exact ⟨m, hmem, of_decide_eq_true hthread, hstep⟩

theorem own_nil (i : Nat) : own i ([] : List (Move σ)) = [] := rfl

/-- Along a run every thread has told a story so far, goes on with it, and what holds of it holds of any story of its steps. -/
theorem Run.chronicle (run : first.Run moves last) (h : Chronicle R post start X Y first moves) :
    X last.shared ∧ ∀ i, (∃ l, Story (R i) (start i) (own i moves) l ∧ (last.thread i).Tells (R i) (post i) l) ∧
      ∀ l, Story (R i) (start i) (own i moves) l → Y i l last.shared := by
  induction run with
  | refl =>
      refine ⟨h.shared, fun i => ⟨⟨start i, .nil _, h.tells i⟩, fun l story => ?_⟩⟩
      cases story
      exact h.threads i
  | @snoc mid last moves j e t run step ih =>
      obtain ⟨running, taken⟩ := step
      obtain ⟨hX, hthreads⟩ := ih h.earlier
      obtain ⟨⟨k, hstory, htells⟩, hY⟩ := hthreads j
      rw [running] at htells
      obtain ⟨l, hstep, hrest⟩ := htells _ _ _ _ taken
      have hlast : (⟨j, mid.shared, t⟩ : Move σ) ∈ moves ++ [⟨j, mid.shared, t⟩] := by simp
      refine ⟨(h.own _ hlast k l hstep hX (hY k hstory)).1, fun i => ?_⟩
      rw [own_append]
      by_cases hij : j = i
      · subst hij
        rw [own_cons_self]
        refine ⟨⟨l, hstory.snoc hstep, ?_⟩, fun l' story => ?_⟩
        · dsimp only
          rw [Function.update_self]
          exact hrest
        · obtain ⟨k', _, hfirst, hstep', hnil⟩ := story.split
          cases hnil
          exact (h.own _ hlast k' l' hstep' hX (hY k' hfirst)).2
      · dsimp only
        rw [own_cons_of_ne hij, own_nil, List.append_nil, Function.update_of_ne (Ne.symm hij)]
        refine ⟨(hthreads i).1, fun l' story => ?_⟩
        exact h.others _ hlast i (Ne.symm hij) k l' l hstep (hY k hstory) ((hthreads i).2 l' story)

/-- A story of a run's thread, with what holds of the thread at each of its steps. -/
theorem Run.owned {l : κ} (run : first.Run moves last) (h : Chronicle R post start X Y first moves)
    (story : Story (R i) (start i) (own i moves) l) :
    Story (fun k s t l => Y i k s ∧ R i k s t l) (start i) (own i moves) l := by
  induction run generalizing l with
  | refl =>
      cases story
      exact .nil _
  | @snoc mid last moves j e t run step ih =>
      rw [own_append] at story ⊢
      by_cases hij : j = i
      · subst hij
        rw [own_cons_self] at story ⊢
        obtain ⟨k, _, hfirst, hstep, hnil⟩ := story.split
        cases hnil
        exact (ih h.earlier hfirst).snoc ⟨((run.chronicle h.earlier).2 j).2 k hfirst, hstep⟩
      · rw [own_cons_of_ne hij, own_nil, List.append_nil] at story ⊢
        exact ih h.earlier story

/-- The same at one move of the run, with the story of its thread before and after it. -/
theorem Run.chapter {m : Move σ} {l : κ} (run : first.Run (before ++ m :: after) last)
    (h : Chronicle R post start X Y first (before ++ m :: after))
    (story : Story (R m.thread) (start m.thread) (own m.thread (before ++ m :: after)) l) :
    X m.before ∧ ∃ j k, Story (R m.thread) (start m.thread) (own m.thread before) j ∧ Y m.thread j m.before ∧
      R m.thread j m.before m.after k ∧ Story (R m.thread) k (own m.thread after) l := by
  obtain ⟨mid, hfirst, hsecond⟩ := run.split
  obtain ⟨hX, hthreads⟩ := hfirst.chronicle h.earlier
  rw [own_append, own_cons_self] at story
  obtain ⟨j, k, hbefore, hstep, hafter⟩ := story.split
  rw [hsecond.before_eq]
  exact ⟨hX, j, k, hbefore, (hthreads m.thread).2 j hbefore, hsecond.before_eq ▸ hstep, hafter⟩

end Pool

end Concurrent

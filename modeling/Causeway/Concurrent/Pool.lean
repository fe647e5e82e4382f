import Causeway.Concurrent.Program

/-!
# Pools of threads

A pool is a shared state and one program for every thread number, so it holds any number of concurrently running programs; a thread that is done takes no further step. One step of a pool is one atomic step of one thread: every order in which threads can be scheduled is a run.
-/

namespace Concurrent

variable {σ ε α : Type}

structure Pool (σ ε α : Type) where
  shared : σ
  thread : Nat → Prog σ ε α

/-- One scheduled step: which thread took it, and the shared state before and after. -/
structure Move (σ : Type) where
  thread : Nat
  before : σ
  after : σ

namespace Pool

/-- Thread `i` takes its next atomic step under the event `e`. -/
inductive Step (pool : Pool σ ε α) (i : Nat) (e : ε) : σ → Pool σ ε α → Prop
  | take {β : Type} {act : ε → σ → Option (β × σ)} {next : β → Prog σ ε α} {b : β} {t : σ}
      (running : pool.thread i = .step act next) (taken : act e pool.shared = some (b, t)) :
      Step pool i e t ⟨t, Function.update pool.thread i (next b)⟩

/-- The runs of a pool, with the moves taken. -/
inductive Run : Pool σ ε α → List (Move σ) → Pool σ ε α → Prop
  | refl (pool : Pool σ ε α) : Run pool [] pool
  | snoc {pool mid last : Pool σ ε α} {moves : List (Move σ)} {i : Nat} {e : ε} {t : σ}
      (run : Run pool moves mid) (step : Step mid i e t last) :
      Run pool (moves ++ [⟨i, mid.shared, t⟩]) last

theorem Run.append {first mid last : Pool σ ε α} {moves others : List (Move σ)}
    (h : Run first moves mid) (g : Run mid others last) : Run first (moves ++ others) last := by
  induction g with
  | refl => simpa using h
  | snoc run step ih =>
      rw [← List.append_assoc]
      exact .snoc ih step

theorem Run.split {first last : Pool σ ε α} {moves others : List (Move σ)}
    (h : Run first (moves ++ others) last) : ∃ mid, Run first moves mid ∧ Run mid others last := by
  generalize hall : moves ++ others = all at h
  induction h generalizing others with
  | refl =>
      obtain ⟨rfl, rfl⟩ := List.append_eq_nil_iff.mp hall
      exact ⟨_, .refl _, .refl _⟩
  | snoc run step ih =>
      rcases List.eq_nil_or_concat others with rfl | ⟨others, m, rfl⟩
      · rw [List.append_nil] at hall
        exact ⟨_, hall ▸ .snoc run step, .refl _⟩
      · rw [List.concat_eq_append, ← List.append_assoc] at hall
        obtain ⟨hmoves, hm⟩ := List.append_inj' hall rfl
        obtain ⟨mid, hfirst, hsecond⟩ := ih hmoves
        rw [List.concat_eq_append, hm]
        exact ⟨mid, hfirst, .snoc hsecond step⟩

theorem Run.eq_of_nil {first last : Pool σ ε α} (h : Run first [] last) : last = first := by
  generalize hall : ([] : List (Move σ)) = all at h
  cases h with
  | refl => rfl
  | snoc run step => simp at hall

/-- A run begins where its first move begins. -/
theorem Run.before_eq {first last : Pool σ ε α} {m : Move σ} {moves : List (Move σ)}
    (h : Run first (m :: moves) last) : m.before = first.shared := by
  generalize hall : m :: moves = all at h
  induction h generalizing moves with
  | refl => cases hall
  | @snoc mid last others i e t run step ih =>
      cases others with
      | nil =>
          rw [(List.cons.inj hall).1, run.eq_of_nil]
      | cons other others =>
          obtain ⟨rfl, _⟩ := List.cons.inj hall
          exact ih rfl

/-- A run ends where its last move ends. -/
theorem Run.after_eq {first last : Pool σ ε α} {m : Move σ} {moves : List (Move σ)}
    (h : Run first (moves ++ [m]) last) : m.after = last.shared := by
  generalize hall : moves ++ [m] = all at h
  cases h with
  | refl => simp at hall
  | snoc run step =>
      obtain ⟨rfl, hm⟩ := List.append_inj' hall rfl
      obtain ⟨running, taken⟩ := step
      rw [List.singleton_inj.mp hm]

def own (i : Nat) (moves : List (Move σ)) : List (σ × σ) :=
  (moves.filter fun m => m.thread = i).map fun m => (m.before, m.after)

@[simp] theorem own_append (i : Nat) (moves others : List (Move σ)) :
    own i (moves ++ others) = own i moves ++ own i others := by
  simp [own]

@[simp] theorem own_cons_self (i : Nat) (s t : σ) (moves : List (Move σ)) :
    own i (⟨i, s, t⟩ :: moves) = (s, t) :: own i moves := by
  simp [own]

theorem mem_own {moves : List (Move σ)} {m : Move σ} (h : m ∈ moves) :
    (m.before, m.after) ∈ own m.thread moves :=
  List.mem_map.mpr ⟨m, by simpa using h, rfl⟩

/-- A thread's own steps are found one by one among the moves. -/
theorem own_eq_append {i : Nat} {moves : List (Move σ)} {steps others : List (σ × σ)} {s t : σ}
    (h : own i moves = steps ++ (s, t) :: others) :
    ∃ before after, moves = before ++ ⟨i, s, t⟩ :: after ∧ own i before = steps ∧ own i after = others := by
  induction moves generalizing steps with
  | nil => simp [own] at h
  | cons m moves ih =>
      by_cases hm : m.thread = i
      · have hcons : (m.before, m.after) :: own i moves = steps ++ (s, t) :: others := by
          rw [← h]
          simp [own, hm]
        cases steps with
        | nil =>
            obtain ⟨hstep, hothers⟩ := List.cons.inj hcons
            obtain ⟨rfl, rfl⟩ := Prod.mk.inj hstep
            exact ⟨[], moves, by rw [← hm]; rfl, rfl, hothers⟩
        | cons step steps =>
            obtain ⟨rfl, hrest⟩ := List.cons.inj hcons
            obtain ⟨before, after, rfl, rfl, hafter⟩ := ih hrest
            exact ⟨m :: before, after, rfl, by simp [own, hm], hafter⟩
      · have hrest : own i moves = steps ++ (s, t) :: others := by simpa [own, hm] using h
        obtain ⟨before, after, rfl, rfl, hafter⟩ := ih hrest
        exact ⟨m :: before, after, rfl, by simp [own, hm], hafter⟩

/-- The moves before the own step of thread `i` that `count` more of its steps follow. -/
def beforeOwn (i count : Nat) : List (Move σ) → List (Move σ)
  | [] => []
  | m :: moves =>
      if m.thread = i ∧ (own i moves).length = count then [] else m :: beforeOwn i count moves

theorem beforeOwn_eq {i : Nat} {before after : List (Move σ)} {s t : σ} :
    beforeOwn i (own i after).length (before ++ ⟨i, s, t⟩ :: after) = before := by
  induction before with
  | nil => simp [beforeOwn]
  | cons m before ih =>
      have hlater : (own i (before ++ ⟨i, s, t⟩ :: after)).length ≠ (own i after).length := by
        simp only [own_append, own_cons_self, List.length_append, List.length_cons]
        omega
      rw [List.cons_append, beforeOwn, if_neg (fun h => hlater h.2), ih]

/-- Inside a run, a thread follows a path of its own program. -/
theorem Run.path {first last : Pool σ ε α} {moves : List (Move σ)} (h : Run first moves last)
    (i : Nat) : Prog.Path (first.thread i) (own i moves) (last.thread i) := by
  induction h with
  | refl => exact .nil _
  | @snoc mid last moves j e t run step ih =>
      obtain ⟨running, taken⟩ := step
      rw [own_append]
      by_cases hij : j = i
      · subst hij
        rw [running] at ih
        simpa [own] using ih.snoc taken
      · simpa [own, hij, Function.update_of_ne (Ne.symm hij)] using ih

/-- A property that every move of a run keeps holds at its end. -/
theorem Run.keeps {first last : Pool σ ε α} {moves : List (Move σ)} (h : Run first moves last)
    {X : σ → Prop} (h0 : X first.shared) (hX : ∀ m ∈ moves, X m.before → X m.after) : X last.shared := by
  induction h with
  | refl => exact h0
  | snoc run step ih =>
      have hmid := ih fun m hm => hX m (List.mem_append_left _ hm)
      obtain ⟨running, taken⟩ := step
      exact hX _ (List.mem_append_right _ (List.mem_singleton_self _)) hmid

theorem Run.keeps_moves {first last : Pool σ ε α} {moves : List (Move σ)} (h : Run first moves last)
    {X : σ → Prop} (h0 : X first.shared) (hX : ∀ m ∈ moves, X m.before → X m.after) :
    ∀ m ∈ moves, X m.before ∧ X m.after := by
  induction h with
  | refl => simp
  | snoc run step ih =>
      have hrest := fun m hm => hX m (List.mem_append_left _ hm)
      intro m hm
      rcases List.mem_append.mp hm with hm' | hm'
      · exact ih hrest m hm'
      · have hbefore := run.keeps h0 hrest
        cases List.mem_singleton.mp hm'
        exact ⟨hbefore, hX _ hm hbefore⟩

/-- What no move lowers has only risen since an earlier move and until a later one. -/
theorem Run.climbs {first last : Pool σ ε α} {before after : List (Move σ)} {m : Move σ} {f : σ → Nat}
    (h : Run first (before ++ m :: after) last) (hf : ∀ n ∈ before ++ m :: after, f n.before ≤ f n.after) :
    (∀ n ∈ before, f n.after ≤ f m.before) ∧ ∀ n ∈ after, f m.after ≤ f n.before := by
  have hpairs : ∀ {moves : List (Move σ)} {last : Pool σ ε α}, Run first moves last →
      (∀ n ∈ moves, f n.before ≤ f n.after) →
        moves.Pairwise (fun m n => f m.after ≤ f n.before) ∧ ∀ n ∈ moves, f n.after ≤ f last.shared := by
    intro moves last h hf
    induction h with
    | refl => simp
    | @snoc mid last moves j e t run step ih =>
        obtain ⟨hearlier, hlast⟩ := ih fun n hn => hf n (List.mem_append_left _ hn)
        obtain ⟨running, taken⟩ := step
        have hstep : f mid.shared ≤ f t := hf ⟨j, mid.shared, t⟩ (by simp)
        refine ⟨List.pairwise_append.mpr ⟨hearlier, List.pairwise_singleton _ _, fun m hm n hn => ?_⟩, fun n hn => ?_⟩
        · cases List.mem_singleton.mp hn
          exact hlast m hm
        · rcases List.mem_append.mp hn with hn | hn
          · exact Nat.le_trans (hlast n hn) hstep
          · cases List.mem_singleton.mp hn
            exact Nat.le_refl _
  obtain ⟨-, hlater, hearlier⟩ := List.pairwise_append.mp (hpairs h hf).1
  exact ⟨fun n hn => hearlier n hn m List.mem_cons_self, fun n hn => (List.pairwise_cons.mp hlater).1 n hn⟩

/-! ### Scheduled execution -/

/-- Run a program's next step under an event. -/
def advance (e : ε) (s : σ) : Prog σ ε α → Option (Prog σ ε α × σ)
  | .done _ => none
  | .step act next => (act e s).map fun r => (next r.1, r.2)

/-- Run a schedule of thread numbers and events, if every step of it is enabled. -/
def exec : List (Nat × ε) → Pool σ ε α → Option (Pool σ ε α)
  | [], pool => some pool
  | (i, e) :: schedule, pool =>
      match advance e pool.shared (pool.thread i) with
      | none => none
      | some (p, t) => exec schedule ⟨t, Function.update pool.thread i p⟩

/-- What a schedule leads to is reached by a run of the same threads. -/
theorem exec_run {schedule : List (Nat × ε)} {pool last : Pool σ ε α}
    (h : exec schedule pool = some last) :
    ∃ moves, Run pool moves last ∧ moves.map (·.thread) = schedule.map (·.1) := by
  induction schedule generalizing pool with
  | nil =>
      cases h
      exact ⟨[], .refl _, rfl⟩
  | cons head schedule ih =>
      obtain ⟨i, e⟩ := head
      simp only [exec] at h
      cases hp : pool.thread i with
      | done value => simp [hp, advance] at h
      | step act next =>
          cases ha : act e pool.shared with
          | none => simp [hp, advance, ha] at h
          | some r =>
              obtain ⟨b, t⟩ := r
              simp only [hp, advance, ha, Option.map_some] at h
              obtain ⟨moves, hrun, hthreads⟩ := ih h
              exact ⟨_, Run.append (.snoc (.refl pool) (.take hp ha)) hrun, by simp [hthreads]⟩

/-- A schedule that leads to a state with a property. -/
theorem exec_reaches (schedule : List (Nat × ε)) (pool : Pool σ ε α) (X : Pool σ ε α → Bool)
    (h : (exec schedule pool).any X = true) :
    ∃ moves last, Run pool moves last ∧ moves.map (·.thread) = schedule.map (·.1) ∧ X last = true := by
  cases hlast : exec schedule pool with
  | none => simp [hlast] at h
  | some last =>
      obtain ⟨moves, run, hthreads⟩ := exec_run hlast
      exact ⟨moves, last, run, hthreads, by simpa [hlast] using h⟩

/-- Two schedules, one after the other, that lead to two states with a property. -/
theorem exec_reaches_mid (schedule later : List (Nat × ε)) (pool : Pool σ ε α)
    (X : Pool σ ε α → Pool σ ε α → Bool)
    (h : ((exec schedule pool).any fun mid => (exec later mid).any (X mid)) = true) :
    ∃ moves mid others last, Run pool moves mid ∧ Run mid others last ∧ X mid last = true := by
  cases hmid : exec schedule pool with
  | none => simp [hmid] at h
  | some mid =>
      rw [hmid, Option.any_some] at h
      obtain ⟨moves, run, _⟩ := exec_run hmid
      obtain ⟨others, last, run', _, hlast⟩ := exec_reaches later mid (X mid) h
      exact ⟨moves, mid, others, last, run, run', hlast⟩

def trace : List (Nat × ε) → Pool σ ε α → Option (List (Move σ) × Pool σ ε α)
  | [], pool => some ([], pool)
  | (i, e) :: schedule, pool =>
      match advance e pool.shared (pool.thread i) with
      | none => none
      | some (p, t) =>
          (trace schedule ⟨t, Function.update pool.thread i p⟩).map fun r => (⟨i, pool.shared, t⟩ :: r.1, r.2)

theorem trace_run {schedule : List (Nat × ε)} {pool last : Pool σ ε α} {moves : List (Move σ)}
    (h : trace schedule pool = some (moves, last)) : Run pool moves last := by
  induction schedule generalizing pool moves with
  | nil =>
      cases h
      exact .refl _
  | cons head schedule ih =>
      obtain ⟨i, e⟩ := head
      simp only [trace] at h
      cases hp : pool.thread i with
      | done value => simp [hp, advance] at h
      | step act next =>
          cases ha : act e pool.shared with
          | none => simp [hp, advance, ha] at h
          | some r =>
              obtain ⟨b, t⟩ := r
              simp only [hp, advance, ha, Option.map_some] at h
              obtain ⟨⟨rest, _⟩, hrest, heq⟩ := Option.map_eq_some_iff.mp h
              obtain ⟨rfl, rfl⟩ := Prod.mk.inj heq
              exact Run.append (.snoc (.refl pool) (.take hp ha)) (ih hrest)

/-- A schedule whose moves and end have a property. -/
theorem trace_reaches (schedule : List (Nat × ε)) (pool : Pool σ ε α)
    (X : List (Move σ) → Pool σ ε α → Bool) (h : (trace schedule pool).any (fun r => X r.1 r.2) = true) :
    ∃ moves last, Run pool moves last ∧ X moves last = true := by
  cases hlast : trace schedule pool with
  | none => simp [hlast] at h
  | some r => exact ⟨r.1, r.2, trace_run hlast, by simpa [hlast] using h⟩

end Pool

end Concurrent

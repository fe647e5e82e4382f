import Causeway.Concurrent.Pool
import Causeway.Concurrent.Waiting

/-!
# Programs that follow a script

The locking side of a program as a `Code`, and the program itself as a tree of atomic steps: the program follows the code if, whatever it does, the locks it takes and the order it takes them in are one way through the code. What a state says a thread holds is a parameter, so nothing here fixes how locks are represented.

A program may do in a single step what its script does under a guard. A guard that nothing else is taken under need not show, and workers that are started take nothing of their starter's.
-/

namespace Concurrent.Waiting

variable {ν : Type}

/-- A lock that is taken, with what is held at that moment. -/
structure Take (ν : Type) where
  held : ν → Option Access
  access : Access
  name : ν

def nothing : ν → Option Access := fun _ => none

/-- All that is held when the lock is taken ranks below it. -/
def Take.Climbs {ρ : Type} [LinearOrder ρ] (rank : ν → ρ) (take : Take ν) : Prop :=
  ∀ name, take.held name ≠ none → rank name < rank take.name

variable [DecidableEq ν]

namespace Code

/-- The ways through a code that begins with these locks held. -/
inductive Takes : (ν → Option Access) → Code ν → List (Take ν) → Prop
  | skip {held : ν → Option Access} : Takes held .skip []
  | seq {held : ν → Option Access} {first second : Code ν} {word rest : List (Take ν)} (hfirst : Takes held first word)
      (hsecond : Takes held second rest) : Takes held (.seq first second) (word ++ rest)
  | left {held : ν → Option Access} {left right : Code ν} {word : List (Take ν)} (h : Takes held left word) :
      Takes held (.either left right) word
  | right {held : ν → Option Access} {left right : Code ν} {word : List (Take ν)} (h : Takes held right word) :
      Takes held (.either left right) word
  | stop {held : ν → Option Access} {body : Code ν} : Takes held (.loop body) []
  | again {held : ν → Option Access} {body : Code ν} {word rest : List (Take ν)} (hbody : Takes held body word)
      (hloop : Takes held (.loop body) rest) : Takes held (.loop body) (word ++ rest)
  | holding {held : ν → Option Access} {access : Access} {name : ν} {body : Code ν} {word : List (Take ν)}
      (h : Takes (Function.update held name (some access)) body word) :
      Takes held (.holding access name body) (⟨held, access, name⟩ :: word)
  | brief {held : ν → Option Access} {access : Access} {name : ν} {body : Code ν}
      (h : Takes (Function.update held name (some access)) body []) : Takes held (.holding access name body) []
  | granted {held : ν → Option Access} {access : Access} {name : ν} {body late : Code ν} {word : List (Take ν)}
      (h : Takes (Function.update held name (some access)) body word) :
      Takes held (.holdingBy access name body late) (⟨held, access, name⟩ :: word)
  | late {held : ν → Option Access} {access : Access} {name : ν} {body late : Code ν} {word : List (Take ν)}
      (h : Takes held late word) : Takes held (.holdingBy access name body late) word
  | seized {held : ν → Option Access} {access : Access} {name : ν} {body busy : Code ν} {word : List (Take ν)}
      (h : Takes (Function.update held name (some access)) body word) :
      Takes held (.trying access name body busy) (⟨held, access, name⟩ :: word)
  | busy {held : ν → Option Access} {access : Access} {name : ν} {body busy : Code ν} {word : List (Take ν)}
      (h : Takes held busy word) : Takes held (.trying access name body busy) word
  | gather {held : ν → Option Access} {name : ν} {child : Code ν} : Takes held (.gather name child) []

variable {held : ν → Option Access} {code first second : Code ν} {word : List (Take ν)}

theorem exists_takes (held : ν → Option Access) (code : Code ν) : ∃ word, Takes held code word := by
  induction code generalizing held with
  | skip => exact ⟨_, .skip⟩
  | seq first second ihfirst ihsecond =>
      obtain ⟨word, hword⟩ := ihfirst held
      obtain ⟨rest, hrest⟩ := ihsecond held
      exact ⟨_, .seq hword hrest⟩
  | either left right ihleft _ =>
      obtain ⟨word, hword⟩ := ihleft held
      exact ⟨word, .left hword⟩
  | loop body => exact ⟨_, .stop⟩
  | holding access name body ih =>
      obtain ⟨word, hword⟩ := ih (Function.update held name (some access))
      exact ⟨_, .holding hword⟩
  | holdingBy access name body late _ ih =>
      obtain ⟨word, hword⟩ := ih held
      exact ⟨word, .late hword⟩
  | trying access name body busy _ ih =>
      obtain ⟨word, hword⟩ := ih held
      exact ⟨word, .busy hword⟩
  | gather name child => exact ⟨_, .gather⟩

/-- A round of a loop that is written out in front of it. -/
theorem Takes.roll {rest : Code ν} (h : Takes held (.seq first (.seq second (.seq (.loop (.seq first (.seq second .skip))) rest))) word) :
    Takes held (.seq (.loop (.seq first (.seq second .skip))) rest) word := by
  cases h with
  | seq hfirst h =>
      cases h with
      | seq hsecond h =>
          cases h with
          | seq hloop hrest => simpa using ((hfirst.seq (hsecond.seq .skip)).again hloop).seq hrest

/-- A code in rank order takes its locks in rank order. -/
theorem Takes.climbs {ρ : Type} [LinearOrder ρ] {rank : ν → ρ} {low : WithBot ρ} (h : Takes held code word)
    (hcode : code.Ordered rank low) (hheld : ∀ name, held name ≠ none → (rank name : WithBot ρ) ≤ low) :
    ∀ take ∈ word, take.Climbs rank := by
  have htaken {low : WithBot ρ} {held : ν → Option Access} {access : Access} {name : ν} (hlow : low < rank name)
      (hheld : ∀ other, held other ≠ none → (rank other : WithBot ρ) ≤ low) :
      Take.Climbs rank ⟨held, access, name⟩ ∧
        ∀ other, Function.update held name (some access) other ≠ none → (rank other : WithBot ρ) ≤ rank name := by
    refine ⟨fun other hother => WithBot.coe_lt_coe.mp ((hheld other hother).trans_lt hlow), fun other hother => ?_⟩
    by_cases hname : other = name
    · rw [hname]
    · rw [Function.update_of_ne hname] at hother
      exact (hheld other hother).trans hlow.le
  induction h generalizing low with
  | skip | stop | brief | gather => simp
  | seq _ _ ihfirst ihsecond =>
      intro take htake
      rcases List.mem_append.mp htake with htake | htake
      · exact ihfirst hcode.1 hheld take htake
      · exact ihsecond hcode.2 hheld take htake
  | left _ ih => exact ih hcode.1 hheld
  | right _ ih => exact ih hcode.2 hheld
  | again _ _ ihbody ihloop =>
      intro take htake
      rcases List.mem_append.mp htake with htake | htake
      · exact ihbody hcode hheld take htake
      · exact ihloop hcode hheld take htake
  | holding _ ih =>
      obtain ⟨hclimbs, hbelow⟩ := htaken hcode.1 hheld
      exact List.forall_mem_cons.mpr ⟨hclimbs, ih hcode.2 hbelow⟩
  | granted _ ih | seized _ ih =>
      obtain ⟨hclimbs, hbelow⟩ := htaken hcode.1 hheld
      exact List.forall_mem_cons.mpr ⟨hclimbs, ih hcode.2.1 hbelow⟩
  | late _ ih | busy _ ih => exact ih hcode.2.2 hheld

end Code

end Concurrent.Waiting

namespace Concurrent.Prog

open Waiting

variable {σ ε α β ν : Type} (held : σ → ν → Option Access)

/-- Nothing but the program itself changes what it holds: each step begins with what the one before it left. -/
def Chained : (ν → Option Access) → List (σ × σ) → Prop
  | _, [] => True
  | now, (s, t) :: steps => held s = now ∧ Chained (held t) steps

/-- What is held after the steps. -/
def heldAfter (now : ν → Option Access) (steps : List (σ × σ)) : ν → Option Access :=
  steps.foldl (fun _ step => held step.2) now

variable {held} {now mid last : ν → Option Access}

theorem chained_append {first second : List (σ × σ)} :
    Chained held now (first ++ second) ↔ Chained held now first ∧ Chained held (heldAfter held now first) second := by
  induction first generalizing now with
  | nil => simp [Chained, heldAfter]
  | cons step first ih => simp [Chained, heldAfter, ih, and_assoc]

/-- What others do leaves alone what a thread of a pool holds. -/
theorem chained_own {pool stop : Pool σ ε α} {moves : List (Move σ)} (i : Nat) (run : pool.Run moves stop)
    (hothers : ∀ m ∈ moves, m.thread ≠ i → held m.after = held m.before) :
    Chained held (held pool.shared) (Pool.own i moves) ∧
      heldAfter held (held pool.shared) (Pool.own i moves) = held stop.shared := by
  induction run with
  | refl => exact ⟨trivial, rfl⟩
  | @snoc mid stop moves j e t run step ih =>
      obtain ⟨hchained, hafter⟩ := ih fun m hm => hothers m (List.mem_append_left _ hm)
      have hlast : stop.shared = t := by
        cases step
        rfl
      by_cases hj : j = i
      · subst hj
        rw [Pool.own_append, Pool.own_cons_self, chained_append, hafter]
        exact ⟨⟨hchained, rfl, trivial⟩, by simp [heldAfter, Pool.own, hlast]⟩
      · have hskip : Pool.own i (moves ++ [⟨j, mid.shared, t⟩]) = Pool.own i moves := by simp [Pool.own, hj]
        rw [hskip, hafter, hlast]
        exact ⟨hchained, (hothers _ (List.mem_append_right _ (List.mem_singleton_self _)) hj).symm⟩

variable [DecidableEq ν] (held)

/-- What the steps take: each takes one lock, or takes none and gives back any. -/
inductive Taking : (ν → Option Access) → List (σ × σ) → List (Take ν) → Prop
  | nil {now : ν → Option Access} : Taking now [] []
  | keep {now : ν → Option Access} {s t : σ} {steps : List (σ × σ)} {word : List (Take ν)}
      (less : ∀ name, held t name ≠ none → held t name = now name) (rest : Taking (held t) steps word) :
      Taking now ((s, t) :: steps) word
  | take {now : ν → Option Access} {s t : σ} {steps : List (σ × σ)} {word : List (Take ν)} {access : Access} {name : ν}
      (free : now name = none) (more : held t = Function.update now name (some access))
      (rest : Taking (held t) steps word) : Taking now ((s, t) :: steps) (⟨now, access, name⟩ :: word)

/-- The program begins with the locks `now`, takes what the code takes, and ends with the locks `last`. As long as it has not ended, it has taken the beginning of that. -/
structure Follows (now last : ν → Option Access) (code : Code ν) (p : Prog σ ε α) : Prop where
  begun : ∀ steps q, Path p steps q → Chained held now steps →
    ∃ word rest, Taking held now steps word ∧ code.Takes now (word ++ rest)
  ended : ∀ steps value, Path p steps (.done value) → Chained held now steps →
    ∃ word, Taking held now steps word ∧ heldAfter held now steps = last ∧ code.Takes now word

variable {held}

theorem Taking.append {first second : List (σ × σ)} {word rest : List (Take ν)} (h : Taking held now first word)
    (hrest : Taking held (heldAfter held now first) second rest) : Taking held now (first ++ second) (word ++ rest) := by
  induction h with
  | nil => exact hrest
  | keep less _ ih => exact .keep less (ih hrest)
  | take free more _ ih => exact .take free more (ih hrest)

/-- Steps that change nothing of what is held. -/
theorem Taking.still {steps : List (σ × σ)} (hsteps : ∀ step ∈ steps, held step.2 = held step.1)
    (chain : Chained held now steps) : Taking held now steps [] ∧ heldAfter held now steps = now := by
  induction steps generalizing now with
  | nil => exact ⟨.nil, rfl⟩
  | cons step steps ih =>
      obtain ⟨hstep, hsteps⟩ := List.forall_mem_cons.mp hsteps
      have hsame : held step.2 = now := hstep.trans chain.1
      obtain ⟨htaking, hafter⟩ := ih hsteps chain.2
      exact ⟨.keep (fun name _ => congrFun hsame name) htaking, hafter.trans hsame⟩

/-- A lock that is new after a step is one of those taken. -/
theorem Taking.take_of_new {steps : List (σ × σ)} {word : List (Take ν)} (h : Taking held now steps word)
    (chain : Chained held now steps) {s t : σ} (hstep : (s, t) ∈ steps) {name : ν} (hfree : held s name = none)
    (htaken : held t name ≠ none) : ∃ take ∈ word, take.held = held s ∧ take.name = name := by
  induction h with
  | nil => cases hstep
  | keep less _ ih =>
      obtain ⟨rfl, chain⟩ := chain
      rcases List.mem_cons.mp hstep with hstep | hstep
      · cases hstep
        exact absurd ((less name htaken).trans hfree) htaken
      · exact ih chain hstep
  | @take now u v steps word access taken free more _ ih =>
      obtain ⟨rfl, chain⟩ := chain
      rcases List.mem_cons.mp hstep with hstep | hstep
      · cases hstep
        refine ⟨_, List.mem_cons_self, rfl, ?_⟩
        by_contra hname
        rw [more, Function.update_of_ne (Ne.symm hname)] at htaken
        exact htaken hfree
      · obtain ⟨take, hmem, htake⟩ := ih chain hstep
        exact ⟨take, List.mem_cons_of_mem _ hmem, htake⟩

namespace Follows

variable {code first second : Code ν} {p : Prog σ ε α} {k : α → Prog σ ε β} {access : Access} {name : ν}

theorem weaken (h : Follows held now last first p) (himp : ∀ word, first.Takes now word → second.Takes now word) :
    Follows held now last second p where
  begun steps q path chain := by
    obtain ⟨word, rest, htaking, hword⟩ := h.begun steps q path chain
    exact ⟨word, rest, htaking, himp _ hword⟩
  ended steps value path chain := by
    obtain ⟨word, htaking, hafter, hword⟩ := h.ended steps value path chain
    exact ⟨word, htaking, hafter, himp _ hword⟩

/-- A program none of whose steps changes what is held. -/
theorem still (h : p.Within fun s t => held t = held s) (hcode : code.Takes now []) : Follows held now now code p where
  begun steps q path chain := ⟨[], [], (Taking.still (h.path path).1 chain).1, hcode⟩
  ended steps value path chain := by
    obtain ⟨htaking, hafter⟩ := Taking.still (h.path path).1 chain
    exact ⟨[], htaking, hafter, hcode⟩

theorem pure {value : α} (hcode : code.Takes now []) : Follows held now now code (Pure.pure value : Prog σ ε α) :=
  still (.pure value) hcode

theorem bind (h : Follows held now mid first p) (hk : ∀ a, Follows held mid last second (k a))
    (hcode : ∀ word rest, first.Takes now word → second.Takes mid rest → code.Takes now (word ++ rest)) :
    Follows held now last code (p >>= k) where
  begun steps q path chain := by
    rcases path.split_bind with ⟨left, hleft⟩ | ⟨before, a, after, rfl, hbefore, hafter⟩
    · obtain ⟨word, rest, htaking, hword⟩ := h.begun steps left hleft chain
      obtain ⟨others, hothers⟩ := second.exists_takes mid
      exact ⟨word, rest ++ others, htaking, by simpa using hcode _ _ hword hothers⟩
    · obtain ⟨chain, chain'⟩ := chained_append.mp chain
      obtain ⟨word, htaking, rfl, hword⟩ := h.ended before a hbefore chain
      obtain ⟨others, rest, hrest, hothers⟩ := (hk a).begun after q hafter chain'
      exact ⟨word ++ others, rest, htaking.append hrest, by simpa using hcode _ _ hword hothers⟩
  ended steps value path chain := by
    obtain ⟨before, a, after, rfl, hbefore, hafter⟩ := path.of_bind
    obtain ⟨chain, chain'⟩ := chained_append.mp chain
    obtain ⟨word, htaking, rfl, hword⟩ := h.ended before a hbefore chain
    obtain ⟨rest, hrest, rfl, hothers⟩ := (hk a).ended after value hafter chain'
    exact ⟨word ++ rest, htaking.append hrest, List.foldl_append, hcode _ _ hword hothers⟩

theorem seq (h : Follows held now now first p) (hk : ∀ a, Follows held now last second (k a)) :
    Follows held now last (.seq first second) (p >>= k) :=
  h.bind hk fun _ _ => .seq

theorem still_bind (h : p.Within fun s t => held t = held s) (hk : ∀ a, Follows held now last code (k a)) :
    Follows held now last code (p >>= k) :=
  (still h .skip).bind hk fun word rest hword hrest => by
    cases hword
    exact hrest

/-- What comes last takes nothing. -/
theorem ending (h : Follows held now mid code p) (hk : ∀ a, Follows held mid last .skip (k a)) :
    Follows held now last code (p >>= k) :=
  h.bind hk fun word rest hword hrest => by
    cases hrest
    rwa [List.append_nil]

/-- The code has a part in which nothing is taken. -/
theorem pass (hfirst : first.Takes now []) (h : Follows held now last second p) : Follows held now last (.seq first second) p :=
  h.weaken fun _ hword => hfirst.seq hword

theorem finish (hsecond : second.Takes now []) (h : Follows held now last first p) : Follows held now last (.seq first second) p :=
  h.weaken fun word hword => by simpa using hword.seq hsecond

theorem left (h : Follows held now last first p) : Follows held now last (.either first second) p := h.weaken fun _ => .left

theorem right (h : Follows held now last second p) : Follows held now last (.either first second) p := h.weaken fun _ => .right

/-- Once more around, or not even that. -/
theorem again {body : Code ν} (h : Follows held now now (.either body .skip) p)
    (hk : ∀ a, Follows held now last (.loop body) (k a)) : Follows held now last (.loop body) (p >>= k) :=
  h.bind hk fun word rest hword hloop => by
    cases hword with
    | left hbody => exact hbody.again hloop
    | right hskip =>
        cases hskip
        exact hloop

/-- A step takes a lock, or it takes none and gives back any. -/
theorem atomic {act : ε → σ → Option (α × σ)}
    (hact : ∀ e s a t, act e s = some (a, t) → held s = now → ∃ rest : Code ν, Follows held (held t) last rest (k a) ∧
      ((∀ name, held t name ≠ none → held t name = now name) ∧
          (∀ word, rest.Takes (held t) word → code.Takes now word) ∨
        ∃ access name, now name = none ∧ held t = Function.update now name (some access) ∧
          ∀ word, rest.Takes (held t) word → code.Takes now (⟨now, access, name⟩ :: word))) :
    Follows held now last code (Prog.atomic act >>= k) where
  begun steps q path chain := by
    cases path with
    | nil =>
        obtain ⟨word, hword⟩ := code.exists_takes now
        exact ⟨[], word, .nil, hword⟩
    | @cons _ _ _ e s t a _ _ taken path =>
        obtain ⟨rest, hrest, hstep⟩ := hact e s a t taken chain.1
        obtain ⟨word, others, htaking, hword⟩ := hrest.begun _ q path chain.2
        rcases hstep with ⟨hless, hcode⟩ | ⟨access, name, hfree, hmore, hcode⟩
        · exact ⟨word, others, .keep hless htaking, hcode _ hword⟩
        · exact ⟨_ :: word, others, .take hfree hmore htaking, hcode _ hword⟩
  ended steps value path chain := by
    cases path with
    | @cons _ _ _ e s t a _ _ taken path =>
        obtain ⟨rest, hrest, hstep⟩ := hact e s a t taken chain.1
        obtain ⟨word, htaking, hafter, hword⟩ := hrest.ended _ value path chain.2
        rcases hstep with ⟨hless, hcode⟩ | ⟨access, name, hfree, hmore, hcode⟩
        · exact ⟨word, .keep hless htaking, hafter, hcode _ hword⟩
        · exact ⟨_ :: word, .take hfree hmore htaking, hafter, hcode _ hword⟩

end Follows

end Concurrent.Prog

import Mathlib.Order.WithBot
import Mathlib.Data.Prod.Lex
import Mathlib.Data.List.Basic
import Mathlib.Logic.Relation
import Mathlib.Order.WellFounded
import Mathlib.Data.Fintype.Order
import Mathlib.Logic.Function.Basic

/-!
# Waiting for locks

The locking side of a program is a `Code`: which locks it takes, in what nesting, where it may give up and where it waits for tasks of its own. A `Net` runs any number of such programs. A lock lets its waiters in first come first served where it is fair, so a waiting writer holds up the readers behind it.

The programs are ordered by a rank if every lock is asked for above all the locks held at that point (`Code.Ordered`). Then no set of workers waits in a circle (`Sound.acyclic`), and as long as some worker is unfinished one of them can move (`Sound.progress`). Who is let in next plays no part in the argument, so it holds of any lock.
-/

namespace Concurrent.Waiting

inductive Access where
  | read
  | write
deriving DecidableEq

/-- What a program does with locks. -/
inductive Code (ν : Type) where
  | skip
  | seq (first second : Code ν)
  | either (left right : Code ν)
  | loop (body : Code ν)
  | holding (access : Access) (name : ν) (body : Code ν)
  /-- Ask with a deadline; `late` runs if it passes first. -/
  | holdingBy (access : Access) (name : ν) (body late : Code ν)
  /-- Take the lock only if that needs no waiting. -/
  | trying (access : Access) (name : ν) (body busy : Code ν)
  /-- Start any number of workers and wait until all are done. -/
  | gather (name : ν) (child : Code ν)

inductive Item (ν : Type) where
  | run (code : Code ν)
  | unlock (name : ν)
  | await (name : ν) (children : List Nat)

/-- A worker, with the gathering it was started for. -/
structure Worker (ν : Type) where
  crew : Option ν
  stack : List (Item ν)

structure Net (ν : Type) where
  workers : List (Worker ν)
  holders : ν → List (Nat × Access)
  /-- The waiters of each lock, in order of arrival. -/
  queue : ν → List Nat

variable {ν : Type}

def Net.empty : Net ν := ⟨[], fun _ => [], fun _ => []⟩

/-- The lock an item asks for and waits for, with what runs under it. -/
def Item.request : Item ν → Option (Access × ν × Code ν)
  | .run (.holding access name body) => some (access, name, body)
  | .run (.holdingBy access name body _) => some (access, name, body)
  | _ => none

/-- One writer, or any number of readers. -/
def Access.admits : Access → List (Nat × Access) → Bool
  | .write, holders => holders.isEmpty
  | .read, holders => holders.all fun holder => holder.2 = .read

/-- The moves of a program that touch no lock. -/
inductive Unfolds : Code ν → List (Item ν) → Prop
  | skip : Unfolds .skip []
  | seq (first second : Code ν) : Unfolds (.seq first second) [.run first, .run second]
  | left (left right : Code ν) : Unfolds (.either left right) [.run left]
  | right (left right : Code ν) : Unfolds (.either left right) [.run right]
  | stop (body : Code ν) : Unfolds (.loop body) []
  | again (body : Code ν) : Unfolds (.loop body) [.run body, .run (.loop body)]

namespace Net

def Done (net : Net ν) (i : Nat) : Prop := ∃ crew, net.workers[i]? = some ⟨crew, []⟩

def spawn (net : Net ν) (workers : List (Worker ν)) : Net ν :=
  { net with workers := net.workers ++ workers }

def put (net : Net ν) (i : Nat) (worker : Worker ν) : Net ν :=
  { net with workers := net.workers.set i worker }

section Locks

variable [DecidableEq ν]

def enqueue (net : Net ν) (name : ν) (i : Nat) : Net ν :=
  { net with queue := Function.update net.queue name (net.queue name ++ [i]) }

def leave (net : Net ν) (name : ν) (i : Nat) : Net ν :=
  { net with queue := Function.update net.queue name ((net.queue name).filter (· ≠ i)) }

def take (net : Net ν) (name : ν) (i : Nat) (access : Access) : Net ν :=
  { net with holders := Function.update net.holders name ((i, access) :: net.holders name) }

def release (net : Net ν) (name : ν) (i : Nat) : Net ν :=
  { net with holders := Function.update net.holders name ((net.holders name).filter (·.1 ≠ i)) }

/-- A lock that is asked for without waiting is free for it, and nobody is in line. -/
def Open (net : Net ν) (name : ν) (access : Access) : Prop :=
  access.admits (net.holders name) ∧ net.queue name = []

/-- One move of worker `i`. -/
inductive Turn (fair : ν → Prop) (net : Net ν) (i : Nat) : Net ν → Prop
  | compute {crew : Option ν} {code : Code ν} {items rest : List (Item ν)}
      (at_ : net.workers[i]? = some ⟨crew, .run code :: rest⟩) (unfolds : Unfolds code items) :
      Turn fair net i (net.put i ⟨crew, items ++ rest⟩)
  | ask {crew : Option ν} {item : Item ν} {rest : List (Item ν)} {access : Access} {name : ν} {body : Code ν}
      (at_ : net.workers[i]? = some ⟨crew, item :: rest⟩) (request : item.request = some (access, name, body))
      (new : i ∉ net.queue name) : Turn fair net i (net.enqueue name i)
  | enter {crew : Option ν} {item : Item ν} {rest : List (Item ν)} {access : Access} {name : ν} {body : Code ν}
      (at_ : net.workers[i]? = some ⟨crew, item :: rest⟩) (request : item.request = some (access, name, body))
      (queued : i ∈ net.queue name) (first : fair name → (net.queue name).head? = some i)
      (admitted : access.admits (net.holders name)) :
      Turn fair net i
        (((net.leave name i).take name i access).put i ⟨crew, .run body :: .unlock name :: rest⟩)
  | expire {crew : Option ν} {rest : List (Item ν)} {access : Access} {name : ν} {body late : Code ν}
      (at_ : net.workers[i]? = some ⟨crew, .run (.holdingBy access name body late) :: rest⟩)
      (queued : i ∈ net.queue name) :
      Turn fair net i ((net.leave name i).put i ⟨crew, .run late :: rest⟩)
  | seize {crew : Option ν} {rest : List (Item ν)} {access : Access} {name : ν} {body busy : Code ν}
      (at_ : net.workers[i]? = some ⟨crew, .run (.trying access name body busy) :: rest⟩)
      (free : net.Open name access) :
      Turn fair net i ((net.take name i access).put i ⟨crew, .run body :: .unlock name :: rest⟩)
  | pass {crew : Option ν} {rest : List (Item ν)} {access : Access} {name : ν} {body busy : Code ν}
      (at_ : net.workers[i]? = some ⟨crew, .run (.trying access name body busy) :: rest⟩)
      (taken : ¬ net.Open name access) : Turn fair net i (net.put i ⟨crew, .run busy :: rest⟩)
  | unlock {crew : Option ν} {rest : List (Item ν)} {name : ν}
      (at_ : net.workers[i]? = some ⟨crew, .unlock name :: rest⟩) :
      Turn fair net i ((net.release name i).put i ⟨crew, rest⟩)
  | gather {crew : Option ν} {rest : List (Item ν)} {name : ν} {child : Code ν} (count : Nat)
      (at_ : net.workers[i]? = some ⟨crew, .run (.gather name child) :: rest⟩) :
      Turn fair net i
        ((net.spawn (List.replicate count ⟨some name, [.run child]⟩)).put i
          ⟨crew, .await name (List.range' net.workers.length count) :: rest⟩)
  | join {crew : Option ν} {rest : List (Item ν)} {name : ν} {children : List Nat}
      (at_ : net.workers[i]? = some ⟨crew, .await name children :: rest⟩)
      (done : ∀ j ∈ children, net.Done j) : Turn fair net i (net.put i ⟨crew, rest⟩)

/-- A worker moves, or a further program is started. -/
inductive Step (fair : ν → Prop) (programs : Code ν → Prop) (net : Net ν) : Net ν → Prop
  | turn {i : Nat} {next : Net ν} (h : net.Turn fair i next) : Step fair programs net next
  | start {code : Code ν} (h : programs code) : Step fair programs net (net.spawn [⟨none, [.run code]⟩])

/-- The nets reached from one in which nothing has started. -/
def Reachable (fair : ν → Prop) (programs : Code ν → Prop) (net : Net ν) : Prop :=
  Relation.ReflTransGen (Step fair programs) Net.empty net

/-! ### Moves computed -/

/-- Worker `i` asks for a lock, or is let in. -/
def request (fair : ν → Prop) [DecidablePred fair] (net : Net ν) (i : Nat) (access : Access) (name : ν)
    (worker : Worker ν) : Option (Net ν) :=
  if i ∈ net.queue name then
    if (fair name → (net.queue name).head? = some i) ∧ access.admits (net.holders name) then
      some (((net.leave name i).take name i access).put i worker)
    else none
  else some (net.enqueue name i)

/-- One move of worker `i`, computed; `other` takes the second of two ways. Deadlines, attempts and gatherings are left out. -/
def advance (fair : ν → Prop) [DecidablePred fair] (net : Net ν) (i : Nat) (other : Bool) : Option (Net ν) :=
  match net.workers[i]? with
  | some ⟨crew, .run code :: rest⟩ =>
      match code with
      | .skip => some (net.put i ⟨crew, rest⟩)
      | .seq first second => some (net.put i ⟨crew, .run first :: .run second :: rest⟩)
      | .either left right => some (net.put i ⟨crew, .run (if other then right else left) :: rest⟩)
      | .loop body => some (net.put i ⟨crew, if other then rest else .run body :: .run (.loop body) :: rest⟩)
      | .holding access name body => net.request fair i access name ⟨crew, .run body :: .unlock name :: rest⟩
      | .holdingBy access name body _ => net.request fair i access name ⟨crew, .run body :: .unlock name :: rest⟩
      | .trying _ _ _ _ => none
      | .gather _ _ => none
  | some ⟨crew, .unlock name :: rest⟩ => some ((net.release name i).put i ⟨crew, rest⟩)
  | _ => none

variable {fair : ν → Prop} [DecidablePred fair] {net next : Net ν} {i : Nat}

theorem turn_of_request {crew : Option ν} {item : Item ν} {rest : List (Item ν)} {access : Access} {name : ν} {body : Code ν}
    (hat : net.workers[i]? = some ⟨crew, item :: rest⟩) (hrequest : item.request = some (access, name, body))
    (h : net.request fair i access name ⟨crew, .run body :: .unlock name :: rest⟩ = some next) : net.Turn fair i next := by
  unfold request at h
  split at h
  · rename_i hqueued
    split at h
    · rename_i hopen
      cases h
      exact .enter hat hrequest hqueued hopen.1 hopen.2
    · cases h
  · rename_i hnew
    cases h
    exact .ask hat hrequest hnew

theorem turn_of_advance {other : Bool} (h : net.advance fair i other = some next) : net.Turn fair i next := by
  unfold advance at h
  split at h
  · rename_i crew code rest hat
    cases code with
    | skip =>
        cases h
        exact .compute hat .skip
    | seq first second =>
        cases h
        exact .compute hat (.seq first second)
    | either left right =>
        cases h
        cases other
        · exact .compute hat (.left left right)
        · exact .compute hat (.right left right)
    | loop body =>
        cases h
        cases other
        · exact .compute hat (.again body)
        · exact .compute hat (.stop body)
    | holding access name body => exact turn_of_request hat rfl h
    | holdingBy access name body late => exact turn_of_request hat rfl h
    | trying access name body busy => cases h
    | gather name child => cases h
  · rename_i crew name rest hat
    cases h
    exact .unlock hat
  · cases h

/-- Many moves, each with the way it takes. -/
def advanceAll (fair : ν → Prop) [DecidablePred fair] (net : Net ν) : List (Nat × Bool) → Option (Net ν)
  | [] => some net
  | (i, other) :: moves => (net.advance fair i other).bind fun next => next.advanceAll fair moves

theorem reachable_advanceAll {programs : Code ν → Prop} {moves : List (Nat × Bool)}
    (hnet : net.Reachable fair programs) (h : net.advanceAll fair moves = some next) : next.Reachable fair programs := by
  induction moves generalizing net with
  | nil =>
      cases h
      exact hnet
  | cons move moves ih =>
      obtain ⟨mid, hmove, hmoves⟩ := Option.bind_eq_some_iff.mp h
      exact ih (hnet.tail (.turn (turn_of_advance hmove))) hmoves

end Locks

/-- Worker `i` cannot go on before worker `j` does something. -/
inductive WaitsFor (net : Net ν) (i j : Nat) : Prop
  | holder {name : ν} {access : Access} (queued : i ∈ net.queue name)
      (holds : (j, access) ∈ net.holders name)
  | ahead {name : ν} (queued : i ∈ net.queue name)
      (ahead : (net.queue name).idxOf j < (net.queue name).idxOf i)
  | child {crew : Option ν} {name : ν} {children : List Nat} {rest : List (Item ν)}
      (at_ : net.workers[i]? = some ⟨crew, .await name children :: rest⟩) (child : j ∈ children)
      (unfinished : ¬ net.Done j)

end Net

/-- An unfinished worker can move unless it waits for another. -/
theorem Net.turn_or_waits [DecidableEq ν] {fair : ν → Prop} {net : Net ν} {i : Nat} (hi : i < net.workers.length) (hunfinished : ¬ net.Done i) :
    (∃ next, net.Turn fair i next) ∨ ∃ j, net.WaitsFor i j := by
  obtain ⟨crew, stack, hat⟩ : ∃ crew stack, net.workers[i]? = some ⟨crew, stack⟩ :=
    ⟨_, _, List.getElem?_eq_getElem hi⟩
  cases stack with
  | nil => exact absurd ⟨crew, hat⟩ hunfinished
  | cons item rest =>
      cases hrequest : item.request with
      | some request =>
          obtain ⟨access, name, body⟩ := request
          by_cases hqueued : i ∈ net.queue name
          · rcases hholders : net.holders name with _ | ⟨⟨j, held⟩, others⟩
            · rcases hqueue : net.queue name with _ | ⟨j, line⟩
              · simp [hqueue] at hqueued
              · by_cases hj : j = i
                · subst hj
                  exact .inl ⟨_, .enter hat hrequest hqueued (fun _ => by rw [hqueue]; rfl)
                    (by rw [hholders]; cases access <;> rfl)⟩
                · refine .inr ⟨j, .ahead hqueued ?_⟩
                  rw [hqueue, List.idxOf_cons_self, List.idxOf_cons_ne _ hj]
                  exact Nat.succ_pos _
            · exact .inr ⟨j, @Net.WaitsFor.holder _ _ _ _ name held hqueued (by rw [hholders]; exact List.mem_cons_self)⟩
          · exact .inl ⟨_, .ask hat hrequest hqueued⟩
      | none =>
          cases item with
          | unlock name => exact .inl ⟨_, .unlock hat⟩
          | await name children =>
              by_cases hdone : ∀ j ∈ children, net.Done j
              · exact .inl ⟨_, .join hat hdone⟩
              · push Not at hdone
                obtain ⟨j, hchild, hj⟩ := hdone
                exact .inr ⟨j, .child hat hchild hj⟩
          | run code =>
              cases code with
              | skip => exact .inl ⟨_, .compute hat .skip⟩
              | seq first second => exact .inl ⟨_, .compute hat (.seq first second)⟩
              | either left right => exact .inl ⟨_, .compute hat (.left left right)⟩
              | loop body => exact .inl ⟨_, .compute hat (.stop body)⟩
              | holding access name body => simp [Item.request] at hrequest
              | holdingBy access name body late => simp [Item.request] at hrequest
              | trying access name body busy =>
                  by_cases hopen : net.Open name access
                  · exact .inl ⟨_, .seize hat hopen⟩
                  · exact .inl ⟨_, .pass hat hopen⟩
              | gather name child => exact .inl ⟨_, .gather 0 hat⟩

/-! ### Programs in rank order -/

section Rank

variable {ρ : Type} [LinearOrder ρ] (rank : ν → ρ)

/-- Every lock is asked for above `low`, and what runs under it asks above that lock. -/
def Code.Ordered : WithBot ρ → Code ν → Prop
  | _, .skip => True
  | low, .seq first second => first.Ordered low ∧ second.Ordered low
  | low, .either left right => left.Ordered low ∧ right.Ordered low
  | low, .loop body => body.Ordered low
  | low, .holding _ name body => low < rank name ∧ body.Ordered (rank name)
  | low, .holdingBy _ name body late => low < rank name ∧ body.Ordered (rank name) ∧ late.Ordered low
  | low, .trying _ name body busy => low < rank name ∧ body.Ordered (rank name) ∧ busy.Ordered low
  | low, .gather name child => low < rank name ∧ child.Ordered (rank name)

/-- The highest rank a worker holds, its own gathering counted, when the stack is all it has left. -/
def level (crew : Option ν) : List (Item ν) → WithBot ρ
  | [] => crew.elim ⊥ fun name => rank name
  | .unlock name :: _ => rank name
  | _ :: rest => level crew rest

def Item.Fits (low : WithBot ρ) : Item ν → Prop
  | .run code => code.Ordered rank low
  | .unlock name => low < rank name
  | .await name _ => low < rank name

def Stacked (crew : Option ν) : List (Item ν) → Prop
  | [] => True
  | item :: rest => item.Fits rank (level rank crew rest) ∧ Stacked crew rest

variable {rank} {crew : Option ν} {rest items : List (Item ν)} {item : Item ν} {name other : ν}
  {access : Access} {body : Code ν}

/-- Everything a worker holds ranks at most its level. -/
theorem Stacked.unlock_le (h : Stacked rank crew items) (hmem : .unlock name ∈ items) :
    (rank name : WithBot ρ) ≤ level rank crew items := by
  induction items with
  | nil => simp at hmem
  | cons item rest ih =>
      rcases List.mem_cons.mp hmem with rfl | hmem
      · exact le_refl _
      · have hle := ih h.2 hmem
        cases item with
        | unlock other => exact (hle.trans_lt h.1).le
        | run code => exact hle
        | await other children => exact hle

/-- So does the gathering it belongs to. -/
theorem Stacked.crew_le (h : Stacked rank (some name) items) :
    (rank name : WithBot ρ) ≤ level rank (some name) items := by
  induction items with
  | nil => exact le_refl _
  | cons item rest ih =>
      have hle := ih h.2
      cases item with
      | unlock other => exact (hle.trans_lt h.1).le
      | run code => exact hle
      | await other children => exact hle

/-- What is asked for ranks above what is held. -/
theorem Stacked.request_lt (h : Stacked rank crew (item :: rest)) (hrequest : item.request = some (access, name, body)) :
    level rank crew rest < rank name ∧ body.Ordered rank (rank name) := by
  obtain ⟨hfits, _⟩ := h
  unfold Item.request at hrequest
  split at hrequest <;> cases hrequest
  · exact hfits
  · exact ⟨hfits.1, hfits.2.1⟩

theorem Stacked.unfold {code : Code ν} (h : Stacked rank crew (.run code :: rest)) (hunfold : Unfolds code items) :
    Stacked rank crew (items ++ rest) := by
  obtain ⟨hfits, hrest⟩ := h
  cases hunfold with
  | skip => exact hrest
  | seq first second => exact ⟨hfits.1, hfits.2, hrest⟩
  | left left right => exact ⟨hfits.1, hrest⟩
  | right left right => exact ⟨hfits.2, hrest⟩
  | stop body => exact hrest
  | again body => exact ⟨hfits, hfits, hrest⟩

/-! ### What every move keeps -/

/-- What is held, waited for and gathered is on the stacks, and every stack is in rank order. -/
structure Sound (rank : ν → ρ) (net : Net ν) : Prop where
  stacked : ∀ (i : Nat) (worker : Worker ν), net.workers[i]? = some worker → Stacked rank worker.crew worker.stack
  holds : ∀ name i access, (i, access) ∈ net.holders name →
    ∃ worker, net.workers[i]? = some worker ∧ .unlock name ∈ worker.stack
  queued : ∀ name i, i ∈ net.queue name → ∃ crew item rest access body,
    net.workers[i]? = some ⟨crew, item :: rest⟩ ∧ item.request = some (access, name, body)
  crews : ∀ (i : Nat) (worker : Worker ν), net.workers[i]? = some worker → ∀ name children,
    .await name children ∈ worker.stack → ∀ j ∈ children, ∃ child, net.workers[j]? = some child ∧ child.crew = some name

namespace Sound

variable {net : Net ν} {i j : Nat}

theorem spawn (h : Sound rank net) {workers : List (Worker ν)}
    (hstacked : ∀ worker ∈ workers, Stacked rank worker.crew worker.stack)
    (hnew : ∀ worker ∈ workers, ∃ crew code, worker = ⟨crew, [.run code]⟩) :
    Sound rank (net.spawn workers) := by
  have hold : ∀ (j : Nat) worker, net.workers[j]? = some worker → (net.spawn workers).workers[j]? = some worker := by
    intro j worker hj
    exact List.getElem?_append_left (List.getElem?_eq_some_iff.mp hj).1 ▸ hj
  have hcase : ∀ (j : Nat) worker, (net.spawn workers).workers[j]? = some worker →
      net.workers[j]? = some worker ∨ worker ∈ workers := by
    intro j worker hj
    simp only [Net.spawn, List.getElem?_append] at hj
    split at hj
    · exact .inl hj
    · exact .inr (List.mem_of_getElem? hj)
  constructor
  · intro j worker hj
    rcases hcase j worker hj with hj | hj
    · exact h.stacked j worker hj
    · exact hstacked worker hj
  · intro name j access hj
    obtain ⟨worker, hworker, hmem⟩ := h.holds name j access hj
    exact ⟨worker, hold j worker hworker, hmem⟩
  · intro name j hj
    obtain ⟨crew, item, rest, access, body, hworker, hrequest⟩ := h.queued name j hj
    exact ⟨crew, item, rest, access, body, hold j _ hworker, hrequest⟩
  · intro j worker hj name children hmem k hk
    rcases hcase j worker hj with hj | hj
    · obtain ⟨child, hchild, hcrew⟩ := h.crews j worker hj name children hmem k hk
      exact ⟨child, hold k child hchild, hcrew⟩
    · obtain ⟨crew, code, rfl⟩ := hnew worker hj
      simp at hmem

/-- A worker that no longer waits gets a new stack. -/
theorem put {locks : Net ν} (h : Sound rank net) (hworkers : locks.workers = net.workers)
    (hat : net.workers[i]? = some ⟨crew, items⟩) (hstacked : Stacked rank crew rest)
    (hholders : ∀ name j access, (j, access) ∈ locks.holders name →
      (j ≠ i ∧ (j, access) ∈ net.holders name) ∨ (j = i ∧ .unlock name ∈ rest))
    (hqueue : ∀ name j, j ∈ locks.queue name → j ≠ i ∧ j ∈ net.queue name)
    (hawait : ∀ name children, .await name children ∈ rest → .await name children ∈ items ∨
      ∀ j ∈ children, ∃ child, net.workers[j]? = some child ∧ child.crew = some name) :
    Sound rank (locks.put i ⟨crew, rest⟩) := by
  have hself : (locks.put i ⟨crew, rest⟩).workers[i]? = some ⟨crew, rest⟩ := by
    rw [Net.put, hworkers, List.getElem?_set_self (List.getElem?_eq_some_iff.mp hat).1]
  have hother : ∀ (j : Nat), j ≠ i → (locks.put i ⟨crew, rest⟩).workers[j]? = net.workers[j]? := by
    intro j hj
    rw [Net.put, hworkers, List.getElem?_set_ne (Ne.symm hj)]
  have hcrew : ∀ (j : Nat) name, (∃ child, net.workers[j]? = some child ∧ child.crew = some name) →
      ∃ child, (locks.put i ⟨crew, rest⟩).workers[j]? = some child ∧ child.crew = some name := by
    rintro j name ⟨child, hchild, hname⟩
    by_cases hj : j = i
    · subst hj
      rw [hat] at hchild
      cases hchild
      exact ⟨_, hself, hname⟩
    · exact ⟨child, by rw [hother j hj, hchild], hname⟩
  constructor
  · intro j worker hj
    by_cases hji : j = i
    · subst hji
      rw [hself] at hj
      cases hj
      exact hstacked
    · rw [hother j hji] at hj
      exact h.stacked j worker hj
  · intro name j access hj
    rcases hholders name j access hj with ⟨hji, hj⟩ | ⟨rfl, hmem⟩
    · obtain ⟨worker, hworker, hmem⟩ := h.holds name j access hj
      exact ⟨worker, by rw [hother j hji, hworker], hmem⟩
    · exact ⟨_, hself, hmem⟩
  · intro name j hj
    obtain ⟨hji, hj⟩ := hqueue name j hj
    obtain ⟨crew, item, rest, access, body, hworker, hrequest⟩ := h.queued name j hj
    exact ⟨crew, item, rest, access, body, by rw [hother j hji, hworker], hrequest⟩
  · intro j worker hj name children hmem k hk
    apply hcrew
    by_cases hji : j = i
    · subst hji
      rw [hself] at hj
      cases hj
      rcases hawait name children hmem with hmem | hchildren
      · exact h.crews j _ hat name children hmem k hk
      · exact hchildren k hk
    · rw [hother j hji] at hj
      exact h.crews j worker hj name children hmem k hk

/-- The worker at the head of whose stack something else stands waits in no line. -/
theorem not_queued (h : Sound rank net) (hat : net.workers[i]? = some ⟨crew, item :: rest⟩)
    (hrequest : ∀ access body, item.request ≠ some (access, name, body)) : i ∉ net.queue name := by
  intro hi
  obtain ⟨crew, item, rest, access, body, hworker, hasked⟩ := h.queued name i hi
  rw [hat] at hworker
  cases hworker
  exact hrequest access body hasked

/-- Of the locks a worker holds, those it keeps are still on its stack. -/
theorem keeps (h : Sound rank net) (hat : net.workers[i]? = some ⟨crew, items⟩)
    (hkeep : .unlock name ∈ items → .unlock name ∈ rest) (hj : (j, access) ∈ net.holders name) :
    (j ≠ i ∧ (j, access) ∈ net.holders name) ∨ (j = i ∧ .unlock name ∈ rest) := by
  by_cases hji : j = i
  · subst hji
    obtain ⟨worker, hworker, hmem⟩ := h.holds name j access hj
    rw [hat] at hworker
    cases hworker
    exact .inr ⟨rfl, hkeep hmem⟩
  · exact .inl ⟨hji, hj⟩

theorem idle (h : Sound rank net) (hat : net.workers[i]? = some ⟨crew, item :: rest⟩)
    (hrequest : item.request = none) (name : ν) (j : Nat) (hj : j ∈ net.queue name) :
    j ≠ i ∧ j ∈ net.queue name := by
  refine ⟨?_, hj⟩
  rintro rfl
  exact h.not_queued hat (by simp [hrequest]) hj

variable [DecidableEq ν] {fair : ν → Prop} {programs : Code ν → Prop} {next : Net ν}

/-- A granted lock joins those on the stack. -/
theorem takes (h : Sound rank net) (hat : net.workers[i]? = some ⟨crew, items⟩)
    (hkeep : ∀ name, .unlock name ∈ items → .unlock name ∈ rest) (hnew : .unlock name ∈ rest)
    (other : ν) (j : Nat) (asked : Access) (hj : (j, asked) ∈ (net.take name i access).holders other) :
    (j ≠ i ∧ (j, asked) ∈ net.holders other) ∨ (j = i ∧ .unlock other ∈ rest) := by
  by_cases ho : other = name
  · subst ho
    simp only [Net.take, Function.update_self, List.mem_cons, Prod.mk.injEq] at hj
    rcases hj with ⟨rfl, rfl⟩ | hj
    · exact .inr ⟨rfl, hnew⟩
    · exact h.keeps hat (hkeep other) hj
  · simp only [Net.take, Function.update_of_ne ho] at hj
    exact h.keeps hat (hkeep other) hj

/-- Out of the line it stood in, a worker stands in none. -/
theorem leaves (h : Sound rank net) (hat : net.workers[i]? = some ⟨crew, item :: rest⟩)
    (hrequest : item.request = some (access, name, body)) (other : ν) (j : Nat)
    (hj : j ∈ (net.leave name i).queue other) : j ≠ i ∧ j ∈ net.queue other := by
  by_cases ho : other = name
  · subst ho
    simp only [Net.leave, Function.update_self, List.mem_filter, decide_eq_true_eq] at hj
    exact ⟨hj.2, hj.1⟩
  · simp only [Net.leave, Function.update_of_ne ho] at hj
    refine ⟨?_, hj⟩
    rintro rfl
    refine h.not_queued hat ?_ hj
    intro asked other_body heq
    rw [hrequest] at heq
    cases heq
    exact ho rfl

theorem turn (h : Sound rank net) (hturn : net.Turn fair i next) : Sound rank next := by
  cases hturn with
  | @compute crew code items rest hat hunfold =>
      have hrequest : (Item.run code).request = none := by
        cases hunfold <;> rfl
      have hafter : ∀ name children, .await name children ∈ items ++ rest → .await name children ∈ rest := by
        intro name children hmem
        cases hunfold <;> simpa using hmem
      refine h.put rfl hat ((h.stacked i _ hat).unfold hunfold) ?_ (h.idle hat hrequest) ?_
      · intro name j access
        exact h.keeps hat fun hmem => List.mem_append_right _ (by simpa using hmem)
      · intro name children hmem
        exact .inl (List.mem_cons_of_mem _ (hafter name children hmem))
  | @ask crew item rest access name body hat hrequest hnew =>
      refine ⟨h.stacked, h.holds, ?_, h.crews⟩
      intro other j hj
      by_cases hqueued : j ∈ net.queue other
      · exact h.queued other j hqueued
      · by_cases ho : other = name
        · subst ho
          simp only [Net.enqueue, Function.update_self, List.mem_append, List.mem_singleton] at hj
          obtain rfl := hj.resolve_left hqueued
          exact ⟨crew, item, rest, access, body, hat, hrequest⟩
        · simp only [Net.enqueue, Function.update_of_ne ho] at hj
          exact absurd hj hqueued
  | @enter crew item rest access name body hat hrequest hqueued hfirst hadmitted =>
      obtain ⟨hlt, hbody⟩ := (h.stacked i _ hat).request_lt hrequest
      have hitem : ∀ other, item ≠ .unlock other := by
        rintro other rfl
        cases hrequest
      refine h.put rfl hat ⟨hbody, hlt, (h.stacked i _ hat).2⟩ ?_ (h.leaves hat hrequest) ?_
      · refine h.takes hat ?_ (by simp)
        intro other hmem
        have := (List.mem_cons.mp hmem).resolve_left (fun heq => hitem other heq.symm)
        simp [this]
      · intro other children hmem
        simp only [List.mem_cons, reduceCtorEq, false_or] at hmem
        exact .inl (List.mem_cons_of_mem _ hmem)
  | @expire crew rest access name body late hat hqueued =>
      have hstacked := h.stacked i _ hat
      refine h.put rfl hat ⟨hstacked.1.2.2, hstacked.2⟩ ?_ (h.leaves hat rfl) ?_
      · intro other j access
        exact h.keeps hat fun hmem => by simpa using hmem
      · intro other children hmem
        exact .inl (by simpa using hmem)
  | @seize crew rest access name body busy hat hfree =>
      have hstacked := h.stacked i _ hat
      refine h.put rfl hat ⟨hstacked.1.2.1, hstacked.1.1, hstacked.2⟩ ?_ (h.idle hat rfl) ?_
      · refine h.takes hat ?_ (by simp)
        intro other hmem
        simpa using Or.inr hmem
      · intro other children hmem
        exact .inl (by simpa using hmem)
  | @pass crew rest access name body busy hat htaken =>
      have hstacked := h.stacked i _ hat
      refine h.put rfl hat ⟨hstacked.1.2.2, hstacked.2⟩ ?_ (h.idle hat rfl) ?_
      · intro other j access
        exact h.keeps hat fun hmem => by simpa using hmem
      · intro other children hmem
        exact .inl (by simpa using hmem)
  | @unlock crew rest name hat =>
      refine h.put rfl hat (h.stacked i _ hat).2 ?_ (h.idle hat rfl) ?_
      · intro other j access hj
        by_cases ho : other = name
        · subst ho
          simp only [Net.release, Function.update_self, List.mem_filter, decide_eq_true_eq] at hj
          exact .inl ⟨hj.2, hj.1⟩
        · simp only [Net.release, Function.update_of_ne ho] at hj
          exact h.keeps hat (fun hmem => by simpa [ho] using hmem) hj
      · intro other children hmem
        exact .inl (List.mem_cons_of_mem _ hmem)
  | @gather crew rest name child count hat =>
      have hstacked := h.stacked i _ hat
      have hspawned : Sound rank (net.spawn (List.replicate count ⟨some name, [.run child]⟩)) := by
        apply h.spawn
        · intro worker hworker
          rw [List.eq_of_mem_replicate hworker]
          exact ⟨hstacked.1.2, trivial⟩
        · intro worker hworker
          exact ⟨_, _, List.eq_of_mem_replicate hworker⟩
      have hat' : (net.spawn (List.replicate count ⟨some name, [.run child]⟩)).workers[i]? = some ⟨crew, _⟩ :=
        (List.getElem?_append_left (List.getElem?_eq_some_iff.mp hat).1).trans hat
      refine hspawned.put rfl hat' ⟨hstacked.1.1, hstacked.2⟩ ?_ (hspawned.idle hat' rfl) ?_
      · intro other j access
        exact hspawned.keeps hat' fun hmem => by simpa using hmem
      · intro other children hmem
        rcases List.mem_cons.mp hmem with heq | hmem
        · cases heq
          right
          intro j hj
          obtain ⟨k, hk, rfl⟩ := List.mem_range'.mp hj
          refine ⟨⟨some name, [.run child]⟩, ?_, rfl⟩
          simp [Net.spawn, hk]
        · exact .inl (List.mem_cons_of_mem _ hmem)
  | @join crew rest name children hat hdone =>
      refine h.put rfl hat (h.stacked i _ hat).2 ?_ (h.idle hat rfl) ?_
      · intro other j access
        exact h.keeps hat fun hmem => by simpa using hmem
      · intro other grandchildren hmem
        exact .inl (List.mem_cons_of_mem _ hmem)

theorem reachable (hprograms : ∀ code, programs code → code.Ordered rank ⊥)
    (hreach : Net.Reachable fair programs net) : Sound rank net := by
  induction hreach with
  | refl => exact ⟨by simp [Net.empty], by simp [Net.empty], by simp [Net.empty], by simp [Net.empty]⟩
  | tail _ step ih =>
      cases step with
      | turn hturn => exact ih.turn hturn
      | start hcode =>
          apply ih.spawn
          · intro worker hworker
            rw [List.mem_singleton.mp hworker]
            exact ⟨hprograms _ hcode, trivial⟩
          · intro worker hworker
            exact ⟨_, _, List.mem_singleton.mp hworker⟩

end Sound

/-! ### Nobody waits in a circle -/

/-- Where a waiting worker stands: the rank it waits at, and its place in the line. -/
inductive Stands (rank : ν → ρ) (net : Net ν) (i : Nat) : ρ ×ₗ ℕᵒᵈ → Prop
  | line {name : ν} (queued : i ∈ net.queue name) :
      Stands rank net i (toLex (rank name, OrderDual.toDual ((net.queue name).idxOf i)))
  | gathering {crew : Option ν} {name : ν} {children : List Nat} {rest : List (Item ν)}
      (at_ : net.workers[i]? = some ⟨crew, .await name children :: rest⟩) :
      Stands rank net i (toLex (rank name, OrderDual.toDual 0))

namespace Sound

variable {net : Net ν} {i j : Nat} {place last : ρ ×ₗ ℕᵒᵈ}

theorem queue_unique (h : Sound rank net) (hname : i ∈ net.queue name) (hother : i ∈ net.queue other) :
    name = other := by
  obtain ⟨crew, item, rest, access, body, hworker, hrequest⟩ := h.queued name i hname
  obtain ⟨_, _, _, _, _, hworker', hrequest'⟩ := h.queued other i hother
  rw [hworker] at hworker'
  cases hworker'
  rw [hrequest] at hrequest'
  cases hrequest'
  rfl

theorem stands_unique (h : Sound rank net) (hplace : Stands rank net i place) (hlast : Stands rank net i last) :
    place = last := by
  cases hplace with
  | line hname =>
      cases hlast with
      | line hother => rw [h.queue_unique hname hother]
      | gathering hat => exact absurd hname (h.not_queued hat (by simp [Item.request]))
  | gathering hat =>
      cases hlast with
      | line hother => exact absurd hother (h.not_queued hat (by simp [Item.request]))
      | gathering hat' =>
          rw [hat] at hat'
          cases hat'
          rfl

/-- A worker that waits has asked for something above everything it holds or belongs to. -/
theorem stands_at (h : Sound rank net) (hplace : Stands rank net j place) :
    ∃ crew item rest, net.workers[j]? = some ⟨crew, item :: rest⟩ ∧ (∀ name, item ≠ .unlock name) ∧
      level rank crew rest < ((ofLex place).1 : WithBot ρ) := by
  cases hplace with
  | line hqueued =>
      obtain ⟨crew, item, rest, access, body, hworker, hrequest⟩ := h.queued _ j hqueued
      refine ⟨crew, item, rest, hworker, ?_, ((h.stacked j _ hworker).request_lt hrequest).1⟩
      rintro name rfl
      cases hrequest
  | gathering hat => exact ⟨_, _, _, hat, by simp, (h.stacked j _ hat).1⟩

theorem above (h : Sound rank net) (hplace : Stands rank net j place) {worker : Worker ν}
    (hworker : net.workers[j]? = some worker) (hunder : .unlock name ∈ worker.stack ∨ worker.crew = some name) :
    rank name < (ofLex place).1 := by
  obtain ⟨crew, item, rest, hat, hitem, hlt⟩ := h.stands_at hplace
  rw [hat] at hworker
  cases hworker
  have hrest := (h.stacked j _ hat).2
  apply WithBot.coe_lt_coe.mp
  rcases hunder with hmem | hcrew
  · have hmem := (List.mem_cons.mp hmem).resolve_left (fun heq => hitem name heq.symm)
    exact (hrest.unlock_le hmem).trans_lt hlt
  · obtain rfl : crew = some name := hcrew
    exact hrest.crew_le.trans_lt hlt

/-- Who is waited for stands further on: at a higher rank, or nearer the head of the same line. -/
theorem waitsFor_lt (h : Sound rank net) (hwaits : net.WaitsFor i j) (hlast : Stands rank net j last) :
    ∃ place, Stands rank net i place ∧ place < last := by
  cases hwaits with
  | @holder name access hqueued hholds =>
      obtain ⟨worker, hworker, hmem⟩ := h.holds name j access hholds
      exact ⟨_, .line hqueued, Prod.Lex.toLex_lt_toLex.mpr (.inl (h.above hlast hworker (.inl hmem)))⟩
  | @ahead name hqueued hahead =>
      have hj : j ∈ net.queue name := List.idxOf_lt_length_iff.mp (hahead.trans (List.idxOf_lt_length_iff.mpr hqueued))
      rw [h.stands_unique hlast (.line hj)]
      exact ⟨_, .line hqueued, Prod.Lex.toLex_lt_toLex.mpr (.inr ⟨rfl, hahead⟩)⟩
  | @child crew name children rest hat hchild hunfinished =>
      obtain ⟨worker, hworker, hcrew⟩ := h.crews i _ hat name children List.mem_cons_self j hchild
      exact ⟨_, .gathering hat, Prod.Lex.toLex_lt_toLex.mpr (.inl (h.above hlast hworker (.inr hcrew)))⟩

/-- No worker waits, through any number of others, for itself. -/
theorem acyclic (h : Sound rank net) (i : Nat) : ¬ Relation.TransGen net.WaitsFor i i := by
  intro hcycle
  have hchain : ∀ j, Relation.TransGen net.WaitsFor i j → ∀ last, Stands rank net j last →
      ∃ place, Stands rank net i place ∧ place < last := by
    intro j hj
    induction hj with
    | single hwaits => exact fun last hlast => h.waitsFor_lt hwaits hlast
    | tail _ hwaits ih =>
        intro last hlast
        obtain ⟨mid, hmid, hlt⟩ := h.waitsFor_lt hwaits hlast
        obtain ⟨place, hplace, hlt'⟩ := ih mid hmid
        exact ⟨place, hplace, hlt'.trans hlt⟩
  have hstands : ∃ place, Stands rank net i place := by
    obtain ⟨j, hwaits, _⟩ := Relation.TransGen.head'_iff.mp hcycle
    cases hwaits with
    | holder hqueued _ => exact ⟨_, .line hqueued⟩
    | ahead hqueued _ => exact ⟨_, .line hqueued⟩
    | child hat _ _ => exact ⟨_, .gathering hat⟩
  obtain ⟨last, hlast⟩ := hstands
  obtain ⟨place, hplace, hlt⟩ := hchain i hcycle last hlast
  rw [h.stands_unique hplace hlast] at hlt
  exact lt_irrefl _ hlt

/-! ### Somebody can always move -/

/-- Whoever is waited for is unfinished. -/
theorem unfinished_of_waitsFor (h : Sound rank net) (hwaits : net.WaitsFor i j) : j < net.workers.length ∧ ¬ net.Done j := by
  have hstack : ∀ {crew : Option ν} {item : Item ν} {rest : List (Item ν)},
      net.workers[j]? = some ⟨crew, item :: rest⟩ → j < net.workers.length ∧ ¬ net.Done j := by
    intro crew item rest hat
    refine ⟨(List.getElem?_eq_some_iff.mp hat).1, ?_⟩
    rintro ⟨crew, hdone⟩
    rw [hat] at hdone
    cases hdone
  cases hwaits with
  | @holder name access _ hholds =>
      obtain ⟨⟨crew, stack⟩, hworker, hmem⟩ := h.holds name j access hholds
      cases stack with
      | nil => simp at hmem
      | cons item rest => exact hstack hworker
  | @ahead name hqueued hahead =>
      have hj : j ∈ net.queue name := List.idxOf_lt_length_iff.mp (hahead.trans (List.idxOf_lt_length_iff.mpr hqueued))
      obtain ⟨crew, item, rest, access, body, hworker, _⟩ := h.queued name j hj
      exact hstack hworker
  | @child crew name children rest hat hchild hunfinished =>
      obtain ⟨worker, hworker, _⟩ := h.crews i _ hat name children List.mem_cons_self j hchild
      exact ⟨(List.getElem?_eq_some_iff.mp hworker).1, hunfinished⟩

variable [DecidableEq ν] {fair : ν → Prop}

/-- While anybody is unfinished, somebody can move. -/
theorem progress (h : Sound rank net) (hi : i < net.workers.length) (hunfinished : ¬ net.Done i) :
    ∃ j next, net.Turn fair j next := by
  by_contra hstuck
  push Not at hstuck
  -- Everybody unfinished waits for somebody unfinished, which finitely many workers can only do in a circle.
  let Later (j k : Fin net.workers.length) : Prop := Relation.TransGen net.WaitsFor k j
  have hirrefl : Std.Irrefl Later := ⟨fun j => h.acyclic j⟩
  have htrans : IsTrans _ Later := ⟨fun j k l hjk hkl => hkl.trans hjk⟩
  have hwf : WellFounded Later := Finite.wellFounded_of_trans_of_irrefl Later
  obtain ⟨j, hj, hlast⟩ := hwf.has_min { j | ¬ net.Done j } ⟨⟨i, hi⟩, hunfinished⟩
  rcases @Net.turn_or_waits _ _ fair _ _ j.isLt hj with ⟨next, hturn⟩ | ⟨k, hwaits⟩
  · exact hstuck j next hturn
  · obtain ⟨hk, hunfinished⟩ := h.unfinished_of_waitsFor hwaits
    exact hlast ⟨k, hk⟩ hunfinished (.single hwaits)

end Sound

end Rank

end Concurrent.Waiting

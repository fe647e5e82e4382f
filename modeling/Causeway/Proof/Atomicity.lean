import Causeway.Proof.Daemon
import Causeway.Proof.Deposits
import Causeway.Proof.Mutations

/-!
# Atomicity of subscription mutations

The stories of all tasks of the daemon put together. Whoever holds the transaction mutex is alone with everything that belongs to mutations, so what a mutation has seen under it still holds. A mutation that fails has withheld everything, and one that is answered with ok has published once, after its state file was in place.
-/

namespace Causeway

open Concurrent Prog

namespace Progress

def holding : Progress → Bool
  | .silent c => c.holding
  | .publishing _ => true
  | .plain holding _ => holding

def seen : Progress → List World
  | .silent c => c.seen
  | .publishing seen | .plain _ seen => seen

def silence : Progress → Bool
  | .silent _ => true
  | _ => false

def unpublished : Progress → Bool
  | .silent _ | .publishing _ => true
  | .plain _ _ => false

end Progress

/-- Every cache file that has a name exists. -/
def CacheDir.Ok (dir : CacheDir) : Prop := ∀ path inode, dir.files path = some inode → inode < dir.inodes.next

/-- A file that only its maker knows. -/
def CacheDir.Hidden (dir : CacheDir) (inode : Nat) : Prop := inode < dir.inodes.next ∧ ∀ path, dir.files path ≠ some inode

/-- What the story of thread `i` says of the world it has come to. -/
structure Attests (fine : Prop) (i : Nat) (task : Task) (k : Progress) (w : World) : Prop where
  mutation : task.target "" = none → Plainly false k
  mutex : k.holding = true → w.Transacting i
  known : k.holding = true → k.unpublished = true → ∀ u ∈ k.seen, u.subscriptions = w.subscriptions
  slots : ∀ c, k = .silent c → c.holding = true → ∀ u ∈ c.seen,
    u.state.subscriptionCacheSlots = w.state.subscriptionCacheSlots
  made : fine → ∀ c, k = .silent c → c.holding = true → ∀ inode ∈ c.made, w.cacheDir.Hidden inode

section

variable {env : Env} {i : Nat} {task : Task} {fine : Prop} {k l : Progress} {s t : World}

theorem Tended.slots {st other : StateFile} (h : Tended st other) :
    other.subscriptionCacheSlots = st.subscriptionCacheSlots := by
  rw [Tended] at h
  rw [h]

/-! ### One step -/

theorem Withheld.chore (h : Withheld s t) (hcache : t.cacheDir = s.cacheDir) : Chore s t :=
  ⟨by rw [h.state]; exact .refl _, h.subscriptions, by rw [h.traffic], hcache, h.published⟩

/-- Who does not hold the mutex does no more than chores. -/
theorem Proceeds.chore (h : Proceeds env i task k s t l) (hk : k.holding = false) : Chore s t := by
  cases h with
  | @silent c d _ _ next =>
      rcases next.cache with ⟨hcache, -⟩ | ⟨hholding, -⟩
      · exact next.withheld.chore hcache
      · exact absurd (hholding.symm.trans hk) Bool.noConfusion
  | committed holding => exact absurd (holding.symm.trans hk) Bool.noConfusion
  | publishing => cases hk
  | issued => cases hk
  | finishing => cases hk
  | released => cases hk
  | apart chore => exact chore

theorem Proceeds.catalog (h : Proceeds env i task k s t l) (hk : k.holding = false) :
    t.trail.catalog = s.trail.catalog := by
  cases h with
  | silent next => exact next.catalog hk
  | committed holding => exact absurd (holding.symm.trans hk) Bool.noConfusion
  | publishing => cases hk
  | issued => cases hk
  | finishing => cases hk
  | released => cases hk
  | apart _ _ _ catalog => exact catalog

/-- A step on the cache files keeps private files private. -/
theorem Shelves.hidden {made later : List Nat} {spare : Path → Prop} {dir next : CacheDir}
    (h : Shelves made spare dir next later)
    (hdir : dir.Ok) (hmade : ∀ inode ∈ made, dir.Hidden inode) : next.Ok ∧ ∀ inode ∈ later, next.Hidden inode := by
  cases h with
  | created =>
      refine ⟨fun path inode hfile => (hdir path inode hfile).trans (Nat.lt_succ_self _), fun inode hinode => ?_⟩
      rcases List.mem_cons.mp hinode with rfl | hinode
      · exact ⟨Nat.lt_succ_self _, fun path hfile => (hdir path _ hfile).false⟩
      · obtain ⟨hlt, hunnamed⟩ := hmade inode hinode
        exact ⟨hlt.trans (Nat.lt_succ_self _), hunnamed⟩
  | wrote mine => exact ⟨hdir, hmade⟩
  | @placed inode path mine allowed =>
      refine ⟨fun other named hfile => ?_, fun _ hinode => absurd hinode List.not_mem_nil⟩
      replace hfile : Function.update dir.files path (some inode) other = some named := hfile
      by_cases heq : other = path
      · rw [heq, Function.update_self] at hfile
        cases hfile
        exact (hmade inode mine).1
      · rw [Function.update_of_ne heq] at hfile
        exact hdir other named hfile

/-- What is in place under a name changes only where a private file is put. -/
theorem Shelves.bytes {made later : List Nat} {spare : Path → Prop} {dir next : CacheDir}
    (h : Shelves made spare dir next later)
    (hdir : dir.Ok) (hmade : ∀ inode ∈ made, dir.Hidden inode) {path : Path}
      (hchanged : next.bytes path ≠ dir.bytes path) :
    spare path ∧ next.files path ≠ dir.files path := by
  have hsame : ∀ {inode : Nat} {content : Bytes}, (∀ path, dir.files path ≠ some inode) →
      (dir.files path).map (Function.update dir.inodes.content inode content) =
        (dir.files path).map dir.inodes.content := by
    intro inode content hunnamed
    cases hfile : dir.files path with
    | none => rfl
    | some other =>
        have hne : other ≠ inode := fun heq => hunnamed path (heq ▸ hfile)
        exact congrArg some (Function.update_of_ne hne _ _)
  cases h with
  | created => exact absurd (hsame fun path hfile => (hdir path _ hfile).false) hchanged
  | wrote mine => exact absurd (hsame (hmade _ mine).2) hchanged
  | @placed inode other mine allowed =>
      by_cases heq : path = other
      · refine ⟨heq ▸ allowed, fun hfiles => hchanged ?_⟩
        exact congrArg (Option.map dir.inodes.content) hfiles
      · exact absurd (dir.rename_of_ne heq) hchanged

/-- What is no longer withheld says nothing of the cache. -/
theorem Attests.loud (hloud : k.silence = false) (mutation : task.target "" = none → Plainly false k)
    (mutex : k.holding = true → s.Transacting i)
    (known : k.holding = true → k.unpublished = true → ∀ u ∈ k.seen, u.subscriptions = s.subscriptions) :
    Attests fine i task k s := by
  have hsilent : ∀ c, k ≠ .silent c := by
    rintro c rfl
    cases hloud
  exact ⟨mutation, mutex, known, fun c hc => absurd hc (hsilent c), fun _ c hc => absurd hc (hsilent c)⟩

theorem attests_plain {seen : List World} : Attests fine i task (.plain false seen) s :=
  .loud rfl (fun _ => ⟨seen, rfl⟩) (fun h => absurd h Bool.false_ne_true) fun h => absurd h Bool.false_ne_true

theorem Attests.own (h : Attests fine i task k s) (hs : fine → s.cacheDir.Ok) (hstep : Proceeds env i task k s t l) :
    (fine → t.cacheDir.Ok) ∧ Attests fine i task l t := by
  have hlocked : k.holding = true → t.locks .subscriptionTxn = s.locks .subscriptionTxn → t.Transacting i := by
    intro hk heq
    rw [World.Transacting, heq]
    exact h.mutex hk
  cases hstep with
  | @silent c d _ _ next =>
      have hmutation : task.target "" = none → Plainly false (.silent d) := fun hnone => by
        obtain ⟨seen, hk⟩ := h.mutation hnone
        cases hk
      -- The thread has held the mutex before, or it has just taken it and knows nothing yet.
      have hheld : d.holding = true → c.holding = true ∧ t.locks .subscriptionTxn = s.locks .subscriptionTxn ∨
          t.Transacting i ∧ d.made = [] ∧ d.seen = [] := next.holding
      have hcache : fine → (∀ inode ∈ c.made, s.cacheDir.Hidden inode) → t.cacheDir.Ok ∧
          ∀ inode ∈ d.made, t.cacheDir.Hidden inode := by
        intro hfine hmade
        rcases next.cache with ⟨hsame, hsubset⟩ | ⟨-, hshelves⟩
        · rw [hsame]
          exact ⟨hs hfine, fun inode hinode => hmade inode (hsubset hinode)⟩
        · exact hshelves.hidden (hs hfine) hmade
      refine ⟨fun hfine => ?_, hmutation, fun hd => ?_, fun hd _ u hu => ?_, fun c' hc' hd u hu => ?_,
        fun hfine c' hc' hd => ?_⟩
      · rcases next.cache with ⟨hsame, -⟩ | ⟨hholding, -⟩
        · exact hsame ▸ hs hfine
        · exact (hcache hfine (h.made hfine c rfl hholding)).1
      · exact (hheld hd).elim (fun hkept => hlocked hkept.1 hkept.2) (·.1)
      · rcases hheld hd with ⟨hholding, -⟩ | ⟨-, -, hnil⟩
        · rw [next.withheld.subscriptions]
          rcases next.seen u hu with hu | rfl
          · exact h.known hholding rfl u hu
          · rfl
        · rw [Progress.seen, hnil] at hu
          cases hu
      · cases hc'
        rcases hheld hd with ⟨hholding, -⟩ | ⟨-, -, hnil⟩
        · rw [next.withheld.state]
          rcases next.seen u hu with hu | rfl
          · exact h.slots c rfl hholding u hu
          · rfl
        · rw [hnil] at hu
          cases hu
      · cases hc'
        rcases hheld hd with ⟨hholding, -⟩ | ⟨-, hnil, -⟩
        · exact (hcache hfine (h.made hfine c rfl hholding)).2
        · rw [hnil]
          exact fun _ hinode => absurd hinode List.not_mem_nil
  | @committed c _ _ holding firm renamed =>
      refine ⟨fun hfine => firm.cache ▸ hs hfine, .loud rfl (fun hnone => ?_)
        (fun _ => hlocked holding firm.mutex) fun _ _ u hu => ?_⟩
      · obtain ⟨seen, hk⟩ := h.mutation hnone
        cases hk
      · rw [firm.subscriptions]
        exact h.known holding rfl u hu
  | publishing firm learns =>
      refine ⟨fun hfine => firm.cache ▸ hs hfine, .loud rfl (fun hnone => ?_)
        (fun _ => hlocked rfl firm.mutex) fun _ _ u hu => ?_⟩
      · obtain ⟨seen, hk⟩ := h.mutation hnone
        cases hk
      · rw [firm.subscriptions]
        rcases learns u hu with hu | rfl
        · exact h.known rfl rfl u hu
        · rfl
  | issued steady published aims =>
      refine ⟨fun hfine => steady.cache ▸ hs hfine, .loud rfl (fun hnone => ?_) (fun _ => hlocked rfl steady.mutex)
        fun _ h => absurd h Bool.false_ne_true⟩
      obtain ⟨seen, hk⟩ := h.mutation hnone
      cases hk
  | finishing firm learns =>
      refine ⟨fun hfine => firm.cache ▸ hs hfine, .loud rfl (fun hnone => ?_) (fun _ => hlocked rfl firm.mutex)
        fun _ h => absurd h Bool.false_ne_true⟩
      obtain ⟨seen, hk⟩ := h.mutation hnone
      cases hk
  | released chore passed => exact ⟨fun hfine => chore.cache ▸ hs hfine, attests_plain⟩
  | apart chore passes learns => exact ⟨fun hfine => chore.cache ▸ hs hfine, attests_plain⟩

theorem Attests.other (h : Attests fine i task k s)
    (hmutex : (t.locks .subscriptionTxn).hold i = (s.locks .subscriptionTxn).hold i)
    (hchore : k.holding = true → Chore s t) : Attests fine i task k t where
  mutation := h.mutation
  mutex hk := by
    rw [World.Transacting, hmutex]
    exact h.mutex hk
  known hk hunpublished u hu := by
    rw [(hchore hk).subscriptions]
    exact h.known hk hunpublished u hu
  slots c hc hholding u hu := by
    subst hc
    rw [(hchore hholding).state.slots]
    exact h.slots c rfl hholding u hu
  made hfine c hc hholding inode hinode := by
    subst hc
    rw [(hchore hholding).cache]
    exact h.made hfine c rfl hholding inode hinode

end

/-! ### Runs -/

/-- The stories of a run of the daemon. -/
abbrev DaemonStories (fine : Prop) (env : Env) (tasks : Nat → Task) (w : World) (moves : List (Move World)) : Prop :=
  Pool.Chronicle (fun i => Proceeds env i (tasks i)) (fun i => (tasks i).Ending) (fun i => (tasks i).opening)
    (fun u => fine → u.cacheDir.Ok) (fun i => Attests fine i (tasks i)) (daemon env tasks w) moves

/-- A step on what belongs to mutations is taken by one of them, while it holds the mutex. -/
structure Task.Acting (task : Task) (m : Move World) : Prop where
  transacting : m.before.Transacting m.thread
  target : ∃ target, task.target m.before.subscriptions.active = some target

section

variable {env : Env} {w : World} {tasks : Nat → Task} {moves before after : List (Move World)} {m : Move World}
  {last : Pool World Outside Reply} {fine : Prop} {i : Nat}

theorem Task.target_isSome {task : Task} {active : String} (h : task.target "" ≠ none) :
    ∃ target, task.target active = some target := by
  cases task with
  | switchSubscription name => exact ⟨name, rfl⟩
  | reload => exact ⟨active, rfl⟩
  | _ => exact absurd rfl h

theorem attests_opening (task : Task) (w : World) : Attests fine i task task.opening w := by
  have hholding : task.opening.holding = false := by
    cases task <;> rfl
  have hfree : task.opening.holding ≠ true := by simp [hholding]
  refine ⟨fun hnone => ?_, fun h => absurd h hfree, fun h => absurd h hfree, fun c hc h => ?_, fun _ c hc h => ?_⟩
  · cases task with
    | switchSubscription name => cases hnone
    | reload => cases hnone
    | _ => exact ⟨[], rfl⟩
  · rw [hc] at hfree
    exact absurd h hfree
  · rw [hc] at hfree
    exact absurd h hfree

theorem daemon_stories (h : Started env w) (hcache : fine → w.cacheDir.Ok) (run : (daemon env tasks w).Run moves last) :
    DaemonStories fine env tasks w moves where
  tells i := tells_prog (tasks i)
  shared := hcache
  threads i := attests_opening (tasks i) w
  own m _ k l hstep hX hY := hY.own hX hstep
  others m hm i hi j k l hstep hmine hother := by
    have hsees := (reachable_moves h run m hm).2.2.others i hi
    refine hother.other (hsees.hold .subscriptionTxn) fun hholding => hstep.chore ?_
    by_contra hfalse
    exact hi (Lock.write_unique (hother.mutex hholding) (hmine.mutex (Bool.not_eq_false _ ▸ hfalse)))

/-- While a thread holds the mutex, the others do nothing but chores, and no transaction begins. -/
theorem chore_of_transacting (h : Started env w) (run : (daemon env tasks w).Run moves last) (hm : m ∈ moves)
    (hi : i ≠ m.thread) (hmine : m.before.Transacting i) :
    Chore m.before m.after ∧ m.after.trail.catalog = m.before.trail.catalog := by
  obtain ⟨before, after, rfl⟩ := List.append_of_mem hm
  have hstories : DaemonStories False env tasks w (before ++ m :: after) := daemon_stories h False.elim run
  obtain ⟨⟨l, story, -⟩, -⟩ := (run.chronicle hstories).2 m.thread
  obtain ⟨-, j, k, -, hattests, hstep, -⟩ := run.chapter hstories story
  have hholding : j.holding = false := by
    by_contra hfalse
    exact hi (Lock.write_unique hmine (hattests.mutex (Bool.not_eq_false _ ▸ hfalse)))
  exact ⟨hstep.chore hholding, hstep.catalog hholding⟩

/-- The active profile, its pool and the catalog, the recorded identities and cache slots, the statistics of inactive profiles, the selected traffic and the cache files change only under the transaction mutex, by a subscription switch or a reload. -/
theorem profiles_change_under_mutex (h : Started env w) (run : (daemon env tasks w).Run moves last) :
    ∀ m ∈ moves, Chore m.before m.after ∨ (tasks m.thread).Acting m := by
  intro m hm
  obtain ⟨before, after, rfl⟩ := List.append_of_mem hm
  have hstories : DaemonStories False env tasks w (before ++ m :: after) := daemon_stories h False.elim run
  obtain ⟨⟨l, story, -⟩, -⟩ := (run.chronicle hstories).2 m.thread
  obtain ⟨-, j, k, -, hattests, hstep, -⟩ := run.chapter hstories story
  cases hholding : j.holding with
  | false => exact .inl (hstep.chore hholding)
  | true =>
      refine .inr ⟨hattests.mutex hholding, Task.target_isSome fun hnone => ?_⟩
      obtain ⟨seen, rfl⟩ := hattests.mutation hnone
      cases hholding

end

/-- The run of a switch that is accepted. -/
theorem profiles_change_under_mutex_switch : ∃ moves last,
    (daemon (Sample.env Sample.web) (Sample.assign [.switchSubscription "work"])
      (Sample.world Sample.web)).Run moves last ∧
      last.shared.subscriptions.active = "work" ∧
      ∀ m ∈ moves, Chore m.before m.after ∨ (Sample.assign [.switchSubscription "work"] m.thread).Acting m := by
  obtain ⟨moves, last, run, -, hlast⟩ := Pool.exec_reaches (Sample.steps 0 55 Sample.fine)
    (daemon (Sample.env Sample.web) (Sample.assign [.switchSubscription "work"]) (Sample.world Sample.web))
    (fun pool => decide (pool.shared.subscriptions.active = "work")) (by decide +kernel)
  exact ⟨moves, last, run, of_decide_eq_true hlast, profiles_change_under_mutex (Sample.started Sample.web) run⟩

end Causeway

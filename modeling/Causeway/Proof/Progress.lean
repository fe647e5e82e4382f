import Causeway.Concurrent.Story
import Causeway.Proof.Commits
import Causeway.Proof.Custody
import Causeway.Model.Restart

/-!
# The progress of a task

What a thread does with its own steps to all that belongs to subscription mutations. A task that is none touches nothing of it, and saves only states it has seen. A transaction withholds everything that others see until its state file is in place: it stops every plane that it starts and gives up, writes only to cache files of its own, and the only name it changes is that of the spare slot. From there on it cannot fail.
-/

namespace Causeway

open Concurrent Prog

/-- An update of statistics, classes and verdicts, and of nothing that is kept under a profile's name. -/
def Tended (st other : StateFile) : Prop :=
  other = { st with
    nodes := other.nodes, classes := other.classes, siteVerdicts := other.siteVerdicts, updatedUnix := other.updatedUnix }

/-- A step on nothing that belongs to subscription mutations. -/
structure Chore (s t : World) : Prop where
  state : Tended s.state t.state
  subscriptions : t.subscriptions = s.subscriptions
  selected : t.traffic.subscription = s.traffic.subscription
  cache : t.cacheDir = s.cacheDir
  published : t.trail.published = s.trail.published

instance : Std.Refl Chore := ⟨fun _ => ⟨rfl, rfl, rfl, rfl, rfl⟩⟩

/-- The state is one that a transaction makes of another. -/
def NextOf (env : Env) (st next : StateFile) : Prop :=
  ∃ request fresh committed planned now, (∀ slot, committed = some slot → slot = cacheSlotA ∨ slot = cacheSlotB) ∧
    nextState env request fresh committed planned now st = some next

/-- What is handed to a save was seen, or made of what was. -/
def Passes (env : Env) (seen : List World) (s t : World) : Prop :=
  t.trail.passed = s.trail.passed ∨
    ∃ u ∈ seen, ∃ st, t.trail.passed = st :: s.trail.passed ∧ (st = u.state ∨ NextOf env u.state st)

/-- Only the world of the step is newly seen. -/
def Learns (seen : List World) (s : World) (later : List World) : Prop := ∀ u ∈ later, u ∈ seen ∨ u = s

/-- A step that shows nothing: no class, no state, no subscription and no state file changes. -/
structure Withheld (s t : World) : Prop where
  route : t.route = s.route
  runtime : t.runtime = s.runtime
  state : t.state = s.state
  subscriptions : t.subscriptions = s.subscriptions
  traffic : t.traffic = s.traffic
  file : t.stateDir.file = s.stateDir.file
  published : t.trail.published = s.trail.published

/-- A cache slot that a transaction of the task may write: one of its target, and not the one that memory names. -/
def SpareIn (task : Task) (seen : List World) (path : Path) : Prop :=
  ∃ u ∈ seen, ∃ v ∈ seen, ∃ x ∈ seen, ∃ target profile base, task.target u.subscriptions.active = some target ∧
    (∀ name, task = .switchSubscription name → x.subscriptions.catalog.profile target = some profile) ∧
    profile.cacheFile = some base ∧ cacheSlotPath base (nextSlot v.state.subscriptionCacheSlots[target]?) = some path

/-- The profile is the one that a transaction of the task is for. -/
def AimsAt (task : Task) (seen : List World) (target : String) : Prop :=
  ∃ u ∈ seen, task.target u.subscriptions.active = some target

/-- One step on the cache files: a private file is made, written, or put in place under a name that is allowed. -/
inductive Shelves (made : List Nat) (spare : Path → Prop) (s : CacheDir) : CacheDir → List Nat → Prop
  | created : Shelves made spare s { s with inodes := s.inodes.create.2 } (s.inodes.next :: made)
  | wrote {inode offset : Nat} {bytes : Bytes} (mine : inode ∈ made) :
      Shelves made spare s { s with inodes := s.inodes.write inode offset bytes } made
  | placed {inode : Nat} {path : Path} (mine : inode ∈ made) (allowed : spare path) :
      Shelves made spare s (s.rename inode path) []

/-- What a transaction has done so far: the planes it has started and not stopped, the cache files it has made and not put in place, whether it holds its mutex, and the worlds it has seen since it took it. -/
structure Chapter where
  live : List Nat
  made : List Nat
  holding : Bool
  seen : List World

/-- How far a task is: a transaction before its state file is in place, one between that and its publication, and a task that has nothing to withhold, which may still hold the mutex. -/
inductive Progress where
  | silent (chapter : Chapter)
  | publishing (seen : List World)
  | plain (holding : Bool) (seen : List World)

/-- A step of thread `i` that withholds everything. -/
structure Chapter.Next (env : Env) (i : Nat) (task : Task) (c : Chapter) (s t : World) (d : Chapter) : Prop where
  withheld : Withheld s t
  passes : Passes env c.seen s t
  started : t.nextPlane ≠ s.nextPlane → s.nextPlane ∈ d.live
  planes : ∀ id, t.planes id ≠ s.planes id → id ∈ c.live ∨ id = s.nextPlane ∧ t.nextPlane ≠ s.nextPlane
  live : ∀ id ∈ d.live, id ∈ c.live ∨ id = s.nextPlane ∧ t.nextPlane ≠ s.nextPlane
  stopped : ∀ id ∈ c.live, id ∈ d.live ∨ t.planes id = none
  cache : t.cacheDir = s.cacheDir ∧ d.made ⊆ c.made ∨
    c.holding = true ∧ Shelves c.made (SpareIn task c.seen) s.cacheDir t.cacheDir d.made
  holding : d.holding = true → c.holding = true ∧ t.locks .subscriptionTxn = s.locks .subscriptionTxn ∨
    t.Transacting i ∧ d.made = [] ∧ d.seen = []
  seen : Learns c.seen s d.seen
  catalog : c.holding = false → t.trail.catalog = s.trail.catalog

/-- A step of a transaction that cannot fail any more. -/
structure Steady (env : Env) (seen : List World) (s t : World) : Prop where
  mutex : t.locks .subscriptionTxn = s.locks .subscriptionTxn
  cache : t.cacheDir = s.cacheDir
  state : Tended s.state t.state ∨ ∃ cloned next, t.trail.replaced = ⟨cloned, s.state, next⟩ :: s.trail.replaced ∧
    t.state = next ∧ NextOf env cloned next
  passes : Passes env seen s t

/-- One that does not publish either. -/
structure Firm (env : Env) (seen : List World) (s t : World) : Prop extends Steady env seen s t where
  subscriptions : t.subscriptions = s.subscriptions
  published : t.trail.published = s.trail.published

/-- One step of a task of thread `i`. -/
inductive Proceeds (env : Env) (i : Nat) (task : Task) : Progress → World → World → Progress → Prop
  | silent {c d : Chapter} {s t : World} (next : c.Next env i task s t d) :
      Proceeds env i task (.silent c) s t (.silent d)
  | committed {c : Chapter} {s t : World} (holding : c.holding = true) (firm : Firm env c.seen s t)
      (renamed : s.stateDir.renameTmp = some t.stateDir) :
      Proceeds env i task (.silent c) s t (.publishing c.seen)
  | publishing {seen later : List World} {s t : World} (firm : Firm env seen s t) (learns : Learns seen s later) :
      Proceeds env i task (.publishing seen) s t (.publishing later)
  | issued {seen : List World} {s t : World} (steady : Steady env seen s t)
      (published : t.trail.published = s.trail.published + 1) (aims : AimsAt task seen t.subscriptions.active) :
      Proceeds env i task (.publishing seen) s t (.plain true seen)
  | finishing {seen later : List World} {s t : World} (firm : Firm env seen s t) (learns : Learns seen s later) :
      Proceeds env i task (.plain true seen) s t (.plain true later)
  | released {seen : List World} {s t : World} (chore : Chore s t) (passed : t.trail.passed = s.trail.passed) :
      Proceeds env i task (.plain true seen) s t (.plain false seen)
  | apart {seen later : List World} {s t : World} (chore : Chore s t) (passes : Passes env seen s t)
      (learns : Learns seen s later) (catalog : t.trail.catalog = s.trail.catalog) :
      Proceeds env i task (.plain false seen) s t (.plain false later)

/-- A step on nothing that a transaction has to answer for. -/
structure Untouched (s t : World) : Prop extends Withheld s t where
  mutex : t.locks .subscriptionTxn = s.locks .subscriptionTxn
  nextPlane : t.nextPlane = s.nextPlane
  planes : t.planes = s.planes
  cache : t.cacheDir = s.cacheDir
  passed : t.trail.passed = s.trail.passed
  catalog : t.trail.catalog = s.trail.catalog

instance : Std.Refl Untouched := ⟨fun _ => ⟨⟨rfl, rfl, rfl, rfl, rfl, rfl, rfl⟩, rfl, rfl, rfl, rfl, rfl, rfl⟩⟩

/-- A transaction that holds its mutex has withheld everything: these planes of it are running, and it has seen these worlds. -/
inductive Quiet (live : List Nat) (seen : List World) : Progress → Prop
  | intro (c : Chapter) (hlive : ∀ id, id ∈ c.live ↔ id ∈ live) (hholding : c.holding = true) (hseen : seen ⊆ c.seen) :
    Quiet live seen (.silent c)

def Quietly (env : Env) (i : Nat) (task : Task) {α : Type} (live : List Nat) (post : α → List Nat)
    (p : Sup α) : Prop :=
  ∀ seen k, Quiet live seen k → p.Tells (Proceeds env i task) (fun a l => Quiet (post a) seen l) k

section

variable {env : Env} {i : Nat} {task : Task} {α β : Type} {live : List Nat} {seen : List World} {k : Progress}

theorem Quiet.step {c : Chapter} {left : List Nat} {s t : World} (hseen : seen ⊆ c.seen) (hholding : c.holding = true)
    (hwithheld : Withheld s t) (hmutex : t.locks .subscriptionTxn = s.locks .subscriptionTxn)
      (hcache : t.cacheDir = s.cacheDir)
    (hpassed : t.trail.passed = s.trail.passed) (hstarted : t.nextPlane ≠ s.nextPlane → s.nextPlane ∈ left)
    (hplanes : ∀ id, t.planes id ≠ s.planes id → id ∈ c.live ∨ id = s.nextPlane ∧ t.nextPlane ≠ s.nextPlane)
    (hleft : ∀ id ∈ left, id ∈ c.live ∨ id = s.nextPlane ∧ t.nextPlane ≠ s.nextPlane)
    (hstopped : ∀ id ∈ c.live, id ∈ left ∨ t.planes id = none) :
    ∃ l, Proceeds env i task (.silent c) s t l ∧ Quiet left (s :: seen) l :=
  ⟨_, .silent (d := ⟨left, c.made, true, s :: c.seen⟩) {
      withheld := hwithheld
      passes := .inl hpassed
      started := hstarted
      planes := hplanes
      live := hleft
      stopped := hstopped
      cache := .inl ⟨hcache, List.Subset.refl _⟩
      holding := fun _ => .inl ⟨hholding, hmutex⟩
      seen := fun _ hu => (List.mem_cons.mp hu).symm
      catalog := fun hfree => absurd (hholding.symm.trans hfree) Bool.noConfusion },
    .intro _ (fun _ => Iff.rfl) rfl (List.cons_subset_cons s hseen)⟩

theorem Quiet.weaken {same : List Nat} {less : List World} (h : Quiet live seen k) (hlive : ∀ id, id ∈ live ↔ id ∈ same)
    (hseen : less ⊆ seen) : Quiet same less k := by
  obtain ⟨c, hc, hholding, hold⟩ := h
  exact .intro c (fun id => (hc id).trans (hlive id)) hholding (List.Subset.trans hseen hold)

/-- What it has seen may be forgotten. -/
theorem Quiet.forget {s : World} (h : Quiet live (s :: seen) k) : Quiet live seen k :=
  h.weaken (fun _ => Iff.rfl) (List.subset_cons_self _ _)

theorem Quiet.untouched {s t : World} (h : Quiet live seen k) (hst : Untouched s t) :
    ∃ l, Proceeds env i task k s t l ∧ Quiet live (s :: seen) l := by
  obtain ⟨c, hc, hholding, hseen⟩ := h
  obtain ⟨l, hstep, hl⟩ :=
    @Quiet.step env i task seen c c.live s t hseen hholding hst.toWithheld hst.mutex hst.cache hst.passed
    (fun h => absurd hst.nextPlane h) (fun id h => absurd (congrFun hst.planes id) h) (fun _ hid => .inl hid)
    fun _ hid => .inl hid
  exact ⟨l, hstep, hl.weaken hc (List.Subset.refl _)⟩

/-- The step that remembers the catalog of the transaction. -/
theorem Quiet.begun (h : Quiet live seen k) (s : World) (catalog : SubscriptionsConfig) :
    ∃ l, Proceeds env i task k s { s with trail := { s.trail with catalog := some catalog } } l ∧ Quiet live seen l := by
  obtain ⟨c, hc, hholding, hseen⟩ := h
  obtain ⟨l, hstep, hl⟩ :=
    @Quiet.step env i task seen c c.live s { s with trail := { s.trail with catalog := some catalog } } hseen hholding
      ⟨rfl, rfl, rfl, rfl, rfl, rfl, rfl⟩ rfl rfl rfl (fun h => absurd rfl h) (fun _ h => absurd rfl h)
      (fun _ hid => .inl hid) fun _ hid => .inl hid
  exact ⟨l, hstep, (hl.weaken hc (List.Subset.refl _)).forget⟩

namespace Quietly

variable {post : β → List Nat}

theorem pure {value : β} (h : ∀ id, id ∈ live ↔ id ∈ post value) : Quietly env i task live post (Pure.pure value) :=
  fun _ _ hk => .pure (hk.weaken h (List.Subset.refl _))

theorem bind {mid : α → List Nat} {p : Sup α} {q : α → Sup β} (hp : Quietly env i task live mid p)
    (hq : ∀ a, Quietly env i task (mid a) post (q a)) : Quietly env i task live post (p >>= q) :=
  fun seen k hk => (hp seen k hk).bind fun a l hl => hq a seen l hl

theorem untouched {p : Sup α} (hp : p.Within Untouched) : Quietly env i task live (fun _ => live) p := by
  intro seen k hk
  refine .within hp hk fun k s t hk hst => ?_
  obtain ⟨l, hstep, hl⟩ := hk.untouched hst
  exact ⟨l, hstep, hl.forget⟩

theorem untouched_bind {p : Sup α} {q : α → Sup β} (hp : p.Within Untouched)
    (hq : ∀ a, Quietly env i task live post (q a)) :
    Quietly env i task live post (p >>= q) :=
  (untouched hp).bind hq

end Quietly

/-! ### Planes -/

theorem Quietly.spawn {post : β → List Nat} {spec : Sup.StartSpec} {q : Except String Handle → Sup β}
    (hno : ∀ error, Quietly env i task live post (q (.error error)))
    (hq : ∀ handle : Handle, Quietly env i task (handle.id :: live) post (q (.ok handle))) :
    Quietly env i task live post (Sup.spawnPlane i spec >>= q) := by
  intro seen k hk
  refine .atomic fun o s b t hact => ?_
  cases hok : o.ok with
  | false =>
      simp only [hok] at hact
      cases hact
      obtain ⟨l, hstep, hl⟩ := hk.untouched (Std.Refl.refl s)
      exact ⟨l, hstep, hno _ _ l (hl.forget)⟩
  | true =>
      simp only [hok] at hact
      cases hact
      obtain ⟨c, hc, hholding, hseen⟩ := hk
      have hother : ∀ id, id ≠ s.nextPlane → Function.update s.planes s.nextPlane (some (.task i)) id = s.planes id :=
        fun id hid => Function.update_of_ne hid _ _
      obtain ⟨l, hstep, hl⟩ := @Quiet.step env i task seen c (s.nextPlane :: live) s { s with
          planes := Function.update s.planes s.nextPlane (some (.task i)), nextPlane := s.nextPlane + 1 }
        hseen hholding ⟨rfl, rfl, rfl, rfl, rfl, rfl, rfl⟩ rfl rfl rfl (fun _ => List.mem_cons_self)
        (fun id hid => .inr ⟨of_not_not fun hne => hid (hother id hne), Nat.succ_ne_self _⟩)
        (fun id hid => (List.mem_cons.mp hid).symm.imp (hc id).mpr fun h => ⟨h, Nat.succ_ne_self _⟩)
        fun id hid => .inl (List.mem_cons_of_mem _ ((hc id).mp hid))
      exact ⟨l, hstep, hq ⟨s.nextPlane, spec.socksAddr, spec.httpAddr⟩ _ l hl.forget⟩

theorem Quietly.stop {post : β → List Nat} {id : Nat} {q : Unit → Sup β} (hq : Quietly env i task live post (q ())) :
    Quietly env i task (id :: live) post (Sup.stopPlane id >>= q) := by
  intro seen k hk
  refine .atomic fun o s b t hact => ?_
  cases hact
  obtain ⟨c, hc, hholding, hseen⟩ := hk
  have hmine : id ∈ c.live := (hc id).mpr List.mem_cons_self
  have hplanes : ∀ other, Function.update s.planes id none other ≠ s.planes other → other ∈ c.live := by
    intro other hother
    by_cases heq : other = id
    · exact heq ▸ hmine
    · exact absurd (Function.update_of_ne heq _ _) hother
  have hstopped : ∀ other ∈ c.live, other ∈ live ∨ Function.update s.planes id none other = none := by
    intro other hother
    rcases List.mem_cons.mp ((hc other).mp hother) with rfl | hmem
    · exact .inr (Function.update_self _ _ _)
    · exact .inl hmem
  obtain ⟨l, hstep, hl⟩ := @Quiet.step env i task seen c live s { s with planes := Function.update s.planes id none }
    hseen hholding ⟨rfl, rfl, rfl, rfl, rfl, rfl, rfl⟩ rfl rfl rfl (fun h => absurd rfl h)
      (fun other hother => .inl (hplanes other hother))
    (fun other hother => .inl ((hc other).mpr (List.mem_cons_of_mem _ hother))) hstopped
  exact ⟨l, hstep, hq _ l hl.forget⟩

def planesOf (paths : List ActiveNode) : List Nat := paths.map (·.handle.id)

theorem quietly_stopStaged (staged : List ActiveNode) :
    Quietly env i task (planesOf staged ++ live) (fun _ => live) (Sup.stopStaged staged) := by
  induction staged with
  | nil => exact .pure fun _ => Iff.rfl
  | cons active staged ih => exact .stop ih

end

section

variable {env : Env} {i : Nat} {task : Task} {α : Type} {live : List Nat} {cls : String}

/-! ### Steps that touch nothing -/

theorem untouched_acquireWrite {name : LockName} (hname : LockName.subscriptionTxn ≠ name) :
    (Sup.acquireWrite i name).Within Untouched := by
  refine within_atomic fun o s b t heq => ?_
  obtain ⟨lock, _, heq⟩ := Option.map_eq_some_iff.mp heq
  cases heq
  exact ⟨⟨rfl, rfl, rfl, rfl, rfl, rfl, rfl⟩, Function.update_of_ne hname _ _, rfl, rfl, rfl, rfl, rfl⟩

theorem untouched_acquireWriteBy {name : LockName} (hname : LockName.subscriptionTxn ≠ name) :
    (Sup.acquireWriteBy i name).Within Untouched := by
  refine within_atomic fun o s b t heq => ?_
  split at heq
  · cases heq
    exact Std.Refl.refl s
  · obtain ⟨lock, _, heq⟩ := Option.map_eq_some_iff.mp heq
    cases heq
    exact ⟨⟨rfl, rfl, rfl, rfl, rfl, rfl, rfl⟩, Function.update_of_ne hname _ _, rfl, rfl, rfl, rfl, rfl⟩

theorem untouched_release {name : LockName} (hname : LockName.subscriptionTxn ≠ name) :
    (Sup.release i name).Within Untouched :=
  within_modify fun _ => ⟨⟨rfl, rfl, rfl, rfl, rfl, rfl, rfl⟩, Function.update_of_ne hname _ _, rfl, rfl, rfl, rfl, rfl⟩

theorem untouched_releaseAll {names : List LockName} (hnames : LockName.subscriptionTxn ∉ names) :
    (Sup.releaseAll i names).Within Untouched :=
  within_releaseAll fun _ hmem => untouched_release fun hname => hnames (hname ▸ hmem)

theorem untouched_lockClasses (classes : List String) : (Sup.lockClasses i classes).Within Untouched :=
  within_lockClasses (fun _ => untouched_acquireWriteBy (by simp)) classes

theorem untouched_pushEvent {f : Outside → Event} : (Sup.pushEvent f).Within Untouched :=
  within_act fun _ _ => ⟨⟨rfl, rfl, rfl, rfl, rfl, rfl, rfl⟩, rfl, rfl, rfl, rfl, rfl, rfl⟩

theorem untouched_observe {f : World → α × Obs} : (Sup.observe f).Within Untouched :=
  within_act fun _ _ => ⟨⟨rfl, rfl, rfl, rfl, rfl, rfl, rfl⟩, rfl, rfl, rfl, rfl, rfl, rfl⟩

/-! ### Staging -/

theorem quietly_startFused {spec : Sup.StartSpec} {fused : Bool} :
    Quietly env i task live (fun r => startedPlane r ++ live) (Sup.startFused i spec fused) := by
  refine .spawn (fun error => .pure fun _ => Iff.rfl) fun handle => ?_
  refine .untouched_bind (within_fuse fused) fun elapsed => ?_
  cases elapsed with
  | true => exact .stop (.pure fun _ => Iff.rfl)
  | false =>
      refine .untouched_bind within_ask fun failure => ?_
      cases failure with
      | none => exact .pure fun _ => Iff.rfl
      | some error => exact .stop (.pure fun _ => Iff.rfl)

theorem quietly_tryActivate {node : Node} {fused : Bool} :
    Quietly env i task live (fun r => planesOf r.paths ++ live) (Sup.tryActivate env i cls node fused) := by
  refine .untouched_bind within_ask fun reserved => ?_
  cases reserved with
  | error error => exact .pure fun _ => Iff.rfl
  | ok spec =>
      refine quietly_startFused.bind fun started => ?_
      rcases started with _ | error | handle
      · exact .pure fun _ => Iff.rfl
      · exact .pure fun _ => Iff.rfl
      refine .untouched_bind within_ask fun checked => .untouched_bind (within_fuse fused) fun elapsed => ?_
      cases elapsed with
      | true => exact .stop (.pure fun _ => Iff.rfl)
      | false =>
          rcases checked with error | ⟨code, rtt⟩
          · exact .untouched_bind untouched_observe fun _ => .stop (.pure fun _ => Iff.rfl)
          · simp only [Bool.false_eq_true, if_false]
            split
            · exact .untouched_bind untouched_observe fun _ => .pure fun _ => Iff.rfl
            · exact .untouched_bind untouched_observe fun _ => .stop (.pure fun _ => Iff.rfl)

theorem quietly_stageFirst (candidates : List Node) :
    Quietly env i task live (fun r => planesOf r.paths ++ live) (Sup.stageFirst env i cls candidates) := by
  induction candidates with
  | nil => exact .pure fun _ => Iff.rfl
  | cons candidate candidates ih =>
      refine quietly_tryActivate.bind fun attempt => ?_
      cases attempt with
      | failed error => exact ih
      | elapsed => exact .pure fun _ => Iff.rfl
      | activated active => exact .pure fun _ => Iff.rfl

def stagedPlanes : Except String (List ActiveNode) → List Nat
  | .ok staged => planesOf staged
  | .error _ => []

theorem quietly_stageClasses {request : Request} {stats : Option (BTreeMap NodeStats)} (classes : List String)
    (staged : List ActiveNode) :
    Quietly env i task (planesOf staged ++ live) (fun r => stagedPlanes r ++ live)
      (Sup.stageClasses env i request stats classes staged) := by
  induction classes generalizing staged with
  | nil => exact .pure fun _ => Iff.rfl
  | cons cls classes ih =>
      refine .untouched_bind within_stagingCandidates fun candidates => (quietly_stageFirst candidates).bind fun attempt => ?_
      cases attempt with
      | activated active =>
          have hmore : ∀ id, id ∈ active.handle.id :: (planesOf staged ++ live) ↔
            id ∈ planesOf (staged ++ [active]) ++ live := by
            intro id
            simp only [planesOf, List.map_append, List.mem_append, List.mem_cons, List.map_cons, List.map_nil]
            tauto
          exact fun seen k hk => ih (staged ++ [active]) seen k (hk.weaken hmore (List.Subset.refl _))
      | elapsed => exact (quietly_stopStaged staged).bind fun _ => .pure fun _ => Iff.rfl
      | failed error => exact (quietly_stopStaged staged).bind fun _ => .pure fun _ => Iff.rfl

end

end Causeway

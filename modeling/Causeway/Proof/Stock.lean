import Causeway.Model.Restart
import Causeway.Proof.RoundTrip
import Causeway.Proof.Frames

/-!
# The files of a transaction

What the two-slot cache depends on belongs to the holder of the transaction mutex: the state in memory, the state file and the cache files. `Stocked` lists what one step may do to them. A manifest is written to a private file and put in place under the slot that memory does not name; a state is written to the temporary file and put in place whole.
-/

namespace Causeway

open Concurrent Prog

/-- What the slots of the cache depend on. -/
structure Stock where
  state : StateFile
  active : String
  dir : StateDir
  cache : CacheDir
  recorded : String → Option (Path × Bytes)
  passed : List StateFile
  catalog : Option SubscriptionsConfig

def World.stock (w : World) : Stock :=
  ⟨w.state, w.subscriptions.active, w.stateDir, w.cacheDir, w.trail.recorded, w.trail.passed, w.trail.catalog⟩

def World.Transacting (i : Nat) (w : World) : Prop := (w.locks .subscriptionTxn).hold i = .write

namespace Stock

/-- Every file that has a name exists, and the state can be saved. -/
structure Ok (s : Stock) : Prop where
  dir : s.dir.Ok
  cache : ∀ path inode, s.cache.files path = some inode → inode < s.cache.inodes.next
  state : s.state.Sound

/-- Every state that was saved can be read back. -/
def Faithful (env : Env) (s : Stock) : Prop := ∀ st ∈ s.passed, env.Faithful st

/-- The state file names every slot that memory names. -/
def Synced (env : Env) (s : Stock) : Prop :=
  s.Faithful env → ∀ name slot, s.state.subscriptionCacheSlots[name]? = some slot →
    env.namedSlot s.dir.bytes name = some slot

/-- The file of the slot holds what was recorded for the profile. -/
def Rests (s : Stock) (name slot : String) : Prop :=
  ∃ base path bytes, cacheSlotPath base slot = some path ∧ s.recorded name = some (path, bytes) ∧
    s.cache.bytes path = some bytes

end Stock

/-- One step on the stock, by a transaction for the profile. -/
inductive Stocked (env : Env) (target : Option String) (s t : Stock) : Prop
  | aside (same : t = { s with dir := t.dir, cache := t.cache, passed := t.passed, catalog := t.catalog }) (file : t.dir.file = s.dir.file)
      (bytes : t.dir.bytes = s.dir.bytes) (files : t.cache.files = s.cache.files)
      (cached : ∀ path, t.cache.bytes path = s.cache.bytes path)
  | placed (name : String) (catalog : SubscriptionsConfig) (base path : Path) (isTarget : target = some name)
      (begun : s.catalog = some catalog) (configured : (catalog.profile name).bind (·.cacheFile) = some base)
      (chosen : cacheSlotPath base (nextSlot s.state.subscriptionCacheSlots[name]?) = some path)
      (same : t = { s with cache := t.cache }) (changed : t.cache.files path ≠ s.cache.files path)
      (others : ∀ other, other ≠ path → t.cache.bytes other = s.cache.bytes other)
  | saved (same : t = { s with dir := t.dir, recorded := t.recorded }) (moved : t.dir.file ≠ s.dir.file)
      (rests : t.Faithful env → ∀ name slot, env.namedSlot t.dir.bytes name = some slot →
        env.namedSlot s.dir.bytes name = some slot ∧ t.recorded name = s.recorded name ∨ t.Rests name slot)
  | published (same : t = { s with state := t.state, active := t.active })

/-- What thread `i` may see others do. -/
structure Shielded (i : Nat) (w u : World) : Prop where
  hold : (u.locks .subscriptionTxn).hold i = (w.locks .subscriptionTxn).hold i
  stock : w.Transacting i → u.stock = w.stock

theorem Shielded.refl {i : Nat} {w : World} : Shielded i w w := ⟨rfl, fun _ => rfl⟩

theorem Shielded.transacting {i : Nat} {w u : World} (h : Shielded i w u) (hw : w.Transacting i) :
    u.Transacting i :=
  h.hold.trans hw

theorem Shielded.trans {i : Nat} {w u v : World} (h : Shielded i w u) (g : Shielded i u v) : Shielded i w v :=
  ⟨g.hold.trans h.hold, fun hw => (g.stock (h.transacting hw)).trans (h.stock hw)⟩

/-- The discipline of the transaction mutex. -/
def stockroom (env : Env) (tasks : Nat → Task) : Discipline World where
  inv w := w.stock.Ok ∧ ((∀ i, ¬ w.Transacting i) → w.stock.Synced env)
  guar i w u := (∀ j, j ≠ i → Shielded j w u) ∧ Stocked env ((tasks i).target w.stock.active) w.stock u.stock
  rely i w u := Shielded i w u
  refl _ _ := .refl
  trans h g := h.trans g
  compat hij _ _ h := h.1 _ (Ne.symm hij)

/-- Thread `i` runs the program and keeps the discipline. -/
def Stows (env : Env) (tasks : Nat → Task) (i : Nat) {α : Type} (post : α → World → Prop) (p : Sup α) (w : World) :
    Prop :=
  (stockroom env tasks).Safe i post p w

/-- A step that does not touch the stock. -/
structure Offhand (s t : World) : Prop where
  stock : t.stock = s.stock
  mutex : t.locks .subscriptionTxn = s.locks .subscriptionTxn

instance : Std.Refl Offhand := ⟨fun _ => ⟨rfl, rfl⟩⟩

section

variable {env : Env} {tasks : Nat → Task} {i : Nat} {α β : Type} {post : β → World → Prop} {w : World}

theorem Offhand.transacting {s t : World} (h : Offhand s t) (j : Nat) : t.Transacting j ↔ s.Transacting j := by
  rw [World.Transacting, h.mutex, World.Transacting]

theorem stockroom_offhand {t u : World} (ht : (stockroom env tasks).inv t) (htu : Offhand t u) :
    (stockroom env tasks).inv u ∧ (stockroom env tasks).guar i t u ∧ Shielded i t u := by
  have hothers : ∀ j, Shielded j t u := fun j => ⟨by rw [htu.mutex], fun _ => htu.stock⟩
  refine ⟨⟨htu.stock ▸ ht.1, fun hfree => ?_⟩, ⟨fun j _ => hothers j, ?_⟩, hothers i⟩
  · rw [htu.stock]
    exact ht.2 fun j hj => hfree j ((htu.transacting j).mpr hj)
  · show Stocked env ((tasks i).target t.stock.active) t.stock u.stock
    rw [htu.stock]
    exact .aside rfl rfl rfl rfl fun _ => rfl

theorem World.Transacting.inv (hw : w.Transacting i) (hok : w.stock.Ok) : (stockroom env tasks).inv w :=
  ⟨hok, fun hfree => absurd hw (hfree i)⟩

namespace Stows

theorem bind {mid : α → World → Prop} {p : Sup α} {k : α → Sup β} (hp : Stows env tasks i mid p w)
    (hw : (stockroom env tasks).inv w)
    (hk : ∀ a (u : World), (stockroom env tasks).inv u → mid a u → Stows env tasks i post (k a) u) :
    Stows env tasks i post (p >>= k) w :=
  Discipline.Safe.bind hp hw fun a u hu ha => hk a u hu ha

theorem pure {value : β} (h : ∀ u, Shielded i w u → post value u) : Stows env tasks i post (Pure.pure value) w :=
  Discipline.Safe.pure fun t _ hst => h t hst

theorem mono {p : Sup β} {u : World} (h : Stows env tasks i post p w) (hwu : Shielded i w u) :
    Stows env tasks i post p u :=
  Discipline.Safe.mono h hwu

/-- A first part that does not touch the stock. -/
theorem offhand {p : Sup α} {k : α → Sup β} (hp : p.Within Offhand) (hk : ∀ a, Stows env tasks i post (k a) w) :
    Stows env tasks i post (p >>= k) w :=
  Discipline.Safe.quiet_bind hp (fun _ _ ht htu => stockroom_offhand ht htu) hk

/-- A look by the thread that holds the mutex. -/
theorem seen {act : Outside → World → Option (α × World)} {k : α → Sup β} {R : α → Prop} (hw : w.Transacting i)
    (hact : ∀ o t u a, act o t = some (a, u) → t.stock = w.stock → Offhand t u ∧ R a)
    (hk : ∀ a, R a → Stows env tasks i post (k a) w) : Stows env tasks i post (Prog.atomic act >>= k) w := by
  refine Discipline.Safe.atomic fun t ht hst o a u h => ?_
  obtain ⟨htu, ha⟩ := hact o t u a h (hst.stock hw)
  obtain ⟨hu, hguar, hrely⟩ := (stockroom_offhand ht htu : _ ∧ _ ∧ Shielded i t u)
  exact ⟨hu, hguar, (hk a ha).mono (hst.trans hrely)⟩

theorem own {act : Outside → World → Option (α × World)} {k : α → Sup β} (hw : w.Transacting i)
    (h : ∀ o (t u : World) a, act o t = some (a, u) → t.stock = w.stock → t.stock.Ok →
      u.locks .subscriptionTxn = t.locks .subscriptionTxn ∧ u.stock.Ok ∧
        Stocked env ((tasks i).target t.stock.active) t.stock u.stock ∧
        (u.Transacting i → Stows env tasks i post (k a) u)) :
    Stows env tasks i post (Prog.atomic act >>= k) w := by
  refine Discipline.Safe.atomic fun t ht hst o a u hact => ?_
  have hhold : t.Transacting i := Shielded.transacting hst hw
  obtain ⟨hmutex, hok, hstocked, hk⟩ := h o t u a hact (hst.stock hw) ht.1
  have hnow : u.Transacting i := by
    rw [World.Transacting, hmutex]
    exact hhold
  refine ⟨⟨hok, fun hfree => absurd hnow (hfree i)⟩, ⟨fun j hj => ⟨by rw [hmutex], fun hother => ?_⟩, hstocked⟩, hk hnow⟩
  exact absurd (Lock.write_unique hother hhold) hj

end Stows

end

/-! ### Steps off the stock -/

section

variable {env : Env} {me : Nat} {name : LockName} {cls : String}

theorem offhand_acquireWrite (hname : LockName.subscriptionTxn ≠ name) : (Sup.acquireWrite me name).Within Offhand := by
  refine within_atomic fun o s b t heq => ?_
  obtain ⟨lock, _, heq⟩ := Option.map_eq_some_iff.mp heq
  cases heq
  exact ⟨rfl, Function.update_of_ne hname _ _⟩

theorem offhand_acquireWriteBy (hname : LockName.subscriptionTxn ≠ name) :
    (Sup.acquireWriteBy me name).Within Offhand := by
  refine within_atomic fun o s b t heq => ?_
  split at heq
  · cases heq
    exact ⟨rfl, rfl⟩
  · obtain ⟨lock, _, heq⟩ := Option.map_eq_some_iff.mp heq
    cases heq
    exact ⟨rfl, Function.update_of_ne hname _ _⟩

theorem offhand_release (hname : LockName.subscriptionTxn ≠ name) : (Sup.release me name).Within Offhand :=
  within_modify fun _ => ⟨rfl, Function.update_of_ne hname _ _⟩

theorem offhand_releaseAll {names : List LockName} (hnames : LockName.subscriptionTxn ∉ names) :
    (Sup.releaseAll me names).Within Offhand :=
  within_releaseAll fun _ hmem => offhand_release fun hname => hnames (hname ▸ hmem)

theorem offhand_lockRoutes (classes : List String) : (Sup.lockRoutes me classes).Within Offhand :=
  within_lockRoutes (fun _ => offhand_acquireWrite (by simp)) classes

theorem offhand_lockClasses (classes : List String) : (Sup.lockClasses me classes).Within Offhand :=
  within_lockClasses (fun _ => offhand_acquireWriteBy (by simp)) classes

theorem offhand_pushEvent {f : Outside → Event} : (Sup.pushEvent f).Within Offhand := within_act fun _ _ => ⟨rfl, rfl⟩

theorem offhand_subscriptionFailure {profile message : String} :
    (Sup.subscriptionFailure profile message).Within Offhand :=
  within_subscriptionFailure fun _ => offhand_pushEvent

theorem offhand_stopPlane {id : Nat} : (Sup.stopPlane id).Within Offhand := within_modify fun _ => ⟨rfl, rfl⟩

theorem offhand_tryActivate {node : Node} {fused : Bool} : (Sup.tryActivate env me cls node fused).Within Offhand := by
  refine within_tryActivate (fun spec => within_act fun o w => ?_) (fun _ => offhand_stopPlane) fun _ => within_act fun _ _ => ⟨rfl, rfl⟩
  split <;> exact ⟨rfl, rfl⟩

theorem offhand_stopStaged (staged : List ActiveNode) : (Sup.stopStaged staged).Within Offhand :=
  within_stopStaged (fun _ => offhand_stopPlane) staged

theorem offhand_stageClasses {request : Request} {stats : Option (BTreeMap NodeStats)} (classes : List String)
    (staged : List ActiveNode) : (Sup.stageClasses env me request stats classes staged).Within Offhand :=
  within_stageClasses (fun _ _ => offhand_tryActivate) (fun _ => offhand_stopPlane) classes staged

theorem offhand_pushSwitched {now : Int} {refreshed : Bool} (planned : List Planned) :
    (Sup.pushSwitched now refreshed planned).Within Offhand :=
  within_pushSwitched (fun _ => offhand_pushEvent) planned

theorem offhand_drainAll (old : List ActiveNode) : (Sup.drainAll old).Within Offhand :=
  within_drainAll (fun _ => within_modify fun _ => ⟨rfl, rfl⟩) old

end

end Causeway

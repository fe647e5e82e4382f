import Causeway.Proof.Loops

/-!
# The daemon keeps the discipline

Every task is safe from the world a start begins in, so the invariant holds in every state that any interleaving of any tasks reaches.
-/

namespace Causeway

open Concurrent History

/-- The worlds a start may begin in, whatever it found on disk. -/
inductive Started (env : Env) : World → Prop
  | intro (stateDir : StateDir) (cacheDir : CacheDir) (recorded : String → Option (Path × Bytes))
      (st : StateFile) (active : String) (nodes : List Node) (dir : stateDir.Ok)
      (bound : st.activeSubscription = some active) :
      Started env (startWorld env stateDir cacheDir recorded st active nodes)

/-- A thread that has not begun: it holds no lock and saves nothing. -/
structure Fresh (i : Nat) (c : Core) : Prop where
  idle : c.Idle i
  none : ∀ name, c.hold i name = .none

section

variable {env : Env} {i : Nat} {w : World}

theorem Started.inv (h : Started env w) : Inv env w.core := by
  obtain ⟨stateDir, cacheDir, recorded, st, active, nodes, _, bound⟩ := h
  exact {
    settled := fun cls _ _ => ⟨fun active hactive => (nomatch hactive), rfl, Nat.le_refl 0⟩
    route := fun _ _ => rfl
    count := fun _ _ => rfl
    history := fun _ _ => trivial
    era := rfl
    epochs := fun _ _ _ => ⟨rfl, rfl, .inl rfl⟩
    reads := ⟨.nil, fun _ hr => (nomatch hr)⟩
    log := fun _ hobs => nomatch hobs
    stamps := fun _ _ _ hstamp => nomatch hstamp
    jobs := fun _ hjob => nomatch hjob
    bound := fun _ => ⟨bound, rfl⟩
    replaced := fun _ hr => nomatch hr }

theorem Started.fresh (h : Started env w) (i : Nat) : Fresh i w.core := by
  obtain ⟨stateDir, cacheDir, recorded, st, active, nodes, _⟩ := h
  exact ⟨⟨rfl, rfl⟩, fun _ => Lock.hold_free⟩

theorem Started.dir (h : Started env w) : w.stateDir.Ok := by
  obtain ⟨_, _, _, _, _, _, dir, _⟩ := h
  exact dir

theorem Fresh.not_write {c : Core} (h : Fresh i c) (name : LockName) : c.hold i name ≠ .write := by
  rw [h.none]
  simp

theorem safe_task (hw : Inv env w.core) (hfresh : Fresh i w.core) (task : Task) :
    SafeFrom env i (fun _ v => v.Idle i) (task.prog env i) w := by
  have hidle := hfresh.idle
  have hreply : ∀ {u : World} {reply : Reply}, u.core.Idle i →
      SafeFrom env i (fun _ v => v.Idle i) (pure reply) u :=
    fun hidle => safe_pure fun _ hst => hst.idle hidle
  -- A task that answers nobody ends like its loop.
  have hloop : ∀ {body : Sup Unit}, SafeFrom env i (fun _ v => v.Idle i) body w →
      SafeFrom env i (fun _ v => v.Idle i) (body >>= fun _ => pure noReply) w :=
    fun hbody => hbody.bind hw fun _ _ _ hidle => hreply hidle
  cases task with
  | idle => exact hreply hidle
  | switch cls node =>
      rw [Task.prog, Sup.switchRequest]
      split
      · exact hreply hidle
      · rename_i hcls
        have hrequester : Requester.operator.Fact w.core := fun _ _ _ h => nomatch h
        refine (safe_switchTo (not_not.mp hcls) hidle hrequester).bind hw ?_
        intro outcome u _ hidle
        cases outcome with
        | ok outcome => exact hreply hidle
        | error error => exact hreply hidle
  | switchSubscription name => exact safe_switchSubscription hw hidle fun cls _ => hfresh.not_write _
  | reload => exact safe_reload hw hidle fun cls _ => hfresh.not_write _
  | probeNow cls => exact safe_probeNow hw hidle
  | siteProbe site => exact safe_siteProbeRequest hidle
  | switchForSite cls site => exact safe_switchForSite hw hidle
  | activateInitial cls =>
      rw [Task.prog]
      split
      · exact hloop (safe_activateInitial ‹_› hidle)
      · exact hreply hidle
  | healthLoop cls ticks =>
      rw [Task.prog]
      split
      · exact hloop (safe_rounds hw hidle fun u _ hidle => safe_healthTick ‹_› hidle)
      · exact hreply hidle
  | probeLoop rounds => exact hloop (safe_rounds hw hidle fun u hu hidle => safe_probeRound hu hidle)
  | egressLoop rounds => exact hloop (safe_rounds hw hidle fun u hu hidle => safe_egressRound hu hidle)
  | job => exact hloop (safe_runJob hidle)
  | status cls retries => exact safe_status hw hidle
  | connection cls proto =>
      rw [Task.prog]
      split
      · exact hloop (safe_handleConn ‹_› hidle)
      · exact hreply hidle
  | signal => exact safe_modify_same (fun _ => rfl) (hreply hidle)

/-- The whole daemon keeps the discipline. -/
theorem daemon_holds (h : Started env w) (tasks : Nat → Task) :
    (discipline env).Holds (fun i _ u => u.core.Idle i) (daemon env tasks w) :=
  ⟨h.inv, fun i => safe_task h.inv (h.fresh i) (tasks i)⟩

/-- The invariant holds in every state a run of the daemon reaches. -/
theorem reachable_inv (h : Started env w) {tasks : Nat → Task} {moves : List (Move World)}
    {last : Pool World Outside Reply} (run : (daemon env tasks w).Run moves last) : Inv env last.shared.core :=
  ((daemon_holds h tasks).run run).inv

/-- Every move of a run starts and ends in the invariant, and keeps what its thread guarantees. -/
theorem reachable_moves (h : Started env w) {tasks : Nat → Task} {moves : List (Move World)}
    {last : Pool World Outside Reply} (run : (daemon env tasks w).Run moves last) :
    ∀ m ∈ moves, Inv env m.before.core ∧ Inv env m.after.core ∧ Guar env m.thread m.before.core m.after.core :=
  (daemon_holds h tasks).allowed run

end

/-! ### A small daemon

Two profiles whose pools share their node names, for runs on concrete inputs.
-/

namespace Sample

def node (name server : String) : Node :=
  .ss { name := name, server := server, port := 1, cipher := "", password := "", plugin := none }

def homeNodes : List Node := [node "A" "home", node "B" "home"]

def workNodes : List Node := [node "A" "work", node "B" "work"]

def profile (name : String) : SubscriptionProfileConfig :=
  { files := [[name]], urlFile := none, cacheFile := none }

def config (classes : List (String × ClassConfig)) : Config where
  classes := .ofList classes
  health := { failThreshold := 2, url := "health", samples := 1 }
  selection := { hysteresis := 1 / 10, emaAlpha := 1 / 2, regions := [], autoSwitch := true }
  sites := { maxCandidates := 3, verdictTtlSecs := 60, list := .ofList [("site", SiteTarget.mk "site")] }
  subscriptions :=
    { files := []
      default := some "home"
      profiles := .ofList [("home", profile "home"), ("work", profile "work")] }

def env (classes : List (String × ClassConfig)) : Env where
  cfg := config classes
  parseStr bytes := if bytes = [1] then some homeNodes else if bytes = [2] then some workNodes else none
  sourceIdentity profile := profile.files.head?.bind (·.head?)
  toVecPretty wire := (wire.activeSubscription.getD "").toList.map fun c => UInt8.ofNat c.toNat
  fromStr _ := none

def state : StateFile :=
  { (default : StateFile) with
    activeSubscription := some "home"
    subscriptionSourceIdentities := .ofList [("home", "home"), ("work", "work")] }

def world (classes : List (String × ClassConfig)) : World :=
  startWorld (env classes) { inodes := ⟨fun _ => [], 0⟩, tmp := none, file := none }
    { inodes := ⟨fun _ => [], 0⟩, files := fun _ => none } (fun _ => none) state "home" homeNodes

theorem started (classes : List (String × ClassConfig)) : Started (env classes) (world classes) :=
  .intro _ _ _ _ _ _ ⟨fun _ h => (nomatch h), fun _ h => (nomatch h), fun _ h => (nomatch h)⟩ rfl

/-- A third node and statistics for all of them, for requests that rank their candidates. -/
def wideNodes : List Node := homeNodes ++ [node "C" "home"]

def probed : NodeStats := (default : NodeStats).recordProbe (some 1) 1 0

def wideState : StateFile :=
  { state with nodes := .ofList [("A", probed), ("B", probed), ("C", probed)] }

def wideWorld (classes : List (String × ClassConfig)) : World :=
  startWorld (env classes) { inodes := ⟨fun _ => [], 0⟩, tmp := none, file := none }
    { inodes := ⟨fun _ => [], 0⟩, files := fun _ => none } (fun _ => none) wideState "home" wideNodes

theorem wide_started (classes : List (String × ClassConfig)) : Started (env classes) (wideWorld classes) :=
  .intro _ _ _ _ _ _ ⟨fun _ h => (nomatch h), fun _ h => (nomatch h), fun _ h => (nomatch h)⟩ rfl

/-- One class without settings of its own. -/
def web : List (String × ClassConfig) := [("web", ⟨"127.0.0.1:1080", none, none⟩)]

/-- An outside that answers everything with success. -/
def fine : Outside :=
  { file := fun path => if path = ["home"] then some [1] else if path = ["work"] then some [2] else none
    count := 100 }

/-- A thread takes this many steps under one outside. -/
def steps (thread count : Nat) (outside : Outside) : List (Nat × Outside) :=
  List.replicate count (thread, outside)

/-- Give the first threads these tasks. -/
def assign (tasks : List Task) (thread : Nat) : Task := tasks.getD thread .idle

end Sample

end Causeway

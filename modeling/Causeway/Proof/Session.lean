import Causeway.Concurrent.Arrival
import Causeway.Proof.Durability
import Causeway.Proof.Lanes
import Causeway.Proof.Snapshots

/-!
# A dashboard and its daemon

A session is one dashboard with the daemon that it asks, which may be restarted. A request is under way for as long as it likes, also after the dashboard has given up on it; then a thread of the daemon that runs by that time takes it, or it is lost. A reply can arrive once its thread has finished. Whatever else arrives is an error.
-/

namespace Causeway

open Concurrent Prog

/-- A daemon from its start on. -/
structure Stint where
  env : Env
  world : World
  tasks : Nat → Task
  moves : List (Move World)
  pool : Pool World Outside Reply
  started : Started env world
  run : (daemon env tasks world).Run moves pool

/-- The daemon works on. -/
def Stint.extend (stint : Stint) {others : List (Move World)} {last : Pool World Outside Reply}
    (run : stint.pool.Run others last) : Stint :=
  { stint with moves := stint.moves ++ others, pool := last, run := stint.run.append run }

/-- The thread that takes a request, and how often the daemon has been restarted by then. -/
structure Desk where
  stint : Nat
  thread : Nat
deriving DecidableEq

inductive Fate where
  | underway
  | lost
  | taken (desk : Desk)
deriving DecidableEq

/-- The daemon through its restarts, and what has become of the requests of the dashboard. -/
structure Service where
  restarts : Nat
  stint : Nat → Stint
  fate : Nat → Fate

namespace Service

variable (v : Service)

def current : Stint := v.stint v.restarts

/-- The request has this reply, on its way or arrived. -/
def Replies (rx : Nat) (reply : Reply) : Prop :=
  ∃ desk, v.fate rx = .taken desk ∧ (v.stint desk.stint).pool.thread desk.thread = .done reply

def work {others : List (Move World)} {last : Pool World Outside Reply} (run : v.current.pool.Run others last) : Service :=
  { v with stint := Function.update v.stint v.restarts (v.current.extend run) }

def take (rx thread : Nat) : Service :=
  { v with fate := Function.update v.fate rx (.taken ⟨v.restarts, thread⟩) }

def lose (rx : Nat) : Service := { v with fate := Function.update v.fate rx .lost }

def restart (next : Stint) : Service :=
  { v with restarts := v.restarts + 1, stint := Function.update v.stint (v.restarts + 1) next }

end Service

namespace Dashboard

/-- The task that `handle_control` makes of a request. -/
inductive Request.Runs : Request → Task → Prop
  | status (cls : String) (retries : Nat) : Runs (.status cls) (.status cls retries)
  | switch (cls node : String) : Runs (.switch cls node) (.switch cls node)
  | probeNow (cls : String) : Runs (.probeNow cls) (.probeNow cls)
  | switchSubscription (name : String) : Runs (.switchSubscription name) (.switchSubscription name)

/-- The deed sends this request; which class a mutation is for plays no part here. -/
def Deed.Sends (rx : Nat) (request : Request) : Deed → Prop
  | asked other cls => other = rx ∧ request = .status cls
  | submitted other kind => other = rx ∧ ∃ cls, request = kind.request cls
  | _ => False

end Dashboard

open Dashboard

/-- What the daemon and the way to it do while the dashboard has done these deeds. -/
inductive Service.Step (deeds : List Deed) (v : Service) : Service → Prop
  | work {others : List (Move World)} {last : Pool World Outside Reply} (run : v.current.pool.Run others last) :
      Step deeds v (v.work run)
  /-- A thread that has not begun and has no other request of the dashboard takes this one. -/
  | take {rx thread : Nat} {deed : Deed} {request : Dashboard.Request} (underway : v.fate rx = .underway) (mem : deed ∈ deeds)
      (sends : deed.Sends rx request) (runs : request.Runs (v.current.tasks thread))
      (idle : Pool.own thread v.current.moves = []) (vacant : ∀ other, v.fate other ≠ .taken ⟨v.restarts, thread⟩) :
      Step deeds v (v.take rx thread)
  | lose {rx : Nat} (underway : v.fate rx = .underway) : Step deeds v (v.lose rx)
  /-- The next daemon starts on the files that this one leaves, under whatever configuration is there. -/
  | restart {next : Stint} {cfg : Config} (same : next.env = { v.current.env with cfg := cfg })
      (restarted : Restarted next.env v.current.pool.shared next.world) (unmoved : next.moves = []) :
      Step deeds v (v.restart next)

structure Session where
  app : App
  service : Service

namespace Session

/-- A turn of the dashboard: every reply that it finds is one that the daemon has given. -/
inductive Turns (turn : Turn) (s : Session) : Session → Prop
  | intro {app : App} (honest : ∀ rx reply, turn.arrivals rx = .received (.ok reply) → s.service.Replies rx reply)
      (turned : tuiTurn turn s.app = some app) : Turns turn s ⟨app, s.service⟩

inductive Step (s : Session) : Session → Prop
  | serve {v : Service} (step : s.service.Step s.app.deeds v) : Step s ⟨s.app, v⟩
  | turn {turn : Turn} {next : Session} (turns : s.Turns turn next) : Step s next

def Run : Session → Session → Prop := Relation.ReflTransGen Step

/-- The dashboard has come up: its first status request, number 0, has failed or been answered by the daemon, and it has sent no other one to it. -/
inductive Opens (cfg : Config) : Session → Prop
  | intro {turn : Turn} {cls : String} {hclasses : 0 < cfg.classes.keys.length} {status events : ReplyResult}
      {service : Service}
      (first : ∀ rx desk, service.fate rx = .taken desk → rx = 0 ∧ desk.stint ≤ service.restarts ∧
        (Dashboard.Request.status (App.new turn cfg cls hclasses).cls).Runs ((service.stint desk.stint).tasks desk.thread))
      (honest : ∀ reply, status = .ok reply → service.Replies 0 reply) :
      Opens cfg ⟨refresh turn status events (App.new turn cfg cls hclasses), service⟩

end Session

/-! ### Later in a session -/

/-- Daemons have only worked on, and what has become of a request stays. -/
structure Service.Later (v u : Service) : Prop where
  restarts : v.restarts ≤ u.restarts
  fate : ∀ rx, v.fate rx ≠ .underway → u.fate rx = v.fate rx
  stint : ∀ n, n ≤ v.restarts → (u.stint n).tasks = (v.stint n).tasks ∧
    ∃ others, (u.stint n).moves = (v.stint n).moves ++ others ∧ (v.stint n).pool.Run others (u.stint n).pool

section

variable {v u : Service} {deeds : List Deed} {rx : Nat} {reply : Reply}

theorem Service.Later.refl : v.Later v := ⟨le_rfl, fun _ _ => rfl, fun _ _ => ⟨rfl, [], by simp, .refl _⟩⟩

theorem Service.Later.trans {w : Service} (h : v.Later u) (g : u.Later w) : v.Later w where
  restarts := h.restarts.trans g.restarts
  fate rx hrx := by
    rw [← h.fate rx hrx]
    exact g.fate rx (by rwa [h.fate rx hrx])
  stint n hn := by
    obtain ⟨htasks, others, hmoves, hrun⟩ := h.stint n hn
    obtain ⟨htasks', others', hmoves', hrun'⟩ := g.stint n (hn.trans h.restarts)
    exact ⟨htasks'.trans htasks, others ++ others', by rw [hmoves', hmoves, List.append_assoc], hrun.append hrun'⟩

theorem Service.later_settle {fate : Fate} (h : v.fate rx = .underway) :
    v.Later { v with fate := Function.update v.fate rx fate } where
  restarts := le_rfl
  fate other hother := Function.update_of_ne (fun heq : other = rx => hother (heq ▸ h)) _ _
  stint _ _ := ⟨rfl, [], by simp, .refl _⟩

theorem Service.Step.later (h : v.Step deeds u) : v.Later u := by
  cases h with
  | @work others last run =>
      refine ⟨le_rfl, fun _ _ => rfl, fun n _ => ?_⟩
      by_cases hn : n = v.restarts
      · subst hn
        have hnext : (v.work run).stint v.restarts = v.current.extend run := Function.update_self _ _ _
        rw [hnext]
        exact ⟨rfl, others, rfl, run⟩
      · have hsame : (v.work run).stint n = v.stint n := Function.update_of_ne hn _ _
        rw [hsame]
        exact ⟨rfl, [], by simp, .refl _⟩
  | take underway => exact Service.later_settle underway
  | lose underway => exact Service.later_settle underway
  | @restart next _ same restarted unmoved =>
      refine ⟨Nat.le_succ _, fun _ _ => rfl, fun n hn => ?_⟩
      have hsame : (v.restart next).stint n = v.stint n := Function.update_of_ne (Nat.lt_succ_of_le hn).ne _ _
      rw [hsame]
      exact ⟨rfl, [], by simp, .refl _⟩

theorem Session.Run.later {s next : Session} (h : s.Run next) : s.service.Later next.service := by
  induction h with
  | refl => exact .refl
  | tail _ step ih =>
      cases step with
      | serve step => exact ih.trans step.later
      | turn turns =>
          obtain ⟨_, _⟩ := turns
          exact ih

/-- A thread that is done stays where it is. -/
theorem idle_of_done {pool last : Pool World Outside Reply} {others : List (Move World)} (run : pool.Run others last)
    {i : Nat} (hdone : pool.thread i = .done reply) : Pool.own i others = [] ∧ last.thread i = .done reply := by
  have hpath := run.path i
  rw [hdone] at hpath
  have hnone := hpath.of_done
  rw [hnone] at hpath
  exact ⟨hnone, hpath.eq_of_nil⟩

end

end Causeway

import Causeway.Proof.Daemon
import Causeway.Proof.Tally

/-!
# Recovery backoff

What happens to the recovery of a class is written down step by step. The backoff that the class holds can be read off this record at any time, so an attempt that starts has waited for the last failure, and an install through any operation ends the wait and the streak.
-/

namespace Causeway

open Concurrent

/-! ### Delays -/

namespace AutoRecoveryBackoff

/-- The loop stops at the limit, where doubling and cutting change nothing. -/
theorem doubled_eq {delay doublings : Nat} (h : delay ≤ maxBackoff) :
    doubled delay doublings = min (delay * 2 ^ doublings) maxBackoff := by
  induction doublings generalizing delay with
  | zero => rw [doubled, Nat.pow_zero, Nat.mul_one, Nat.min_eq_left h]
  | succ doublings ih =>
      have hdouble : delay * 2 ^ (doublings + 1) = delay * 2 * 2 ^ doublings := by
        rw [Nat.pow_succ', Nat.mul_assoc]
      have hpos : 0 < 2 ^ doublings := Nat.two_pow_pos doublings
      rw [doubled, hdouble]
      split
      · rw [ih (Nat.min_le_right _ _)]
        rcases Nat.le_total (delay * 2) maxBackoff with hle | hge
        · rw [Nat.min_eq_left hle]
        · have hlimit : maxBackoff ≤ maxBackoff * 2 ^ doublings := Nat.le_mul_of_pos_right _ hpos
          have hmore : maxBackoff ≤ delay * 2 * 2 ^ doublings := hge.trans (Nat.le_mul_of_pos_right _ hpos)
          rw [Nat.min_eq_right hge, Nat.min_eq_right hlimit, Nat.min_eq_right hmore]
      · have hmore : maxBackoff ≤ delay * 2 * 2 ^ doublings := by
          have hlimit : delay ≤ delay * 2 * 2 ^ doublings := by
            rw [Nat.mul_assoc]
            exact Nat.le_mul_of_pos_right _ (by omega)
          omega
        rw [Nat.min_eq_right hmore]
        omega

theorem delay_eq (failures : Nat) : delay failures = min (60 * 2 ^ (failures - 1)) 900 := doubled_eq (by decide)

/-- A counter that has stopped is long past the limit. -/
theorem delay_min {failures limit : Nat} (hlimit : 5 ≤ limit) : delay (min failures limit) = delay failures := by
  rcases Nat.le_total failures limit with hle | hge
  · rw [Nat.min_eq_left hle]
  · have hlong : ∀ count, 5 ≤ count → delay count = 900 := by
      intro count hcount
      have hpow : 2 ^ 4 ≤ 2 ^ (count - 1) := Nat.pow_le_pow_right (by decide) (by omega)
      rw [delay_eq]
      omega
    rw [Nat.min_eq_right hge, hlong limit hlimit, hlong failures (hlimit.trans hge)]

end AutoRecoveryBackoff

/-! ### Records -/

namespace RecoveryEvent

def isFailure : RecoveryEvent → Bool
  | .failed _ _ => true
  | .started _ | .installed => false

/-- The deadline that a failure sets. -/
def deadline : RecoveryEvent → Option Nat
  | .failed now delay => some (now + delay)
  | .started _ | .installed => none

/-- What has happened since the last install, newest first. -/
def sinceInstall (events : List RecoveryEvent) : List RecoveryEvent := events.takeWhile (· ≠ .installed)

/-- How many attempts have failed since the last install. -/
def streak (events : List RecoveryEvent) : Nat := (sinceInstall events).countP isFailure

/-- The deadline of the last attempt that has failed since the last install. -/
def lastDeadline (events : List RecoveryEvent) : Option Nat := (sinceInstall events).findSome? deadline

/-- What an event says of those before it. -/
def Follows (earlier : List RecoveryEvent) : RecoveryEvent → Prop
  | .started now => ∀ time ∈ lastDeadline earlier, time ≤ now
  | .failed _ delay => delay = min (60 * 2 ^ streak earlier) 900
  | .installed => True

def Written : List RecoveryEvent → Prop
  | [] => True
  | event :: earlier => event.Follows earlier ∧ Written earlier

section

variable {event : RecoveryEvent} {events later earlier between before : List RecoveryEvent} {now delay : Nat}

theorem sinceInstall_cons (h : event ≠ .installed) : sinceInstall (event :: events) = event :: sinceInstall events := by
  rw [sinceInstall, List.takeWhile_cons_of_pos (by simpa using h)]
  rfl

theorem Written.follows (h : Written (later ++ event :: earlier)) : event.Follows earlier := by
  induction later with
  | nil => exact h.1
  | cons head later ih => exact ih h.2

/-- Nothing but attempts that have started comes between: the failure is the last one. -/
theorem lastDeadline_append (h : ∀ other ∈ between, other ≠ .installed ∧ other.isFailure = false) :
    lastDeadline (between ++ .failed now delay :: before) = some (now + delay) := by
  induction between with
  | nil =>
      rw [List.nil_append, lastDeadline, @sinceInstall_cons (.failed now delay) before nofun]
      rfl
  | cons other between ih =>
      obtain ⟨hother, hrest⟩ := List.forall_mem_cons.mp h
      cases other with
      | started time =>
          have hlast := ih hrest
          rw [lastDeadline] at hlast ⊢
          rw [List.cons_append, sinceInstall_cons hother.1]
          exact hlast
      | failed time pause => cases hother.2
      | installed => exact absurd rfl hother.1

end

end RecoveryEvent

/-! ### Runs -/

/-- The backoff that a class holds is the one that its record tells, and the record is right. -/
structure Recorded (backoff : AutoRecoveryBackoff) (events : List RecoveryEvent) : Prop where
  failures : backoff.consecutiveFailures = min (RecoveryEvent.streak events) (2 ^ 32 - 1)
  deadline : backoff.retryNotBefore = RecoveryEvent.lastDeadline events
  written : RecoveryEvent.Written events

section

variable {backoff : AutoRecoveryBackoff} {events : List RecoveryEvent} {cls : String} {s t : World} {now : Nat}

theorem Recorded.start : Recorded ⟨0, none⟩ [] := ⟨rfl, rfl, trivial⟩

theorem Recorded.started (h : Recorded backoff events) (hready : backoff.isReadyAt now = true) :
    Recorded backoff (.started now :: events) where
  failures := by
    rw [h.failures, RecoveryEvent.streak, RecoveryEvent.streak, @RecoveryEvent.sinceInstall_cons (.started now) events nofun]
    rfl
  deadline := by
    rw [h.deadline, RecoveryEvent.lastDeadline, RecoveryEvent.lastDeadline,
      @RecoveryEvent.sinceInstall_cons (.started now) events nofun]
    rfl
  written := by
    refine ⟨?_, h.written⟩
    intro time htime
    rw [← h.deadline, Option.mem_def] at htime
    simpa [AutoRecoveryBackoff.isReadyAt, htime] using hready

theorem Recorded.failed (h : Recorded backoff events) : Recorded (backoff.recordFailureAt now)
    (.failed now (AutoRecoveryBackoff.delay (backoff.recordFailureAt now).consecutiveFailures) :: events) := by
  have hfailures : (backoff.recordFailureAt now).consecutiveFailures = min (RecoveryEvent.streak events + 1) (2 ^ 32 - 1) := by
    rw [AutoRecoveryBackoff.recordFailureAt, h.failures]
    dsimp only
    omega
  have hsince : ∀ delay, RecoveryEvent.sinceInstall (.failed now delay :: events) =
      .failed now delay :: RecoveryEvent.sinceInstall events := fun delay =>
    @RecoveryEvent.sinceInstall_cons (.failed now delay) events nofun
  refine ⟨?_, ?_, ?_, h.written⟩
  · rw [hfailures, RecoveryEvent.streak, RecoveryEvent.streak, hsince, List.countP_cons_of_pos rfl]
  · rw [RecoveryEvent.lastDeadline, hsince]
    rfl
  · show AutoRecoveryBackoff.delay _ = _
    rw [hfailures, AutoRecoveryBackoff.delay_min (by decide), AutoRecoveryBackoff.delay_eq, Nat.add_sub_cancel]

theorem Recorded.installed (h : Recorded backoff events) : Recorded ⟨0, none⟩ (.installed :: events) :=
  ⟨rfl, rfl, trivial, h.written⟩

theorem Recorded.step (h : Recorded (s.runtime cls).autoRecovery (s.trail.recovery cls)) (hstep : Paced cls s t) :
    Recorded (t.runtime cls).autoRecovery (t.trail.recovery cls) := by
  cases hstep with
  | same hactive hbackoff hrecovery =>
      rw [hbackoff, hrecovery]
      exact h
  | started now hready hactive hbackoff hrecovery =>
      rw [hbackoff, hrecovery]
      exact h.started hready
  | failed now hactive hbackoff hrecovery =>
      rw [hrecovery, hbackoff]
      exact h.failed
  | installed hbackoff hrecovery =>
      rw [hbackoff, hrecovery]
      exact h.installed

/-- Whoever puts another path on a class starts its recovery anew. -/
theorem Paced.of_active_ne (hstep : Paced cls s t) (h : (t.runtime cls).active ≠ (s.runtime cls).active) :
    (t.runtime cls).autoRecovery = ⟨0, none⟩ ∧ t.trail.recovery cls = .installed :: s.trail.recovery cls := by
  cases hstep with
  | same hactive hbackoff hrecovery => exact absurd hactive h
  | started now hready hactive hbackoff hrecovery => exact absurd hactive h
  | failed now hactive hbackoff hrecovery => exact absurd hactive h
  | installed hbackoff hrecovery => exact ⟨hbackoff, hrecovery⟩

end

section

variable {env : Env} {me : Nat} {tasks : Nat → Task} {w : World} {moves : List (Move World)} {last : Pool World Outside Reply}

theorem paced_task (task : Task) : (task.prog env me).Within fun s t => ∀ cls, Paced cls s t := by
  rcases @counted_or_mild env me task with ⟨body, hbody, heq⟩ | hmild
  · rw [heq]
    exact .bind (within_modify fun _ => .of_eq rfl rfl) fun _ => .bind (hbody.mono fun _ _ h => h.paced) fun _ =>
      .bind (within_modify fun _ => .of_eq rfl rfl) fun _ => trivial
  · exact hmild.mono fun _ _ h => h.paced

theorem paced_moves (run : (daemon env tasks w).Run moves last) :
    ∀ m ∈ moves, ∀ cls, Paced cls m.before m.after := by
  intro m hm
  exact ((paced_task (tasks m.thread)).path (run.path m.thread)).1 _ (Pool.mem_own hm)

/-- Whatever runs, the record of a class tells its backoff. -/
theorem recorded_run (hstart : Started env w) (run : (daemon env tasks w).Run moves last) (cls : String) :
    Recorded (last.shared.runtime cls).autoRecovery (last.shared.trail.recovery cls) := by
  cases hstart
  exact run.keeps (X := fun w => Recorded (w.runtime cls).autoRecovery (w.trail.recovery cls)) .start
    fun m hm h => h.step (paced_moves run m hm cls)

end

/-- An attempt that starts has waited for the deadline of the last one that failed, unless a path was installed since; each failure in a row doubles the wait, from one minute to fifteen; and whoever installs a path ends both the wait and the row. -/
theorem recovery_backs_off {env : Env} {w : World} (hstart : Started env w) {tasks : Nat → Task}
    {moves : List (Move World)} {last : Pool World Outside Reply} (run : (daemon env tasks w).Run moves last) (cls : String) :
    (∀ later now between failedAt delay earlier,
      last.shared.trail.recovery cls = later ++ .started now :: (between ++ .failed failedAt delay :: earlier) →
      (∀ event ∈ between, event ≠ .installed ∧ event.isFailure = false) → failedAt + delay ≤ now) ∧
    (∀ later failedAt delay earlier, last.shared.trail.recovery cls = later ++ .failed failedAt delay :: earlier →
      delay = min (60 * 2 ^ RecoveryEvent.streak earlier) 900) ∧
    (∀ m ∈ moves, (m.after.runtime cls).active ≠ (m.before.runtime cls).active →
      (m.after.runtime cls).autoRecovery = ⟨0, none⟩ ∧
        m.after.trail.recovery cls = .installed :: m.before.trail.recovery cls) ∧
    Recorded (last.shared.runtime cls).autoRecovery (last.shared.trail.recovery cls) := by
  have hrecorded := recorded_run hstart run cls
  refine ⟨?_, ?_, fun m hm => (paced_moves run m hm cls).of_active_ne, hrecorded⟩
  · intro later now between failedAt delay earlier hrecord hbetween
    have hwritten := hrecorded.written
    rw [hrecord] at hwritten
    exact hwritten.follows _ (RecoveryEvent.lastDeadline_append hbetween)
  · intro later failedAt delay earlier hrecord
    have hwritten := hrecorded.written
    rw [hrecord] at hwritten
    exact hwritten.follows

namespace Sample

/-- An outside at an instant that refuses everything. -/
def refusingAt (instant : Nat) : Outside :=
  { ok := false, detail := "refused", status := fun _ => none, instant := instant }

/-- Two ticks whose recoveries fail, and one two minutes later whose recovery installs a path. -/
def backoffSchedule : List (Nat × Outside) :=
  steps 0 32 (refusingAt 0) ++ steps 0 32 (refusingAt 60) ++ steps 0 11 (refusingAt 180) ++
    steps 0 13 { fine with instant := 180 }

def backoffRecord : List RecoveryEvent :=
  [.installed, .started 180, .failed 60 120, .started 60, .failed 0 60, .started 0]

end Sample

theorem recovery_backs_off_twice : ∃ moves last,
    (daemon (Sample.env Sample.web) (Sample.assign [.healthLoop "web" 3]) (Sample.wideWorld Sample.web)).Run moves last ∧
    last.shared.trail.recovery "web" = Sample.backoffRecord ∧
    (last.shared.runtime "web").autoRecovery.retryNotBefore = none ∧ 60 + 120 ≤ 180 := by
  obtain ⟨moves, last, run, _, hlast⟩ := Pool.exec_reaches Sample.backoffSchedule
    (daemon (Sample.env Sample.web) (Sample.assign [.healthLoop "web" 3]) (Sample.wideWorld Sample.web))
    (fun pool => pool.shared.trail.recovery "web" = Sample.backoffRecord) (by decide +kernel)
  have hrecord := of_decide_eq_true hlast
  obtain ⟨hstarts, -, -, hrecorded⟩ := recovery_backs_off (Sample.wide_started Sample.web) run "web"
  refine ⟨moves, last, run, hrecord, ?_, hstarts [.installed] 180 [] 60 120 _ hrecord (by simp)⟩
  rw [hrecorded.deadline, hrecord]
  rfl

end Causeway

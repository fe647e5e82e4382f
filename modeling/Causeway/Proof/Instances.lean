import Causeway.Concurrent.Story
import Causeway.Model.Instances

/-!
# One daemon at a time

What a process of the daemon may do to the control socket depends on what it has: without the lock it touches nothing, and with the lock it removes only what nobody listens on or what it has bound itself. Put together over all processes, nobody who listens is ever cut off from its path.
-/

namespace Causeway

open Concurrent Prog

/-- What a process has. -/
inductive Tenure where
  /-- Nothing, after so many of its checks of the run directory and the lock file. -/
  | out (stage : Nat)
  /-- The lock; nobody listens at the path, or what is there is a socket, if this is known. -/
  | owner (quiet typed : Bool)
  /-- The lock and a socket of its own; its listener is closed, or its file is still at the path. -/
  | bound (identity : SocketIdentity) (closed linked : Bool)

/-- A file that processes create, as a file of this type, or give this mode. -/
inductive Hardens (fileType : FileType) (mode : Nat) (before : Option Metadata) : Option Metadata → Prop
  | same : Hardens fileType mode before before
  | created {found : Metadata} (free : before = none) (typed : found.fileType = fileType) :
    Hardens fileType mode before (some found)
  | secured {found : Metadata} (old : before = some found) : Hardens fileType mode before (some { found with mode := mode })

/-- What the checks have shown of a file: that it is of this type, and then that it has this mode. -/
structure Reveals (fileType : FileType) (mode : Nat) (typed moded : Prop) (file : Option Metadata) : Prop where
  fileType : typed → ∃ found, file = some found ∧ found.fileType = fileType
  mode : moded → ∃ found, file = some found ∧ found.mode = mode

/-- What is known of the files after so many of the checks. -/
structure Host.Secured (w : Host) (stage : Nat) : Prop where
  runDir : Reveals .dir 0o700 (1 ≤ stage) (2 ≤ stage) w.runDir
  lockFile : Reveals .file 0o600 (3 ≤ stage) (4 ≤ stage) w.lockFile

/-- The files of the run directory, but not the socket. -/
structure Host.Steadies (s t : Host) : Prop where
  runDir : Hardens .dir 0o700 s.runDir t.runDir
  lockFile : Hardens .file 0o600 s.lockFile t.lockFile

/-- Nothing has changed that processes pass on to each other. -/
structure Neutral (s t : Host) : Prop where
  files : s.Steadies t
  socket : t.socket = s.socket
  lock : t.lock = s.lock
  listening : t.listening = s.listening

/-- Nobody listens at the path. -/
def Host.Quiet (w : Host) : Prop := ∀ found, w.socket = some found → w.listening found.identity = none

/-- What is at the path is a socket. -/
def Host.Typed (w : Host) : Prop := ∀ found, w.socket = some found → found.fileType = .socket

/-- One system call of process `i`. -/
inductive Handles (i : Nat) : Tenure → Host → Host → Tenure → Prop
  | still {k : Tenure} {s t : Host} (neutral : Neutral s t) : Handles i k s t k
  | checked {stage : Nat} {s t : Host} (neutral : Neutral s t) (secured : s.Secured stage → t.Secured (stage + 1)) :
      Handles i (.out stage) s t (.out (stage + 1))
  | taken {s : Host} (free : s.lock = none) : Handles i (.out 4) s { s with lock := some i } (.owner false false)
  | learned {quiet typed silent sure : Bool} {s : Host} (hquiet : silent = true → quiet = true ∨ s.Quiet)
      (htyped : sure = true → typed = true ∨ s.Typed) : Handles i (.owner quiet typed) s s (.owner silent sure)
  | removed {s : Host} : Handles i (.owner true true) s { s with socket := none } (.owner true true)
  | bound {quiet typed : Bool} {s : Host} {identity : SocketIdentity} {mode : Nat} (free : s.socket = none)
      (unused : s.listening identity = none) :
      Handles i (.owner quiet typed) s { s with socket := some ⟨.socket, identity, mode⟩ } (.bound identity true true)
  | listens {s : Host} {identity : SocketIdentity} :
      Handles i (.bound identity true true) s
        { s with listening := Function.update s.listening identity (some (.process i)) } (.bound identity false true)
  | secured {s : Host} {identity : SocketIdentity} {closed : Bool} {mode : Nat} :
      Handles i (.bound identity closed true) s
        { s with socket := s.socket.map fun found => { found with mode := mode } } (.bound identity closed true)
  | closed {s : Host} {identity : SocketIdentity} {closed linked : Bool} :
      Handles i (.bound identity closed linked) s (s.closeListener identity) (.bound identity true linked)
  | unlinked {s : Host} {identity : SocketIdentity} {closed : Bool} :
      Handles i (.bound identity closed true) s { s with socket := none } (.bound identity closed false)
  | unlocked {s : Host} {quiet typed : Bool} : Handles i (.owner quiet typed) s (s.unlock i) (.out 0)
  | resigned {s : Host} {identity : SocketIdentity} {linked : Bool} :
      Handles i (.bound identity true linked) s (s.unlock i) (.out 0)
  | killed {k : Tenure} {s : Host} : Handles i k s (s.kill i) (.out 0)

/-! ### Programs -/

/-- How a part of a program ends. -/
inductive Ends {α : Type} (G : α → Tenure → Prop) (B : Tenure → Prop) : Except Exit α → Tenure → Prop
  | ok {a : α} {k : Tenure} (h : G a k) : Ends G B (.ok a) k
  | failed {error : String} {k : Tenure} (h : B k) : Ends G B (.error (.failed error)) k
  | killed : Ends G B (.error .killed) (.out 0)

namespace Proc

variable {α β : Type} {i : Nat} {k l : Tenure} {G : α → Tenure → Prop} {B : Tenure → Prop}

/-- Every call of the part does no more than its process may, and it ends so or so. -/
def Runs (i : Nat) (p : Proc α) (k : Tenure) (G : α → Tenure → Prop) (B : Tenure → Prop) : Prop :=
  Prog.Tells (Handles i) (Ends G B) p.run k

namespace Runs

theorem pure {a : α} (h : G a k) : Runs i (Pure.pure a) k G B := Ends.ok h

theorem fail {error : String} (h : B k) : Runs i (Proc.fail error : Proc α) k G B := Ends.failed h

theorem bind {p : Proc α} {q : α → Proc β} {other : β → Tenure → Prop} (hp : Runs i p k G B)
    (hq : ∀ a l, G a l → Runs i (q a) l other B) : Runs i (p >>= q) k other B := by
  rw [Runs, ExceptT.run_bind]
  refine Tells.bind hp fun r l hr => ?_
  cases hr with
  | ok h => exact hq _ l h
  | failed h => exact Ends.failed h
  | killed => exact Ends.killed

theorem weaken {p : Proc α} {G' : α → Tenure → Prop} {B' : Tenure → Prop} (h : Runs i p k G B)
    (hgood : ∀ a l, G a l → G' a l) (hbad : ∀ l, B l → B' l) : Runs i p k G' B' := by
  refine Tells.weaken h fun r l hr => ?_
  cases hr with
  | ok h => exact .ok (hgood _ l h)
  | failed h => exact .failed (hbad l h)
  | killed => exact .killed

theorem call {f : Sys → Host → α × Host} (h : ∀ sys w, ∃ l, Handles i k w (f sys w).2 l ∧ G (f sys w).1 l) :
    Runs i (Proc.call i f) k G B := by
  intro sys w r t hact
  dsimp only at hact
  split at hact
  · cases hact
    exact ⟨.out 0, .killed, .killed⟩
  · cases hact
    obtain ⟨l, hstep, hgood⟩ := h sys w
    exact ⟨l, hstep, .ok hgood⟩

theorem look {f : Sys → Host → α × Host} (h : ∀ sys w, Neutral w (f sys w).2) :
    Runs i (Proc.call i f) k (fun _ l => l = k) B :=
  .call fun sys w => ⟨k, .still (h sys w), rfl⟩

theorem check {context : String} {p : Proc (Except ErrorKind α)} {M : Except ErrorKind α → Tenure → Prop}
    (hp : Runs i p k M B) (hok : ∀ a l, M (.ok a) l → G a l) (herror : ∀ kind l, M (.error kind) l → B l) :
    Runs i (Proc.check context p) k G B := by
  refine hp.bind fun r l hr => ?_
  cases r with
  | ok a => exact .pure (hok a l hr)
  | error kind => exact .fail (herror kind l hr)

theorem orDrop {p : Proc α} {drop : Proc Unit} {M : Tenure → Prop} (hp : Runs i p k G M)
    (hdrop : ∀ l, M l → Runs i drop l (fun _ => B) B) : Runs i (p.orDrop drop) k G B := by
  refine Tells.bind hp fun r l hr => ?_
  cases hr with
  | ok h => exact Ends.ok h
  | failed h => exact (hdrop l h).bind fun _ l hl => .fail hl
  | killed => exact Ends.killed

end Runs

end Proc

/-! ### What the programs do -/

theorem Neutral.refl (w : Host) : Neutral w w := ⟨⟨.same, .same⟩, rfl, rfl, rfl⟩

section

variable {α : Type} {sys : Sys} {w : Host}

theorem neutral_attempt {f : Except ErrorKind α × Host} (h : Neutral w f.2) : Neutral w (sys.attempt w f).2 := by
  unfold Sys.attempt
  split
  · exact .refl w
  · exact h

theorem neutral_createDirAll : Neutral w (w.createDirAll sys).2 := by
  refine neutral_attempt ?_
  split
  · exact ⟨⟨.created ‹_› rfl, .same⟩, rfl, rfl, rfl⟩
  · split <;> exact .refl w

theorem metadata_snd {found : Option Metadata} : (w.metadata sys found).2 = w := by
  unfold Host.metadata Sys.attempt
  split
  · rfl
  · split <;> rfl

theorem neutral_metadata {found : Option Metadata} : Neutral w (w.metadata sys found).2 := by
  rw [metadata_snd]
  exact .refl w

theorem neutral_openLock : Neutral w (w.openLock sys).2 := by
  refine neutral_attempt ?_
  split
  · exact ⟨⟨.same, .created ‹_› rfl⟩, rfl, rfl, rfl⟩
  · split <;> exact .refl w

theorem attempt_cases (sys : Sys) (w : Host) (f : Except ErrorKind α × Host) :
    (∃ kind, sys.attempt w f = (.error kind, w)) ∨ sys.attempt w f = f := by
  unfold Sys.attempt
  split
  · exact .inl ⟨_, rfl⟩
  · exact .inr rfl

theorem metadata_cases (sys : Sys) (w : Host) (file : Option Metadata) :
    (∃ kind, w.metadata sys file = (.error kind, w)) ∨ ∃ found, file = some found ∧
      w.metadata sys file = (.ok found, w) := by
  unfold Host.metadata
  rcases attempt_cases sys w _ with h | h
  · exact .inl h
  · rw [h]
    cases file with
    | none => exact .inl ⟨_, rfl⟩
    | some found => exact .inr ⟨found, rfl, rfl⟩

/-- A change of the mode, to the one the file is to have. -/
theorem Hardens.mapped {fileType : FileType} {mode : Nat} {file : Option Metadata} :
    Hardens fileType mode file (file.map fun found => { found with mode := mode }) := by
  cases file with
  | none => exact .same
  | some found => exact .secured rfl

end

def Tenure.Out (k : Tenure) : Prop := ∃ stage, k = .out stage

/-- The lock alone, whatever is known of the path. -/
def Tenure.Owner (k : Tenure) : Prop := ∃ quiet typed, k = .owner quiet typed

/-- A socket of its own that nobody listens on any more. -/
def Tenure.Closed (k : Tenure) : Prop := ∃ identity linked, k = .bound identity true linked

namespace Proc

variable {α β : Type} {i : Nat} {k : Tenure} {B : Tenure → Prop} {cfg : FilesConfig} {path : String}
    {identity : SocketIdentity}

/-- A call that changes nothing, and the `?` after it. -/
theorem Runs.look_bind {context : String} {f : Sys → Host → Except ErrorKind α × Host} {q : α → Proc β}
    {G : β → Tenure → Prop} (h : ∀ sys w, Neutral w (f sys w).2) (hbad : B k) (hq : ∀ a, Runs i (q a) k G B) :
    Runs i (Proc.check context (Proc.call i f) >>= q) k G B := by
  refine Runs.bind (.check (G := fun _ l => l = k) (.look h) (fun _ _ h => h) fun _ l hl => ?_) fun a l hl => ?_
  · rw [hl]
    exact hbad
  · rw [hl]
    exact hq a

theorem Runs.ensure_bind {p : Prop} [Decidable p] {error : String} {q : Unit → Proc β} {G : β → Tenure → Prop}
    (hbad : B k)
    (h : p → Runs i (q ()) k G B) : Runs i (Proc.ensure p error >>= q) k G B := by
  unfold Proc.ensure
  split
  · exact h ‹p›
  · exact .bind (G := fun _ _ => False) (.fail hbad) fun _ _ h => h.elim

/-- A call that may fail and else leaves this tenure. -/
theorem Runs.check_call {context : String} {f : Sys → Host → Except ErrorKind α × Host} {l : α → Tenure} (hbad : B k)
    (h : ∀ sys w, (∃ kind, f sys w = (.error kind, w)) ∨ ∃ a, (f sys w).1 = .ok a ∧ Handles i k w (f sys w).2 (l a)) :
    Runs i (Proc.check context (Proc.call i f)) k (fun a m => m = l a) B := by
  refine .check (.call (G := fun r m => (∀ a, r = .ok a → m = l a) ∧ ∀ kind, r = .error kind → m = k) fun sys w => ?_)
    (fun a m hm => hm.1 a rfl) fun kind m hm => ?_
  · rcases h sys w with ⟨kind, hf⟩ | ⟨a, hok, hstep⟩
    · refine ⟨k, ?_, ?_, fun _ _ => rfl⟩
      · rw [hf]
        exact .still (.refl w)
      · rw [hf]
        rintro a ⟨⟩
    · refine ⟨l a, hstep, ?_, ?_⟩
      · rw [hok]
        rintro a ⟨⟩
        rfl
      · rw [hok]
        rintro kind ⟨⟩
  · rw [hm.2 kind rfl]
    exact hbad

/-- A check of the files that a process makes before it takes the lock. -/
theorem Runs.checkType_bind {stage : Nat} {fileType : FileType} {context error : String} {file : Host → Option Metadata}
    {q : Proc β} {G : β → Tenure → Prop}
    (h : ∀ w : Host, (∃ found, file w = some found ∧ found.fileType = fileType) → w.Secured stage → w.Secured (stage + 1))
    (hq : Runs i q (.out (stage + 1)) G Tenure.Out) :
    Runs i (Proc.check context (Proc.call i fun sys w => w.metadata sys (file w)) >>= fun found =>
      Proc.ensure (found.fileType = fileType) error >>= fun _ => q) (.out stage) G Tenure.Out := by
  refine Runs.bind (.check_call (l := fun found => .out (if found.fileType = fileType then stage + 1 else stage)) ⟨_, rfl⟩
    fun sys w => ?_) fun found l hl => ?_
  · rcases metadata_cases sys w (file w) with hfailed | ⟨found, hfound, hok⟩
    · exact .inl hfailed
    · refine .inr ⟨found, by rw [hok], ?_⟩
      rw [hok]
      split
      · exact .checked (.refl w) (h w ⟨found, hfound, ‹_›⟩)
      · exact .still (.refl w)
  · subst hl
    refine .ensure_bind ⟨_, rfl⟩ fun htyped => ?_
    rw [if_pos htyped]
    exact hq

theorem runs_acquire : Runs i (acquire cfg i) (.out 0) (fun _ l => l = .owner false false) Tenure.Out := by
  unfold acquire
  refine .look_bind (fun _ _ => neutral_createDirAll) ⟨0, rfl⟩ fun _ => ?_
  refine .checkType_bind (fun w hfound _ => ?_) ?_
  · exact ⟨⟨fun _ => hfound, fun h => absurd h (by omega)⟩, ⟨fun h => absurd h (by omega), fun h => absurd h (by omega)⟩⟩
  refine Runs.bind (.check_call (l := fun _ => .out 2) ⟨1, rfl⟩ fun sys w => ?_) fun _ l hl => ?_
  · refine (attempt_cases _ _ _).imp_right fun h => ⟨(), ?_⟩
    rw [Host.secureRunDir, h]
    refine ⟨rfl, .checked ⟨⟨.mapped, .same⟩, rfl, rfl, rfl⟩ fun hs => ?_⟩
    obtain ⟨dir, hfound, htyped⟩ := hs.runDir.fileType le_rfl
    refine ⟨⟨fun _ => ?_, fun _ => ?_⟩, ⟨fun h => absurd h (by omega), fun h => absurd h (by omega)⟩⟩
    · exact ⟨_, congrArg (Option.map _) hfound, htyped⟩
    · exact ⟨_, congrArg (Option.map _) hfound, rfl⟩
  subst hl
  refine .look_bind (fun _ _ => neutral_openLock) ⟨2, rfl⟩ fun _ => ?_
  refine .checkType_bind (fun w hfound hs => ?_) ?_
  · exact ⟨⟨fun _ => hs.runDir.fileType (by omega), fun _ => hs.runDir.mode (by omega)⟩,
      ⟨fun _ => hfound, fun h => absurd h (by omega)⟩⟩
  refine Runs.bind (.check_call (l := fun _ => .out 4) ⟨3, rfl⟩ fun sys w => ?_) fun _ l hl => ?_
  · refine (attempt_cases _ _ _).imp_right fun h => ⟨(), ?_⟩
    rw [Host.secureLock, h]
    refine ⟨rfl, .checked ⟨⟨.same, .mapped⟩, rfl, rfl, rfl⟩ fun hs => ?_⟩
    obtain ⟨file, hfound, htyped⟩ := hs.lockFile.fileType le_rfl
    refine ⟨⟨fun _ => hs.runDir.fileType (by omega), fun _ => hs.runDir.mode (by omega)⟩, ⟨fun _ => ?_, fun _ => ?_⟩⟩
    · exact ⟨_, congrArg (Option.map _) hfound, htyped⟩
    · exact ⟨_, congrArg (Option.map _) hfound, rfl⟩
  subst hl
  refine Runs.bind
    (.call (G := fun r l => l = if r = .ok () then .owner false false else .out 4) fun sys w => ?_) fun r l hl => ?_
  · unfold Host.flock Sys.attempt
    split
    · exact ⟨.out 4, .still (.refl w), rfl⟩
    · split
      · exact ⟨_, .taken ‹_›, rfl⟩
      · exact ⟨.out 4, .still (.refl w), rfl⟩
  · split
    · exact .pure hl
    · exact .fail ⟨4, hl⟩
    · refine .fail ⟨4, hl.trans (if_neg ?_)⟩
      rintro ⟨⟩

theorem runs_unlock (hk : k.Owner ∨ k.Closed) : Runs i (unlock i) k (fun _ => Tenure.Out) Tenure.Out := by
  refine .call fun sys w => ⟨.out 0, ?_, ⟨0, rfl⟩⟩
  rcases hk with ⟨quiet, typed, rfl⟩ | ⟨identity, linked, rfl⟩
  · exact .unlocked
  · exact .resigned

/-- An attempt to connect that shows that nobody is listening. -/
def refused : Option (Except ErrorKind Unit) → Bool
  | some (.error kind) => isStaleSignal kind
  | _ => false

theorem quiet_of_refused {sys : Sys} {w : Host} (h : refused (w.connect sys) = true) : w.Quiet := by
  intro found hfound
  cases hlistening : w.listening found.identity with
  | none => rfl
  | some party =>
      simp only [Host.connect, hfound, hlistening] at h
      split at h
      · split at h
        · cases h
        · exact absurd h ‹_›
      · rename_i hnot
        unfold refused at h
        split at h
        · exact absurd ‹_› (hnot _ _ rfl)
        · cases h

theorem runs_sleepBetween {count : Nat} : Runs i (sleepBetween i count) k (fun _ l => l = k) B := by
  cases count with
  | zero => exact .pure rfl
  | succ count => exact .look fun _ w => .refl w

theorem runs_confirmStale {confirmations : Nat} : Runs i (confirmStale i path identity confirmations) (.owner false true)
    (fun _ => Tenure.Owner) Tenure.Owner := by
  induction confirmations with
  | zero => exact .fail ⟨_, _, rfl⟩
  | succ confirmations ih =>
      unfold confirmStale
      refine Runs.bind (.call (G := fun r l => l = .owner (refused r) true) fun sys w => ?_) fun r l hl => ?_
      · exact ⟨_, .learned (fun h => .inr (quiet_of_refused h)) fun _ => .inl rfl, rfl⟩
      · subst hl
        split
        · refine Runs.bind runs_sleepBetween fun _ l hl => ?_
          subst hl
          exact ih
        · rename_i kind
          split
          · rename_i hstale
            rw [refused, hstale]
            refine .look_bind (fun _ _ => neutral_metadata) ⟨_, _, rfl⟩ fun current => ?_
            refine .ensure_bind ⟨_, _, rfl⟩ fun _ => ?_
            refine .check (.call (G := fun _ l => l = .owner true true) fun sys w => ?_) (fun _ l hl => ⟨_, _, hl⟩)
              fun _ l hl => ⟨_, _, hl⟩
            refine ⟨_, ?_, rfl⟩
            unfold Host.removeSocket Sys.attempt
            split
            · exact .still (.refl w)
            · split
              · exact .still (.refl w)
              · split
                · exact .still (.refl w)
                · exact .removed
          · exact .fail ⟨_, _, rfl⟩
        · exact .fail ⟨_, _, rfl⟩

def isSocket : Except ErrorKind Metadata → Bool
  | .ok found => found.fileType = .socket
  | .error _ => false

theorem typed_of_isSocket {sys : Sys} {w : Host} (h : isSocket (w.metadata sys w.socket).1 = true) : w.Typed := by
  intro found hfound
  unfold Host.metadata Sys.attempt at h
  split at h
  · cases h
  · rw [hfound] at h
    exact of_decide_eq_true h

theorem runs_removeStaleControlSocket : Runs i (removeStaleControlSocket i path) (.owner false false)
    (fun _ => Tenure.Owner) Tenure.Owner := by
  unfold removeStaleControlSocket
  refine Runs.bind (.call (G := fun r l => l = .owner false (isSocket r)) fun sys w => ?_) fun r l hl => ?_
  · refine ⟨_, ?_, rfl⟩
    rw [metadata_snd]
    exact .learned (fun h => .inl h) fun h => .inr (typed_of_isSocket h)
  · subst hl
    split
    · exact .pure ⟨_, _, rfl⟩
    · exact .fail ⟨_, _, rfl⟩
    · rename_i found
      refine .ensure_bind ⟨_, _, rfl⟩ fun hsocket => ?_
      rw [isSocket, decide_eq_true hsocket]
      exact runs_confirmStale

theorem runs_removeSocketIfOwned {closed : Bool} {expected : SocketIdentity} :
    Runs i (removeSocketIfOwned i expected) (.bound identity closed true)
      (fun _ l => ∃ linked, l = .bound identity closed linked) B := by
  unfold removeSocketIfOwned
  refine Runs.bind (.look fun _ _ => neutral_metadata) fun r l hl => ?_
  subst hl
  split
  · exact .pure ⟨_, rfl⟩
  · split
    · refine Runs.bind (.call (G := fun _ l => ∃ linked, l = .bound identity closed linked) fun sys w => ?_)
        fun _ l hl => .pure hl
      unfold Host.removeSocket Sys.attempt
      split
      · exact ⟨_, .still (.refl w), _, rfl⟩
      · split
        · exact ⟨_, .still (.refl w), _, rfl⟩
        · split
          · exact ⟨_, .still (.refl w), _, rfl⟩
          · exact ⟨_, .unlinked, _, rfl⟩
    · exact .pure ⟨_, rfl⟩

theorem runs_closeListener {closed linked : Bool} : Runs i (closeListener i identity) (.bound identity closed linked)
    (fun _ l => l = .bound identity true linked) B :=
  .call fun _ _ => ⟨_, .closed, rfl⟩

theorem runs_capture : Runs i (capture i path) k (fun _ l => l = k) (· = k) := by
  unfold capture
  refine .look_bind (fun _ _ => neutral_metadata) rfl fun found => ?_
  exact .ensure_bind rfl fun _ => .pure rfl

theorem runs_bindControlSocket : Runs i (bindControlSocket cfg i) (.owner false false)
    (fun bound l => l = .bound bound.listener false true) (fun l => l.Owner ∨ l.Closed) := by
  unfold bindControlSocket
  refine .look_bind (fun _ _ => neutral_createDirAll) (.inl ⟨_, _, rfl⟩) fun _ => ?_
  refine Runs.bind (runs_removeStaleControlSocket.weaken (fun _ _ h => h) fun _ h => .inl h) fun _ l hl => ?_
  obtain ⟨quiet, typed, rfl⟩ := hl
  refine Runs.bind (.check_call (l := fun listener => .bound listener true true) (.inl ⟨_, _, rfl⟩) fun sys w => ?_)
    fun listener l hl => ?_
  · unfold Host.bindSocket
    split
    · rename_i hfree
      refine (attempt_cases _ _ _).imp_right fun h => ⟨sys.identity, ?_⟩
      rw [h]
      exact ⟨rfl, .bound hfree.1 hfree.2⟩
    · exact .inl ((attempt_cases _ _ _).elim id fun h => ⟨_, h⟩)
  subst hl
  refine Runs.bind (.check_call (l :=
    fun _ => .bound listener false true) (.inr ⟨_, _, rfl⟩) fun sys w => ?_) fun _ l hl => ?_
  · refine (attempt_cases _ _ _).imp_right fun h => ⟨(), ?_⟩
    rw [Host.listen, h]
    exact ⟨rfl, .listens⟩
  subst hl
  refine .orDrop (M := fun l => ∃ linked, l = .bound listener false linked) ?_ fun l hl => ?_
  · refine Runs.bind (runs_capture.weaken (fun _ _ h => h) fun _ h => ⟨true, h⟩) fun ownedSocket l hl => ?_
    subst hl
    refine Runs.bind
      (.orDrop (M := fun l => l = .bound listener false true) (G := fun _ l => l = .bound listener false true)
        (.check_call (l := fun _ => .bound listener false true) rfl fun sys w => ?_) fun l hl => ?_)
      fun _ l hl => .pure hl
    · refine (attempt_cases _ _ _).imp_right fun h => ⟨(), ?_⟩
      rw [Host.secureSocket, h]
      exact ⟨rfl, .secured⟩
    · subst hl
      exact runs_removeSocketIfOwned
  · obtain ⟨linked, rfl⟩ := hl
    exact runs_closeListener.weaken (fun _ l h => .inr ⟨_, _, h⟩) fun _ h => .inr h

theorem runs_dropBound {bound : BoundControlSocket} : Runs i (dropBound i bound) (.bound bound.listener false true)
    (fun _ => Tenure.Closed) B := by
  unfold dropBound
  refine Runs.bind runs_closeListener fun _ l hl => ?_
  subst hl
  exact runs_removeSocketIfOwned.weaken (fun _ _ ⟨linked, h⟩ => ⟨_, linked, h⟩) fun _ h => h

theorem runs_serveUntilShutdown : Runs i (serveUntilShutdown i) k (fun _ l => l = k) (· = k) := by
  unfold serveUntilShutdown
  refine Runs.bind (.look fun _ w => .refl w) fun r l hl => ?_
  split
  · exact .fail hl
  · exact .pure hl

theorem runs_runDaemon : Runs i (runDaemon cfg i) (.out 0) (fun _ => Tenure.Out) Tenure.Out := by
  unfold runDaemon
  refine Runs.bind runs_acquire fun _ l hl => ?_
  subst hl
  refine Runs.bind
    (.orDrop (G := fun _ => Tenure.Closed) ?_ fun l hl => (runs_unlock hl).weaken (fun _ _ h => h) fun _ h => h)
    fun _ l hl => runs_unlock (.inr hl)
  refine Runs.bind runs_bindControlSocket fun bound l hl => ?_
  subst hl
  refine Runs.bind
    (.orDrop (G := fun _ l => l = .bound bound.listener false true) runs_serveUntilShutdown fun l hl => ?_)
    fun _ l hl => ?_
  · subst hl
    exact runs_dropBound.weaken (fun _ _ h => .inr h) fun _ h => h
  · subst hl
    exact runs_dropBound

end Proc

end Causeway

import Causeway.Proof.Instances

/-!
# Exclusion of daemons

Runs of any number of processes on one host. At most one has the lock, only it touches the path of the control socket, and whoever listens can be reached there until it gives the path up itself.
-/

namespace Causeway

open Concurrent Prog

/-- A socket with this identity is at the path. -/
def Host.AtPath (w : Host) (identity : SocketIdentity) : Prop := ∃ mode, w.socket = some ⟨.socket, identity, mode⟩

/-- A host on which no process of the daemon runs; a legacy daemon may listen at the path. -/
structure Host.Fresh (w : Host) : Prop where
  lock : w.lock = none
  listening : ∀ identity party, w.listening identity = some party → party = .legacy ∧ w.AtPath identity

/-- Who listens, in a run that begins with `first`. -/
structure Lawful (first w : Host) : Prop where
  mine : ∀ identity i, w.listening identity = some (.process i) → w.lock = some i
  legacy : ∀ identity, w.listening identity = some .legacy → w.AtPath identity
  kept : ∀ identity, w.listening identity = some .legacy ↔ first.listening identity = some .legacy

/-- What the host has of the tenure of process `i`. -/
inductive Holds (i : Nat) (w : Host) : Tenure → Prop
  | out {stage : Nat} (lock : w.lock ≠ some i) (secured : w.Secured stage) : Holds i w (.out stage)
  | owner {quiet typed : Bool} (lock : w.lock = some i) (secured : w.Secured 4)
      (listening : ∀ identity, w.listening identity ≠ some (.process i))
      (hquiet : quiet = true → w.Quiet) (htyped : typed = true → w.Typed) : Holds i w (.owner quiet typed)
  | bound {identity : SocketIdentity} {closed linked : Bool} (lock : w.lock = some i) (secured : w.Secured 4)
      (listening : ∀ other, w.listening other = some (.process i) → other = identity ∧ closed = false)
      (unclaimed : w.listening identity ≠ some .legacy) (hlinked : linked = true → w.AtPath identity)
      (hunlinked : linked = false → w.socket = none) : Holds i w (.bound identity closed linked)

section

variable {first s t : Host} {i j : Nat} {k l m : Tenure}

theorem Hardens.shows {fileType : FileType} {mode : Nat} {typed moded : Prop} {before after : Option Metadata}
    (h : Hardens fileType mode before after) (hbefore : Reveals fileType mode typed moded before) :
    Reveals fileType mode typed moded after := by
  cases h with
  | same => exact hbefore
  | created free htyped =>
      refine ⟨fun _ => ⟨_, rfl, htyped⟩, fun hmoded => ?_⟩
      obtain ⟨found, hfound, -⟩ := hbefore.mode hmoded
      cases free.symm.trans hfound
  | secured old =>
      refine ⟨fun htyped => ?_, fun _ => ⟨_, rfl, rfl⟩⟩
      obtain ⟨found, hfound, hfileType⟩ := hbefore.fileType htyped
      cases old.symm.trans hfound
      exact ⟨_, rfl, hfileType⟩

theorem Host.Steadies.secured {stage : Nat} (h : s.Steadies t) (hs : s.Secured stage) : t.Secured stage :=
  ⟨h.runDir.shows hs.runDir, h.lockFile.shows hs.lockFile⟩

theorem Host.secured_zero : s.Secured 0 :=
  ⟨⟨fun h => absurd h (by omega), fun h => absurd h (by omega)⟩, ⟨fun h => absurd h (by omega),
    fun h => absurd h (by omega)⟩⟩

theorem Handles.steadies (h : Handles i k s t l) : s.Steadies t := by
  have hunlock : s.Steadies (s.unlock i) := by
    unfold Host.unlock
    split <;> exact ⟨.same, .same⟩
  cases h with
  | still neutral => exact neutral.files
  | checked neutral => exact neutral.files
  | unlocked => exact hunlock
  | resigned => exact hunlock
  | killed => exact ⟨hunlock.runDir, hunlock.lockFile⟩
  | _ => exact ⟨.same, .same⟩

theorem Lawful.neutral (h : Lawful first s) (hneutral : Neutral s t) : Lawful first t := by
  obtain ⟨-, hsocket, hlock, hlistening⟩ := hneutral
  refine ⟨fun identity j hj => ?_, fun identity hlegacy => ?_, fun identity => ?_⟩
  · rw [hlistening] at hj
    rw [hlock]
    exact h.mine identity j hj
  · rw [hlistening] at hlegacy
    rw [Host.AtPath, hsocket]
    exact h.legacy identity hlegacy
  · rw [hlistening]
    exact h.kept identity

/-- A process that has the lock loses nothing where others close their listeners. -/
theorem Holds.transport (h : Holds j s m) (hfiles : s.Steadies t) (hlock : t.lock = s.lock)
    (hsocket : t.socket = s.socket)
    (hlistening : ∀ identity, t.listening identity = s.listening identity ∨ t.listening identity = none) :
      Holds j t m := by
  have hsame : ∀ {identity : SocketIdentity} {party : Party}, t.listening identity = some party →
      s.listening identity = some party := by
    intro identity party ht
    rcases hlistening identity with heq | hnone
    · rw [← heq, ht]
    · rw [hnone] at ht
      cases ht
  cases h with
  | out lock secured => exact .out (hlock ▸ lock) (hfiles.secured secured)
  | owner lock secured listening hquiet htyped =>
      refine .owner (hlock.trans lock) (hfiles.secured secured) (fun identity ht => listening identity (hsame ht))
        (fun hq found hfound => ?_) fun ht => ?_
      · rcases hlistening found.identity with heq | hnone
        · rw [heq]
          exact hquiet hq found (hsocket ▸ hfound)
        · exact hnone
      · rw [Host.Typed, hsocket]
        exact htyped ht
  | bound lock secured listening unclaimed hlinked hunlinked =>
      refine .bound (hlock.trans lock) (hfiles.secured secured) (fun other ht => listening other (hsame ht))
        (fun ht => unclaimed (hsame ht))
        (fun h => ?_) fun h => hsocket.trans (hunlinked h)
      rw [Host.AtPath, hsocket]
      exact hlinked h

theorem Host.unlock_self (h : s.lock = some i) : s.unlock i = { s with lock := none } := if_pos h

theorem Host.unlock_socket : (s.unlock i).socket = s.socket := by
  unfold unlock
  split <;> rfl

theorem Host.kill_socket : (s.kill i).socket = s.socket := by
  unfold kill unlock
  split <;> rfl

theorem Host.kill_lock : (s.kill i).lock = if s.lock = some i then none else s.lock := by
  unfold kill unlock
  split <;> rfl

theorem Lawful.unlock (h : Lawful first s) (hi : s.lock = some i)
    (hlistening : ∀ identity, s.listening identity ≠ some (.process i)) :
    Lawful first (s.unlock i) ∧ Holds i (s.unlock i) (.out 0) := by
  rw [Host.unlock_self hi]
  refine ⟨⟨fun identity j hj => ?_, h.legacy, h.kept⟩, .out (Option.some_ne_none i).symm Host.secured_zero⟩
  cases (h.mine identity j hj).symm.trans hi
  exact absurd hj (hlistening identity)

theorem Lawful.kill (h : Lawful first s) : Lawful first (s.kill i) ∧ Holds i (s.kill i) (.out 0) := by
  have hlistening : ∀ {identity : SocketIdentity} {party : Party}, (s.kill i).listening identity = some party →
      s.listening identity = some party ∧ party ≠ .process i := by
    intro identity party hparty
    unfold Host.kill at hparty
    dsimp only at hparty
    split at hparty
    · cases hparty
    · refine ⟨hparty, ?_⟩
      rintro rfl
      exact absurd hparty ‹_›
  refine ⟨⟨fun identity j hj => ?_, fun identity hlegacy => ?_, fun identity => ⟨fun hlegacy => ?_, fun hlegacy => ?_⟩⟩,
    .out ?_ Host.secured_zero⟩
  · obtain ⟨hj, hne⟩ := hlistening hj
    rw [Host.kill_lock, if_neg]
    · exact h.mine identity j hj
    · rw [h.mine identity j hj]
      rintro ⟨⟩
      exact hne rfl
  · rw [Host.AtPath, Host.kill_socket]
    exact h.legacy identity (hlistening hlegacy).1
  · exact (h.kept identity).mp (hlistening hlegacy).1
  · have hlegacy := (h.kept identity).mpr hlegacy
    unfold Host.kill
    dsimp only
    rw [if_neg, hlegacy]
    rw [hlegacy]
    rintro ⟨⟩
  · rw [Host.kill_lock]
    split
    · exact (Option.some_ne_none i).symm
    · exact ‹_›

theorem Handles.own (h : Handles i k s t l) (hs : Lawful first s) (hk : Holds i s k) :
    Lawful first t ∧ Holds i t l := by
  have hfiles : ∀ {stage}, s.Secured stage → t.Secured stage := h.steadies.secured
  cases h with
  | still neutral =>
      exact ⟨hs.neutral neutral,
        hk.transport neutral.files neutral.lock neutral.socket fun identity => .inl (congrFun neutral.listening identity)⟩
  | checked neutral secured =>
      cases hk with
      | out lock hsecured => exact ⟨hs.neutral neutral, .out (neutral.lock ▸ lock) (secured hsecured)⟩
  | taken free =>
      have hidle : ∀ identity j, s.listening identity ≠ some (.process j) := fun identity j hj => by
        cases free.symm.trans (hs.mine identity j hj)
      have hsecured : s.Secured 4 := by
        cases hk with
        | out lock secured => exact secured
      exact ⟨⟨fun identity j hj => absurd hj (hidle identity j), hs.legacy, hs.kept⟩,
        .owner rfl (hfiles hsecured) (fun identity => hidle identity i)
          (fun h => absurd h Bool.false_ne_true) fun h => absurd h Bool.false_ne_true⟩
  | learned learnedQuiet learnedTyped =>
      cases hk with
      | owner lock secured listening hquiet htyped =>
          exact ⟨hs, .owner lock (hfiles secured) listening (fun h => (learnedQuiet h).elim hquiet id) fun h => (learnedTyped h).elim htyped id⟩
  | removed =>
      cases hk with
      | owner lock secured listening hquiet htyped =>
          refine ⟨⟨hs.mine, fun identity hlegacy => ?_, hs.kept⟩,
            .owner lock (hfiles secured) listening (fun _ _ h => ?_) fun _ _ h => ?_⟩
          · obtain ⟨mode, hsocket⟩ := hs.legacy identity hlegacy
            cases (hquiet rfl _ hsocket).symm.trans hlegacy
          · cases h
          · cases h
  | bound free unused =>
      cases hk with
      | owner lock secured listening =>
          refine ⟨⟨hs.mine, fun identity hlegacy => ?_, hs.kept⟩, .bound lock (hfiles secured)
            (fun other hother => absurd hother (listening other))
            (fun hlegacy => ?_) (fun _ => ⟨_, rfl⟩) fun h => absurd h Bool.false_ne_true.symm⟩
          · obtain ⟨mode, hsocket⟩ := hs.legacy identity hlegacy
            cases free.symm.trans hsocket
          · cases unused.symm.trans hlegacy
  | @listens _ identity =>
      cases hk with
      | bound lock secured listening unclaimed hlinked hunlinked =>
          refine ⟨⟨fun other j hj => ?_, fun other hlegacy => ?_, fun other => ?_⟩, .bound lock (hfiles secured)
            (fun other hother => ?_) ?_ hlinked
            hunlinked⟩
          · by_cases heq : other = identity
            · subst heq
              cases (Function.update_self (f := s.listening) other _).symm.trans hj
              exact lock
            · exact hs.mine other j ((Function.update_of_ne heq _ _).symm.trans hj)
          · by_cases heq : other = identity
            · subst heq
              cases (Function.update_self (f := s.listening) other _).symm.trans hlegacy
            · exact hs.legacy other ((Function.update_of_ne heq _ _).symm.trans hlegacy)
          · by_cases heq : other = identity
            · subst heq
              rw [← hs.kept]
              refine ⟨fun hlegacy => ?_, fun hlegacy => absurd hlegacy unclaimed⟩
              cases (Function.update_self (f := s.listening) other _).symm.trans hlegacy
            · rw [← hs.kept]
              dsimp only
              rw [Function.update_of_ne heq]
          · by_cases heq : other = identity
            · exact ⟨heq, rfl⟩
            · cases (listening other ((Function.update_of_ne heq _ _).symm.trans hother)).2
          · dsimp only
            rw [Function.update_self]
            rintro ⟨⟩
  | @secured _ _ _ mode =>
      cases hk with
      | bound lock secured listening unclaimed hlinked hunlinked =>
          have hsecured : ∀ other, s.AtPath other → ∃ mode', s.socket.map (fun found => { found with mode := mode }) =
              some ⟨.socket, other, mode'⟩ := fun other ⟨_, hsocket⟩ => ⟨mode, congrArg (Option.map _) hsocket⟩
          refine ⟨⟨hs.mine, fun other hlegacy => hsecured other (hs.legacy other hlegacy), hs.kept⟩,
            .bound lock (hfiles secured) listening unclaimed (fun _ => hsecured _ (hlinked rfl)) fun h => ?_⟩
          cases h
  | @closed _ identity =>
      cases hk with
      | bound lock secured listening unclaimed hlinked hunlinked =>
          have hopen : ∀ {other : SocketIdentity}
            {party : Party}, (s.closeListener identity).listening other = some party →
              other ≠ identity ∧ s.listening other = some party := by
            intro other party hother
            by_cases heq : other = identity
            · subst heq
              cases (Function.update_self (f := s.listening) other _).symm.trans hother
            · exact ⟨heq, (Function.update_of_ne heq _ _).symm.trans hother⟩
          refine ⟨⟨fun other j hj => hs.mine other j (hopen hj).2, fun other hlegacy => hs.legacy other (hopen hlegacy).2,
            fun other => ?_⟩, .bound lock (hfiles secured)
              (fun other hother => absurd (listening other (hopen hother).2).1 (hopen hother).1)
            (fun hlegacy => absurd rfl (hopen hlegacy).1) hlinked hunlinked⟩
          rw [← hs.kept]
          refine ⟨fun hlegacy => (hopen hlegacy).2, fun hlegacy => (Function.update_of_ne ?_ _ _).trans hlegacy⟩
          rintro rfl
          exact unclaimed hlegacy
  | unlinked =>
      cases hk with
      | bound lock secured listening unclaimed hlinked hunlinked =>
          obtain ⟨mode, hsocket⟩ := hlinked rfl
          refine ⟨⟨hs.mine, fun other hlegacy => ?_, hs.kept⟩,
            .bound lock (hfiles secured) listening unclaimed (fun h => ?_) fun _ => rfl⟩
          · obtain ⟨mode, hother⟩ := hs.legacy other hlegacy
            cases hsocket.symm.trans hother
            exact absurd hlegacy unclaimed
          · cases h
  | unlocked =>
      cases hk with
      | owner lock secured listening => exact hs.unlock lock listening
  | resigned =>
      cases hk with
      | bound lock secured listening =>
          exact hs.unlock lock fun other hother => absurd (listening other hother).2 Bool.false_ne_true.symm
  | killed => exact hs.kill

theorem Handles.other (h : Handles i k s t l) (hk : Holds i s k) (hij : j ≠ i) (hm : Holds j s m) : Holds j t m := by
  have hfiles : s.Steadies t := h.steadies
  by_cases hj : s.lock = some j
  · have hfree : s.lock ≠ some i := by
      rw [hj]
      rintro ⟨⟩
      exact hij rfl
    cases hk with
    | out =>
        cases h with
        | still neutral => exact hm.transport neutral.files neutral.lock neutral.socket fun identity => .inl (congrFun neutral.listening identity)
        | checked neutral =>
            exact hm.transport neutral.files neutral.lock neutral.socket fun identity => .inl (congrFun neutral.listening identity)
        | taken free => cases free.symm.trans hj
        | killed =>
            refine hm.transport hfiles ?_ Host.kill_socket fun identity => ?_
            · rw [Host.kill_lock, if_neg hfree]
            · unfold Host.kill
              dsimp only
              split
              · exact .inr rfl
              · exact .inl rfl
    | owner lock => exact absurd lock hfree
    | bound lock => exact absurd lock hfree
  · have hout : t.lock ≠ some j → Holds j t m := fun ht => by
      cases hm with
      | out lock secured => exact .out ht (hfiles.secured secured)
      | owner lock => exact absurd lock hj
      | bound lock => exact absurd lock hj
    refine hout ?_
    have hunlock : (s.unlock i).lock ≠ some j := by
      unfold Host.unlock
      split
      · exact (Option.some_ne_none j).symm
      · exact hj
    cases h with
    | still neutral => rwa [neutral.lock]
    | checked neutral => rwa [neutral.lock]
    | taken =>
        rintro ⟨⟩
        exact hij rfl
    | unlocked => exact hunlock
    | resigned => exact hunlock
    | killed => exact hunlock
    | _ => exact hj

/-- What is at the path is touched by the process that has the lock, and nobody else is listening; it is a socket, if it is anything. -/
structure Rightful (m : Move Host) : Prop where
  lock : m.before.lock = some m.thread
  alone : ∀ identity party, m.before.listening identity = some party → party = .process m.thread
  typed : m.before.Typed

theorem Handles.rightful (h : Handles i k s t l) (hs : Lawful first s) (hk : Holds i s k)
    (hchanged : t.socket ≠ s.socket) :
    Rightful ⟨i, s, t⟩ := by
  have hprocess : ∀ {identity : SocketIdentity} {j : Nat}, s.lock = some i → s.listening identity = some (.process j) →
      Party.process j = .process i := fun hlock hj => by
    cases (hs.mine _ _ hj).symm.trans hlock
    rfl
  have hlinked : ∀ {identity : SocketIdentity} {closed : Bool}, Holds i s (.bound identity closed true) →
    Rightful ⟨i, s, t⟩ := by
    intro identity closed hk
    cases hk with
    | bound lock secured listening unclaimed hlinked =>
        obtain ⟨mode, hsocket⟩ := hlinked rfl
        refine ⟨lock, fun other party hparty => ?_, fun found hfound => ?_⟩
        · cases party with
          | process j => exact hprocess lock hparty
          | legacy =>
              obtain ⟨mode, hother⟩ := hs.legacy other hparty
              cases hsocket.symm.trans hother
              exact absurd hparty unclaimed
        · cases hsocket.symm.trans hfound
          rfl
  cases h with
  | still neutral => exact absurd neutral.socket hchanged
  | checked neutral => exact absurd neutral.socket hchanged
  | taken => exact absurd rfl hchanged
  | learned => exact absurd rfl hchanged
  | removed =>
      cases hk with
      | owner lock secured listening hquiet htyped =>
          refine ⟨lock, fun identity party hparty => ?_, htyped rfl⟩
          cases party with
          | process j => exact hprocess lock hparty
          | legacy =>
              obtain ⟨mode, hsocket⟩ := hs.legacy identity hparty
              cases (hquiet rfl _ hsocket).symm.trans hparty
  | bound free =>
      cases hk with
      | owner lock secured listening =>
          refine ⟨lock, fun identity party hparty => ?_, fun found hfound => ?_⟩
          · cases party with
            | process j => exact hprocess lock hparty
            | legacy =>
                obtain ⟨mode, hsocket⟩ := hs.legacy identity hparty
                cases free.symm.trans hsocket
          · cases free.symm.trans hfound
  | listens => exact absurd rfl hchanged
  | closed => exact absurd rfl hchanged
  | unlocked => exact absurd Host.unlock_socket hchanged
  | resigned => exact absurd Host.unlock_socket hchanged
  | killed => exact absurd Host.kill_socket hchanged
  | secured => exact hlinked hk
  | unlinked => exact hlinked hk

end

/-! ### Runs -/

namespace Sample

def instanceConfig : FilesConfig :=
  ⟨["/", "data", "state.json"], ["/", "log"], ["sslocal"], ["obfs"], ["singbox"], ⟨[], none, ∅⟩⟩

def emptyHost : Host := ⟨none, none, none, none, fun _ => none⟩

def legacyHost : Host :=
  { emptyHost with
    socket := some ⟨.socket, ⟨1, 7⟩, 0o600⟩
    listening := fun identity => if identity = ⟨1, 7⟩ then some .legacy else none }

theorem emptyHost_fresh : emptyHost.Fresh := ⟨rfl, fun _ _ h => (nomatch h)⟩

theorem legacyHost_fresh : legacyHost.Fresh := by
  refine ⟨rfl, fun identity party h => ?_⟩
  simp only [legacyHost] at h
  split at h
  · cases h
    exact ⟨rfl, _, by rw [‹identity = _›]; rfl⟩
  · cases h

def granted : Sys := { identity := ⟨1, 7⟩, mode := 0o755 }

def calls (pid count : Nat) (sys : Sys) : List (Nat × Sys) := List.replicate count (pid, sys)

/-- A daemon is killed while it serves; another one starts and takes its place, and a third one is turned away. -/
def takeover : List (Nat × Sys) :=
  calls 0 13 granted ++ calls 0 1 { granted with killed := true } ++ calls 1 14 granted ++ calls 2 7 granted

end Sample

section

variable {cfg : FilesConfig} {w : Host} {moves : List (Move Host)} {last : Pool Host Sys (Except Exit Unit)}

/-- The tenures of all processes in a run. -/
theorem instance_tenures (h : w.Fresh) :
    Pool.Chronicle Handles (fun _ => Ends (fun _ => Tenure.Out) Tenure.Out) (fun _ => .out 0)
    (Lawful w) (fun i k u => Holds i u k) (instances cfg w) moves where
  tells _ := Proc.runs_runDaemon
  shared := ⟨fun identity j hj => (nomatch (h.listening identity _ hj).1),
    fun identity hlegacy => (h.listening identity _ hlegacy).2,
    fun _ => Iff.rfl⟩
  threads i := .out (by rw [instances, h.lock]; exact (Option.some_ne_none i).symm) Host.secured_zero
  own _ _ _ _ hstep hX hY := hstep.own hX hY
  others _ _ _ hi _ _ _ hstep hY hother := hstep.other hY hi hother

/-- A step of a run, with what its process has. -/
theorem instance_step (h : w.Fresh) (run : (instances cfg w).Run moves last) {m : Move Host} (hm : m ∈ moves) :
    ∃ j k, Lawful w m.before ∧ Holds m.thread m.before j ∧ Handles m.thread j m.before m.after k := by
  obtain ⟨before, after, rfl⟩ := List.append_of_mem hm
  obtain ⟨⟨l, story, -⟩, -⟩ := (run.chronicle (instance_tenures h)).2 m.thread
  obtain ⟨hX, j, k, -, hY, hstep, -⟩ := run.chapter (instance_tenures h) story
  exact ⟨j, k, hX, hY, hstep⟩

/-- The run directory is a real directory that only its user may enter, and the lock file a regular one that only he may open. -/
structure Host.Private (w : Host) : Prop where
  runDir : ∃ identity, w.runDir = some ⟨.dir, identity, 0o700⟩
  lockFile : ∃ identity, w.lockFile = some ⟨.file, identity, 0o600⟩

theorem Reveals.both {fileType : FileType} {mode : Nat} {file : Option Metadata} {typed moded : Prop}
    (h : Reveals fileType mode typed moded file)
    (htyped : typed) (hmoded : moded) : ∃ identity, file = some ⟨fileType, identity, mode⟩ := by
  obtain ⟨found, hfound, rfl⟩ := h.fileType htyped
  obtain ⟨_, hother, rfl⟩ := h.mode hmoded
  cases hfound.symm.trans hother
  exact ⟨found.identity, hfound⟩

theorem Host.Secured.isPrivate (h : w.Secured 4) : w.Private :=
  ⟨h.runDir.both (by omega) (by omega), h.lockFile.both (by omega) (by omega)⟩

/-- While a process has the lock, its files are private, whatever the starts of others do. -/
theorem lock_holder_private (h : w.Fresh) (run : (instances cfg w).Run moves last) {i : Nat}
    (hi : last.shared.lock = some i) :
    last.shared.Private := by
  obtain ⟨⟨l, story, -⟩, hY⟩ := (run.chronicle (instance_tenures h)).2 i
  cases hY l story with
  | out lock => exact absurd hi lock
  | owner lock secured => exact secured.isPrivate
  | bound lock secured => exact secured.isPrivate

theorem lock_holder_private_takeover : ∃ moves last, (instances Sample.instanceConfig Sample.emptyHost).Run moves last ∧
    last.shared.lock = some 1 ∧ last.shared.Private := by
  obtain ⟨moves, last, run, -, hlast⟩ :=
    Pool.exec_reaches Sample.takeover (instances Sample.instanceConfig Sample.emptyHost)
    (fun pool => decide (pool.shared.lock = some 1)) (by decide +kernel)
  exact ⟨moves, last, run, of_decide_eq_true hlast,
    lock_holder_private Sample.emptyHost_fresh run (of_decide_eq_true hlast)⟩

/-- In every run of any number of daemons, each killed wherever it may be: a process that listens has the lock, and its socket is at the path until the process itself takes it away; what is at the path is changed only by the process that has the lock, while nobody else listens, and nothing but a socket is ever removed. -/
theorem control_socket_exclusive (h : w.Fresh) (run : (instances cfg w).Run moves last) :
    (∀ identity i, last.shared.listening identity = some (.process i) → last.shared.lock = some i ∧
      (last.shared.AtPath identity ∨
        ∃ m ∈ moves, m.thread = i ∧ m.before.AtPath identity ∧ m.after.socket = none)) ∧
    ∀ m ∈ moves, m.after.socket ≠ m.before.socket → Rightful m := by
  refine ⟨fun identity i hi => ?_, fun m hm hchanged => ?_⟩
  · obtain ⟨hX, hthreads⟩ := run.chronicle (instance_tenures h)
    refine ⟨hX.mine identity i hi, ?_⟩
    obtain ⟨⟨l, story, -⟩, hY⟩ := hthreads i
    cases hY l story with
    | out lock => exact absurd (hX.mine identity i hi) lock
    | owner lock secured listening => exact absurd hi (listening identity)
    | @bound owned closed linked lock secured listening unclaimed hlinked hunlinked =>
        obtain ⟨rfl, -⟩ := listening identity hi
        cases linked with
        | true => exact .inl (hlinked rfl)
        | false =>
            -- The socket was at the path when the process had bound it.
            obtain ⟨others, ⟨s, t⟩, later, j, k, heq, hfirst, hstep, -, hj, hk⟩ :=
              story.lost (X := fun k => ∀ closed, k ≠ .bound identity closed false) (fun _ h => nomatch h) (by simp)
            obtain ⟨before, after, rfl, rfl, rfl⟩ := Pool.own_eq_append heq
            obtain ⟨mid, hbefore, hafter⟩ := run.split
            have hmid := ((hbefore.chronicle (instance_tenures h)).2 i).2 j hfirst
            rw [← hafter.before_eq] at hmid
            simp only [not_forall, not_not] at hk
            obtain ⟨closed, rfl⟩ := hk
            refine .inr ⟨⟨i, s, t⟩, by simp, rfl, ?_⟩
            replace hstep : Handles i j s t (.bound identity closed false) := hstep
            cases hstep with
            | still => exact absurd rfl (hj closed)
            | @closed _ _ open' => exact absurd rfl (hj open')
            | unlinked =>
                cases hmid with
                | bound lock secured listening unclaimed hlinked => exact ⟨hlinked rfl, rfl⟩
  · obtain ⟨j, k, hX, hY, hstep⟩ := instance_step h run hm
    exact hstep.rightful hX hY hchanged

/-- The second daemon listens, and has removed what the first one left. -/
theorem control_socket_exclusive_takeover : ∃ moves last,
    (instances Sample.instanceConfig Sample.emptyHost).Run moves last ∧
    last.shared.listening ⟨1, 7⟩ = some (.process 1) ∧
    (∀ identity i, last.shared.listening identity = some (.process i) → last.shared.lock = some i ∧
      (last.shared.AtPath identity ∨
        ∃ m ∈ moves, m.thread = i ∧ m.before.AtPath identity ∧ m.after.socket = none)) ∧
    ∀ m ∈ moves, m.after.socket ≠ m.before.socket → Rightful m := by
  obtain ⟨moves, last, run, -, hlast⟩ :=
    Pool.exec_reaches Sample.takeover (instances Sample.instanceConfig Sample.emptyHost)
    (fun pool => decide (pool.shared.listening ⟨1, 7⟩ = some (.process 1))) (by decide +kernel)
  exact ⟨moves, last, run, of_decide_eq_true hlast, control_socket_exclusive Sample.emptyHost_fresh run⟩

/-- A daemon that listens without the lock is left alone: its socket stays at the path, and no process comes to listen. -/
theorem legacy_daemon_spared (h : w.Fresh) (run : (instances cfg w).Run moves last) {identity : SocketIdentity}
    (hlegacy : w.listening identity = some .legacy) :
    last.shared.listening identity = some .legacy ∧ (∀ m ∈ moves, m.after.socket = m.before.socket) ∧
      ∀ other i, last.shared.listening other ≠ some (.process i) := by
  have hX := (run.chronicle (instance_tenures h)).1
  have hkept := (hX.kept identity).mpr hlegacy
  have hsame : ∀ m ∈ moves, m.after.socket = m.before.socket := fun m hm => by
    obtain ⟨j, k, hX, hY, hstep⟩ := instance_step h run hm
    by_contra hchanged
    cases (hstep.rightful hX hY hchanged).alone identity _ ((hX.kept identity).mpr hlegacy)
  refine ⟨hkept, hsame, fun other i hi => ?_⟩
  obtain ⟨mode, hsocket⟩ := hX.legacy identity hkept
  obtain ⟨⟨l, story, -⟩, hY⟩ := (run.chronicle (instance_tenures h)).2 i
  cases hY l story with
  | out lock => exact lock (hX.mine other i hi)
  | owner lock secured listening => exact listening other hi
  | @bound owned closed linked lock secured listening unclaimed hlinked hunlinked =>
      cases linked with
      | false => cases (hunlinked rfl).symm.trans hsocket
      | true =>
          obtain ⟨_, howned⟩ := hlinked rfl
          cases hsocket.symm.trans howned
          exact unclaimed hkept

end

/-- A process finds a legacy daemon at the path and gives the lock up again. -/
theorem legacy_daemon_spared_start : ∃ moves last, (instances Sample.instanceConfig Sample.legacyHost).Run moves last ∧
    moves.length = 19 ∧ last.shared.lock = none ∧ last.shared.listening ⟨1, 7⟩ = some .legacy ∧
      (∀ m ∈ moves, m.after.socket = m.before.socket) ∧ ∀ other i, last.shared.listening other ≠ some (.process i) := by
  obtain ⟨moves, last, run, hthreads, hlast⟩ := Pool.exec_reaches (Sample.calls 0 19 Sample.granted)
    (instances Sample.instanceConfig Sample.legacyHost) (fun pool => decide (pool.shared.lock = none)) (by decide +kernel)
  have hlength : moves.length = 19 := by
    rw [← List.length_map (·.thread), hthreads]
    rfl
  exact ⟨moves, last, run, hlength, of_decide_eq_true hlast, legacy_daemon_spared Sample.legacyHost_fresh run (by decide)⟩

end Causeway

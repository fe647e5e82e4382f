import Causeway.Proof.Publication

/-!
# The state file

While no two threads write at once, the state file is always a complete serialization, and a save that has returned stays on disk until its transaction is published. Two saves of one kind are kept apart by the lock they hold; a transaction's save and a save outside the gate are not.
-/

namespace Causeway

open Concurrent History

/-! ### Bytes -/

theorem writeAt_end {content bytes : Bytes} {offset : Nat} (hle : offset ≤ content.length)
    (hbytes : bytes <+: content.drop offset) :
    writeAt (content.take offset) offset bytes = content.take (offset + bytes.length) := by
  obtain ⟨rest, hrest⟩ := hbytes
  have hlen : (content.take offset).length = offset := by
    rw [List.length_take]
    omega
  rw [writeAt, List.take_of_length_le hlen.le, List.drop_eq_nil_of_le (by omega), hlen, List.take_add, ← hrest]
  simp

/-! ### What holds of the state file -/

/-- The content is the serialization of a state that was passed to a save. -/
def Passed (env : Env) (passed : List StateFile) (P : StateFile → Prop) (content : Bytes) : Prop :=
  ∃ st ∈ passed, P st ∧ env.serialize st = some content

theorem Passed.cons {env : Env} {passed : List StateFile} {P : StateFile → Prop} {content : Bytes}
    (h : Passed env passed P content) (st : StateFile) : Passed env (st :: passed) P content := by
  obtain ⟨old, hold, hrest⟩ := h
  exact ⟨old, List.mem_cons_of_mem _ hold, hrest⟩

/-- What the kind of a save says of the state it saves. -/
def SaveKind.Names : SaveKind → StateFile → Prop
  | .shared, _ => True
  | .cloned target _, st => st.activeSubscription = some target

/-- The lock a save of this kind rests on. -/
def SaveKind.lock : SaveKind → LockName
  | .shared => .state
  | .cloned _ _ => .reconfiguration

/-- The pending publication while a save of this kind is in progress. -/
def SaveKind.pending : SaveKind → Option (String × Bool)
  | .shared => none
  | .cloned target _ => some (target, false)

/-- What a save in progress has made of the directory. -/
structure Writing (dir : StateDir) (save : Save) : Prop where
  bound : save.written ≤ save.content.length
  tmp : ∀ inode, save.inode = some inode → save.renamed = false →
    dir.tmp = some inode ∧ dir.inodes.content inode = save.content.take save.written
  done : save.renamed = true → dir.bytes = some save.content

structure FileInv (env : Env) (initial : Option Bytes) (hold : Nat → LockName → Hold) (f : Files) : Prop where
  dir : f.dir.Ok
  complete : f.dir.bytes = initial ∨ ∃ content, f.dir.bytes = some content ∧
    Passed env f.passed (fun _ => True) content
  source : ∀ i save, f.saves i = some save → Passed env f.passed save.kind.Names save.content
  writing : ∀ i save, f.saves i = some save → Writing f.dir save
  locked : ∀ i save, f.saves i = some save → hold i save.kind.lock = .write
  pending : ∀ i save, f.saves i = some save → f.window i = save.kind.pending
  gate : ∀ i, f.window i ≠ none → hold i .reconfiguration = .write
  saved : ∀ i target, f.window i = some (target, true) → ∃ content, f.dir.bytes = some content ∧
    Passed env f.passed (fun st => st.activeSubscription = some target) content

/-- A save outside the gate is in progress while a transaction is between its save and its publication. -/
def Clash (c : Core) : Prop :=
  ∃ i j save, c.files.saves i = some save ∧ save.kind = .shared ∧ c.hold i .reconfiguration = .none ∧
    c.files.window j ≠ none

/-- Thread `i` is the only one with a save or a publication pending. -/
def Alone (i : Nat) (f : Files) : Prop := ∀ j, j ≠ i → f.saves j = none ∧ f.window j = none

section

variable {env : Env} {initial : Option Bytes} {hold : Nat → LockName → Hold} {f g : Files} {i : Nat}

/-- Without a clash the locks keep the savers apart. -/
theorem FileInv.alone {c : Core} (h : FileInv env initial c.hold c.files) (hclash : ¬ Clash c) {save : Save}
    (hsave : c.files.saves i = some save) : Alone i c.files := by
  have hpending : ∀ j, j ≠ i → c.files.window j = none := by
    intro j hj
    by_contra hwindow
    have hgate := h.gate j hwindow
    cases hkind : save.kind with
    | shared => exact hclash ⟨i, j, save, hsave, hkind, Lock.hold_of_write hgate (Ne.symm hj), hwindow⟩
    | cloned target commit =>
        have hlocked := h.locked i save hsave
        rw [hkind] at hlocked
        exact hj (Lock.write_unique hgate hlocked)
  refine fun j hj => ⟨?_, hpending j hj⟩
  cases hother : c.files.saves j with
  | none => rfl
  | some other =>
      exfalso
      cases hkind : other.kind with
      | cloned target commit =>
          have := h.pending j other hother
          rw [hpending j hj, hkind] at this
          cases this
      | shared =>
          have hlocked := h.locked j other hother
          rw [hkind] at hlocked
          cases hkind' : save.kind with
          | shared =>
              have hlocked' := h.locked i save hsave
              rw [hkind'] at hlocked'
              exact hj (Lock.write_unique hlocked hlocked')
          | cloned target commit =>
              have hlocked' := h.locked i save hsave
              have hwindow := h.pending i save hsave
              rw [hkind'] at hlocked' hwindow
              refine hclash ⟨j, i, other, hother, hkind, Lock.hold_of_write hlocked' hj, ?_⟩
              rw [hwindow]
              simp [SaveKind.pending]

/-! ### The steps of a save -/

/-- A step on the temporary file: the state file and the pending publications stay. -/
theorem FileInv.onTmp {save next : Save} {dir : StateDir} (h : FileInv env initial hold f)
    (halone : Alone i f) (hsave : f.saves i = some save) (hdir : dir.Ok) (hbytes : dir.bytes = f.dir.bytes)
    (hkind : next.kind = save.kind) (hcontent : next.content = save.content) (hwriting : Writing dir next) :
    FileInv env initial hold { f with dir := dir, saves := Function.update f.saves i (some next) } := by
  have hother : ∀ j other, Function.update f.saves i (some next) j = some other → j = i ∧ other = next := by
    intro j other hj
    by_cases heq : j = i
    · subst heq
      rw [Function.update_self] at hj
      exact ⟨rfl, (Option.some.inj hj).symm⟩
    · rw [Function.update_of_ne heq, (halone j heq).1] at hj
      cases hj
  refine ⟨hdir, hbytes ▸ h.complete, ?_, ?_, ?_, ?_, h.gate, fun j target hj => hbytes ▸ h.saved j target hj⟩
  · intro j other hj
    obtain ⟨rfl, rfl⟩ := hother j other hj
    rw [hkind, hcontent]
    exact h.source _ save hsave
  · intro j other hj
    obtain ⟨rfl, rfl⟩ := hother j other hj
    exact hwriting
  · intro j other hj
    obtain ⟨rfl, rfl⟩ := hother j other hj
    rw [hkind]
    exact h.locked _ save hsave
  · intro j other hj
    obtain ⟨rfl, rfl⟩ := hother j other hj
    rw [hkind]
    exact h.pending _ save hsave

theorem openTmp_ok {dir : StateDir} (h : dir.Ok) :
    dir.openTmp.2.Ok ∧ dir.openTmp.2.bytes = dir.bytes ∧ dir.openTmp.2.tmp = some dir.openTmp.1 ∧
      dir.openTmp.2.inodes.content dir.openTmp.1 = [] := by
  unfold StateDir.openTmp
  cases htmp : dir.tmp with
  | some inode =>
      refine ⟨⟨fun other hother => h.tmp other (htmp.trans hother), h.file,
        fun other hother => h.apart other (htmp.trans hother)⟩, ?_, rfl, by simp [Inodes.truncate]⟩
      cases hfile : dir.file with
      | none => simp [StateDir.bytes, hfile]
      | some file =>
          have hne : file ≠ inode := by
            rintro rfl
            exact h.apart file htmp hfile
          simp [StateDir.bytes, hfile, Inodes.truncate, Function.update_of_ne hne]
  | none =>
      refine ⟨⟨?_, ?_, ?_⟩, ?_, rfl, by simp [Inodes.create]⟩
      · rintro _ ⟨⟩
        exact Nat.lt_succ_self _
      · exact fun file hfile => (h.file file hfile).trans (Nat.lt_succ_self _)
      · rintro _ ⟨⟩ hfile
        exact Nat.lt_irrefl _ (h.file _ hfile)
      · cases hfile : dir.file with
        | none => simp [StateDir.bytes, hfile]
        | some file =>
            have hne : file ≠ dir.inodes.next := (h.file file hfile).ne
            simp [StateDir.bytes, hfile, Inodes.create, Function.update_of_ne hne]

theorem FileInv.openTmp {save : Save} (h : FileInv env initial hold f) (halone : Alone i f)
    (hsave : f.saves i = some save) (hunnamed : save.renamed = false) :
    FileInv env initial hold { f with
      dir := f.dir.openTmp.2
      saves := Function.update f.saves i (some { save with inode := some f.dir.openTmp.1, written := 0 }) } := by
  obtain ⟨hok, hbytes, htmp, hempty⟩ := openTmp_ok h.dir
  refine h.onTmp halone hsave hok hbytes rfl rfl ⟨Nat.zero_le _, ?_, fun hrenamed => ?_⟩
  · rintro inode ⟨⟩ _
    exact ⟨htmp, hempty⟩
  · rw [hunnamed] at hrenamed
    cases hrenamed

theorem FileInv.write {save : Save} {inode : Nat} {bytes : Bytes} (h : FileInv env initial hold f)
    (halone : Alone i f) (hsave : f.saves i = some save) (hopened : save.inode = some inode)
    (hunnamed : save.renamed = false) (hnext : bytes <+: save.content.drop save.written) :
    FileInv env initial hold { f with
      dir := f.dir.write inode save.written bytes
      saves := Function.update f.saves i (some { save with written := save.written + bytes.length }) } := by
  have hwriting := h.writing i save hsave
  obtain ⟨htmp, hcontent⟩ := hwriting.tmp inode hopened hunnamed
  have hlen := hnext.length_le
  rw [List.length_drop] at hlen
  have hbound := hwriting.bound
  refine h.onTmp halone hsave ⟨h.dir.tmp, h.dir.file, h.dir.apart⟩ ?_ rfl rfl ⟨?_, ?_, fun hrenamed => ?_⟩
  · cases hfile : f.dir.file with
    | none => simp [StateDir.bytes, StateDir.write, hfile]
    | some file =>
        have hne : file ≠ inode := by
          rintro rfl
          exact h.dir.apart file htmp hfile
        simp [StateDir.bytes, StateDir.write, Inodes.write, hfile, Function.update_of_ne hne]
  · dsimp only
    omega
  · intro other hother _
    rw [hopened] at hother
    cases hother
    refine ⟨htmp, ?_⟩
    simp only [StateDir.write, Inodes.write, Function.update_self]
    rw [hcontent, writeAt_end hbound hnext]
  · rw [hunnamed] at hrenamed
    cases hrenamed

theorem FileInv.rename {save : Save} {dir : StateDir} (h : FileInv env initial hold f)
    (halone : Alone i f) (hsave : f.saves i = some save) (hopened : save.inode ≠ none)
    (hdone : save.written = save.content.length) (hunnamed : save.renamed = false)
    (hrename : f.dir.renameTmp = some dir) :
    FileInv env initial hold { f with
      dir := dir, saves := Function.update f.saves i (some { save with renamed := true }) } := by
  obtain ⟨inode, hinode⟩ := Option.ne_none_iff_exists'.mp hopened
  obtain ⟨htmp, hcontent⟩ := (h.writing i save hsave).tmp inode hinode hunnamed
  rw [hdone, List.take_length] at hcontent
  rw [StateDir.renameTmp, htmp] at hrename
  cases hrename
  have hbytes : ({ f.dir with tmp := none, file := some inode } : StateDir).bytes = some save.content :=
    congrArg some hcontent
  have hother : ∀ j other, Function.update f.saves i (some { save with renamed := true }) j = some other →
      j = i ∧ other = { save with renamed := true } := by
    intro j other hj
    by_cases heq : j = i
    · subst heq
      rw [Function.update_self] at hj
      exact ⟨rfl, (Option.some.inj hj).symm⟩
    · rw [Function.update_of_ne heq, (halone j heq).1] at hj
      cases hj
  refine ⟨⟨fun _ h => (nomatch h), ?_, fun _ h => (nomatch h)⟩, .inr ⟨_, hbytes, ?_⟩, ?_, ?_, ?_, ?_, h.gate, ?_⟩
  · rintro _ ⟨⟩
    exact h.dir.tmp inode htmp
  · obtain ⟨st, hst, _, hserialize⟩ := h.source i save hsave
    exact ⟨st, hst, trivial, hserialize⟩
  · intro j other hj
    obtain ⟨rfl, rfl⟩ := hother j other hj
    exact h.source _ save hsave
  · intro j other hj
    obtain ⟨rfl, rfl⟩ := hother j other hj
    exact ⟨(h.writing _ save hsave).bound, fun _ _ hno => (nomatch hno), fun _ => hbytes⟩
  · intro j other hj
    obtain ⟨rfl, rfl⟩ := hother j other hj
    exact h.locked _ save hsave
  · intro j other hj
    obtain ⟨rfl, rfl⟩ := hother j other hj
    exact h.pending _ save hsave
  · intro j target hj
    exfalso
    by_cases heq : j = i
    · subst heq
      have hpending := h.pending j save hsave
      dsimp only at hj
      rw [hj] at hpending
      cases hkind : save.kind <;> rw [hkind] at hpending <;> cases hpending
    · dsimp only at hj
      rw [(halone j heq).2] at hj
      cases hj

theorem FileInv.begin {kind : SaveKind} {st : StateFile} {content : Bytes} (h : FileInv env initial hold f)
    (hsettled : f.window i = none) (hserialize : env.serialize st = some content)
    (hguarded : kind.Guarded (hold i) st) :
    FileInv env initial hold { f with
      saves := Function.update f.saves i (some ⟨kind, content, none, 0, false⟩)
      window := kind.window i (fun target => some (target, false)) f.window
      passed := st :: f.passed } := by
  have hnames : kind.Names st := by
    cases kind with
    | shared => trivial
    | cloned target commit => exact hguarded.2
  have hlock : hold i kind.lock = .write := by
    cases kind with
    | shared => exact hguarded
    | cloned target commit => exact hguarded.1
  have hwindow : kind.window i (fun target => some (target, false)) f.window i = kind.pending := by
    cases kind with
    | shared => exact hsettled
    | cloned target commit => exact Function.update_self _ _ _
  have hwindow' : ∀ j, j ≠ i → kind.window i (fun target => some (target, false)) f.window j = f.window j :=
    fun j hj => SaveKind.window_of_ne hj
  have hsaves : ∀ j save, Function.update f.saves i (some ⟨kind, content, none, 0, false⟩) j = some save →
      (j = i ∧ save = ⟨kind, content, none, 0, false⟩) ∨ j ≠ i ∧ f.saves j = some save := by
    intro j save hj
    by_cases heq : j = i
    · subst heq
      rw [Function.update_self] at hj
      exact .inl ⟨rfl, (Option.some.inj hj).symm⟩
    · rw [Function.update_of_ne heq] at hj
      exact .inr ⟨heq, hj⟩
  refine ⟨h.dir, ?_, ?_, ?_, ?_, ?_, ?_, ?_⟩
  · rcases h.complete with hsame | ⟨old, hold, hpassed⟩
    · exact .inl hsame
    · exact .inr ⟨old, hold, hpassed.cons st⟩
  · intro j save hj
    rcases hsaves j save hj with ⟨rfl, rfl⟩ | ⟨_, hj⟩
    · exact ⟨st, List.mem_cons_self, hnames, hserialize⟩
    · exact (h.source j save hj).cons st
  · intro j save hj
    rcases hsaves j save hj with ⟨rfl, rfl⟩ | ⟨_, hj⟩
    · exact ⟨Nat.zero_le _, fun _ hno => (nomatch hno), fun hno => (nomatch hno)⟩
    · exact h.writing j save hj
  · intro j save hj
    rcases hsaves j save hj with ⟨rfl, rfl⟩ | ⟨_, hj⟩
    · exact hlock
    · exact h.locked j save hj
  · intro j save hj
    rcases hsaves j save hj with ⟨rfl, rfl⟩ | ⟨hne, hj⟩
    · exact hwindow
    · exact (hwindow' j hne).trans (h.pending j save hj)
  · intro j hj
    by_cases heq : j = i
    · subst heq
      cases kind with
      | shared => exact absurd hsettled hj
      | cloned target commit => exact hlock
    · exact h.gate j ((hwindow' j heq).symm.trans_ne hj)
  · intro j target hj
    have hne : j ≠ i := by
      rintro rfl
      dsimp only at hj
      rw [hwindow] at hj
      cases kind <;> cases hj
    obtain ⟨old, hbytes, hpassed⟩ := h.saved j target ((hwindow' j hne).symm.trans hj)
    exact ⟨old, hbytes, hpassed.cons st⟩

theorem FileInv.finish {save : Save} {ok : Bool} (h : FileInv env initial hold f)
    (hsave : f.saves i = some save) (hsuccess : ok = true → save.renamed = true) :
    FileInv env initial hold { f with
      saves := Function.update f.saves i none
      window := save.kind.window i (fun target => if ok then some (target, true) else none) f.window } := by
  have hsaves : ∀ j other, Function.update f.saves i none j = some other → j ≠ i ∧ f.saves j = some other := by
    intro j other hj
    by_cases heq : j = i
    · subst heq
      rw [Function.update_self] at hj
      cases hj
    · rw [Function.update_of_ne heq] at hj
      exact ⟨heq, hj⟩
  have hwindow : ∀ j, j ≠ i →
      save.kind.window i (fun target => if ok then some (target, true) else none) f.window j = f.window j :=
    fun j hj => SaveKind.window_of_ne hj
  refine ⟨h.dir, h.complete, ?_, ?_, ?_, ?_, ?_, ?_⟩
  · exact fun j other hj => h.source j other (hsaves j other hj).2
  · exact fun j other hj => h.writing j other (hsaves j other hj).2
  · exact fun j other hj => h.locked j other (hsaves j other hj).2
  · intro j other hj
    obtain ⟨hne, hj⟩ := hsaves j other hj
    exact (hwindow j hne).trans (h.pending j other hj)
  · intro j hj
    by_cases heq : j = i
    · subst heq
      cases hkind : save.kind with
      | shared =>
          dsimp only at hj
          rw [hkind] at hj
          exact h.gate j hj
      | cloned target commit =>
          have hlocked := h.locked j save hsave
          rwa [hkind] at hlocked
    · exact h.gate j ((hwindow j heq).symm.trans_ne hj)
  · intro j target hj
    by_cases heq : j = i
    · subst heq
      have hpending := h.pending j save hsave
      cases hkind : save.kind with
      | shared =>
          dsimp only at hj
          rw [hkind] at hj hpending
          exact nomatch hpending.symm.trans hj
      | cloned other commit =>
          dsimp only at hj
          rw [hkind, SaveKind.window, Function.update_self] at hj
          split at hj
          · rename_i hok
            cases hj
            have hsource := h.source j save hsave
            rw [hkind] at hsource
            exact ⟨save.content, (h.writing j save hsave).done (hsuccess hok), hsource⟩
          · cases hj
    · exact h.saved j target ((hwindow j heq).symm.trans hj)

theorem FileInv.publish (h : FileInv env initial hold f) (hidle : f.saves i = none) :
    FileInv env initial hold { f with window := Function.update f.window i none } := by
  have hwindow : ∀ j pending, Function.update f.window i none j = some pending →
      j ≠ i ∧ f.window j = some pending := by
    intro j pending hj
    by_cases heq : j = i
    · subst heq
      rw [Function.update_self] at hj
      cases hj
    · rw [Function.update_of_ne heq] at hj
      exact ⟨heq, hj⟩
  refine ⟨h.dir, h.complete, h.source, h.writing, h.locked, ?_, ?_, ?_⟩
  · intro j save hj
    have hne : j ≠ i := by
      rintro rfl
      dsimp only at hj
      rw [hidle] at hj
      cases hj
    exact (Function.update_of_ne hne _ _).trans (h.pending j save hj)
  · intro j hj
    obtain ⟨pending, hpending⟩ := Option.ne_none_iff_exists'.mp hj
    refine h.gate j ?_
    rw [(hwindow j pending hpending).2]
    simp
  · exact fun j target hj => h.saved j target (hwindow j _ hj).2

theorem FileInv.step (h : FileInv env initial hold f) (halone : ∀ save, f.saves i = some save → Alone i f)
    (hstep : FileStep env i (hold i) f g) : FileInv env initial hold g := by
  cases hstep with
  | begin idle settled serialized guarded => exact h.begin settled serialized guarded
  | openTmp saving fresh unnamed => exact h.openTmp (halone _ saving) saving unnamed
  | write saving opened unnamed next => exact h.write (halone _ saving) saving opened unnamed next
  | rename saving opened done unnamed renamed =>
      exact h.rename (halone _ saving) saving opened done unnamed renamed
  | finish saving success => exact h.finish saving success
  | publish idle => exact h.publish idle

/-- Any step of any thread, from a state without a clash. -/
theorem FileInv.guard {s t : Core} (h : FileInv env initial s.hold s.files) (hclash : ¬ Clash s)
    (hguar : Guar env i s t) : FileInv env initial t.hold t.files := by
  cases hguar.files with
  | step locks hstep =>
      have hhold : t.hold = s.hold := by
        unfold Core.hold
        rw [locks]
      rw [hhold]
      exact h.step (fun save hsave => h.alone hclash hsave) hstep
  | still files gate mutex =>
      rw [files]
      have hothers : ∀ j, j ≠ i → ∀ name, t.hold j name = s.hold j name :=
        fun j hj name => (hguar.others j hj).hold name
      refine ⟨h.dir, h.complete, h.source, h.writing, fun j save hj => ?_, h.pending, fun j hj => ?_, h.saved⟩
      · have hlocked := h.locked j save hj
        by_cases heq : j = i
        · subst heq
          cases hkind : save.kind with
          | shared =>
              rw [hkind] at hlocked
              rcases mutex with hsame | hnone
              · exact hsame.trans hlocked
              · rw [hnone] at hj
                cases hj
          | cloned target commit =>
              rw [hkind] at hlocked
              rcases gate with hsame | hidle
              · exact hsame.trans hlocked
              · rw [hidle.1] at hj
                cases hj
        · exact (hothers j heq _).trans hlocked
      · by_cases heq : j = i
        · subst heq
          rcases gate with hsame | hidle
          · exact hsame.trans (h.gate j hj)
          · exact absurd hidle.2 hj
        · exact (hothers j heq _).trans (h.gate j hj)

end

/-! ### Runs -/

/-- The state file is complete, and names the target of every save that has returned and is not yet published. -/
structure StateFileIntact (env : Env) (initial : Option Bytes) (w : World) : Prop where
  complete : w.stateDir.bytes = initial ∨ ∃ content, w.stateDir.bytes = some content ∧
    Passed env w.trail.passed (fun _ => True) content
  target : ∀ i target, w.trail.window i = some (target, true) → ∃ content, w.stateDir.bytes = some content ∧
    Passed env w.trail.passed (fun st => st.activeSubscription = some target) content

theorem Started.fileInv {env : Env} {w : World} (h : Started env w) :
    FileInv env w.stateDir.bytes w.core.hold w.core.files := by
  obtain ⟨_, _, _, _, _, _, dir⟩ := h
  exact ⟨dir, .inl rfl, fun _ _ h => (nomatch h), fun _ _ h => (nomatch h), fun _ _ h => (nomatch h),
    fun _ _ h => (nomatch h), fun _ h => absurd rfl h, fun _ _ h => (nomatch h)⟩

theorem Started.not_clash {env : Env} {w : World} (h : Started env w) : ¬ Clash w.core := by
  obtain ⟨_, _, _, _, _, _, _⟩ := h
  rintro ⟨_, _, _, hsave, _⟩
  cases hsave

/-- In every run without a clash the state file stays intact. -/
theorem state_file_intact {env : Env} {w : World} (hstart : Started env w) {tasks : Nat → Task}
    {moves : List (Move World)} {last : Pool World Outside Reply} (run : (daemon env tasks w).Run moves last)
    (hclear : ∀ m ∈ moves, ¬ Clash m.after.core) : StateFileIntact env w.stateDir.bytes last.shared := by
  have hlast := run.keeps
    (X := fun u => FileInv env w.stateDir.bytes u.core.hold u.core.files ∧ ¬ Clash u.core)
    ⟨hstart.fileInv, hstart.not_clash⟩ fun m hm ⟨hfiles, hclash⟩ =>
      ⟨hfiles.guard hclash (reachable_moves hstart run m hm).2.2, hclear m hm⟩
  exact ⟨hlast.1.complete, hlast.1.saved⟩

/-- A thread that runs alone never clashes. -/
theorem solo_clear {env : Env} {w : World} (hstart : Started env w) {tasks : Nat → Task}
    {moves : List (Move World)} {last : Pool World Outside Reply} (run : (daemon env tasks w).Run moves last)
    (thread : Nat) (hsolo : ∀ m ∈ moves, m.thread = thread) : ∀ m ∈ moves, ¬ Clash m.after.core := by
  have hclear : ∀ u : World, FileInv env w.stateDir.bytes u.core.hold u.core.files →
      Alone thread u.core.files → ¬ Clash u.core := by
    rintro u hfiles halone ⟨i, j, save, hsave, _, hgate, hwindow⟩
    have hi : i = thread := by
      by_contra hne
      rw [(halone i hne).1] at hsave
      cases hsave
    have hj : j = thread := by
      by_contra hne
      exact hwindow (halone j hne).2
    have := hfiles.gate j hwindow
    rw [hj, ← hi, hgate] at this
    cases this
  have hstep : ∀ m ∈ moves, FileInv env w.stateDir.bytes m.before.core.hold m.before.core.files ∧
      Alone thread m.before.core.files → FileInv env w.stateDir.bytes m.after.core.hold m.after.core.files ∧
        Alone thread m.after.core.files := by
    rintro m hm ⟨hfiles, halone⟩
    have hguar := (reachable_moves hstart run m hm).2.2
    refine ⟨hfiles.guard (hclear _ hfiles halone) hguar, fun j hj => ?_⟩
    have hsees := hguar.others j (by rw [hsolo m hm]; exact hj)
    exact ⟨hsees.save.trans (halone j hj).1, hsees.window.trans (halone j hj).2⟩
  have hstart' : FileInv env w.stateDir.bytes w.core.hold w.core.files ∧ Alone thread w.core.files :=
    ⟨hstart.fileInv, fun j _ => (hstart.fresh j).idle⟩
  intro m hm
  obtain ⟨hfiles, halone⟩ := (run.keeps_moves (X := fun u =>
    FileInv env w.stateDir.bytes u.core.hold u.core.files ∧ Alone thread u.core.files) hstart' hstep m hm).2
  exact hclear _ hfiles halone

/-- The run of one transaction keeps the state file intact. -/
theorem state_file_intact_alone : ∃ moves last,
    (daemon (Sample.env Sample.web) (Sample.assign [.switchSubscription "work"]) (Sample.world Sample.web)).Run
      moves last ∧ StateFileIntact (Sample.env Sample.web) none last.shared := by
  obtain ⟨moves, last, run, hthreads, _⟩ := Pool.exec_reaches (Sample.steps 0 55 Sample.fine)
    (daemon (Sample.env Sample.web) (Sample.assign [.switchSubscription "work"])
      (Sample.world Sample.web)) (fun pool => pool.shared.stateDir.bytes.isSome) (by decide +kernel)
  have hstart := Sample.started Sample.web
  have hsolo : ∀ m ∈ moves, m.thread = 0 := by
    intro m hm
    have hmem : m.thread ∈ moves.map (·.thread) := List.mem_map_of_mem hm
    rw [hthreads] at hmem
    simpa [Sample.steps] using hmem
  exact ⟨moves, last, run, state_file_intact hstart run (solo_clear hstart run 0 hsolo)⟩

/-- A probe request saves the shared state while a transaction writes to the same temporary file. -/
def Sample.tornSchedule : List (Nat × Outside) :=
  -- The request spawns its two jobs, they finish, and it collects them.
  Sample.steps 1 4 Sample.fine ++ Sample.steps 2 12 Sample.fine ++ Sample.steps 3 12 Sample.fine ++
    Sample.steps 1 2 Sample.fine ++
  -- The transaction is about to open the temporary file; the request writes all of its own content to it.
  Sample.steps 0 22 Sample.fine ++ Sample.steps 1 7 Sample.fine ++
  -- The transaction truncates it and writes one byte; the request renames it over the state file.
  Sample.steps 0 2 Sample.fine ++ Sample.steps 0 1 { Sample.fine with count := 1 } ++
    Sample.steps 1 2 Sample.fine

/-- The state file that is left is no serialization of any state. -/
theorem state_file_torn : ∃ moves last,
    (daemon (Sample.env Sample.web) (Sample.assign [.switchSubscription "work", .probeNow "web", .job, .job])
      (Sample.world Sample.web)).Run moves last ∧
    ¬ StateFileIntact (Sample.env Sample.web) none last.shared := by
  obtain ⟨moves, last, run, _, hlast⟩ := Pool.exec_reaches Sample.tornSchedule
    (daemon (Sample.env Sample.web)
      (Sample.assign [.switchSubscription "work", .probeNow "web", .job, .job]) (Sample.world Sample.web))
    (fun pool => pool.shared.stateDir.bytes.isSome && pool.shared.trail.passed.all fun st =>
      (Sample.env Sample.web).serialize st ≠ pool.shared.stateDir.bytes) (by decide +kernel)
  refine ⟨moves, last, run, fun hintact => ?_⟩
  simp only [Bool.and_eq_true, List.all_eq_true, decide_eq_true_eq] at hlast
  rcases hintact.complete with hnone | ⟨content, hbytes, st, hst, _, hserialize⟩
  · rw [hnone] at hlast
    simp at hlast
  · exact hlast.2 st hst (hserialize.trans hbytes.symm)

end Causeway

import Causeway.Proof.Stale

/-!
# Cleanups that crash

An instance is cleaned up by its owner or, when the owner is dead, by the next start. If a cleanup stops half way, what is left can be removed by a later start as long as it has its marker.
-/

namespace Causeway

variable {machine : Machine} {calls : FsCalls} {adapters entries : Dir} {inst name : FileName} {files : List FileName}
  {currentBoot : String} {identity : ProcessIdentity} {removals : List Removal}

/-! ### Markers -/

theorem size_utf8Encode (text : List Char) : text.utf8Encode.size ≤ 4 * text.length := by
  induction text with
  | nil => simp
  | cons c text ih =>
      have hchar : [c].utf8Encode.size ≤ 4 := by
        rw [List.utf8Encode_singleton, List.size_toByteArray, String.length_utf8EncodeChar]
        exact c.utf8Size_le_four
      rw [List.utf8Encode_cons, ByteArray.size_append, List.length_cons]
      omega

/-- A marker is short. -/
theorem size_encode (h : validBootId identity.bootId.toList = true) : identity.encode.toByteArray.size ≤ 512 := by
  have hpid : (toString identity.pid).length ≤ 10 :=
    (Nat.length_repr_le_iff (by decide)).mpr (Nat.lt_trans identity.pid.toNat_lt (by decide))
  have hstart : (toString identity.startTime).length ≤ 20 :=
    (Nat.length_repr_le_iff (by decide)).mpr (Nat.lt_trans identity.startTime.toNat_lt (by decide))
  have hboot : identity.bootId.length = 36 := by
    rw [← String.length_toList]
    exact length_validBootId h
  have hfirst : "schema=1\nboot_id=".length = 17 := by decide
  have hsecond : "\npid=".length = 5 := by decide
  have hthird : "\nstart_time=".length = 12 := by decide
  have hlast : "\n".length = 1 := by decide
  have hlength : identity.encode.length ≤ 101 := by
    unfold ProcessIdentity.encode
    simp only [String.length_append]
    omega
  have hsize := size_utf8Encode identity.encode.toList
  rw [String.utf8Encode_toList, String.length_toList] at hsize
  omega

theorem length_of_marks {content : Bytes} (h : Marks content identity) : content.length ≤ 512 := by
  obtain ⟨value, hvalue, hparse⟩ := Option.bind_eq_some_iff.mp h
  obtain ⟨rfl, hboot⟩ := parse_eq_some_iff.mp hparse
  unfold String.fromUTF8? at hvalue
  split at hvalue
  · rename_i hvalid
    have hbytes : (⟨content.toArray⟩ : ByteArray) = identity.encode.toByteArray :=
      congrArg String.toByteArray (Option.some.inj hvalue)
    have hsize := size_encode hboot
    rw [← hbytes] at hsize
    exact hsize
  · cases hvalue

/-! ### Smooth starts -/

/-- A start for which the process table and the adapters directory can be read, and at which nothing fails. -/
structure Smooth (machine : Machine) (currentBoot : String) (calls : FsCalls) (adapters : Dir) (inst : FileName) :
    Prop where
  boot : machine.readBootId = .ok currentBoot
  process : ∀ pid process, machine.processes pid = some process → process.comm ≠ none ∧ machine.readable pid = true
  top : ∃ names : List FileName, calls.list [] = some (names.map some) ∧ Lists adapters (names.map some)
  listed : ∀ entries, adapters.get? inst = some (.directory entries) →
    ∃ files : List FileName, calls.list [inst] = some (files.map some) ∧ Lists entries (files.map some)
  metadata : ∀ path, calls.metadata path = true
  read : ∀ path, calls.read path = true
  recheck : calls.recheck inst = true
  removeFile : ∀ path, calls.removeFile path = true
  removeDir : calls.removeDir inst = true

theorem Smooth.definitelyDead (h : Smooth machine currentBoot calls adapters inst)
    (hdead : OwnerDead machine currentBoot identity) :
    definitelyDead machine currentBoot identity = true := by
  unfold Causeway.definitelyDead
  split
  · rfl
  · rename_i hboot
    have hdead := hdead.resolve_left hboot
    unfold Machine.readProcessStartTime
    cases hprocess : machine.processes identity.pid with
    | none => rfl
    | some process =>
        obtain ⟨hcomm, hreadable⟩ := h.process _ process hprocess
        obtain ⟨comm, hcomm⟩ := Option.ne_none_iff_exists'.mp hcomm
        simp only [hcomm, hreadable, parseProcessStartTime_stat]
        simpa using hdead process hprocess

theorem Smooth.staleEntries (h : Smooth machine currentBoot calls adapters inst)
    (hdead : OwnerDead machine currentBoot identity)
    (hinst : CredentialInstance adapters inst entries identity) :
      staleEntries machine calls adapters currentBoot inst = some entries := by
  obtain ⟨name, rfl, hname⟩ := hinst.named
  obtain ⟨content, hcontent, hmarks⟩ := hinst.marked
  have hlength := length_of_marks hmarks
  have hdead := h.definitelyDead hdead
  unfold Causeway.staleEntries
  simp only [hinst.directory, hname, h.metadata, h.read, hcontent]
  simp only [Marks] at hmarks
  simp [guard, hlength, hmarks, hdead]

/-- Everything in the instance is removed, and the instance. -/
theorem Smooth.removed (h : Smooth machine currentBoot calls adapters inst)
    (hinst : CredentialInstance adapters inst entries identity) :
    .directory inst ∈ (removeStrictStaleInstance calls inst entries).2 := by
  obtain ⟨files, hlist, hlists⟩ := h.listed entries hinst.directory
  have hstrict : ∀ file ∈ files, StrictFile calls inst entries file := by
    intro file hfile
    obtain ⟨hname, hregular⟩ := hinst.strict file (hlists.sound file (by simpa using hfile))
    exact ⟨hname, h.metadata _, hregular⟩
  obtain ⟨content, hcontent, -⟩ := hinst.marked
  have hmarker : identityFile ∈ files := hlists.mem_some (by simp [hcontent])
  have hempty : (Dir.without entries (identityFile :: files.filter (· ≠ identityFile))).isEmpty = true := by
    rw [List.isEmpty_iff, Dir.without, List.filter_eq_nil_iff]
    intro entry hentry
    have hmem := hlists.mem_some (get?_ne_none.mpr (List.mem_map_of_mem hentry))
    by_cases heq : entry.1 = identityFile <;> simp [heq, hmem]
  unfold removeStrictStaleInstance
  simp only [hlist, credentialFiles_eq_ok.mpr ⟨files, rfl, hstrict, rfl⟩, sortFiles, hmarker, h.recheck,
    removeFiles_smooth fun _ _ => h.removeFile _, h.removeFile, h.removeDir, hempty]
  simp

theorem Smooth.cleared (h : Smooth machine currentBoot calls adapters inst)
    (hdead : OwnerDead machine currentBoot identity)
    (hinst : CredentialInstance adapters inst entries identity) :
    (afterRemovals adapters (cleanupStaleInstances machine calls adapters).2).get? inst = none := by
  apply get?_afterRemovals_directory
  obtain ⟨names, hnames, hlists⟩ := h.top
  have hmem : inst ∈ names := hlists.mem_some (by simp [hinst.directory])
  unfold cleanupStaleInstances
  simp only [h.boot, hnames, reduceOption_map_some]
  apply List.mem_flatMap.mpr
  refine ⟨inst, hmem, ?_⟩
  rw [h.staleEntries hdead hinst]
  exact h.removed hinst

/-- What removals, wherever they are, leave of an instance. -/
theorem get?_afterRemovals (h : adapters.get? inst = some (.directory entries)) :
    (afterRemovals adapters removals).get? inst = none ∨
      ∃ files, (afterRemovals adapters removals).get? inst = some (.directory (Dir.without entries files)) := by
  induction removals generalizing adapters entries with
  | nil => exact .inr ⟨[], by simp [afterRemovals, Dir.without, h]⟩
  | cons removal removals ih =>
      rw [afterRemovals, List.foldl_cons, ← afterRemovals]
      by_cases hinst : removal.inst = inst
      · cases removal with
        | file owner file =>
            have howner : owner = inst := hinst
            subst howner
            have hfile : ((Removal.file owner file).apply adapters).get? owner =
              some (.directory (Dir.without entries [file])) := by
              rw [get?_apply_file, h]
              rfl
            rcases ih hfile with hnone | ⟨files, hfiles⟩
            · exact .inl hnone
            · right
              exists file :: files
              rw [hfiles, without_cons]
        | directory owner =>
            have howner : owner = inst := hinst
            subst howner
            exact .inl (get?_afterRemovals_none get?_apply_directory)
      · exact ih ((get?_apply_of_ne hinst).trans h)

/-! ### Recovery -/

/-- When its daemon is dead, a start at which nothing fails leaves no credential in an instance. -/
def Recoverable (inst : FileName) (identity : ProcessIdentity) (adapters : Dir) : Prop :=
  ∀ machine currentBoot calls, Smooth machine currentBoot calls adapters inst → OwnerDead machine currentBoot identity →
    ∀ entries, (afterRemovals adapters (cleanupStaleInstances machine calls adapters).2).get? inst =
      some (.directory entries) →
      ∀ file, Credential file → Dir.get? entries file = none

theorem recoverable_of_markerKept (hinst : CredentialInstance adapters inst entries identity)
    (hkept : MarkerKept (afterRemovals adapters removals) inst) :
      Recoverable inst identity (afterRemovals adapters removals) := by
  intro machine currentBoot calls hsmooth hdead left hleft file hfile
  rcases @get?_afterRemovals _ _ _ removals hinst.directory with hnone | ⟨files, hfiles⟩
  · rw [get?_afterRemovals_none hnone] at hleft
    cases hleft
  · have hshrunk (name : FileName) (hname : Dir.get? (Dir.without entries files) name ≠ none) :
        Dir.get? (Dir.without entries files) name = Dir.get? entries name := by
      rw [get?_without] at hname ⊢
      by_cases hmem : name ∈ files
      · simp [hmem] at hname
      · rw [if_neg hmem]
    by_cases hmarker : Dir.get? (Dir.without entries files) identityFile = none
    · -- Without the marker there was no credential left.
      rcases @get?_afterRemovals _ _ _ (cleanupStaleInstances machine calls (afterRemovals adapters removals)).2 hfiles with
        hnone | ⟨more, hmore⟩
      · rw [hnone] at hleft
        cases hleft
      · rw [hmore] at hleft
        cases hleft
        have hgone : Dir.get? (Dir.without entries files) file = none := by
          by_contra hsome
          exact hkept _ hfiles ⟨file, hfile, hsome⟩ hmarker
        rw [get?_without, hgone]
        split <;> rfl
    · have hleftInst : CredentialInstance (afterRemovals adapters removals) inst (Dir.without entries files) identity := by
        constructor
        · exact hinst.named
        · exact hfiles
        · rw [hshrunk _ hmarker]
          exact hinst.marked
        · intro name hname
          have hsame := hshrunk name hname
          rw [hsame] at hname ⊢
          exact hinst.strict name hname
      rw [hsmooth.cleared hdead hleftInst] at hleft
      cases hleft

/-- Without a marker an instance is left alone. -/
theorem unmarked_kept (hlisted : ∀ inst entries names, adapters.get? inst = some (.directory entries) →
      calls.list [inst] = some names → Lists entries names)
    (hunmarked : ∀ entries, adapters.get? inst = some (.directory entries) → Dir.get? entries identityFile = none) :
    (afterRemovals adapters (cleanupStaleInstances machine calls adapters).2).get? inst = adapters.get? inst := by
  apply get?_afterRemovals_of_ne
  intro removal hremoval heq
  obtain ⟨entries, identity, hdead, -⟩ := deadInstance_of_removal hlisted hremoval
  obtain ⟨content, hcontent, -⟩ := hdead.marked
  rw [heq] at hdead
  rw [hunmarked entries hdead.directory] at hcontent
  cases hcontent

/-- The next start's cleanup can crash anywhere; the owner's can if and only if the marker is the last file that it removes. What still
has its marker is removed by a later start, and what has lost it is not. -/
theorem cleanup_recoverable_iff (workspace : AdapterWorkspace) (calls : FsCalls) (adapters : Dir)
    (hlisted : ∀ entries names,
      adapters.get? workspace.inst = some (.directory entries) → calls.list [workspace.inst] = some names →
        Lists entries names) :
    (OwnerRecoverable workspace calls adapters ∧ StaleRecoverable calls adapters workspace.inst ↔
      MarkerListedLast workspace calls adapters) ∧
    (∀ entries identity, CredentialInstance adapters workspace.inst entries identity → ∀ removals,
      MarkerKept (afterRemovals adapters removals) workspace.inst →
        Recoverable workspace.inst identity (afterRemovals adapters removals)) ∧
    ∀ left machine next, (∀ inst entries names, Dir.get? left inst = some (.directory entries) →
      next.list [inst] = some names →
        Lists entries names) →
      (∀ entries, left.get? workspace.inst = some (.directory entries) → Dir.get? entries identityFile = none) →
        (afterRemovals left (cleanupStaleInstances machine next left).2).get? workspace.inst =
          left.get? workspace.inst := by
  refine ⟨⟨?_, ?_⟩, ?_, ?_⟩
  · intro ⟨howner, _⟩ hcleaned hinspected entries files hentries haccepted
    exact last_of_ownerRecoverable hcleaned hinspected hlisted hentries haccepted howner
  · intro hlast
    exact ⟨ownerRecoverable_of_last hlisted hlast, staleRecoverable hlisted⟩
  · intro entries identity hinst removals hkept
    exact recoverable_of_markerKept hinst hkept
  · intro left machine next hnext hunmarked
    exact unmarked_kept hnext hunmarked

namespace Sample

def workspace : AdapterWorkspace := ⟨.text instanceName, false⟩

theorem accepted : Accepted fsCalls workspace.inst instanceEntries [identityFile, credentialFile] where
  listed := rfl
  strict := by
    intro file hfile
    have hcredential : Credential credentialFile :=
      ⟨_, rfl, strictCredentialName_privateConfigName "sslocal" (.inl rfl) 7 0⟩
    have hne : identityFile ≠ credentialFile := by
      intro heq
      exact identityFile_not_credential (heq ▸ hcredential)
    simp only [List.mem_cons, List.not_mem_nil, or_false] at hfile
    rcases hfile with rfl | rfl
    · exact ⟨.inl rfl, rfl, _, rfl⟩
    · exact ⟨.inr hcredential, rfl, [], by simp [instanceEntries, Dir.get?, hne]⟩
  marker := List.mem_cons_self

end Sample

/-- A directory that lists its marker before a credential. -/
theorem cleanup_unrecoverable : ¬ ∀ (workspace : AdapterWorkspace) (calls : FsCalls) (adapters : Dir),
    (∀ entries names, adapters.get? workspace.inst = some (.directory entries) →
      calls.list [workspace.inst] = some names →
      Lists entries names) → OwnerRecoverable workspace calls adapters ∧
        StaleRecoverable calls adapters workspace.inst := by
  intro h
  obtain ⟨howner, -⟩ := h Sample.workspace Sample.fsCalls Sample.adapters (Sample.listed _)
  have hentries : Sample.adapters.get? Sample.workspace.inst = some (.directory Sample.instanceEntries) := rfl
  have hlast := last_of_ownerRecoverable rfl rfl (Sample.listed _) hentries Sample.accepted howner
  revert hlast
  decide +kernel

theorem cleanup_recoverable_iff_sample : ¬ (OwnerRecoverable Sample.workspace Sample.fsCalls Sample.adapters ∧
    StaleRecoverable Sample.fsCalls Sample.adapters Sample.workspace.inst) := by
  intro h
  have hlast := (cleanup_recoverable_iff Sample.workspace Sample.fsCalls Sample.adapters (Sample.listed _)).1.mp h rfl rfl
    Sample.instanceEntries _ rfl Sample.accepted
  revert hlast
  decide +kernel

end Causeway

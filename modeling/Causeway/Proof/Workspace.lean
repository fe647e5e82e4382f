import Mathlib.Data.List.ReduceOption
import Causeway.Model.Workspace
import Causeway.Proof.Identity

/-!
# Credential workspaces

What a listing lets be removed, and what is left of an instance after the first removals of a run. A credential whose marker is gone is out of reach of every later start.
-/

namespace Causeway

/-- A name of the credential files. -/
def Credential (file : FileName) : Prop := ∃ name, file = .text name ∧ strictCredentialName name = true

/-- The entries that `read_dir` yields are those of the directory, each once; all of them, unless one cannot be read. -/
structure Lists (dir : Dir) (names : List (Option FileName)) : Prop where
  sound : ∀ name, some name ∈ names → dir.get? name ≠ none
  complete : none ∉ names → ∀ name, dir.get? name ≠ none → some name ∈ names
  nodup : names.reduceOption.Nodup

/-- A regular file with an expected name, which can be inspected. -/
structure StrictFile (calls : FsCalls) (inst : FileName) (entries : Dir) (file : FileName) : Prop where
  name : file = identityFile ∨ Credential file
  inspected : calls.metadata [inst, file] = true
  regular : ∃ content, entries.get? file = some (.file content)

def afterRemovals (adapters : Dir) (removals : List Removal) : Dir := removals.foldl Removal.apply adapters

variable {calls : FsCalls} {adapters entries : Dir} {inst name : FileName} {files : List FileName}
  {names : List (Option FileName)} {removals : List Removal} {removal : Removal}

/-! ### Directories -/

theorem get?_without {dir : Dir} : (dir.without files).get? name = if name ∈ files then none else dir.get? name := by
  unfold Dir.get? Dir.without
  induction dir with
  | nil => simp
  | cons entry dir ih =>
      by_cases hentry : entry.1 ∈ files
      · rw [List.filter_cons_of_neg (by simpa using hentry), ih]
        by_cases hname : entry.1 = name
        · rw [if_pos (hname ▸ hentry), if_pos (hname ▸ hentry)]
        · rw [List.find?_cons_of_neg (by simpa using hname)]
      · rw [List.filter_cons_of_pos (by simpa using hentry)]
        by_cases hname : entry.1 = name
        · rw [List.find?_cons_of_pos (by simpa using hname), List.find?_cons_of_pos (by simpa using hname),
          if_neg (hname ▸ hentry)]
        · rw [List.find?_cons_of_neg (by simpa using hname), List.find?_cons_of_neg (by simpa using hname), ih]

theorem without_cons {dir : Dir} : (dir.without [name]).without files = dir.without (name :: files) := by
  unfold Dir.without
  rw [List.filter_filter]
  congr 1
  funext entry
  simp [Bool.and_comm]

theorem get?_map {dir : Dir} {f : FileNode → FileNode} :
    Dir.get? (dir.map fun entry => if entry.1 = inst then (entry.1, f entry.2) else entry) name =
    if name = inst then (dir.get? name).map f else dir.get? name := by
  unfold Dir.get?
  induction dir with
  | nil => simp
  | cons entry dir ih =>
      rw [List.map_cons]
      by_cases hentry : entry.1 = name
      · rw [List.find?_cons_of_pos (by split <;> simpa using hentry), List.find?_cons_of_pos (by simpa using hentry),
        hentry]
        split <;> rfl
      · rw [List.find?_cons_of_neg (by split <;> simpa using hentry), List.find?_cons_of_neg (by simpa using hentry), ih]

theorem get?_apply_of_ne (h : removal.inst ≠ name) : (removal.apply adapters).get? name = adapters.get? name := by
  cases removal with
  | file owner file =>
      have howner : name ≠ owner := Ne.symm h
      rw [Removal.apply, get?_map, if_neg howner]
  | directory owner =>
      have howner : name ≠ owner := Ne.symm h
      rw [Removal.apply, get?_without, if_neg (by simpa using howner)]

theorem get?_apply_file {file : FileName} : ((Removal.file inst file).apply adapters).get? inst =
    (adapters.get? inst).map fun node => node.remove file := by
  rw [Removal.apply, get?_map, if_pos rfl]

theorem get?_apply_directory : ((Removal.directory inst).apply adapters).get? inst = none := by
  rw [Removal.apply, get?_without, if_pos (by simp)]

/-- What is gone stays gone. -/
theorem get?_apply_none (h : adapters.get? name = none) : (removal.apply adapters).get? name = none := by
  cases removal with
  | file owner file =>
      rw [Removal.apply, get?_map, h]
      split <;> rfl
  | directory owner =>
      rw [Removal.apply, get?_without, h]
      split <;> rfl

theorem get?_afterRemovals_of_ne (h : ∀ removal ∈ removals, removal.inst ≠ name) :
    (afterRemovals adapters removals).get? name = adapters.get? name := by
  induction removals generalizing adapters with
  | nil => rfl
  | cons removal removals ih =>
      rw [afterRemovals, List.foldl_cons, ← afterRemovals, ih fun other hother => h other (List.mem_cons_of_mem _ hother),
        get?_apply_of_ne (h removal List.mem_cons_self)]

theorem get?_afterRemovals_none (h : adapters.get? name = none) : (afterRemovals adapters removals).get? name = none := by
  induction removals generalizing adapters with
  | nil => exact h
  | cons removal removals ih => exact ih (get?_apply_none h)

/-- A directory that has been removed is gone. -/
theorem get?_afterRemovals_directory (h : .directory name ∈ removals) :
    (afterRemovals adapters removals).get? name = none := by
  obtain ⟨before, after, rfl⟩ := List.append_of_mem h
  rw [afterRemovals, List.foldl_append, List.foldl_cons, ← afterRemovals]
  exact get?_afterRemovals_none get?_apply_directory

/-- What is left of an instance after some of its files. -/
theorem get?_afterRemovals_files (h : adapters.get? inst = some (.directory entries)) :
    (afterRemovals adapters (files.map (.file inst))).get? inst = some (.directory (Dir.without entries files)) := by
  induction files generalizing adapters entries with
  | nil => simp [afterRemovals, Dir.without, h]
  | cons file files ih =>
      have hfile : ((Removal.file inst file).apply adapters).get? inst =
        some (.directory (Dir.without entries [file])) := by
        rw [get?_apply_file, h]
        rfl
      rw [List.map_cons, afterRemovals, List.foldl_cons, ← afterRemovals, ih hfile, without_cons]

/-! ### Listings -/

theorem identityFile_not_credential : ¬ Credential identityFile := by
  rintro ⟨name, hname, hstrict⟩
  cases hname
  revert hstrict
  decide +kernel

theorem reduceOption_map_some {α : Type} (l : List α) : (l.map some).reduceOption = l := by
  induction l with
  | nil => simp
  | cons a l ih => rw [List.map_cons, List.reduceOption_cons_of_some, ih]

theorem Lists.nodup_some (h : Lists entries (files.map some)) : files.Nodup := by
  have hnodup := h.nodup
  rwa [reduceOption_map_some] at hnodup

theorem Lists.mem_some (h : Lists entries (files.map some)) (hname : entries.get? name ≠ none) : name ∈ files := by
  have hmem := h.complete (by simp) name hname
  simpa using hmem

theorem get?_ne_none : adapters.get? name ≠ none ↔ name ∈ adapters.map Prod.fst := by
  simp only [Dir.get?, ne_eq, Option.map_eq_none_iff, List.find?_eq_none, decide_eq_true_eq, not_forall, not_not,
    List.mem_map,
    exists_prop]

/-- Any order is a listing. -/
theorem lists_of_perm (hperm : files.Perm (entries.map Prod.fst)) (hnodup : (entries.map Prod.fst).Nodup) :
    Lists entries (files.map some) where
  sound := by
    intro name hname
    rw [get?_ne_none, ← hperm.mem_iff]
    simpa using hname
  complete := by
    intro _ name hname
    rw [get?_ne_none, ← hperm.mem_iff] at hname
    simpa using hname
  nodup := by
    rw [reduceOption_map_some]
    exact hperm.nodup_iff.mpr hnodup

theorem credential_iff {text : String} : Credential (.text text) ↔ strictCredentialName text = true := by
  constructor
  · intro ⟨name, hname, hstrict⟩
    cases hname
    exact hstrict
  · intro h
    exact ⟨text, rfl, h⟩

theorem text_eq_identityFile {text : String} : FileName.text text = identityFile ↔ text = identityFileName := by
  rw [identityFile, FileName.text.injEq]

theorem map_eq_ok {ε α β : Type} {x : Except ε α} {f : α → β} {b : β} : x.map f = .ok b ↔ ∃ a, x = .ok a ∧ b = f a := by
  cases x <;> simp [Except.map, eq_comm]

theorem not_strictFile_raw {bytes : Bytes} : ¬ StrictFile calls inst entries (.raw bytes) := by
  intro h
  rcases h.name with h | ⟨name, h, _⟩ <;> cases h

theorem removableFiles_strict {file : FileName} (h : StrictFile calls inst entries file) :
    removableFiles calls inst entries (some file :: names) =
      (removableFiles calls inst entries names).map (file :: ·) := by
  cases file with
  | raw bytes => exact absurd h not_strictFile_raw
  | text text =>
      have hname : (text ≠ identityFileName && !strictCredentialName text) = false := by
        rcases h.name with hname | hname
        · simp [text_eq_identityFile.mp hname]
        · simp [credential_iff.mp hname]
      obtain ⟨content, hcontent⟩ := h.regular
      rw [removableFiles, hname, h.inspected, hcontent]
      simp

theorem removableFiles_not_strict {file : FileName} (h : ¬ StrictFile calls inst entries file) :
    ∃ error, removableFiles calls inst entries (some file :: names) = .error error := by
  cases file with
  | raw bytes => exact ⟨_, rfl⟩
  | text text =>
      rw [removableFiles]
      split
      · exact ⟨_, rfl⟩
      · rename_i hname
        split
        · exact ⟨_, rfl⟩
        · rename_i hinspected
          split
          · rename_i content hcontent
            refine absurd ⟨?_, by simpa using hinspected, content, hcontent⟩ h
            rw [text_eq_identityFile, credential_iff]
            simpa [or_iff_not_imp_left] using hname
          · exact ⟨_, rfl⟩
          · exact ⟨_, rfl⟩

/-- The owner removes the files of a listing in which every entry is one that it expects. -/
theorem removableFiles_eq_ok : removableFiles calls inst entries names = .ok files ↔
    names = files.map some ∧ ∀ file ∈ files, StrictFile calls inst entries file := by
  induction names generalizing files with
  | nil =>
      simp only [removableFiles, Except.ok.injEq]
      constructor
      · rintro rfl
        simp
      · intro ⟨hnames, _⟩
        simpa using hnames
  | cons first rest ih =>
      cases first with
      | none => cases files <;> simp [removableFiles]
      | some first =>
          by_cases hfirst : StrictFile calls inst entries first
          · rw [removableFiles_strict hfirst, map_eq_ok]
            constructor
            · rintro ⟨found, hfound, rfl⟩
              obtain ⟨rfl, hstrict⟩ := ih.mp hfound
              exact ⟨rfl, by simpa using ⟨hfirst, hstrict⟩⟩
            · intro ⟨hnames, hstrict⟩
              cases files with
              | nil => cases hnames
              | cons file files =>
                  cases hnames
                  exact ⟨files, ih.mpr ⟨rfl, fun other hother => hstrict other (List.mem_cons_of_mem _ hother)⟩, rfl⟩
          · obtain ⟨error, herror⟩ := @removableFiles_not_strict _ _ _ rest _ hfirst
            rw [herror]
            simp only [reduceCtorEq, false_iff]
            intro ⟨hnames, hstrict⟩
            cases files with
            | nil => cases hnames
            | cons file files =>
                cases hnames
                exact hfirst (hstrict _ List.mem_cons_self)

/-- The entries of a listing are all as expected, the marker among them. -/
structure Accepted (calls : FsCalls) (inst : FileName) (entries : Dir) (files : List FileName) : Prop where
  listed : calls.list [inst] = some (files.map some)
  strict : ∀ file ∈ files, StrictFile calls inst entries file
  marker : identityFile ∈ files

/-- A file is put before what the rest of the listing gives. -/
def withFile (file : FileName) (found : List FileName × Bool) : List FileName × Bool :=
  if file = identityFile then (found.1, true) else (file :: found.1, found.2)

theorem credentialFiles_strict {file : FileName} (h : StrictFile calls inst entries file) :
    credentialFiles calls inst entries (some file :: names) =
      (credentialFiles calls inst entries names).map fun found => found.map (withFile file) := by
  cases file with
  | raw bytes => exact absurd h not_strictFile_raw
  | text text =>
      obtain ⟨content, hcontent⟩ := h.regular
      rw [credentialFiles, h.inspected, hcontent]
      dsimp only
      by_cases hname : text = identityFileName
      · have hfile : FileName.text text = identityFile := text_eq_identityFile.mpr hname
        have hwith : withFile (.text text) = fun found => (found.1, true) := by
          funext found
          simp [withFile, hfile]
        rw [hwith]
        simp [hname]
      · have hfile : FileName.text text ≠ identityFile := mt text_eq_identityFile.mp hname
        have hstrict : strictCredentialName text = true := credential_iff.mp (h.name.resolve_left hfile)
        have hwith : withFile (.text text) = fun found => (.text text :: found.1, found.2) := by
          funext found
          simp [withFile, hfile]
        rw [hwith]
        simp [hname, hstrict]

theorem credentialFiles_not_strict {file : FileName} (h : ¬ StrictFile calls inst entries file)
    (found : List FileName × Bool) :
    credentialFiles calls inst entries (some file :: names) ≠ .ok (some found) := by
  cases file with
  | raw bytes => simp [credentialFiles]
  | text text =>
      rw [credentialFiles]
      split
      · simp
      · rename_i hinspected
        split
        · simp
        · rename_i content hcontent
          split
          · rename_i hname
            exact absurd ⟨.inl (text_eq_identityFile.mpr hname), by simpa using hinspected, content, hcontent⟩ h
          · split
            · rename_i hstrict
              exact absurd ⟨.inr (credential_iff.mpr hstrict), by simpa using hinspected, content, hcontent⟩ h
            · simp
        · simp

/-- What the credentials and the marker of a list of files are. -/
def sortFiles (files : List FileName) : List FileName × Bool := (files.filter (· ≠ identityFile), identityFile ∈ files)

/-- The next start removes the credentials of a listing in which every entry is one that it expects. -/
theorem credentialFiles_eq_ok {found : List FileName × Bool} :
    credentialFiles calls inst entries names = .ok (some found) ↔
    ∃ files, names = files.map some ∧ (∀ file ∈ files, StrictFile calls inst entries file) ∧ found = sortFiles files := by
  induction names generalizing found with
  | nil =>
      simp only [credentialFiles, Except.ok.injEq, Option.some.injEq]
      constructor
      · rintro rfl
        exact ⟨[], by simp, by simp, by simp [sortFiles]⟩
      · rintro ⟨files, hnames, -, rfl⟩
        cases files with
        | nil => simp [sortFiles]
        | cons file files => cases hnames
  | cons first rest ih =>
      cases first with
      | none =>
          simp only [credentialFiles, reduceCtorEq, false_iff]
          rintro ⟨files, hnames, -⟩
          cases files <;> cases hnames
      | some first =>
          by_cases hfirst : StrictFile calls inst entries first
          · have hsort (files : List FileName) : withFile first (sortFiles files) = sortFiles (first :: files) := by
              by_cases hmarker : first = identityFile <;> simp [withFile, sortFiles, hmarker, Ne.symm]
            rw [credentialFiles_strict hfirst, map_eq_ok]
            constructor
            · rintro ⟨other, hother, hfound⟩
              obtain ⟨kept, rfl, rfl⟩ := Option.map_eq_some_iff.mp hfound.symm
              obtain ⟨files, rfl, hstrict, rfl⟩ := ih.mp hother
              exact ⟨first :: files, rfl, by simpa using ⟨hfirst, hstrict⟩, hsort files⟩
            · rintro ⟨files, hnames, hstrict, rfl⟩
              cases files with
              | nil => cases hnames
              | cons file files =>
                  cases hnames
                  refine ⟨some (sortFiles files), ih.mpr ⟨files, rfl, ?_, rfl⟩, ?_⟩
                  · exact fun other hother => hstrict other (List.mem_cons_of_mem _ hother)
                  · rw [Option.map_some, hsort]
          · simp only [credentialFiles_not_strict hfirst, false_iff]
            rintro ⟨files, hnames, hstrict, -⟩
            cases files with
            | nil => cases hnames
            | cons file files =>
                cases hnames
                exact hfirst (hstrict _ List.mem_cons_self)

/-! ### Runs -/

theorem removeFiles_prefix : (removeFiles calls inst files).2 <+: files.map (.file inst) := by
  induction files with
  | nil => simp [removeFiles]
  | cons file files ih =>
      rw [removeFiles]
      split
      · rw [List.map_cons]
        exact (List.prefix_cons_inj _).mpr ih
      · exact List.nil_prefix

theorem removeFiles_all (h : (removeFiles calls inst files).1 = true) :
    (removeFiles calls inst files).2 = files.map (.file inst) := by
  induction files with
  | nil => rfl
  | cons file files ih =>
      rw [removeFiles] at h ⊢
      split
      · rename_i hfile
        rw [if_pos hfile] at h
        rw [ih h, List.map_cons]
      · rename_i hfile
        rw [if_neg hfile] at h
        cases h

theorem removeFiles_smooth (h : ∀ file ∈ files, calls.removeFile [inst, file] = true) :
    removeFiles calls inst files = (true, files.map (.file inst)) := by
  induction files with
  | nil => rfl
  | cons file files ih =>
      rw [removeFiles, if_pos (h file List.mem_cons_self), ih fun other hother => h other (List.mem_cons_of_mem _ hother)]
      rfl

/-- The owner removes the files as they are listed, and the directory. -/
theorem cleanup_removals (workspace : AdapterWorkspace) : (workspace.cleanup calls adapters).2.2 = [] ∨
    workspace.cleaned = false ∧ calls.metadata [workspace.inst] = true ∧
      ∃ entries files, adapters.get? workspace.inst = some (.directory entries) ∧
        Accepted calls workspace.inst entries files ∧
        (workspace.cleanup calls adapters).2.2 <+: files.map (.file workspace.inst) ++ [.directory workspace.inst] := by
  unfold AdapterWorkspace.cleanup
  dsimp only
  split
  · exact .inl rfl
  · rename_i hcleaned
    split
    · exact .inl rfl
    · rename_i hinspected
      split
      · exact .inl rfl
      · rename_i entries hentries
        split
        · exact .inl rfl
        · rename_i names hnames
          split
          · exact .inl rfl
          · rename_i files hfiles
            obtain ⟨rfl, hstrict⟩ := removableFiles_eq_ok.mp hfiles
            split
            · exact .inl rfl
            · rename_i hmarker
              have hstarts : (removeFiles calls workspace.inst files).2 <+:
                  files.map (.file workspace.inst) ++ [.directory workspace.inst] :=
                removeFiles_prefix.trans (List.prefix_append _ _)
              refine .inr ⟨by simpa using hcleaned, by simpa using hinspected, entries, files, hentries,
                ⟨hnames, hstrict, by simpa using hmarker⟩, ?_⟩
              split
              · exact hstarts
              · rename_i hremoved
                split
                · rw [removeFiles_all (by simpa using hremoved)]
                · exact hstarts
      · exact .inl rfl

/-- The next start removes the credentials, then the marker, then the directory. -/
theorem stale_removals : (removeStrictStaleInstance calls inst entries).2 = [] ∨
    ∃ files, Accepted calls inst entries files ∧ (removeStrictStaleInstance calls inst entries).2 <+:
      (files.filter (· ≠ identityFile)).map (.file inst) ++ [.file inst identityFile, .directory inst] := by
  unfold removeStrictStaleInstance
  split
  · exact .inl rfl
  · rename_i names hnames
    split
    · exact .inl rfl
    · exact .inl rfl
    · rename_i credentials sawMarker hfound
      obtain ⟨files, rfl, hstrict, hsort⟩ := credentialFiles_eq_ok.mp hfound
      simp only [sortFiles, Prod.mk.injEq] at hsort
      obtain ⟨rfl, rfl⟩ := hsort
      split
      · exact .inl rfl
      · rename_i hmarker
        simp only [Bool.or_eq_true, Bool.not_eq_true', decide_eq_false_iff_not, not_or, not_not] at hmarker
        refine .inr ⟨files, ⟨hnames, hstrict, hmarker.1⟩, ?_⟩
        dsimp only
        split
        · exact removeFiles_prefix.trans (List.prefix_append _ _)
        · rename_i hremoved
          rw [removeFiles_all (by simpa using hremoved)]
          split
          · exact List.prefix_append _ _
          · split
            · rw [List.append_assoc]
              exact List.prefix_refl _
            · exact (List.prefix_append_right_inj _).mpr (List.prefix_append [_] [_])

/-! ### Crashes -/

/-- While a credential is left in an instance, its marker is. -/
def MarkerKept (adapters : Dir) (inst : FileName) : Prop :=
  ∀ entries, adapters.get? inst = some (.directory entries) → (∃ file, Credential file ∧ Dir.get? entries file ≠ none) →
    Dir.get? entries identityFile ≠ none

/-- The same listing and inspection, with other removals failing. -/
def FsCalls.withRemovals (calls : FsCalls) (removeFile : List FileName → Bool) (removeDir : FileName → Bool) : FsCalls :=
  { calls with removeFile := removeFile, removeDir := removeDir }

/-- However the removals fail, and after however many of them a crash comes, the owner's cleanup leaves no credential without the marker. -/
def OwnerRecoverable (workspace : AdapterWorkspace) (calls : FsCalls) (adapters : Dir) : Prop :=
  (∀ entries, adapters.get? workspace.inst = some (.directory entries) → Dir.get? entries identityFile ≠ none) →
    ∀ removeFile removeDir k, MarkerKept (afterRemovals adapters
      ((workspace.cleanup (calls.withRemovals removeFile removeDir) adapters).2.2.take k)) workspace.inst

/-- The same of the next start's cleanup. -/
def StaleRecoverable (calls : FsCalls) (adapters : Dir) (inst : FileName) : Prop :=
  ∀ entries, adapters.get? inst = some (.directory entries) → Dir.get? entries identityFile ≠ none →
    ∀ removeFile removeDir k, MarkerKept (afterRemovals adapters
      ((removeStrictStaleInstance (calls.withRemovals removeFile removeDir) inst entries).2.take k)) inst

/-- If the owner goes through with the removals, the marker is the last file that is listed. -/
def MarkerListedLast (workspace : AdapterWorkspace) (calls : FsCalls) (adapters : Dir) : Prop :=
  workspace.cleaned = false → calls.metadata [workspace.inst] = true → ∀ entries files,
    adapters.get? workspace.inst = some (.directory entries) → Accepted calls workspace.inst entries files →
      files.getLast? = some identityFile

theorem accepted_withRemovals {removeFile : List FileName → Bool} {removeDir : FileName → Bool} :
    Accepted (calls.withRemovals removeFile removeDir) inst entries files ↔ Accepted calls inst entries files := by
  constructor
  · intro h
    exact ⟨h.listed, fun file hfile => ⟨(h.strict file hfile).name, (h.strict file hfile).inspected,
      (h.strict file hfile).regular⟩,
      h.marker⟩
  · intro h
    exact ⟨h.listed, fun file hfile => ⟨(h.strict file hfile).name, (h.strict file hfile).inspected,
      (h.strict file hfile).regular⟩,
      h.marker⟩

theorem Accepted.marked (h : Accepted calls inst entries files) : entries.get? identityFile ≠ none := by
  obtain ⟨content, hcontent⟩ := (h.strict identityFile h.marker).regular
  rw [hcontent]
  simp

theorem markerKept_of_marked (h : ∀ entries, adapters.get? inst = some (.directory entries) →
    Dir.get? entries identityFile ≠ none) :
    MarkerKept adapters inst := fun entries hentries _ => h entries hentries

/-- Files removed in an order with the marker at the end, all files of the directory among them. -/
theorem markerKept_of_last {credentials : List FileName} (hentries : adapters.get? inst = some (.directory entries))
    (hmarked : entries.get? identityFile ≠ none) (hcredentials : identityFile ∉ credentials)
    (hall : ∀ name, entries.get? name ≠ none → name ∈ credentials ++ [identityFile])
    (hstarts : removals <+: (credentials ++ [identityFile]).map (.file inst) ++ [.directory inst]) :
    MarkerKept (afterRemovals adapters removals) inst := by
  rcases List.prefix_concat_iff.mp hstarts with rfl | hstarts
  · intro left hleft
    rw [get?_afterRemovals_directory (by simp)] at hleft
    cases hleft
  · obtain ⟨removed, hremoved, rfl⟩ := List.prefix_map_iff.mp hstarts
    intro left hleft
    rw [get?_afterRemovals_files hentries] at hleft
    cases hleft
    intro ⟨file, _, hfile⟩
    rw [get?_without] at hfile ⊢
    rcases List.prefix_concat_iff.mp hremoved with rfl | hremoved
    · by_cases hmem : file ∈ credentials ++ [identityFile]
      · rw [if_pos hmem] at hfile
        exact absurd rfl hfile
      · rw [if_neg hmem] at hfile
        exact absurd (hall file hfile) hmem
    · rwa [if_neg fun hmem => hcredentials (hremoved.subset hmem)]

/-- The next start removes the marker after every credential. -/
theorem staleRecoverable (hlisted : ∀ entries names, adapters.get? inst = some (.directory entries) →
    calls.list [inst] = some names →
    Lists entries names) : StaleRecoverable calls adapters inst := by
  intro entries hentries hmarked removeFile removeDir k
  have hkept : MarkerKept adapters inst := by
    apply markerKept_of_marked
    intro other hother
    rw [hentries] at hother
    cases hother
    exact hmarked
  rcases @stale_removals (calls.withRemovals removeFile removeDir) entries inst with hnone | hsome
  · rw [hnone, List.take_nil]
    exact hkept
  · obtain ⟨files, haccepted, hstarts⟩ := hsome
    have haccepted := accepted_withRemovals.mp haccepted
    have hlists := hlisted entries _ hentries haccepted.listed
    have hcredentials : identityFile ∉ files.filter (· ≠ identityFile) := by simp
    apply markerKept_of_last hentries hmarked hcredentials
    · intro name hname
      by_cases hmarker : name = identityFile
      · simp [hmarker]
      · simpa [hmarker] using hlists.mem_some hname
    · apply (List.take_prefix k _).trans
      rw [List.map_append, List.append_assoc]
      exact hstarts

theorem ownerRecoverable_of_last {workspace : AdapterWorkspace} (hlisted : ∀ entries names,
      adapters.get? workspace.inst = some (.directory entries) → calls.list [workspace.inst] = some names →
        Lists entries names)
    (hlast : MarkerListedLast workspace calls adapters) : OwnerRecoverable workspace calls adapters := by
  intro hmarked removeFile removeDir k
  rcases @cleanup_removals (calls.withRemovals removeFile removeDir) adapters workspace with hnone | hsome
  · rw [hnone, List.take_nil]
    exact markerKept_of_marked hmarked
  · obtain ⟨hcleaned, hinspected, entries, files, hentries, haccepted, hstarts⟩ := hsome
    have haccepted := accepted_withRemovals.mp haccepted
    have hlists := hlisted entries _ hentries haccepted.listed
    obtain ⟨credentials, rfl⟩ := List.getLast?_eq_some_iff.mp (hlast hcleaned hinspected entries files hentries haccepted)
    have hnodup := hlists.nodup_some
    rw [List.nodup_append] at hnodup
    apply markerKept_of_last hentries haccepted.marked
    · intro hmem
      exact hnodup.2.2 identityFile hmem identityFile List.mem_cons_self rfl
    · exact fun name hname => hlists.mem_some hname
    · exact (List.take_prefix k _).trans hstarts

/-- When all goes well, the owner removes every file as it is listed. -/
theorem cleanup_smooth {workspace : AdapterWorkspace} (hcleaned : workspace.cleaned = false)
    (hinspected : calls.metadata [workspace.inst] = true)
    (hentries : adapters.get? workspace.inst = some (.directory entries))
    (haccepted : Accepted calls workspace.inst entries files)
    (hremoved : ∀ file ∈ files, calls.removeFile [workspace.inst, file] = true) :
    files.map (.file workspace.inst) <+: (workspace.cleanup calls adapters).2.2 := by
  unfold AdapterWorkspace.cleanup
  simp only [hcleaned, hinspected, hentries, haccepted.listed, removableFiles_eq_ok.mpr ⟨rfl, haccepted.strict⟩,
    removeFiles_smooth hremoved]
  rw [if_neg (by decide), if_neg (by decide), if_neg (not_not.mpr haccepted.marker), if_neg (by decide)]
  split
  · exact List.prefix_append _ _
  · exact List.prefix_refl _

/-- A credential that is listed after the marker is left without it. -/
theorem last_of_ownerRecoverable {workspace : AdapterWorkspace} (hcleaned : workspace.cleaned = false)
    (hinspected : calls.metadata [workspace.inst] = true) (hlisted : ∀ entries names,
      adapters.get? workspace.inst = some (.directory entries) → calls.list [workspace.inst] = some names →
        Lists entries names)
    (hentries : adapters.get? workspace.inst = some (.directory entries))
    (haccepted : Accepted calls workspace.inst entries files)
    (h : OwnerRecoverable workspace calls adapters) : files.getLast? = some identityFile := by
  obtain ⟨before, after, rfl⟩ := List.append_of_mem haccepted.marker
  cases after with
  | nil => simp
  | cons file after =>
      exfalso
      have hnodup := (hlisted entries _ hentries haccepted.listed).nodup_some
      have hafter : file ∉ before ++ [identityFile] := by
        intro hmem
        have happend : (before ++ [identityFile] ++ file :: after).Nodup := by simpa using hnodup
        exact (List.nodup_append.mp happend).2.2 file hmem file List.mem_cons_self rfl
      have hstrict := haccepted.strict file (by simp)
      have hcredential : Credential file := hstrict.name.resolve_left fun heq => hafter (by simp [heq])
      obtain ⟨content, hcontent⟩ := hstrict.regular
      have hmarked : ∀ other, adapters.get? workspace.inst = some (.directory other) →
        Dir.get? other identityFile ≠ none := by
        intro other hother
        rw [hentries] at hother
        cases hother
        exact haccepted.marked
      have hremovals : ((workspace.cleanup (calls.withRemovals (fun _ => true) fun _ => true) adapters).2.2.take
          (before.length + 1)) = (before ++ [identityFile]).map (.file workspace.inst) := by
        obtain ⟨rest, hrest⟩ :=
          @cleanup_smooth (calls.withRemovals (fun _ => true) fun _ => true) adapters entries _ workspace hcleaned
          hinspected hentries (accepted_withRemovals.mpr haccepted) fun _ _ => rfl
        rw [← hrest, List.append_cons, List.map_append, List.append_assoc]
        exact List.take_left' (by simp)
      have hkept := h hmarked (fun _ => true) (fun _ => true) (before.length + 1)
      rw [hremovals] at hkept
      apply hkept _ (get?_afterRemovals_files hentries)
      · refine ⟨file, hcredential, ?_⟩
        rw [get?_without, if_neg hafter, hcontent]
        simp
      · rw [get?_without, if_pos (by simp)]

end Causeway

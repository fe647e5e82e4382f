import Causeway.Proof.Workspace

/-!
# Stale instances

What the next start takes for dead is dead: the process table is read exactly, whatever a process is called. Nothing is removed but in instances of dead daemons.
-/

namespace Causeway

open Text

/-! ### The process table -/

section Table

variable {text word : List Char} {words : List (List Char)} {c : Char}

/-- A word of the table. -/
structure Word (word : List Char) : Prop where
  ne_nil : word ≠ []
  plain : ∀ c ∈ word, isWhitespace c = false ∧ c ≠ ')'

theorem splitWhitespace_cons (hc : isWhitespace c = true) : splitWhitespace (c :: text) = splitWhitespace text := by
  rw [splitWhitespace, List.splitOnP_cons_eq_if_modifyHead, if_pos hc, List.filter_cons_of_neg (by decide)]
  rfl

theorem splitWhitespace_word (hword : Word word) (hc : isWhitespace c = true) :
    splitWhitespace (word ++ c :: text) = word :: splitWhitespace text := by
  have hne : (!word.isEmpty) = true := by simpa using hword.ne_nil
  rw [splitWhitespace, List.splitOnP_append_cons_of_forall_mem (fun d hd => (hword.plain d hd).1) c hc, List.filter_cons,
    if_pos hne]
  rfl

theorem splitWhitespace_words (h : ∀ word ∈ words, Word word) :
    splitWhitespace (words.flatMap (fun word => ' ' :: word) ++ ['\n']) = words := by
  induction words with
  | nil => decide
  | cons word words ih =>
      have hword := h word List.mem_cons_self
      have hrest := ih fun other hother => h other (List.mem_cons_of_mem _ hother)
      rw [List.flatMap_cons, List.cons_append, List.cons_append, List.append_assoc, splitWhitespace_cons (by decide)]
      cases words with
      | nil => exact splitWhitespace_word hword (by decide)
      | cons next words =>
          rw [List.flatMap_cons, List.cons_append, List.cons_append, splitWhitespace_cons (by decide)] at hrest
          rw [List.flatMap_cons, List.cons_append, List.cons_append, splitWhitespace_word hword (by decide), hrest]

theorem alphanum_plain : ∀ n < 128, (Char.ofNat n).isAlphanum = true → isWhitespace (Char.ofNat n) = false ∧
    Char.ofNat n ≠ ')' := by
  decide

theorem word_of_chars (hne : word ≠ []) (h : ∀ c ∈ word, c.isAlphanum = true ∨ c = '-') : Word word where
  ne_nil := hne
  plain := by
    intro c hc
    rcases h c hc with halnum | rfl
    · have hplain := alphanum_plain c.toNat (ascii_of_isAlphanum halnum)
      rw [Char.ofNat_toNat] at hplain
      exact hplain halnum
    · decide

theorem word_int (n : Int) : Word (toString n).toList := by
  cases n with
  | ofNat n =>
      have hdigits := digits_toString n
      exact word_of_chars hdigits.ne_nil fun c hc => .inl (hdigits.isAlphanum hc)
  | negSucc n =>
      have hdigits := digits_toString (n + 1)
      have htext : (toString (Int.negSucc n)).toList = '-' :: (toString (n + 1)).toList := by
        show ("-" ++ toString (n + 1)).toList = _
        rw [String.toList_append]
        rfl
      rw [htext]
      apply word_of_chars (by simp)
      intro c hc
      rcases List.mem_cons.mp hc with rfl | hc
      · exact .inr rfl
      · exact .inl (hdigits.isAlphanum hc)

end Table

/-- The fields of a process after its command name. -/
def Process.fields (process : Process) : List (List Char) :=
  [process.state] :: process.before.map (fun n => (toString n).toList) ++
    (toString process.startTime).toList :: process.after.map (fun n => (toString n).toList)

theorem Process.word_fields (process : Process) : ∀ word ∈ process.fields, Word word := by
  intro word hword
  simp only [Process.fields, List.cons_append, List.mem_cons, List.mem_append, List.mem_map] at hword
  rcases hword with rfl | ⟨n, -, rfl⟩ | rfl | ⟨n, -, rfl⟩
  · apply word_of_chars (by simp)
    intro c hc
    rw [List.mem_singleton.mp hc]
    left
    show (process.state.isAlpha || process.state.isDigit) = true
    rw [process.isAlpha_state, Bool.true_or]
  · exact word_int n
  · exact word_of_chars (digits_u64 _).ne_nil fun c hc => .inl ((digits_u64 _).isAlphanum hc)
  · exact word_int n

theorem Process.start_field (process : Process) : process.fields[19]? = some (toString process.startTime).toList := by
  have hlength : ([process.state] :: process.before.map fun n => (toString n).toList).length = 19 := by
    rw [List.length_cons, List.length_map, process.length_before]
  unfold Process.fields
  rw [List.getElem?_append_right (by omega), hlength]
  rfl

/-- The start time is read, whatever the command name. -/
theorem parseProcessStartTime_stat (process : Process) (pid : UInt32) (comm : String) :
    parseProcessStartTime (process.stat pid comm) = some process.startTime := by
  have hplain : ∀ c ∈ process.fields.flatMap (fun field => ' ' :: field) ++ ['\n'], c ≠ ')' := by
    intro c hc
    rcases List.mem_append.mp hc with hc | hc
    · obtain ⟨word, hword, hc⟩ := List.mem_flatMap.mp hc
      rcases List.mem_cons.mp hc with rfl | hc
      · decide
      · exact ((process.word_fields word hword).plain c hc).2
    · rw [List.mem_singleton.mp hc]
      decide
  have hstat : process.stat pid comm = ((toString pid).toList ++ " (".toList ++ comm.toList) ++
      ')' :: (process.fields.flatMap (fun field => ' ' :: field) ++ ['\n']) := by
    simp only [Process.stat, Process.fields, List.append_assoc, List.cons_append]
  have hlast : ((process.stat pid comm).reverse.takeWhile (· ≠ ')')).reverse =
      process.fields.flatMap (fun field => ' ' :: field) ++ ['\n'] := by
    rw [hstat, List.reverse_append, List.reverse_cons, List.append_assoc, List.takeWhile_append_of_pos,
      List.singleton_append,
      List.takeWhile_cons_of_neg (by simp), List.append_nil, List.reverse_reverse]
    intro c hc
    simpa using hplain c (List.mem_reverse.mp hc)
  unfold parseProcessStartTime
  rw [if_pos (by rw [hstat]; simp), hlast, splitWhitespace_words process.word_fields, process.start_field,
    Option.bind_some,
    parseU64_toString]

/-- No process is the daemon that an identity stands for. -/
def OwnerDead (machine : Machine) (currentBoot : String) (identity : ProcessIdentity) : Prop :=
  identity.bootId ≠ currentBoot ∨ ∀ process, machine.processes identity.pid = some process →
    process.startTime ≠ identity.startTime

theorem ownerDead_of_definitelyDead {machine : Machine} {currentBoot : String} {identity : ProcessIdentity}
    (h : definitelyDead machine currentBoot identity = true) : OwnerDead machine currentBoot identity := by
  unfold definitelyDead at h
  split at h
  · rename_i hboot
    exact .inl hboot
  · right
    intro process hprocess
    simp only [Machine.readProcessStartTime, hprocess] at h
    split at h
    · rename_i heq
      split at heq <;> simp [parseProcessStartTime_stat] at heq
    · rename_i startTime heq
      split at heq
      · rw [parseProcessStartTime_stat] at heq
        cases heq
        simpa using h
      · cases heq
    · cases h

/-! ### Credential names -/

theorem isLowerHex_digitChar : ∀ n < 16, isLowerHex n.digitChar = true := by decide

theorem isLowerHex_toDigits (n : Nat) : ∀ c ∈ Nat.toDigits 16 n, isLowerHex c = true := by
  induction n using Nat.strongRecOn with
  | ind n ih =>
      by_cases hn : n < 16
      · rw [Nat.toDigits_of_lt_base hn]
        intro c hc
        rw [List.mem_singleton.mp hc]
        exact isLowerHex_digitChar n hn
      · rw [Nat.toDigits_of_base_le (by decide) (by omega)]
        intro c hc
        rcases List.mem_append.mp hc with hc | hc
        · exact ih (n / 16) (by omega) c hc
        · rw [List.mem_singleton.mp hc]
          exact isLowerHex_digitChar (n % 16) (Nat.mod_lt _ (by decide))

/-- The sequence number of a file, in sixteen digits. -/
theorem sequence_digits (sequence : UInt64) : (List.leftpad 16 '0' (Nat.toDigits 16 sequence.toNat)).length = 16 ∧
    ∀ c ∈ List.leftpad 16 '0' (Nat.toDigits 16 sequence.toNat), isLowerHex c = true := by
  have hlength : (Nat.toDigits 16 sequence.toNat).length ≤ 16 :=
    (Nat.length_toDigits_le_iff (by decide) (by decide)).mpr sequence.toNat_lt
  constructor
  · rw [List.length_leftpad]
    omega
  · intro c hc
    rcases List.mem_append.mp hc with hc | hc
    · rw [List.eq_of_mem_replicate hc]
      decide
    · exact isLowerHex_toDigits _ c hc

theorem stripSuffix_append {text stop : List Char} : stripSuffix stop (text ++ stop) = some text := by
  rw [stripSuffix, if_pos (by simp), List.length_append, Nat.add_sub_cancel, List.take_left]

theorem splitHyphen_append {first rest : List Char} (h : '-' ∉ first) :
    splitHyphen (first ++ '-' :: rest) = some (first, rest) := by
  have hfirst : ∀ c ∈ first, decide (c ≠ '-') = true := by
    intro c hc
    simp only [ne_eq, decide_not, Bool.not_eq_true', decide_eq_false_iff_not]
    rintro rfl
    exact h hc
  rw [splitHyphen, List.dropWhile_append_of_pos hfirst, List.takeWhile_append_of_pos hfirst]
  simp

theorem privateConfigName_toList (adapter : String) (pid : UInt32) (sequence : UInt64) :
    (privateConfigName adapter pid sequence).toList =
    ((adapter.toList ++ ['-']) ++ ((toString pid).toList ++ '-' :: List.leftpad 16 '0' (Nat.toDigits 16 sequence.toNat))) ++
      ".json".toList := by
  have hhyphen : "-".toList = ['-'] := rfl
  unfold privateConfigName
  rw [String.toList_append, String.toList_append, String.toList_append, String.toList_append, String.toList_append,
    hhyphen,
    String.toList_ofList]
  simp only [List.append_assoc, List.cons_append, List.nil_append]

/-- The names that the daemon gives to its files are credential names. -/
theorem strictCredentialName_privateConfigName (adapter : String) (hadapter : adapter = "sslocal" ∨ adapter = "singbox")
    (pid : UInt32)
    (sequence : UInt64) : strictCredentialName (privateConfigName adapter pid sequence) = true := by
  have hpid := digits_u32 pid
  obtain ⟨hlength, hhex⟩ := sequence_digits sequence
  have hstarts (rest : List Char) :
      (stripPrefix "sslocal-".toList (adapter.toList ++ ['-'] ++ rest)).or
        (stripPrefix "singbox-".toList (adapter.toList ++ ['-'] ++ rest)) = some rest := by
    rcases hadapter with rfl | rfl
    · have hname : "sslocal".toList ++ ['-'] = "sslocal-".toList := by decide
      rw [hname, stripPrefix_append, Option.some_or]
    · have hname : "singbox".toList ++ ['-'] = "singbox-".toList := by decide
      have hother : stripPrefix "sslocal-".toList ("singbox-".toList ++ rest) = none := rfl
      rw [hname, stripPrefix_append, hother, Option.none_or]
  have hnonempty : (!(toString pid).toList.isEmpty) = true := by simpa using hpid.ne_nil
  have hdigits : (toString pid).toList.all Char.isDigit = true := List.all_eq_true.mpr hpid.isDigit
  have hall : (List.leftpad 16 '0' (Nat.toDigits 16 sequence.toNat)).all isLowerHex = true := List.all_eq_true.mpr hhex
  unfold strictCredentialName
  rw [privateConfigName_toList, stripSuffix_append]
  dsimp only
  rw [hstarts]
  dsimp only
  rw [splitHyphen_append (hpid.not_mem (by decide))]
  dsimp only
  rw [hnonempty, hdigits, parseU32_toString, hlength, hall]
  simp

/-! ### Safety -/

section Safety

variable {machine : Machine} {calls : FsCalls} {adapters entries : Dir} {inst : FileName} {currentBoot : String}

/-- The bytes of a marker for an identity. -/
def Marks (content : Bytes) (identity : ProcessIdentity) : Prop :=
  (String.fromUTF8? ⟨content.toArray⟩).bind ProcessIdentity.parse = some identity

/-- A directory whose name and marker stand for one daemon, and that has nothing but files of a daemon. -/
structure CredentialInstance (adapters : Dir) (inst : FileName) (entries : Dir) (identity : ProcessIdentity) : Prop where
  named : ∃ name, inst = .text name ∧ identityFromInstanceName name = some identity
  directory : adapters.get? inst = some (.directory entries)
  marked : ∃ content, Dir.get? entries identityFile = some (.file content) ∧ Marks content identity
  strict : ∀ name, Dir.get? entries name ≠ none →
    (name = identityFile ∨ Credential name) ∧ ∃ content, Dir.get? entries name = some (.file content)

structure DeadInstance (machine : Machine) (adapters : Dir) (inst : FileName) (entries : Dir)
    (identity : ProcessIdentity) : Prop
    extends CredentialInstance adapters inst entries identity where
  dead : ∃ currentBoot, machine.readBootId = .ok currentBoot ∧ OwnerDead machine currentBoot identity

theorem stale_of_staleEntries (hboot : machine.readBootId = .ok currentBoot)
    (h : staleEntries machine calls adapters currentBoot inst = some entries) : ∃ identity,
      (∃ name, inst = .text name ∧ identityFromInstanceName name = some identity) ∧
        adapters.get? inst = some (.directory entries) ∧
      (∃ content, Dir.get? entries identityFile = some (.file content) ∧ Marks content identity) ∧
      ∃ currentBoot, machine.readBootId = .ok currentBoot ∧ OwnerDead machine currentBoot identity := by
  unfold staleEntries at h
  split at h
  · rename_i name found hfound
    simp only [Option.bind_eq_bind, Option.bind_eq_some_iff, guard_eq_some] at h
    obtain ⟨identity, hname, _, -, _, -, h⟩ := h
    split at h
    · rename_i content hcontent
      simp only [Option.bind_eq_some_iff, guard_eq_some, Option.pure_def, Option.some.injEq] at h
      obtain ⟨_, -, _, -, marker, hmarker, _, rfl, _, hdead, rfl⟩ := h
      exact ⟨marker, ⟨name, rfl, hname⟩, hfound, ⟨content, hcontent, Option.bind_eq_some_iff.mpr hmarker⟩, currentBoot,
        hboot,
        ownerDead_of_definitelyDead hdead⟩
    · cases h
  · cases h

theorem inst_of_mem_stale {removal : Removal} (h : removal ∈ (removeStrictStaleInstance calls inst entries).2) :
    removal.inst = inst := by
  rcases @stale_removals calls entries inst with hnone | ⟨files, -, hstarts⟩
  · rw [hnone] at h
    cases h
  · have hmem := hstarts.subset h
    simp only [List.mem_append, List.mem_map, List.mem_cons, List.not_mem_nil, or_false] at hmem
    rcases hmem with ⟨file, -, rfl⟩ | rfl | rfl <;> rfl

/-- Whatever is removed belongs to a dead daemon. -/
theorem deadInstance_of_removal {removal : Removal}
    (hlisted : ∀ inst entries names, adapters.get? inst = some (.directory entries) →
      calls.list [inst] = some names → Lists entries names)
    (h : removal ∈ (cleanupStaleInstances machine calls adapters).2) :
    ∃ entries identity, DeadInstance machine adapters removal.inst entries identity ∧
      ∀ file, removal = .file removal.inst file → ∃ content, Dir.get? entries file = some (.file content) := by
  unfold cleanupStaleInstances at h
  split at h
  · cases h
  · cases h
  · rename_i currentBoot names hboot hnames
    obtain ⟨inst, -, hmem⟩ := List.mem_flatMap.mp h
    split at hmem
    · rename_i entries hentries
      have hinst := inst_of_mem_stale hmem
      obtain ⟨identity, hnamed, hdirectory, hmarked, hdead⟩ := stale_of_staleEntries hboot hentries
      rcases @stale_removals calls entries inst with hnone | ⟨files, haccepted, hstarts⟩
      · rw [hnone] at hmem
        cases hmem
      · have hlists := hlisted inst entries _ hdirectory haccepted.listed
        rw [hinst]
        refine ⟨entries, identity, ⟨⟨hnamed, hdirectory, hmarked, ?_⟩, hdead⟩, ?_⟩
        · intro name hname
          have hstrict := haccepted.strict name (hlists.mem_some hname)
          exact ⟨hstrict.name, hstrict.regular⟩
        · rintro file rfl
          have hfile := hstarts.subset hmem
          simp only [List.mem_append, List.mem_map, Removal.file.injEq, true_and, exists_eq_right, List.mem_filter,
            List.mem_cons,
            List.not_mem_nil, reduceCtorEq, or_false] at hfile
          rcases hfile with hfile | rfl
          · exact (haccepted.strict file hfile.1).regular
          · exact (haccepted.strict identityFile haccepted.marker).regular
    · cases hmem

/-- The next start removes nothing but the files of dead daemons and their directories, wherever it stops; the files of the adapters
are among those that it can remove. -/
theorem stale_cleanup_safe (machine : Machine) (calls : FsCalls) (adapters : Dir) (hlisted : ∀ inst entries names,
      adapters.get? inst = some (.directory entries) → calls.list [inst] = some names → Lists entries names) :
    (∀ removal ∈ (cleanupStaleInstances machine calls adapters).2, ∃ entries identity,
      DeadInstance machine adapters removal.inst entries identity ∧
        ∀ file, removal = .file removal.inst file → ∃ content, Dir.get? entries file = some (.file content)) ∧
    (∀ k inst, (∀ entries identity, ¬ DeadInstance machine adapters inst entries identity) →
      (afterRemovals adapters ((cleanupStaleInstances machine calls adapters).2.take k)).get? inst = adapters.get? inst) ∧
    (∀ k name identity process, identityFromInstanceName name = some identity → machine.readBootId = .ok identity.bootId →
      machine.processes identity.pid = some process → process.startTime = identity.startTime →
        (afterRemovals adapters ((cleanupStaleInstances machine calls adapters).2.take k)).get? (.text name) =
          adapters.get? (.text name)) ∧
    ∀ adapter, adapter = "sslocal" ∨ adapter = "singbox" → ∀ pid sequence,
      strictCredentialName (privateConfigName adapter pid sequence) = true := by
  have hkept : ∀ k inst, (∀ entries identity, ¬ DeadInstance machine adapters inst entries identity) →
      (afterRemovals adapters ((cleanupStaleInstances machine calls adapters).2.take k)).get? inst =
        adapters.get? inst := by
    intro k inst halive
    apply get?_afterRemovals_of_ne
    intro removal hremoval heq
    obtain ⟨entries, identity, hdead, -⟩ := deadInstance_of_removal hlisted (List.mem_of_mem_take hremoval)
    rw [heq] at hdead
    exact halive entries identity hdead
  refine ⟨fun removal h => deadInstance_of_removal hlisted h, hkept, ?_, strictCredentialName_privateConfigName⟩
  intro k name identity process hname hboot hprocess hstart
  apply hkept
  intro entries other hdead
  obtain ⟨_, heq, hother⟩ := hdead.named
  cases heq
  rw [hname] at hother
  cases hother
  obtain ⟨currentBoot, hcurrent, hdead⟩ := hdead.dead
  rw [hboot] at hcurrent
  cases hcurrent
  rcases hdead with hdead | hdead
  · exact hdead rfl
  · exact hdead process hprocess hstart

end Safety

namespace Sample

def identity : ProcessIdentity := ⟨"01234567-89ab-cdef-0123-456789abcdef", 7, 9⟩

def instanceName : String := strictInstanceName identity "00112233445566778899aabbccddeeff"

def credentialFile : FileName := .text (privateConfigName "sslocal" 7 0)

def instanceEntries : Dir := [(identityFile, .file identity.encode.toByteArray.data.toList), (credentialFile, .file [])]

def adapters : Dir := [(.text instanceName, .directory instanceEntries)]

/-- Nothing fails, and directories are listed as they are. -/
def fsCalls : FsCalls where
  list path := if path = [] then some [some (.text instanceName)] else some [some identityFile, some credentialFile]
  metadata _ := true
  read _ := true
  recheck _ := true
  removeFile _ := true
  removeDir _ := true

/-- The daemon is alive, under a name that looks like the fields of another process. -/
def process : Process where
  comm := some "causeway) S 1 (x"
  state := 'S'
  before := List.replicate 18 0
  startTime := 9
  after := []
  isAlpha_state := rfl
  length_before := rfl

def machine : Machine where
  bootId := some "01234567-89ab-cdef-0123-456789abcdef\n"
  processes pid := if pid = 7 then some process else none
  readable _ := true

theorem listed (inst : FileName) (entries : Dir) (names : List (Option FileName))
    (hentries : adapters.get? inst = some (.directory entries)) (hnames : fsCalls.list [inst] = some names) :
      Lists entries names := by
  have hinst : inst = .text instanceName := by
    by_contra hne
    simp [adapters, Dir.get?, Ne.symm hne] at hentries
  simp only [adapters, Dir.get?, hinst, List.find?_cons_of_pos, decide_true, Option.map_some, Option.some.injEq,
    FileNode.directory.injEq] at hentries
  simp only [fsCalls, List.cons_ne_nil, if_false, Option.some.injEq] at hnames
  subst hentries hnames
  exact lists_of_perm (List.Perm.refl _) (by decide +kernel)

end Sample

theorem stale_cleanup_safe_live : (afterRemovals Sample.adapters
    ((cleanupStaleInstances Sample.machine Sample.fsCalls Sample.adapters).2.take 3)).get? (.text Sample.instanceName) =
      Sample.adapters.get? (.text Sample.instanceName) :=
  (stale_cleanup_safe Sample.machine Sample.fsCalls Sample.adapters Sample.listed).2.2.1 3 Sample.instanceName Sample.identity
    Sample.process (by decide +kernel) (by decide +kernel) rfl rfl

end Causeway

import Mathlib.Data.Bool.AllAny
import Causeway.Model.Identity
import Causeway.Text.Split

/-!
# The identity codecs

A marker is the encoding of an identity and nothing else; an instance name is an identity with a nonce. The decoders undo the encoders.
-/

namespace Causeway

open Text

variable {c : Char} {text start stop rest : List Char} {identity identity' : ProcessIdentity} {value name : String}

/-! ### Text -/

theorem stripPrefix_append : stripPrefix start (start ++ rest) = some rest := by
  rw [stripPrefix, if_pos (by simp), List.drop_left]

theorem eq_of_stripPrefix (h : stripPrefix start text = some rest) : text = start ++ rest := by
  unfold stripPrefix at h
  split at h
  · rename_i hstarts
    obtain ⟨tail, rfl⟩ := List.isPrefixOf_iff_prefix.mp hstarts
    rw [List.drop_left] at h
    rw [Option.some.inj h]
  · cases h

theorem parseU32_toString (n : UInt32) : parseU32 (toString n).toList = some n := by
  have htext : (toString n).toList = (toString n.toNat).toList := rfl
  rw [parseU32, htext, parseUnsigned_toString n.toNat_lt, Option.map_some, UInt32.ofNat_toNat]

theorem parseU64_toString (n : UInt64) : parseU64 (toString n).toList = some n := by
  have htext : (toString n).toList = (toString n.toNat).toList := rfl
  rw [parseU64, htext, parseUnsigned_toString n.toNat_lt, Option.map_some, UInt64.ofNat_toNat]

theorem digits_u32 (n : UInt32) : Digits (toString n).toList := digits_toString n.toNat

theorem digits_u64 (n : UInt64) : Digits (toString n).toList := digits_toString n.toNat

theorem stripCr_eq_self (h : '\r' ∉ text) : stripCr text = text := by
  rw [stripCr, if_neg]
  intro hlast
  exact h (List.mem_of_getLast? hlast)

/-- Lines that are each ended by a line feed. -/
theorem textLines_lines {lines : List (List Char)} (h : ∀ line ∈ lines, '\n' ∉ line ∧ '\r' ∉ line) :
    textLines (lines.flatMap fun line => line ++ ['\n']) = lines := by
  have hsplit : (lines.flatMap fun line => line ++ ['\n']).splitOnP (· = '\n') = lines ++ [[]] := by
    have hlines := @splitOn_lines _ _ '\n' _ lines [] fun line hline => (h line hline).1
    rw [List.append_nil] at hlines
    exact hlines
  have hstrip : lines.map stripCr = lines :=
    (List.map_congr_left fun line hline => stripCr_eq_self (h line hline).2).trans (List.map_id lines)
  unfold textLines
  dsimp only
  rw [hsplit, List.dropLast_concat, hstrip]
  simp

theorem isLowerHex_ne (h : isLowerHex c = true) : c ≠ '-' ∧ c ≠ '\n' ∧ c ≠ '\r' := by
  refine ⟨?_, ?_, ?_⟩
  all_goals
    intro hc
    rw [hc] at h
    exact absurd h (by decide)

/-- A boot id is made of hexadecimal digits and hyphens. -/
theorem mem_validBootId (h : validBootId text = true) (hc : c ∈ text) : c = '-' ∨ isLowerHex c = true := by
  simp only [validBootId, Bool.and_eq_true, List.all_eq_true] at h
  obtain ⟨index, hindex⟩ := List.mem_iff_getElem?.mp hc
  have hbyte := h.2 (c, index) (List.mk_mem_zipIdx_iff_getElem?.mpr hindex)
  dsimp only at hbyte
  split at hbyte
  · exact .inl (by simpa using hbyte)
  · exact .inr hbyte

theorem length_validBootId (h : validBootId text = true) : text.length = 36 := by
  simp only [validBootId, Bool.and_eq_true, decide_eq_true_eq] at h
  exact h.1

theorem guard_eq_some {p : Prop} [Decidable p] {u : Unit} : (guard p : Option Unit) = some u ↔ p := by
  by_cases hp : p <;> simp [guard, hp]

/-! ### Markers -/

def ProcessIdentity.lines (identity : ProcessIdentity) : List (List Char) :=
  ["schema=1".toList, "boot_id=".toList ++ identity.bootId.toList, "pid=".toList ++ (toString identity.pid).toList,
    "start_time=".toList ++ (toString identity.startTime).toList]

theorem marker_lines {schema boot pid start b p t first second third stop : List Char}
    (hfirst : first = schema ++ '\n' :: boot)
    (hsecond : second = '\n' :: pid) (hthird : third = '\n' :: start) (hstop : stop = ['\n']) :
    first ++ b ++ second ++ p ++ third ++ t ++ stop =
      [schema, boot ++ b, pid ++ p, start ++ t].flatMap fun line => line ++ ['\n'] := by
  rw [hfirst, hsecond, hthird, hstop]
  simp

theorem encode_toList : identity.encode.toList = identity.lines.flatMap fun line => line ++ ['\n'] := by
  have hfirst : "schema=1\nboot_id=".toList = "schema=1".toList ++ '\n' :: "boot_id=".toList := by decide
  have hsecond : "\npid=".toList = '\n' :: "pid=".toList := by decide
  have hthird : "\nstart_time=".toList = '\n' :: "start_time=".toList := by decide
  unfold ProcessIdentity.encode ProcessIdentity.lines
  rw [String.toList_append, String.toList_append, String.toList_append, String.toList_append, String.toList_append,
    String.toList_append]
  exact marker_lines hfirst hsecond hthird rfl

/-- The fields of a marker have no line terminators. -/
theorem field_plain {field : List Char} (hstart : ∀ c ∈ start, c ≠ '\n' ∧ c ≠ '\r') (h : ∀ c ∈ field, c ≠ '\n' ∧
    c ≠ '\r') :
    '\n' ∉ start ++ field ∧ '\r' ∉ start ++ field := by
  constructor
  · intro hmem
    rcases List.mem_append.mp hmem with hmem | hmem
    · exact (hstart _ hmem).1 rfl
    · exact (h _ hmem).1 rfl
  · intro hmem
    rcases List.mem_append.mp hmem with hmem | hmem
    · exact (hstart _ hmem).2 rfl
    · exact (h _ hmem).2 rfl

theorem digits_plain (h : Digits text) : ∀ c ∈ text, c ≠ '\n' ∧ c ≠ '\r' := by
  intro c hc
  constructor
  · intro heq
    exact h.not_mem (by decide) (heq ▸ hc)
  · intro heq
    exact h.not_mem (by decide) (heq ▸ hc)

theorem validBootId_plain (h : validBootId text = true) : ∀ c ∈ text, c ≠ '\n' ∧ c ≠ '\r' := by
  intro c hc
  rcases mem_validBootId h hc with rfl | hhex
  · decide
  · exact (isLowerHex_ne hhex).2

theorem textLines_encode (h : validBootId identity.bootId.toList = true) :
    textLines identity.encode.toList = identity.lines := by
  rw [encode_toList]
  apply textLines_lines
  intro line hline
  simp only [ProcessIdentity.lines, List.mem_cons, List.not_mem_nil, or_false] at hline
  rcases hline with rfl | rfl | rfl | rfl
  · decide
  · exact field_plain (List.all_iff_forall_prop.mp (by decide)) (validBootId_plain h)
  · exact field_plain (List.all_iff_forall_prop.mp (by decide)) (digits_plain (digits_u32 _))
  · exact field_plain (List.all_iff_forall_prop.mp (by decide)) (digits_plain (digits_u64 _))

/-- The decoder of markers reads the encodings of identities, and nothing else. -/
theorem parse_eq_some_iff : ProcessIdentity.parse value = some identity ↔
    value = identity.encode ∧ validBootId identity.bootId.toList = true := by
  constructor
  · intro h
    unfold ProcessIdentity.parse at h
    split at h
    · simp only [Option.bind_eq_bind, Option.bind_eq_some_iff, guard_eq_some, Option.pure_def, Option.some.injEq] at h
      obtain ⟨_, -, boot, -, pid, -, start, -, _, hboot, _, hvalue, rfl⟩ := h
      exact ⟨hvalue, by rwa [String.toList_ofList]⟩
    · cases h
  · intro ⟨hvalue, hboot⟩
    rw [hvalue, ProcessIdentity.parse, textLines_encode hboot]
    simp only [ProcessIdentity.lines, stripPrefix_append, Option.bind_some, Option.bind_eq_bind]
    rw [parseU32_toString, Option.bind_some, parseU64_toString, Option.bind_some, String.ofList_toList, hboot]
    simp

/-! ### Instance names -/

/-- A nonce in hexadecimal digits. -/
structure Nonce (nonce : String) : Prop where
  length : nonce.toList.length = 32
  hex : nonce.toList.all isLowerHex = true

theorem Nonce.hyphen {nonce : String} (h : Nonce nonce) : '-' ∉ nonce.toList := by
  intro hmem
  exact (isLowerHex_ne (List.all_eq_true.mp h.hex _ hmem)).1 rfl

/-- What follows the boot id in a name. -/
def nameFields (identity : ProcessIdentity) (nonce : String) : List Char :=
  (toString identity.pid).toList ++ '-' :: ((toString identity.startTime).toList ++ '-' :: nonce.toList)

theorem strictInstanceName_toList (nonce : String) : (strictInstanceName identity nonce).toList =
    instancePrefix.toList ++ (identity.bootId.toList ++ '-' :: nameFields identity nonce) := by
  have hhyphen : "-".toList = ['-'] := rfl
  unfold strictInstanceName nameFields
  rw [String.toList_append, String.toList_append, String.toList_append, String.toList_append, String.toList_append,
    String.toList_append, String.toList_append, hhyphen]
  simp only [List.append_assoc, List.cons_append, List.nil_append]

theorem splitOn_nameFields {nonce : String} (h : Nonce nonce) : (nameFields identity nonce).splitOn '-' =
    [(toString identity.pid).toList, (toString identity.startTime).toList, nonce.toList] := by
  rw [nameFields, List.splitOn_append_cons_self_of_not_mem ((digits_u32 _).not_mem (by decide)),
    List.splitOn_append_cons_self_of_not_mem ((digits_u64 _).not_mem (by decide)), List.splitOn_eq_singleton h.hyphen]

/-- The decoder of names reads the names of identities, whatever their nonce, and nothing else. -/
theorem identityFromInstanceName_eq_some_iff : identityFromInstanceName name = some identity ↔
    ∃ nonce, Nonce nonce ∧ name = strictInstanceName identity nonce ∧ validBootId identity.bootId.toList = true := by
  constructor
  · intro h
    simp only [identityFromInstanceName, Option.bind_eq_bind, Option.bind_eq_some_iff, guard_eq_some] at h
    obtain ⟨rest, hrest, _, hboot, fields, hfields, h⟩ := h
    split at h
    · rename_i pidText startText nonce hsplit
      simp only [Option.bind_eq_some_iff, guard_eq_some, Option.pure_def, Option.some.injEq] at h
      obtain ⟨pid, -, _, hpid, start, -, _, hstart, _, hnonce, rfl⟩ := h
      have hjoined : ['-'].intercalate (fields.splitOn '-') = fields := List.intercalate_splitOn '-'
      rw [hsplit] at hjoined
      simp only [Bool.and_eq_true, decide_eq_true_eq] at hnonce
      refine ⟨String.ofList nonce, ⟨?_, ?_⟩, ?_, ?_⟩
      · rw [String.toList_ofList]
        exact hnonce.1
      · rw [String.toList_ofList]
        exact hnonce.2
      · have htail : fields = nameFields ⟨String.ofList (rest.take 36), pid, start⟩ (String.ofList nonce) := by
          rw [nameFields, hpid, hstart, String.toList_ofList, ← hjoined]
          simp [List.intercalate]
        have hparts : rest = rest.take 36 ++ '-' :: fields := by
          conv => lhs; rw [← List.take_append_drop 36 rest, eq_of_stripPrefix hfields]
          simp
        rw [← String.toList_inj, strictInstanceName_toList, eq_of_stripPrefix hrest, ← htail, String.toList_ofList,
          ← hparts]
      · rwa [String.toList_ofList]
    · cases h
  · intro ⟨nonce, hnonce, hname, hboot⟩
    have hlength := length_validBootId hboot
    have htake : (identity.bootId.toList ++ '-' :: nameFields identity nonce).take 36 = identity.bootId.toList := by
      rw [← hlength, List.take_left]
    have hdrop : (identity.bootId.toList ++ '-' :: nameFields identity nonce).drop 36 =
      ['-'] ++ nameFields identity nonce := by
      rw [← hlength, List.drop_left, List.singleton_append]
    have hdigits : (nonce.toList.length = 32 && nonce.toList.all isLowerHex) = true := by
      rw [hnonce.length, hnonce.hex]
      rfl
    rw [hname, identityFromInstanceName, strictInstanceName_toList, stripPrefix_append]
    dsimp only [Option.bind_eq_bind, Option.bind_some]
    rw [htake, hdrop, stripPrefix_append, hboot]
    dsimp only [Option.bind_some]
    rw [splitOn_nameFields hnonce]
    dsimp only
    rw [parseU32_toString, parseU64_toString, hdigits]
    simp

/-- Each decoder reads what its encoder writes for an identity with a boot id, and nothing else; a marker is determined by its
identity, a name by its identity and its nonce. -/
theorem identity_codecs (value name : String) (identity : ProcessIdentity) :
    (ProcessIdentity.parse value = some identity ↔ value = identity.encode ∧ validBootId identity.bootId.toList = true) ∧
    (identityFromInstanceName name = some identity ↔
      ∃ nonce, Nonce nonce ∧ name = strictInstanceName identity nonce ∧ validBootId identity.bootId.toList = true) ∧
    (∀ value', ProcessIdentity.parse value = some identity → ProcessIdentity.parse value' = some identity →
      value' = value) ∧
    (∀ name', identityFromInstanceName name = some identity → identityFromInstanceName name' = some identity →
      ∃ nonce nonce', name = strictInstanceName identity nonce ∧ name' = strictInstanceName identity nonce') ∧
    (validBootId identity.bootId.toList = true → ProcessIdentity.parse identity.encode = some identity ∧
      ∀ nonce, Nonce nonce → identityFromInstanceName (strictInstanceName identity nonce) = some identity) := by
  refine ⟨parse_eq_some_iff, identityFromInstanceName_eq_some_iff, ?_, ?_, ?_⟩
  · intro value' h h'
    rw [(parse_eq_some_iff.mp h').1, (parse_eq_some_iff.mp h).1]
  · intro name' h h'
    obtain ⟨nonce, -, hname, -⟩ := identityFromInstanceName_eq_some_iff.mp h
    obtain ⟨nonce', -, hname', -⟩ := identityFromInstanceName_eq_some_iff.mp h'
    exact ⟨nonce, nonce', hname, hname'⟩
  · intro hboot
    exact ⟨parse_eq_some_iff.mpr ⟨rfl, hboot⟩,
      fun nonce hnonce => identityFromInstanceName_eq_some_iff.mpr ⟨nonce, hnonce, rfl, hboot⟩⟩

/-- Two names of one identity, with different nonces. -/
theorem identity_codecs_nonce : ¬ ∀ name name' identity, identityFromInstanceName name = some identity →
    identityFromInstanceName name' = some identity → name = name' := by
  intro h
  have heq := h (instancePrefix ++ "01234567-89ab-cdef-0123-456789abcdef-7-9-00000000000000000000000000000000")
    (instancePrefix ++ "01234567-89ab-cdef-0123-456789abcdef-7-9-00000000000000000000000000000001")
    ⟨"01234567-89ab-cdef-0123-456789abcdef", 7, 9⟩ (by decide +kernel) (by decide +kernel)
  revert heq
  decide +kernel

end Causeway

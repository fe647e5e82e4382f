import Causeway.Proof.Targets
import Causeway.Text.Numeral
import Mathlib.Data.Bool.AllAny

/-!
# CONNECT targets

The grammar of `connect://` targets, as text, against the splitter. The integer parser takes a sign that the grammar does not have.
-/

namespace Causeway

open Text

/-- The host of a target. -/
structure ConnectHost (host : List Char) : Prop where
  named : host ≠ []
  plain : ∀ c ∈ host, c ∉ [':', '/', '?', '#', '@']
  visible : ∀ c ∈ host, isWhitespace c = false ∧ isControl c = false

/-- Its port: decimal digits with a value that a port can have. -/
structure ConnectPort (port : List Char) : Prop where
  digits : Digits port
  positive : 1 ≤ Nat.ofDigitChars 10 port 0
  small : Nat.ofDigitChars 10 port 0 ≤ 65535

/-- The grammar, with the authority that a target stands for. -/
inductive ConnectTarget (url : String) : List Char → Prop where
  | bare (host : List Char) (hurl : url.toList = "connect://".toList ++ host) (hhost : ConnectHost host) :
      ConnectTarget url (host ++ ':' :: "443".toList)
  | port (host port : List Char) (hurl : url.toList = "connect://".toList ++ (host ++ ':' :: port))
    (hhost : ConnectHost host)
      (hport : ConnectPort port) : ConnectTarget url (host ++ ':' :: port)

/-- A target but for a plus sign before its port. -/
def SignedPort (url : String) : Prop := ∃ host port, url.toList = "connect://".toList ++ (host ++ ':' :: '+' :: port) ∧
  ConnectHost host ∧ ConnectPort port

/-- The splitter takes the target exactly if the grammar does, and answers with its authority. -/
def SplitsByGrammar (url : String) : Prop :=
  ((∃ authority, splitConnectTarget url = .ok authority) ↔ ∃ authority, ConnectTarget url authority) ∧
    ∀ authority, splitConnectTarget url = .ok authority → ConnectTarget url authority.toList

variable {url authority : String} {host port rest text : List Char}

theorem parseU16_eq : parseU16 text = parseUnsigned (2 ^ 16) text := rfl

/-- The characters of a target without its scheme. -/
structure ConnectRest (rest : List Char) : Prop where
  ne_nil : rest ≠ []
  plain : ∀ c ∈ rest, c ∉ ['/', '?', '#', '@']
  visible : ∀ c ∈ rest, isWhitespace c = false ∧ isControl c = false

theorem connectRest_iff : ConnectRest rest ↔
    (rest.isEmpty || rest.any (['/', '?', '#', '@'].contains ·) || rest.any fun c => isWhitespace c || isControl c) =
      false := by
  rw [Bool.or_eq_false_iff, Bool.or_eq_false_iff, any_hidden, List.isEmpty_eq_false_iff, List.any_eq_false]
  constructor
  · intro h
    exact ⟨⟨h.ne_nil, fun c hc => by simpa using h.plain c hc⟩, h.visible⟩
  · intro ⟨⟨hne, hplain⟩, hvisible⟩
    exact ⟨hne, fun c hc => by simpa using hplain c hc, hvisible⟩

theorem ConnectHost.connectRest (h : ConnectHost host) : ConnectRest host where
  ne_nil := h.named
  plain := by
    intro c hc hmem
    exact h.plain c hc (List.mem_cons_of_mem _ hmem)
  visible := h.visible

theorem ConnectHost.colon (h : ConnectHost host) : ':' ∉ host := by
  intro hmem
  exact h.plain ':' hmem (by decide)

theorem ConnectRest.connectHost (h : ConnectRest rest) (hsub : ∀ c ∈ host, c ∈ rest) (hne : host ≠ [])
    (hcolon : ':' ∉ host) :
    ConnectHost host where
  named := hne
  plain := by
    intro c hc hmem
    rcases List.mem_cons.mp hmem with rfl | hmem
    · exact hcolon hc
    · exact h.plain c (hsub c hc) hmem
  visible := fun c hc => h.visible c (hsub c hc)

/-- A host, a colon and a text of digits and signs. -/
theorem ConnectHost.rest_port (h : ConnectHost host) (hport : ∀ c ∈ port, c = '+' ∨ c.isDigit = true) :
    ConnectRest (host ++ ':' :: port) := by
  have hdigit : ∀ c ∈ ':' :: port, c ∉ ['/', '?', '#', '@'] ∧ isWhitespace c = false ∧ isControl c = false := by
    intro c hc
    rcases List.mem_cons.mp hc with rfl | hc
    · decide
    · rcases hport c hc with rfl | hdigit
      · decide
      · simp only [Char.isDigit, Bool.and_eq_true, decide_eq_true_eq] at hdigit
        have hlow : 48 ≤ c.toNat := hdigit.1
        have hhigh : c.toNat ≤ 57 := hdigit.2
        refine ⟨?_, ?_, ?_⟩
        · intro hmem
          simp only [List.mem_cons, List.not_mem_nil, or_false] at hmem
          rcases hmem with rfl | rfl | rfl | rfl <;> revert hlow hhigh <;> decide
        · simp only [isWhitespace, Bool.or_eq_false_iff, Bool.and_eq_false_iff, decide_eq_false_iff_not]
          omega
        · simp only [isControl, Bool.or_eq_false_iff, Bool.and_eq_false_iff, decide_eq_false_iff_not]
          omega
  refine ⟨by simp, ?_, ?_⟩
  · intro c hc
    rcases List.mem_append.mp hc with hc | hc
    · exact h.connectRest.plain c hc
    · exact (hdigit c hc).1
  · intro c hc
    rcases List.mem_append.mp hc with hc | hc
    · exact h.visible c hc
    · exact (hdigit c hc).2

/-! ### The splitter -/

/-- What the splitter makes of the text after the scheme. -/
def splitRest (rest : List Char) : Except String String :=
  if rest.isEmpty || rest.any (['/', '?', '#', '@'].contains ·) || rest.any fun c => isWhitespace c || isControl c then
    .error "invalid connect target"
  else if !rest.contains ':' then .ok (String.ofList rest ++ ":443")
  else
    match parseU16 (afterColon rest) with
    | none => .error "connect target port must be numeric"
    | some port =>
        if port = 0 then .error "connect target port must be nonzero"
        else if (rest.take (rest.length - (afterColon rest).length - 1)).isEmpty then
          .error "connect target must name a host, not just a port"
        else if (rest.take (rest.length - (afterColon rest).length - 1)).contains ':' then
          .error "connect target must be host:port (or a bare host); extra colons are rejected"
        else .ok (String.ofList rest)

theorem splitConnectTarget_eq (hurl : url.toList = "connect://".toList ++ rest) :
    splitConnectTarget url = splitRest rest := by
  have hstart : "connect://".toList.isPrefixOf url.toList = true :=
    List.isPrefixOf_iff_prefix.mpr (hurl ▸ List.prefix_append _ _)
  unfold splitConnectTarget
  dsimp only
  rw [hstart, if_neg (by decide), hurl, List.drop_left' (by rfl)]
  rfl

theorem scheme_of_splitConnectTarget (h : splitConnectTarget url = .ok authority) :
    ∃ rest, url.toList = "connect://".toList ++ rest := by
  unfold splitConnectTarget at h
  dsimp only at h
  split at h
  · cases h
  · rename_i hscheme
    simp only [Bool.not_eq_true', Bool.not_eq_false, List.isPrefixOf_iff_prefix] at hscheme
    obtain ⟨rest, hrest⟩ := hscheme
    exact ⟨rest, hrest.symm⟩

theorem splitRest_bare (h : ConnectHost rest) : splitRest rest = .ok (String.ofList rest ++ ":443") := by
  have hcolon : (!rest.contains ':') = true := by simpa using h.colon
  rw [splitRest, connectRest_iff.mp h.connectRest, if_neg (by decide), if_pos hcolon]

/-- A host and whatever the integer parser takes for a port. -/
theorem splitRest_port (hhost : ConnectHost host) (hchars : ∀ c ∈ port, c = '+' ∨ c.isDigit = true) {number : Nat}
    (hnumber : parseU16 port = some number) (hpositive : number ≠ 0) :
    splitRest (host ++ ':' :: port) = .ok (String.ofList (host ++ ':' :: port)) := by
  have hnot : ':' ∉ port := colon_not_mem (by rw [hnumber]; rfl)
  have htake : (host ++ ':' :: port).take ((host ++ ':' :: port).length - port.length - 1) = host := by
    apply List.take_left'
    rw [List.length_append, List.length_cons]
    omega
  have hnamed : host.isEmpty = false := List.isEmpty_eq_false_iff.mpr hhost.named
  have hcolon : host.contains ':' = false := by simpa using hhost.colon
  rw [splitRest, connectRest_iff.mp (hhost.rest_port hchars), if_neg (by decide), if_neg (by simp),
    afterColon_append hnot, hnumber]
  dsimp only
  rw [if_neg hpositive, htake, hnamed, hcolon]
  rfl

theorem ConnectPort.parseU16 (h : ConnectPort port) : Causeway.parseU16 port = some (Nat.ofDigitChars 10 port 0) := by
  have hsmall := h.small
  rw [parseU16_eq, parseUnsigned_digits h.digits, if_pos (by omega)]

theorem splitConnectTarget_of_target (h : ConnectTarget url text) :
    splitConnectTarget url = .ok (String.ofList text) := by
  cases h with
  | bare host hurl hhost =>
      rw [splitConnectTarget_eq hurl, splitRest_bare hhost, String.ofList_append]
      rfl
  | port host port hurl hhost hport =>
      rw [splitConnectTarget_eq hurl]
      have hpositive := hport.positive
      exact splitRest_port hhost (fun c hc => .inr (hport.digits.isDigit c hc)) hport.parseU16 (by omega)

theorem splitConnectTarget_of_signed (hurl : url.toList = "connect://".toList ++ (host ++ ':' :: '+' :: port))
    (hhost : ConnectHost host)
    (hport : ConnectPort port) : splitConnectTarget url = .ok (String.ofList (host ++ ':' :: '+' :: port)) := by
  rw [splitConnectTarget_eq hurl]
  have hpositive := hport.positive
  have hnumber : Causeway.parseU16 ('+' :: port) = some (Nat.ofDigitChars 10 port 0) := by
    rw [parseU16_eq, parseUnsigned_plus hport.digits, ← parseU16_eq, hport.parseU16]
  refine splitRest_port hhost ?_ hnumber (by omega)
  intro c hc
  rcases List.mem_cons.mp hc with rfl | hc
  · exact .inl rfl
  · exact .inr (hport.digits.isDigit c hc)

/-- What the splitter takes is a target, or one but for a sign. -/
theorem target_or_signed (h : splitConnectTarget url = .ok authority) :
    ConnectTarget url authority.toList ∨ SignedPort url := by
  obtain ⟨rest, hurl⟩ := scheme_of_splitConnectTarget h
  rw [splitConnectTarget_eq hurl, splitRest] at h
  split at h
  · cases h
  · rename_i hgood
    have hrest := connectRest_iff.mpr (by simpa using hgood)
    split at h
    · rename_i hcolon
      cases h
      have htext : (String.ofList rest ++ ":443").toList = rest ++ ':' :: "443".toList := by simp
      rw [htext]
      exact .inl (.bare rest hurl (hrest.connectHost (fun _ hc => hc) hrest.ne_nil (by simpa using hcolon)))
    · rename_i hcolon
      have hsplit := @rsplit_colon rest (by simpa using hcolon)
      split at h
      · cases h
      · rename_i number hnumber
        split at h
        · cases h
        · rename_i hpositive
          split at h
          · cases h
          · rename_i hnamed
            split at h
            · cases h
            · rename_i hextra
              cases h
              have hhost := hrest.connectHost (fun c hc => List.mem_of_mem_take hc) (by simpa using hnamed)
                (by simpa using hextra)
              rw [parseU16_eq] at hnumber
              obtain ⟨digits, hdigits, hall, rfl, hsmall⟩ := parseUnsigned_eq_some.mp hnumber
              have hport : ConnectPort digits := ⟨hall, by omega, by omega⟩
              rw [String.toList_ofList]
              generalize rest.take (rest.length - (afterColon rest).length - 1) = host at hsplit hhost
              rcases hdigits with hdigits | hdigits
              · rw [hdigits] at hsplit
                rw [hsplit] at hurl ⊢
                exact .inl (.port _ digits hurl hhost hport)
              · rw [hdigits] at hsplit
                rw [hsplit] at hurl
                exact .inr ⟨_, digits, hurl, hhost, hport⟩

/-- The plus sign is in no target. -/
theorem SignedPort.not_target (h : SignedPort url) : ¬ ConnectTarget url text := by
  obtain ⟨host, port, hurl, hhost, hport⟩ := h
  intro htarget
  cases htarget with
  | bare other hother hnamed =>
      rw [hurl, List.append_cancel_left_eq] at hother
      exact hnamed.colon (by simp [← hother])
  | port other digits hother hnamed hdigits =>
      rw [hurl, List.append_cancel_left_eq] at hother
      have hsigned : ':' ∉ '+' :: port := by
        rw [List.mem_cons, not_or]
        exact ⟨by decide, hport.digits.not_mem (by decide)⟩
      have hafter := congrArg afterColon hother
      rw [afterColon_append hsigned, afterColon_append (hdigits.digits.not_mem (by decide))] at hafter
      exact hdigits.digits.not_mem (by decide : '+'.isDigit = false) (by simp [← hafter])

/-- The splitter is the grammar, but for targets with a plus sign before the port. -/
theorem splits_by_grammar_iff (url : String) : SplitsByGrammar url ↔ ¬ SignedPort url := by
  constructor
  · intro ⟨_, hauthority⟩ hsigned
    obtain ⟨host, port, hurl, hhost, hport⟩ := id hsigned
    exact hsigned.not_target (hauthority _ (splitConnectTarget_of_signed hurl hhost hport))
  · intro hunsigned
    have htarget : ∀ authority, splitConnectTarget url = .ok authority → ConnectTarget url authority.toList :=
      fun authority h => (target_or_signed h).resolve_right hunsigned
    refine ⟨⟨?_, ?_⟩, htarget⟩
    · intro ⟨authority, h⟩
      exact ⟨_, htarget authority h⟩
    · intro ⟨text, h⟩
      exact ⟨_, splitConnectTarget_of_target h⟩

theorem splits_signed_port : splitConnectTarget "connect://h:+443" = .ok "h:+443" ∧
    ¬ SplitsByGrammar "connect://h:+443" := by
  refine ⟨by decide +kernel, ?_⟩
  rw [splits_by_grammar_iff, not_not]
  have hhost : ConnectHost "h".toList :=
    ⟨by decide, List.all_iff_forall_prop.mp (by decide), List.all_iff_forall_prop.mp (by decide)⟩
  have hport : ConnectPort "443".toList := ⟨⟨by decide, List.all_iff_forall_prop.mp (by decide)⟩, by decide, by decide⟩
  exact ⟨"h".toList, "443".toList, by decide, hhost, hport⟩

end Causeway

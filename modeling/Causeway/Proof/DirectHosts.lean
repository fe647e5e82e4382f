import Causeway.Model.Adapters
import Causeway.Model.DirectHosts
import Causeway.Text.Numeral
import Causeway.Text.Split

/-!
# Direct hosts

What the configuration reader lets through is a list of canonical host names: it passes the second validation, it is a fixed point of the first, and both adapters read it as it is.
-/

namespace Causeway

open Text

/-! ### Host names -/

structure HostLabel (label : List Char) : Prop where
  named : label ≠ []
  short : label.length ≤ 63
  first : label.head?.any Char.isAlphanum = true
  last : label.getLast?.any Char.isAlphanum = true
  plain : ∀ c ∈ label, c.isAlphanum = true ∨ c = '-'

/-- Labels between dots, not all of them numbers. -/
structure DirectHost (text : List Char) : Prop where
  short : text.length ≤ 253
  dotted : '.' ∈ text
  labels : ∀ label ∈ text.splitOn '.', HostLabel label
  named : ∃ label ∈ text.splitOn '.', ∃ c ∈ label, c.isDigit = false

variable {text label : List Char} {value host : String} {c : Char}

theorem labelError_eq_none : labelError label = none ↔ HostLabel label := by
  unfold labelError
  constructor
  · intro h
    split at h
    · cases h
    · rename_i hnamed
      split at h
      · cases h
      · rename_i hshort
        split at h
        · cases h
        · rename_i hends
          split at h
          · cases h
          · rename_i hplain
            simp only [Bool.or_eq_true, Bool.not_eq_true', not_or, Bool.not_eq_false] at hends
            refine ⟨by simpa using hnamed, by omega, hends.1, hends.2, ?_⟩
            simpa [or_iff_not_imp_left] using hplain
  · intro h
    have hnamed : label.isEmpty = false := List.isEmpty_eq_false_iff.mpr h.named
    have hshort := h.short
    have hplain : (label.all fun c => c.isAlphanum || c = '-') = true := by simpa using h.plain
    rw [hnamed, h.first, h.last, hplain, if_neg (by decide), if_neg (by omega), if_neg (by decide), if_neg (by decide)]

theorem HostLabel.ascii (h : HostLabel label) (hc : c ∈ label) : c.toNat < 128 := by
  rcases h.plain c hc with hc | rfl
  · exact ascii_of_isAlphanum hc
  · decide

theorem DirectHost.plain (h : DirectHost text) (hc : c ∈ text) : c.isAlphanum = true ∨ c = '-' ∨ c = '.' := by
  by_cases hdot : c = '.'
  · exact .inr (.inr hdot)
  · obtain ⟨label, hlabel, hmem⟩ := mem_splitOn hc hdot
    rcases (h.labels label hlabel).plain c hmem with halnum | hhyphen
    · exact .inl halnum
    · exact .inr (.inl hhyphen)

theorem DirectHost.ascii (h : DirectHost text) (hc : c ∈ text) : c.toNat < 128 := by
  by_cases hdot : c = '.'
  · rw [hdot]
    decide
  · obtain ⟨label, hlabel, hmem⟩ := mem_splitOn hc hdot
    exact (h.labels label hlabel).ascii hmem

/-! ### Address literals -/

theorem digits_of_isOctet (h : isOctet label = true) (hc : c ∈ label) : c.isDigit = true := by
  simp only [isOctet, Bool.and_eq_true, List.all_eq_true] at h
  exact h.1.1.2 c hc

theorem colon_of_splitDoubleColon {sides : List Char × List Char} (h : splitDoubleColon text = some sides) :
    ':' ∈ text := by
  induction text using splitDoubleColon.induct generalizing sides with
  | case1 => cases h
  | case2 => cases h
  | case3 c d text hcolon =>
      simp only [Bool.and_eq_true, decide_eq_true_eq] at hcolon
      rw [hcolon.1]
      exact List.mem_cons_self
  | case4 c d text hcolon ih =>
      rw [splitDoubleColon, if_neg hcolon] at h
      obtain ⟨rest, hrest, -⟩ := Option.map_eq_some_iff.mp h
      exact List.mem_cons_of_mem _ (ih hrest)

/-- An IPv6 literal has a colon. -/
theorem colon_of_isIpv6 (h : isIpv6 text = true) : ':' ∈ text := by
  unfold isIpv6 at h
  split at h
  · by_contra hcolon
    rw [List.splitOn_eq_singleton hcolon, countGroups] at h
    split at h
    · simp at h
    · split at h <;> simp at h
  · rename_i sides hsides
    exact colon_of_splitDoubleColon hsides

theorem DirectHost.not_isIpAddr (h : DirectHost text) : isIpAddr text = false := by
  rw [isIpAddr, Bool.or_eq_false_iff]
  constructor
  · by_contra hv4
    simp only [isIpv4, Bool.not_eq_false, Bool.and_eq_true, List.all_eq_true] at hv4
    obtain ⟨label, hlabel, c, hc, hdigit⟩ := h.named
    rw [digits_of_isOctet (hv4.2 label hlabel) hc] at hdigit
    cases hdigit
  · by_contra hv6
    have hcolon := colon_of_isIpv6 (by simpa using hv6)
    rcases h.plain hcolon with h | h | h <;> revert h <;> decide

/-! ### Acceptance -/

theorem utf8ByteSize_ascii {text : List Char} (h : ∀ c ∈ text, c.toNat < 128) :
    (String.ofList text).utf8ByteSize = text.length := by
  induction text with
  | nil => rfl
  | cons c text ih =>
      have hsize : c.utf8Size = 1 := by
        have hc := h c List.mem_cons_self
        rw [Char.utf8Size_eq_one_iff, UInt32.le_iff_toNat_le]
        exact Nat.le_of_lt_succ hc
      rw [String.ofList_cons, String.utf8ByteSize_append, ih fun d hd => h d (List.mem_cons_of_mem _ hd)]
      simp [hsize, Nat.add_comm]

/-- The reader takes the host names, and answers with their lower-case form. -/
theorem canonicalDirectHost_eq_ok : canonicalDirectHost value = .ok host ↔
    DirectHost value.toList ∧ host = String.ofList (value.toList.map Char.toLower) := by
  have hsize (hascii : ∀ c ∈ value.toList, c.toNat < 128) : value.utf8ByteSize = value.toList.length := by
    rw [← utf8ByteSize_ascii hascii, String.ofList_toList]
  unfold canonicalDirectHost
  dsimp only
  constructor
  · intro h
    split at h
    · cases h
    · split at h
      · cases h
      · rename_i hascii
        have hascii : ∀ c ∈ value.toList, c.toNat < 128 := by simpa using hascii
        split at h
        · cases h
        · rename_i hshort
          rw [hsize hascii] at hshort
          split at h
          · cases h
          · split at h
            · cases h
            · rename_i hdotted
              split at h
              · cases h
              · rename_i hnamed
                split at h
                · cases h
                · rename_i hlabels
                  cases h
                  refine ⟨⟨by omega, by simpa using hdotted, ?_, by simpa using hnamed⟩, rfl⟩
                  intro label hlabel
                  exact labelError_eq_none.mp (List.findSome?_eq_none_iff.mp hlabels label hlabel)
  · intro ⟨h, hhost⟩
    have hascii : ∀ c ∈ value.toList, c.toNat < 128 := fun c hc => h.ascii hc
    have hne : value.toList.isEmpty = false := List.isEmpty_eq_false_iff.mpr (List.ne_nil_of_mem h.dotted)
    have hall : (value.toList.all fun c => c.toNat < 128) = true := by simpa using hascii
    have hshort := h.short
    have hdotted : value.toList.contains '.' = true := by simpa using h.dotted
    have hnamed : ((value.toList.splitOn '.').all fun label => label.all Char.isDigit) = false := by
      simpa using h.named
    have hlabels : (value.toList.splitOn '.').findSome? labelError = none :=
      List.findSome?_eq_none_iff.mpr fun label hlabel => labelError_eq_none.mpr (h.labels label hlabel)
    rw [hne, hall, h.not_isIpAddr, hdotted, hnamed, hlabels, hsize hascii, if_neg (by decide), if_neg (by decide),
      if_neg (by omega),
      if_neg (by decide), if_neg (by decide), if_neg (by decide), hhost]

/-! ### Lower case -/

theorem toLower_ascii : ∀ n < 128, (Char.toLower (Char.ofNat n)).isAlphanum = (Char.ofNat n).isAlphanum ∧
    (Char.toLower (Char.ofNat n)).isDigit = (Char.ofNat n).isDigit ∧
    (Char.toLower (Char.ofNat n) = '.' ↔ Char.ofNat n = '.') ∧ (Char.ofNat n = '-' → Char.toLower (Char.ofNat n) = '-') ∧
    Char.toLower (Char.toLower (Char.ofNat n)) = Char.toLower (Char.ofNat n) ∧
    ((Char.ofNat n).isAlphanum = true → (Char.toLower (Char.ofNat n)).isLower = true ∨
      (Char.toLower (Char.ofNat n)).isDigit = true) := by
  decide

theorem lower_of_ascii (h : c.toNat < 128) : c.toLower.isAlphanum = c.isAlphanum ∧ c.toLower.isDigit = c.isDigit ∧
    (c.toLower = '.' ↔ c = '.') ∧ (c = '-' → c.toLower = '-') ∧ c.toLower.toLower = c.toLower ∧
    (c.isAlphanum = true → c.toLower.isLower = true ∨ c.toLower.isDigit = true) := by
  have hc := toLower_ascii c.toNat h
  rwa [Char.ofNat_toNat] at hc

theorem HostLabel.any_lower (h : HostLabel label) {end' : Option Char} (hend : ∀ c ∈ end', c ∈ label)
    (hany : end'.any Char.isAlphanum = true) : (end'.map Char.toLower).any Char.isAlphanum = true := by
  cases end' with
  | none => cases hany
  | some c => exact (lower_of_ascii (h.ascii (hend c rfl))).1.trans hany

theorem HostLabel.lower (h : HostLabel label) : HostLabel (label.map Char.toLower) where
  named := by simpa using h.named
  short := by simpa using h.short
  first := by
    rw [List.head?_map]
    exact h.any_lower (fun _ hc => List.mem_of_head? hc) h.first
  last := by
    rw [List.getLast?_map]
    exact h.any_lower (fun _ hc => List.mem_of_getLast? hc) h.last
  plain := by
    intro c hc
    obtain ⟨d, hd, rfl⟩ := List.mem_map.mp hc
    have hlower := lower_of_ascii (h.ascii hd)
    rcases h.plain d hd with halnum | hhyphen
    · exact .inl (hlower.1.trans halnum)
    · exact .inr (hlower.2.2.2.1 hhyphen)

theorem DirectHost.splitOn_lower (h : DirectHost text) :
    (text.map Char.toLower).splitOn '.' = (text.splitOn '.').map fun label => label.map Char.toLower :=
  splitOn_map fun _ hc => (lower_of_ascii (h.ascii hc)).2.2.1

/-- The lower-case form of a host name is one. -/
theorem DirectHost.lower (h : DirectHost text) : DirectHost (text.map Char.toLower) where
  short := by simpa using h.short
  dotted := List.mem_map.mpr ⟨'.', h.dotted, by decide⟩
  labels := by
    rw [h.splitOn_lower]
    intro lowered hlowered
    obtain ⟨label, hlabel, rfl⟩ := List.mem_map.mp hlowered
    exact (h.labels label hlabel).lower
  named := by
    obtain ⟨label, hlabel, c, hc, hdigit⟩ := h.named
    rw [h.splitOn_lower]
    refine ⟨label.map Char.toLower, List.mem_map_of_mem hlabel, c.toLower, List.mem_map_of_mem hc, ?_⟩
    rw [(lower_of_ascii ((h.labels label hlabel).ascii hc)).2.1, hdigit]

theorem DirectHost.lower_lower (h : DirectHost text) :
    (text.map Char.toLower).map Char.toLower = text.map Char.toLower := by
  rw [List.map_map]
  apply List.map_congr_left
  intro c hc
  exact (lower_of_ascii (h.ascii hc)).2.2.2.2.1

/-- What the reader answers with. -/
structure CanonicalHost (host : String) : Prop where
  named : DirectHost host.toList
  lower : host.toList.map Char.toLower = host.toList

theorem canonicalHost_of_ok (h : canonicalDirectHost value = .ok host) : CanonicalHost host := by
  obtain ⟨hvalue, rfl⟩ := canonicalDirectHost_eq_ok.mp h
  constructor
  · rw [String.toList_ofList]
    exact hvalue.lower
  · rw [String.toList_ofList, hvalue.lower_lower]

theorem CanonicalHost.fixed (h : CanonicalHost host) : canonicalDirectHost host = .ok host := by
  rw [canonicalDirectHost_eq_ok]
  exact ⟨h.named, by rw [h.lower, String.ofList_toList]⟩

theorem CanonicalHost.chars (h : CanonicalHost host) (hc : c ∈ host.toList) :
    c.isLower = true ∨ c.isDigit = true ∨ c = '-' ∨ c = '.' := by
  have hlower : c.toLower = c := by
    rw [← h.lower] at hc
    obtain ⟨d, hd, rfl⟩ := List.mem_map.mp hc
    exact (lower_of_ascii (h.named.ascii hd)).2.2.2.2.1
  rcases h.named.plain hc with halnum | hrest
  · have hcase := (lower_of_ascii (h.named.ascii hc)).2.2.2.2.2 halnum
    rw [hlower] at hcase
    exact hcase.imp_right .inl
  · exact .inr (.inr hrest)

/-! ### Lists -/

/-- Canonical hosts, each once and none of them seen before. -/
structure CanonicalHosts (seen hosts : List String) : Prop where
  canonical : ∀ host ∈ hosts, CanonicalHost host
  nodup : hosts.Nodup
  unseen : ∀ host ∈ hosts, host ∉ seen

variable {seen hosts configured : List String}

theorem readDirectHosts_ok {directHosts : List String} (h : readDirectHosts seen directHosts configured = .ok hosts) :
    ∃ added, hosts = directHosts ++ added ∧ CanonicalHosts seen added := by
  induction configured generalizing seen directHosts with
  | nil =>
      cases h
      exact ⟨[], by simp, by simp, by simp, by simp⟩
  | cons value rest ih =>
      rw [readDirectHosts] at h
      cases hhost : canonicalDirectHost value with
      | error e =>
          rw [hhost] at h
          cases h
      | ok host =>
          rw [hhost] at h
          by_cases hseen : host ∈ seen
          · simp [hseen, bind, Except.bind, throw, throwThe, MonadExceptOf.throw] at h
          · simp only [hseen, bind, Except.bind, if_false] at h
            obtain ⟨added, rfl, hadded⟩ := ih h
            refine ⟨host :: added, by simp, ?_, ?_, ?_⟩
            · intro other hother
              rcases List.mem_cons.mp hother with rfl | hother
              · exact canonicalHost_of_ok hhost
              · exact hadded.canonical other hother
            · rw [List.nodup_cons]
              exact ⟨fun hmem => hadded.unseen host hmem List.mem_cons_self, hadded.nodup⟩
            · intro other hother
              rcases List.mem_cons.mp hother with rfl | hother
              · exact hseen
              · exact fun hmem => hadded.unseen other hother (List.mem_cons_of_mem _ hmem)

theorem CanonicalHosts.tail (h : CanonicalHosts seen (host :: hosts)) : CanonicalHosts (host :: seen) hosts where
  canonical := fun other hother => h.canonical other (List.mem_cons_of_mem _ hother)
  nodup := (List.nodup_cons.mp h.nodup).2
  unseen := by
    intro other hother hmem
    rcases List.mem_cons.mp hmem with rfl | hmem
    · exact (List.nodup_cons.mp h.nodup).1 hother
    · exact h.unseen other (List.mem_cons_of_mem _ hother) hmem

/-- Reading canonical hosts again changes nothing. -/
theorem readDirectHosts_canonical {directHosts : List String} (h : CanonicalHosts seen hosts) :
    readDirectHosts seen directHosts hosts = .ok (directHosts ++ hosts) := by
  induction hosts generalizing seen directHosts with
  | nil => simp [readDirectHosts]
  | cons host hosts ih =>
      have hseen : host ∉ seen := h.unseen host List.mem_cons_self
      rw [readDirectHosts, (h.canonical host List.mem_cons_self).fixed]
      simp only [hseen, bind, Except.bind, if_false]
      rw [ih h.tail, List.append_assoc, List.singleton_append]

theorem checkDirectHosts_canonical (h : CanonicalHosts seen hosts) : checkDirectHosts seen hosts = .ok () := by
  induction hosts generalizing seen with
  | nil => rfl
  | cons host hosts ih =>
      have hseen : host ∉ seen := h.unseen host List.mem_cons_self
      rw [checkDirectHosts, (h.canonical host List.mem_cons_self).fixed]
      simp only [hseen, bind, Except.bind, ne_eq, not_true_eq_false, if_false]
      exact ih h.tail

/-! ### The adapters -/

/-- A rule of an ACL. -/
inductive AclRule where
  | exact (host : List Char)
  /-- A host and its subdomains. -/
  | subdomains (host : List Char)
  | pattern (text : List Char)
deriving DecidableEq

def aclRule : List Char → AclRule
  | '|' :: '|' :: host => .subdomains host
  | '|' :: host => .exact host
  | text => .pattern text

/-- The rules before the first section, and the sections. -/
def readAcl : List (List Char) → List AclRule × List (List Char × List AclRule)
  | [] => ([], [])
  | line :: lines =>
      if line.head? = some '[' then ([], (line, (readAcl lines).1) :: (readAcl lines).2)
      else (aclRule line :: (readAcl lines).1, (readAcl lines).2)

/-- An ACL, line by line; empty lines say nothing. -/
def aclSections (acl : String) : List AclRule × List (List Char × List AclRule) :=
  readAcl ((acl.toList.splitOn '\n').filter fun line => !line.isEmpty)

/-- What `sslocal` reads of the hosts. -/
def sslocalSections (hosts : List String) : List AclRule × List (List Char × List AclRule) :=
  ([], [("[proxy_all]".toList, []), ("[bypass_list]".toList, hosts.map fun host => .exact host.toList)])

def Json.asStr : Json → Option String
  | .str text => some text
  | _ => none

/-- The hosts of a rule that has nothing but hosts and the direct outbound. -/
def directRule : Json → Option (List String)
  | .obj [(domain, .arr hosts), (outbound, .str tag)] =>
      if domain = "domain" ∧ outbound = "outbound" ∧ tag = "direct" then hosts.mapM Json.asStr else none
  | _ => none

/-- The hosts that `sing-box` takes to the direct outbound, if that is all its rules do. -/
def singboxDirect (config : Json) : Option (List String) :=
  ((((config.get? "route").bind (Json.get? "rules")).elim [] Json.array).mapM directRule).map List.flatten

theorem mapM_asStr : (hosts.map Json.str).mapM Json.asStr = some hosts := by
  induction hosts with
  | nil => rfl
  | cons host hosts ih =>
      rw [List.map_cons, List.mapM_cons, ih]
      rfl

theorem singboxDirect_config (node : AnytlsNode) (socksAddr httpAddr : SocketAddr) :
    singboxDirect (buildSingboxConfigWithDirectHosts node socksAddr httpAddr hosts) = some hosts := by
  cases hosts with
  | nil => simp [singboxDirect, buildSingboxConfigWithDirectHosts, Json.get?]
  | cons host hosts =>
      have hrule : directRule (.obj [("domain", .arr ((host :: hosts).map .str)), ("outbound", .str "direct")]) =
          some (host :: hosts) := by
        rw [directRule, if_pos (by decide), mapM_asStr]
      simp only [singboxDirect, buildSingboxConfigWithDirectHosts, Json.get?, List.isEmpty_cons, Bool.false_eq_true,
        if_false]
      simpa [Json.get?, Json.array] using hrule

theorem foldl_acl (hosts : List String) (acl : String) :
    (hosts.foldl (fun acl host => acl ++ "|" ++ host ++ "\n") acl).toList =
      acl.toList ++ (hosts.map fun host => '|' :: host.toList).flatMap fun line => line ++ ['\n'] := by
  induction hosts generalizing acl with
  | nil => simp
  | cons host hosts ih =>
      rw [List.foldl_cons, ih]
      simp [String.toList_append]

theorem readAcl_rules (h : ∀ host ∈ hosts, host.toList.head? ≠ some '|') :
    readAcl (hosts.map fun host => '|' :: host.toList) = (hosts.map fun host => .exact host.toList, []) := by
  induction hosts with
  | nil => rfl
  | cons host hosts ih =>
      have hrule : aclRule ('|' :: host.toList) = .exact host.toList := by
        have hhead := h host List.mem_cons_self
        cases hchars : host.toList with
        | nil => rfl
        | cons c rest =>
            rw [hchars] at hhead
            rw [aclRule]
            intro rest' heq
            cases heq
            exact hhead rfl
      rw [List.map_cons, readAcl, ih fun other hother => h other (List.mem_cons_of_mem _ hother), hrule]
      simp

/-- The characters of a canonical host are none of a line's or a rule's. -/
theorem CanonicalHost.not_mem (h : CanonicalHost host) (hlower : c.isLower = false) (hdigit : c.isDigit = false)
    (hhyphen : c ≠ '-')
    (hdot : c ≠ '.') : c ∉ host.toList := by
  intro hmem
  rcases h.chars hmem with hc | hc | hc | hc
  · rw [hlower] at hc
    cases hc
  · rw [hdigit] at hc
    cases hc
  · exact hhyphen hc
  · exact hdot hc

theorem aclSections_of_canonical {acl : String} (h : ∀ host ∈ hosts, CanonicalHost host)
    (hacl : buildSslocalAcl hosts = some acl) :
    aclSections acl = sslocalSections hosts := by
  unfold buildSslocalAcl at hacl
  split at hacl
  · cases hacl
  · cases hacl
    have hrules : ∀ line ∈ hosts.map (fun host => '|' :: host.toList), '\n' ∉ line ∧ line.isEmpty = false := by
      intro line hline
      obtain ⟨host, hhost, rfl⟩ := List.mem_map.mp hline
      rw [List.mem_cons, not_or]
      exact ⟨⟨by decide, (h host hhost).not_mem (by decide) (by decide) (by decide) (by decide)⟩, rfl⟩
    have hhead : "[proxy_all]\n\n[bypass_list]\n".toList =
        ["[proxy_all]".toList, [], "[bypass_list]".toList].flatMap (fun line => line ++ ['\n']) := by decide
    have hlines : ∀ line ∈
      ["[proxy_all]".toList, [], "[bypass_list]".toList] ++ hosts.map (fun host => '|' :: host.toList),
        '\n' ∉ line := by
      intro line hline
      rcases List.mem_append.mp hline with hline | hline
      · revert line
        simp
      · exact (hrules line hline).1
    have hsplit := @splitOn_lines _ _ _ _ _ [] hlines
    have hbars : ∀ host ∈ hosts, host.toList.head? ≠ some '|' := by
      intro host hhost heq
      exact (h host hhost).not_mem (by decide) (by decide) (by decide) (by decide) (List.mem_of_mem_head? heq)
    have hkept : (hosts.map fun host => '|' :: host.toList).filter (fun line => !line.isEmpty) =
        hosts.map fun host => '|' :: host.toList := by
      apply List.filter_eq_self.mpr
      intro line hline
      rw [(hrules line hline).2]
      rfl
    have hfixed : ["[proxy_all]".toList, [], "[bypass_list]".toList].filter (fun line => !line.isEmpty) =
        ["[proxy_all]".toList, "[bypass_list]".toList] := by decide
    have hlast : [[]].filter (fun line : List Char => !line.isEmpty) = [] := rfl
    unfold aclSections sslocalSections
    rw [foldl_acl, hhead, ← List.flatMap_append, ← List.append_nil (List.flatMap _ _), hsplit, List.splitOn_nil,
      List.filter_append,
      List.filter_append, hfixed, hkept, hlast, List.append_nil]
    simp [readAcl, readAcl_rules hbars]

/-- The list that the configuration reader lets through is canonical, and both adapters read that list and nothing else. -/
theorem direct_hosts_agree (configured hosts : List String) (h : deserializeDirectHosts configured = .ok hosts) :
    RoutingConfig.validate { directHosts := hosts } = .ok () ∧ deserializeDirectHosts hosts = .ok hosts ∧
    (∀ host ∈ hosts, canonicalDirectHost host = .ok host ∧ isIpAddr host.toList = false ∧
      ∀ c ∈ host.toList, c.isLower = true ∨ c.isDigit = true ∨ c = '-' ∨ c = '.') ∧
    (buildSslocalAcl hosts = none ↔ hosts = []) ∧
    (∀ acl, buildSslocalAcl hosts = some acl → aclSections acl = sslocalSections hosts) ∧
    ∀ node socksAddr httpAddr, singboxDirect (buildSingboxConfigWithDirectHosts node socksAddr httpAddr hosts) =
      some hosts := by
  obtain ⟨added, heq, hadded⟩ := readDirectHosts_ok h
  rw [List.nil_append] at heq
  subst heq
  refine ⟨checkDirectHosts_canonical hadded, readDirectHosts_canonical hadded, ?_, ?_, ?_, ?_⟩
  · intro host hhost
    have hcanonical := hadded.canonical host hhost
    exact ⟨hcanonical.fixed, hcanonical.named.not_isIpAddr, fun c hc => hcanonical.chars hc⟩
  · cases hosts <;> simp [buildSslocalAcl]
  · intro acl hacl
    exact aclSections_of_canonical hadded.canonical hacl
  · intro node socksAddr httpAddr
    exact singboxDirect_config node socksAddr httpAddr

theorem direct_hosts_agree_sample : aclSections "[proxy_all]\n\n[bypass_list]\n|api.example.com\n|open.example.org\n" =
    sslocalSections ["api.example.com", "open.example.org"] :=
  (direct_hosts_agree ["API.Example.COM", "open.example.org"] ["api.example.com",
    "open.example.org"] (by decide +kernel)).2.2.2.2.1 _
    (by decide +kernel)

end Causeway

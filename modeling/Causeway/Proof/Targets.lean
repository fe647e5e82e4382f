import Causeway.Model.Targets
import Causeway.Http.Head
import Mathlib.Data.Bool.AllAny

/-!
# Targets of checks

A health URL that passes validation is one the splitter takes apart, and the head sent for it reads back as the request that is meant. A site URL that passes validation may still be one the site probe rejects, and the user agent may break the head in two.
-/

namespace Causeway

open Http (Header)

variable {url scheme : String} {text authority path : List Char}

/-! ### URLs -/

def authorityOf (scheme url : String) : List Char := (url.toList.drop scheme.length).takeWhile fun c => !endsAuthority c

/-- What both validators ask of a URL. -/
structure PlainUrl (scheme url : String) : Prop where
  absolute : scheme.toList <+: url.toList
  visible : ∀ c ∈ url.toList, isWhitespace c = false ∧ isControl c = false
  fragment : '#' ∉ url.toList
  named : authorityOf scheme url ≠ []
  credentials : '@' ∉ authorityOf scheme url

theorem headD_splitOnP {p : Char → Bool} : (text.splitOnP p).headD [] = text.takeWhile fun c => !p c := by
  induction text with
  | nil => rfl
  | cons c text ih =>
      rw [List.splitOnP_cons_eq_if_modifyHead, List.takeWhile_cons]
      by_cases hc : p c
      · simp [hc]
      · rw [if_neg hc, if_pos (by simp [hc]), ← ih]
        cases h : text.splitOnP p with
        | nil => exact absurd h (List.splitOnP_ne_nil p text)
        | cons first others => rfl

theorem take_findIdx? {p : Char → Bool} {i : Nat} (h : text.findIdx? p = some i) : text.take i = text.takeWhile fun c => !p c := by
  rw [List.findIdx?_eq_some_iff_findIdx_eq] at h
  rw [← h.2, List.takeWhile_eq_take_findIdx_not]
  simp

theorem splitAuthority_fst : (splitAuthority text).1 = text.takeWhile fun c => !endsAuthority c := by
  unfold splitAuthority
  split
  · rename_i i hi
    exact take_findIdx? hi
  · rename_i hnone
    rw [List.findIdx?_eq_none_iff] at hnone
    symm
    rw [List.takeWhile_eq_self_iff]
    simpa using hnone

theorem any_hidden : (text.any fun c => isWhitespace c || isControl c) = false ↔
    ∀ c ∈ text, isWhitespace c = false ∧ isControl c = false := by
  simp

theorem validUrl_iff : validUrl scheme url = true ↔ PlainUrl scheme url := by
  unfold validUrl
  dsimp only
  rw [headD_splitOnP]
  constructor
  · intro h
    split at h
    · cases h
    · rename_i hgood
      simp only [Bool.or_eq_true, Bool.not_eq_true', not_or, Bool.not_eq_true, Bool.not_eq_false, List.isPrefixOf_iff_prefix,
        List.contains_eq_mem, decide_eq_false_iff_not] at hgood
      simp only [Bool.and_eq_true, Bool.not_eq_true', List.isEmpty_eq_false_iff, List.contains_eq_mem,
        decide_eq_false_iff_not] at h
      exact ⟨hgood.1.1, any_hidden.mp hgood.1.2, hgood.2, h.1, h.2⟩
  · intro h
    have hstart : scheme.toList.isPrefixOf url.toList = true := List.isPrefixOf_iff_prefix.mpr h.absolute
    have hnamed := h.named
    have hcredentials := h.credentials
    rw [authorityOf] at hnamed hcredentials
    rw [any_hidden.mpr h.visible]
    simp [hstart, h.fragment, hcredentials, hnamed]

theorem splitUrl_eq_ok {parts : String × String} : splitUrl url = .ok parts ↔ PlainUrl "http://" url ∧
    parts = (String.ofList (authorityOf "http://" url), String.ofList (splitAuthority (url.toList.drop "http://".length)).2) := by
  unfold splitUrl
  dsimp only
  rw [splitAuthority_fst]
  constructor
  · intro h
    split at h
    · cases h
    · rename_i hstart
      split at h
      · cases h
      · rename_i hgood
        simp only [Bool.not_eq_true', Bool.not_eq_false, List.isPrefixOf_iff_prefix] at hstart
        simp only [Bool.or_eq_true, not_or, Bool.not_eq_true, List.isEmpty_eq_false_iff, List.contains_eq_mem,
          decide_eq_false_iff_not] at hgood
        exact ⟨⟨hstart, any_hidden.mp hgood.2, hgood.1.2, hgood.1.1.1, hgood.1.1.2⟩, (Except.ok.inj h).symm⟩
  · rintro ⟨h, rfl⟩
    have hstart : "http://".toList.isPrefixOf url.toList = true := List.isPrefixOf_iff_prefix.mpr h.absolute
    have hnamed := h.named
    have hcredentials := h.credentials
    rw [authorityOf] at hnamed hcredentials
    rw [hstart, any_hidden.mpr h.visible]
    simp [h.fragment, hcredentials, hnamed, authorityOf]

/-- The two grammars of health URLs are one. -/
theorem validHealthUrl_iff : validHealthUrl url = true ↔ ∃ parts, splitUrl url = .ok parts := by
  rw [validHealthUrl, validUrl_iff]
  constructor
  · intro h
    exact ⟨_, splitUrl_eq_ok.mpr ⟨h, rfl⟩⟩
  · intro ⟨parts, h⟩
    exact (splitUrl_eq_ok.mp h).1

/-! ### Health requests -/

theorem blank_of_visible {c : Char} (h : isWhitespace c = false) : Http.blank c = false := by
  rw [← Bool.not_eq_true] at *
  intro hblank
  simp only [Http.blank, Bool.or_eq_true, decide_eq_true_eq] at hblank
  rcases hblank with rfl | rfl
  · exact h (by decide)
  · exact h (by decide)

/-- A value without blanks and line feeds. -/
theorem wellFormed_of_visible {header : Header} (hname : ∀ c ∈ header.name, c ≠ ':' ∧ c ≠ '\n')
    (hvalue : ∀ c ∈ header.value, isWhitespace c = false) : header.WellFormed where
  name := hname
  value := fun hlf => absurd (hvalue _ hlf) (by decide)
  trimmed := by
    have hblank : ∀ c ∈ header.value, Http.blank c = false := fun c hc => blank_of_visible (hvalue c hc)
    rw [List.dropWhile_eq_self_iff.mpr, List.rdropWhile_eq_self_iff.mpr]
    · intro hne
      simpa using hblank _ (List.getLast_mem hne)
    · intro hlt
      simpa using hblank _ (List.getElem_mem hlt)

theorem visible_of_mem_authority {c : Char} (h : PlainUrl scheme url) (hc : c ∈ authorityOf scheme url) :
    isWhitespace c = false :=
  (h.visible c (List.mem_of_mem_drop ((List.takeWhile_sublist _).subset hc))).1

theorem ne_of_visible {c : Char} (h : isWhitespace c = false) : c ≠ ' ' ∧ c ≠ '\n' := by
  constructor
  · rintro rfl
    exact absurd h (by decide)
  · rintro rfl
    exact absurd h (by decide)

theorem wellFormed_request {method target authority : List Char} {headers : List Header}
    (hmethod : ∀ c ∈ method, isWhitespace c = false) (htarget : ∀ c ∈ target, isWhitespace c = false)
    (hauthority : ∀ c ∈ authority, isWhitespace c = false) (hheaders : ∀ header ∈ headers, header.WellFormed) :
    (Http.Request.mk method target "HTTP/1.1".toList (⟨"Host".toList, authority⟩ :: headers)).WellFormed where
  method := fun c hc => ne_of_visible (hmethod c hc)
  target := fun c hc => ne_of_visible (htarget c hc)
  version := (List.all_iff_forall_prop.mp (by decide) : ∀ c ∈ "HTTP/1.1".toList, c ≠ ' ' ∧ c ≠ '\n')
  headers := by
    intro header hheader
    rcases List.mem_cons.mp hheader with rfl | hheader
    · exact wellFormed_of_visible (List.all_iff_forall_prop.mp (by decide) : ∀ c ∈ "Host".toList, c ≠ ':' ∧ c ≠ '\n') hauthority
    · exact hheaders header hheader

theorem wellFormed_userAgent : (Header.mk "User-Agent".toList "causeway-health/0.1".toList).WellFormed :=
  wellFormed_of_visible (List.all_iff_forall_prop.mp (by decide))
    (List.all_iff_forall_prop.mp (by decide))

theorem wellFormed_connection : (Header.mk "Connection".toList "close".toList).WellFormed :=
  wellFormed_of_visible (List.all_iff_forall_prop.mp (by decide))
    (List.all_iff_forall_prop.mp (by decide))

def getRequest (url : String) (authority : List Char) : Http.Request :=
  ⟨"GET".toList, url.toList, "HTTP/1.1".toList, [⟨"Host".toList, authority⟩,
    ⟨"User-Agent".toList, "causeway-health/0.1".toList⟩, ⟨"Connection".toList, "close".toList⟩]⟩

def connectRequest (authority : List Char) : Http.Request :=
  ⟨"CONNECT".toList, authority, "HTTP/1.1".toList, [⟨"Host".toList, authority⟩,
    ⟨"User-Agent".toList, "causeway-health/0.1".toList⟩]⟩

/-- What a health check asks: a GET for the URL, which names the authority, or a CONNECT to a host and a port. -/
inductive HealthRequest (url : String) : Http.Request → Prop where
  | get (authority path : List Char) (hurl : url.toList = "http://".toList ++ authority ++ path)
      (hauthority : ∀ c ∈ authority, endsAuthority c = false) (hpath : ∀ c ∈ path.head?, endsAuthority c = true) :
      HealthRequest url (getRequest url authority)
  | connect (host port : List Char) (hurl : url.toList = "connect://".toList ++ host ++ ':' :: port ∨
        url.toList = "connect://".toList ++ host ∧ port = "443".toList)
      (hhost : host ≠ [] ∧ ':' ∉ host) (hport : ∃ number, parseU16 port = some number ∧ number ≠ 0) :
      HealthRequest url (connectRequest (host ++ ':' :: port))

theorem healthGetHead_eq : (healthGetHead url (String.ofList authority)).toList = Http.render (getRequest url authority).lines := by
  simp [healthGetHead, getRequest, Http.render, Http.Request.lines, Http.Request.line, Header.line]

theorem healthConnectHead_eq :
    (healthConnectHead (String.ofList authority)).toList = Http.render (connectRequest authority).lines := by
  simp [healthConnectHead, connectRequest, Http.render, Http.Request.lines, Http.Request.line, Header.line]

theorem wellFormed_getRequest (h : PlainUrl "http://" url) : (getRequest url (authorityOf "http://" url)).WellFormed := by
  apply wellFormed_request
  · exact List.all_iff_forall_prop.mp (by decide)
  · exact fun c hc => (h.visible c hc).1
  · exact fun c hc => visible_of_mem_authority h hc
  · exact List.forall_mem_cons.mpr ⟨wellFormed_userAgent, List.forall_mem_singleton.mpr wellFormed_connection⟩

theorem wellFormed_connectRequest (h : ∀ c ∈ authority, isWhitespace c = false) : (connectRequest authority).WellFormed := by
  apply wellFormed_request
  · exact List.all_iff_forall_prop.mp (by decide)
  · exact h
  · exact h
  · exact List.forall_mem_singleton.mpr wellFormed_userAgent

/-- A check of the target is sent, and what is sent reads back as the request that is meant. -/
def Checked (url : String) : Prop := ∃ head request, checkHead url = .ok head ∧ HealthRequest url request ∧
  Http.parseRequest head.toList = some (request, [])

theorem parse_head {head : List Char} {request : Http.Request} (hhead : head = Http.render request.lines) (h : request.WellFormed) :
    Http.parseRequest head = some (request, []) := by
  have hparse := @Http.parseRequest_render [] _ h
  rwa [List.append_nil, ← hhead] at hparse

theorem healthRequest_get (h : PlainUrl "http://" url) : HealthRequest url (getRequest url (authorityOf "http://" url)) := by
  obtain ⟨rest, hrest⟩ := h.absolute
  have hauthority : authorityOf "http://" url = rest.takeWhile fun c => !endsAuthority c := by
    rw [authorityOf, ← hrest, List.drop_left' (by rfl)]
  rw [hauthority]
  apply HealthRequest.get _ (rest.dropWhile fun c => !endsAuthority c)
  · rw [List.append_assoc, List.takeWhile_append_dropWhile, hrest]
  · intro c hc
    simpa using List.mem_takeWhile_imp hc
  · intro c hc
    have hnot := List.head?_dropWhile_not (fun c => !endsAuthority c) rest
    rw [Option.mem_def] at hc
    rw [hc] at hnot
    simpa using hnot

theorem checked_get (hform : ¬ "connect://".toList.isPrefixOf url.toList) (h : PlainUrl "http://" url) : Checked url := by
  refine ⟨healthGetHead url (String.ofList (authorityOf "http://" url)), getRequest url (authorityOf "http://" url), ?_,
    healthRequest_get h, parse_head healthGetHead_eq (wellFormed_getRequest h)⟩
  rw [checkHead, if_neg hform, splitUrl_eq_ok.mpr ⟨h, rfl⟩]
  rfl

def afterColon (text : List Char) : List Char := (text.reverse.takeWhile (· ≠ ':')).reverse

/-- What `rsplit_once` makes of a text with a colon. -/
theorem rsplit_colon (h : ':' ∈ text) : text = text.take (text.length - (afterColon text).length - 1) ++ ':' :: afterColon text := by
  have hsplit := List.takeWhile_append_dropWhile (p := (· ≠ ':')) (l := text.reverse)
  cases hdrop : text.reverse.dropWhile (· ≠ ':') with
  | nil =>
      rw [List.dropWhile_eq_nil_iff] at hdrop
      have := hdrop ':' (by simpa using h)
      simp at this
  | cons c before =>
      have hcolon := List.head?_dropWhile_not (fun c => decide (c ≠ ':')) text.reverse
      rw [hdrop] at hcolon
      obtain rfl : c = ':' := by simpa using hcolon
      rw [hdrop] at hsplit
      have htext : text = before.reverse ++ ':' :: afterColon text :=
        calc text = text.reverse.reverse := (List.reverse_reverse text).symm
          _ = (text.reverse.takeWhile (· ≠ ':') ++ ':' :: before).reverse := by rw [hsplit]
          _ = before.reverse ++ ':' :: afterColon text := by
            rw [List.reverse_append, List.reverse_cons, List.append_assoc]
            rfl
      have hlength : text.length - (afterColon text).length - 1 = before.reverse.length := by
        have := congrArg List.length htext
        rw [List.length_append, List.length_cons] at this
        omega
      have htake : text.take before.reverse.length = before.reverse := by
        conv => lhs; rw [htext]
        exact List.take_left
      rw [hlength, htake]
      exact htext

/-- What `split_connect_target` accepts is a host and a port. -/
theorem splitConnectTarget_ok {authority : String} (h : splitConnectTarget url = .ok authority) :
    (∀ c ∈ authority.toList, isWhitespace c = false) ∧ HealthRequest url (connectRequest authority.toList) := by
  unfold splitConnectTarget at h
  dsimp only at h
  split at h
  · cases h
  · rename_i hscheme
    simp only [Bool.not_eq_true', Bool.not_eq_false, List.isPrefixOf_iff_prefix] at hscheme
    obtain ⟨rest, hrest⟩ := hscheme
    rw [← hrest, List.drop_left' (by rfl)] at h
    split at h
    · cases h
    · rename_i hgood
      simp only [Bool.or_eq_true, not_or, Bool.not_eq_true, List.isEmpty_eq_false_iff, any_hidden] at hgood
      have hvisible : ∀ c ∈ rest, isWhitespace c = false := fun c hc => (hgood.2 c hc).1
      split at h
      · rename_i hcolon
        cases h
        have htext : (String.ofList rest ++ ":443").toList = rest ++ ':' :: "443".toList := by simp
        rw [htext]
        constructor
        · intro c hc
          rcases List.mem_append.mp hc with hc | hc
          · exact hvisible c hc
          · exact (List.all_iff_forall_prop.mp (by decide) : ∀ c ∈ ':' :: "443".toList, isWhitespace c = false) c hc
        · exact .connect rest _ (.inr ⟨hrest.symm, rfl⟩) ⟨hgood.1.1, by simpa using hcolon⟩ ⟨443, by decide, by decide⟩
      · rename_i hcolon
        split at h
        · cases h
        · rename_i number hnumber
          split at h
          · cases h
          · rename_i hzero
            split at h
            · cases h
            · rename_i hempty
              split at h
              · cases h
              · rename_i hextra
                cases h
                have hrsplit := @rsplit_colon rest (by simpa using hcolon)
                rw [String.toList_ofList]
                refine ⟨hvisible, ?_⟩
                rw [hrsplit]
                exact .connect _ _ (.inl (by rw [List.append_assoc, ← hrsplit, hrest]))
                  ⟨by simpa [afterColon] using hempty, by simpa [afterColon] using hextra⟩ ⟨number, hnumber, hzero⟩

theorem checked_connect (hform : "connect://".toList.isPrefixOf url.toList) (h : (splitConnectTarget url).toOption.isSome) :
    Checked url := by
  cases hsplit : splitConnectTarget url with
  | error message => simp [hsplit, Except.toOption] at h
  | ok authority =>
      obtain ⟨hvisible, hrequest⟩ := splitConnectTarget_ok hsplit
      have hhead := @healthConnectHead_eq authority.toList
      rw [String.ofList_toList] at hhead
      refine ⟨healthConnectHead authority, connectRequest authority.toList, ?_, hrequest,
        parse_head hhead (wellFormed_connectRequest hvisible)⟩
      rw [checkHead, if_pos hform, hsplit]
      rfl

theorem checked_of_validTarget (h : validTarget url = true) : Checked url := by
  unfold validTarget at h
  split at h
  · rename_i hform
    exact checked_connect hform h
  · rename_i hform
    cases hsplit : splitUrl url with
    | error message => simp [hsplit, Except.toOption] at h
    | ok parts => exact checked_get hform (splitUrl_eq_ok.mp hsplit).1

theorem not_connect_of_http (h : "http://".toList <+: url.toList) : ¬ "connect://".toList.isPrefixOf url.toList := by
  obtain ⟨rest, hrest⟩ := h
  rw [← hrest]
  simp

theorem checked_of_validHealthUrl (h : validHealthUrl url = true) : Checked url := by
  have hplain := validUrl_iff.mp h
  exact checked_get (not_connect_of_http hplain.absolute) hplain

/-! ### Accepted configurations -/

theorem forM_eq_ok {α : Type} {check : α → Except String Unit} {entries : List α} (h : entries.forM check = .ok ()) :
    ∀ entry ∈ entries, check entry = .ok () := by
  induction entries with
  | nil => simp
  | cons entry entries ih =>
      rw [List.forM_eq_forM, List.forM_cons, ← List.forM_eq_forM] at h
      cases hentry : check entry with
      | error message =>
          rw [hentry] at h
          cases h
      | ok done =>
          rw [hentry] at h
          exact List.forall_mem_cons.mpr ⟨hentry, ih h⟩

/-- What an accepted configuration says of its targets. -/
structure Config.TargetsValid (cfg : Config) : Prop where
  classes : ∀ (cls url : String), cfg.classHealthOverride cls = some url → validTarget url = true
  health : validHealthUrl cfg.health.url = true
  sites : ∀ (name : String) (target : SiteTarget), cfg.sites.list[name]? = some target → validSiteUrl target.url = true

theorem validSite_of_validate {name : String} {target : SiteTarget} (h : target.validate name = .ok ()) :
    validSiteUrl target.url = true := by
  unfold SiteTarget.validate at h
  split at h
  · cases h
  · rename_i hvalid
    simpa using hvalid

theorem validTarget_of_validate {name : String} {cls : ClassConfig} (h : cls.validateTarget name = .ok ())
    (hurl : cls.health.bind (·.url) = some url) : validTarget url = true := by
  unfold ClassConfig.validateTarget at h
  rw [hurl] at h
  dsimp only at h
  split at h
  · cases h
  · split at h
    · cases h
    · rename_i hvalid
      simpa using hvalid

theorem Config.targetsValid {cfg : Config} (h : cfg.validateTargets = .ok ()) : cfg.TargetsValid := by
  unfold Config.validateTargets at h
  cases hclasses : cfg.classes.toList.forM fun entry => entry.2.validateTarget entry.1 with
  | error message => simp [hclasses, bind, Except.bind] at h
  | ok done =>
      cases hhealth : validHealthUrl cfg.health.url with
      | false => simp [hclasses, hhealth, bind, Except.bind, throw, throwThe, MonadExceptOf.throw] at h
      | true =>
          cases hsites : cfg.sites.list.toList.forM fun entry => entry.2.validate entry.1 with
          | error message => simp [hclasses, hhealth, hsites, bind, Except.bind] at h
          | ok done =>
              constructor
              · intro cls url hurl
                obtain ⟨override, hoverride, hurl⟩ := Option.bind_eq_some_iff.mp hurl
                obtain ⟨config, hconfig, hoverride⟩ := Option.bind_eq_some_iff.mp hoverride
                have hmem := Std.ExtTreeMap.mem_toList_iff_getElem?_eq_some.mpr hconfig
                have hchecked : config.validateTarget cls = .ok () := forM_eq_ok hclasses (cls, config) hmem
                apply validTarget_of_validate hchecked
                rw [hoverride, Option.bind_some, hurl]
              · exact hhealth
              · intro name target htarget
                have hmem := Std.ExtTreeMap.mem_toList_iff_getElem?_eq_some.mpr htarget
                have hchecked : target.validate name = .ok () := forM_eq_ok hsites (name, target) hmem
                exact validSite_of_validate hchecked

/-- Validator and splitter accept the same health URLs, and no check of an accepted configuration is refused or breaks its head. -/
theorem health_targets_checked (cfg : Config) (haccepted : cfg.validateTargets = .ok ()) (cls : String) :
    (∀ url, validHealthUrl url = true ↔ ∃ parts, splitUrl url = .ok parts) ∧ Checked (cfg.classHealthUrl cls) := by
  refine ⟨fun url => validHealthUrl_iff, ?_⟩
  have hvalid := Config.targetsValid haccepted
  unfold Config.classHealthUrl
  cases hurl : cfg.classHealthOverride cls with
  | none => exact checked_of_validHealthUrl hvalid.health
  | some url => exact checked_of_validTarget (hvalid.classes cls url hurl)

/-- Two classes with a target of their own and one without, and one site. -/
def sampleTargets (site userAgent : String) : Config where
  classes := .ofList [("api", ClassConfig.mk "127.0.0.1:1" none (some ⟨some "connect://api.example", none⟩)),
    ("media", ClassConfig.mk "127.0.0.1:2" none (some ⟨some "http://health.test?q", none⟩)),
    ("web", ClassConfig.mk "127.0.0.1:3" none none)]
  health := { failThreshold := 3, url := "http://health.test/generate_204", samples := 1 }
  selection := { hysteresis := 1 / 5, emaAlpha := 1 / 2, regions := [], autoSwitch := true }
  sites := { maxCandidates := 3, verdictTtlSecs := 60, userAgent, list := .ofList [("site", SiteTarget.mk site)] }
  subscriptions := { files := [["sub.yaml"]], default := none, profiles := ∅ }

theorem sample_targets_checked : Checked ((sampleTargets "https://h/" "ua").classHealthUrl "api") :=
  (health_targets_checked (sampleTargets "https://h/" "ua") (by decide +kernel) "api").2

/-! ### Site requests -/

/-- A host name, alone or with a port. -/
def HostPort (authority : List Char) : Prop := ∃ host, host ≠ [] ∧ (∀ c ∈ host, isHostChar c = true) ∧
  (authority = host ∨ ∃ port, authority = host ++ ':' :: port ∧ (parseU16 port).isSome)

/-- The library takes every host name for a server name. -/
def TakesHosts {σ : Type} (serverName : String → Option σ) : Prop :=
  ∀ host, host ≠ [] → (∀ c ∈ host, isHostChar c = true) → (serverName (String.ofList host)).isSome

def siteConnectLines (host : String) (port : Nat) : List (List Char) :=
  [("CONNECT " ++ host ++ ":" ++ toString port ++ " HTTP/1.1").toList, ("Host: " ++ host ++ ":" ++ toString port).toList]

def siteGetLines (target host userAgent : String) : List (List Char) :=
  [("GET " ++ target ++ " HTTP/1.1").toList, ("Host: " ++ host).toList, ("User-Agent: " ++ userAgent).toList,
    "Accept: */*".toList, "Connection: close".toList]

/-- The probe takes the URL apart, and both of its heads read back as the lines that are meant. -/
def SiteProbed {σ : Type} (serverName : String → Option σ) (url userAgent : String) : Prop :=
  ∃ parts, splitHttpsUrl serverName url = .ok parts ∧
    Http.readHead [] (siteConnectHead parts.host parts.port).toList = some (siteConnectLines parts.host parts.port, []) ∧
    Http.readHead [] (siteGetHead parts.target parts.host userAgent).toList =
      some (siteGetLines parts.target parts.host userAgent, [])

theorem siteConnectHead_eq {host : String} {port : Nat} :
    (siteConnectHead host port).toList = Http.render (siteConnectLines host port) := by
  simp [siteConnectHead, siteConnectLines, Http.render]

theorem siteGetHead_eq {target host userAgent : String} :
    (siteGetHead target host userAgent).toList = Http.render (siteGetLines target host userAgent) := by
  simp [siteGetHead, siteGetLines, Http.render]

theorem readHead_render {lines : List (List Char)} (h : ∀ line ∈ lines, line ≠ [] ∧ '\n' ∉ line) :
    Http.readHead [] (Http.render lines) = some (lines, []) := by
  have hread := @Http.readHead_render [] _ h
  rwa [List.append_nil] at hread

theorem lf_not_mem_toDigits {n : Nat} : '\n' ∉ Nat.toDigits 10 n := by
  intro h
  exact absurd (Nat.isDigit_of_mem_toDigits (by decide) (by decide) h) (by decide)

theorem readHead_siteConnect {host : String} {port : Nat} (hhost : '\n' ∉ host.toList) :
    Http.readHead [] (siteConnectHead host port).toList = some (siteConnectLines host port, []) := by
  rw [siteConnectHead_eq]
  apply readHead_render
  simp [siteConnectLines, hhost, lf_not_mem_toDigits]

theorem readHead_siteGet {target host userAgent : String} (htarget : '\n' ∉ target.toList) (hhost : '\n' ∉ host.toList)
    (huserAgent : '\n' ∉ userAgent.toList) :
    Http.readHead [] (siteGetHead target host userAgent).toList = some (siteGetLines target host userAgent, []) := by
  rw [siteGetHead_eq]
  apply readHead_render
  simp [siteGetLines, htarget, hhost, huserAgent]

/-- The splitter takes an authority exactly if it is a host, with or without a port. -/
theorem splitSiteAuthority_ok {host : List Char} {port : Nat} (h : splitSiteAuthority authority = .ok (host, port))
    (hne : host ≠ []) (hhost : ∀ c ∈ host, isHostChar c = true) : HostPort authority := by
  unfold splitSiteAuthority at h
  split at h
  · cases h
    exact ⟨authority, hne, hhost, .inl rfl⟩
  · rename_i hcolon
    dsimp only at h
    split at h
    · cases h
    · rename_i number hnumber
      cases h
      have hrsplit := @rsplit_colon authority (by simpa using hcolon)
      exact ⟨_, hne, hhost, .inr ⟨afterColon authority, hrsplit, by rw [afterColon, hnumber]; rfl⟩⟩

theorem colon_not_mem {port : List Char} (h : (parseU16 port).isSome) : ':' ∉ port := by
  obtain ⟨number, hnumber⟩ := Option.isSome_iff_exists.mp h
  obtain ⟨digits, hport, hdigits, -⟩ := Text.parseUnsigned_eq_some.mp hnumber
  have hcolon : ':' ∉ digits := fun hmem => absurd (hdigits.isDigit ':' hmem) (by decide)
  rcases hport with rfl | rfl
  · exact hcolon
  · rw [List.mem_cons]
    exact not_or.mpr ⟨by decide, hcolon⟩

theorem afterColon_append {host port : List Char} (h : ':' ∉ port) : afterColon (host ++ ':' :: port) = port := by
  have hport : ∀ c ∈ port.reverse, decide (c ≠ ':') = true := by
    intro c hc
    simp only [decide_eq_true_eq]
    rintro rfl
    exact h (List.mem_reverse.mp hc)
  rw [afterColon, List.reverse_append, List.reverse_cons, List.append_assoc, List.singleton_append,
    List.takeWhile_append_of_pos hport, List.takeWhile_cons_of_neg (by decide), List.append_nil, List.reverse_reverse]

theorem HostPort.splitSiteAuthority (h : HostPort authority) : ∃ host port,
    Causeway.splitSiteAuthority authority = .ok (host, port) ∧ host ≠ [] ∧ ∀ c ∈ host, isHostChar c = true := by
  obtain ⟨host, hne, hhost, rfl | ⟨port, rfl, hport⟩⟩ := h
  · refine ⟨authority, 443, ?_, hne, hhost⟩
    unfold Causeway.splitSiteAuthority
    rw [if_pos]
    rw [Bool.not_eq_true', List.contains_eq_mem, decide_eq_false_iff_not]
    intro hcolon
    exact absurd (hhost ':' hcolon) (by decide)
  · obtain ⟨number, hnumber⟩ := Option.isSome_iff_exists.mp hport
    refine ⟨host, number, ?_, hne, hhost⟩
    have hafter := @afterColon_append host _ (colon_not_mem hport)
    rw [afterColon] at hafter
    unfold Causeway.splitSiteAuthority
    rw [if_neg (by simp)]
    dsimp only
    rw [hafter, hnumber]
    have htake : (host ++ ':' :: port).take ((host ++ ':' :: port).length - port.length - 1) = host := by
      apply List.take_left'
      rw [List.length_append, List.length_cons]
      omega
    rw [htake]

/-! ### Sites -/

theorem mem_splitAuthority_snd {c : Char} (h : c ∈ (splitAuthority text).2) : c ∈ text ∨ c = '/' := by
  unfold splitAuthority at h
  split at h
  · exact .inl (List.mem_of_mem_drop h)
  · exact .inr (List.mem_singleton.mp h)

theorem splitHttpsUrl_ok {σ : Type} {serverName : String → Option σ} {parts : SiteParts σ}
    (h : splitHttpsUrl serverName url = .ok parts) : HostPort (authorityOf "https://" url) := by
  unfold splitHttpsUrl at h
  dsimp only at h
  rw [splitAuthority_fst] at h
  split at h
  · cases h
  · split at h
    · cases h
    · cases hsplit : splitSiteAuthority (authorityOf "https://" url) with
      | error message =>
          rw [authorityOf] at hsplit
          simp [hsplit, bind, Except.bind] at h
      | ok pair =>
          obtain ⟨host, port⟩ := pair
          rw [authorityOf] at hsplit
          by_cases hhost : (host.isEmpty || !host.all isHostChar) = true
          · simp [hsplit, hhost, bind, Except.bind, throw, throwThe, MonadExceptOf.throw] at h
          · simp only [Bool.or_eq_true, not_or, Bool.not_eq_true, List.isEmpty_eq_false_iff, Bool.not_eq_false',
              List.all_eq_true] at hhost
            exact splitSiteAuthority_ok hsplit hhost.1 hhost.2

theorem exists_splitHttpsUrl {σ : Type} {serverName : String → Option σ} (hserver : TakesHosts serverName)
    (h : PlainUrl "https://" url) (hauthority : HostPort (authorityOf "https://" url)) :
    ∃ parts, splitHttpsUrl serverName url = .ok parts ∧ '\n' ∉ parts.target.toList ∧ '\n' ∉ parts.host.toList := by
  obtain ⟨host, port, hsplit, hne, hhost⟩ := hauthority.splitSiteAuthority
  obtain ⟨name, hname⟩ := Option.isSome_iff_exists.mp (hserver host hne hhost)
  refine ⟨⟨String.ofList host, port, String.ofList (splitAuthority (url.toList.drop "https://".length)).2, name⟩, ?_, ?_, ?_⟩
  · have hstart : "https://".toList.isPrefixOf url.toList = true := List.isPrefixOf_iff_prefix.mpr h.absolute
    have hnamed := h.named
    have hcredentials := h.credentials
    rw [authorityOf] at hsplit hnamed hcredentials
    unfold splitHttpsUrl
    dsimp only
    have hgood : (host.isEmpty || !host.all isHostChar) = false := by simpa [hne] using hhost
    rw [splitAuthority_fst, hstart, if_neg (by decide), if_neg (by simp [hnamed, hcredentials]), hsplit]
    simp [hgood, hname, bind, Except.bind, pure, Except.pure]
  · rw [String.toList_ofList]
    intro hlf
    rcases mem_splitAuthority_snd hlf with hmem | heq
    · exact absurd (h.visible _ (List.mem_of_mem_drop hmem)).1 (by decide)
    · exact absurd heq (by decide)
  · rw [String.toList_ofList]
    intro hlf
    exact absurd (hhost _ hlf) (by decide)

theorem SiteProbed.userAgent {σ : Type} {serverName : String → Option σ} {userAgent : String}
    (h : SiteProbed serverName url userAgent) : '\n' ∉ userAgent.toList := by
  obtain ⟨parts, -, -, hread⟩ := h
  have hline := Http.not_mem_of_readHead hread (by simp) ("User-Agent: " ++ userAgent).toList (by simp [siteGetLines])
  intro hlf
  exact hline (by simp [hlf])

/-- A site of an accepted configuration is probed as it is meant exactly if its authority is a host with or without a port, and the user agent is one line. -/
theorem site_probed_iff {σ : Type} (serverName : String → Option σ) (hserver : TakesHosts serverName) (cfg : Config)
    (haccepted : cfg.validateTargets = .ok ()) (name : String) (target : SiteTarget)
    (htarget : cfg.sites.list[name]? = some target) :
    SiteProbed serverName target.url cfg.sites.userAgent ↔
      HostPort (authorityOf "https://" target.url) ∧ '\n' ∉ cfg.sites.userAgent.toList := by
  have hplain := validUrl_iff.mp ((Config.targetsValid haccepted).sites name target htarget)
  constructor
  · intro h
    obtain ⟨parts, hsplit, -⟩ := id h
    exact ⟨splitHttpsUrl_ok hsplit, h.userAgent⟩
  · intro ⟨hauthority, huserAgent⟩
    obtain ⟨parts, hsplit, hlf, hhost⟩ := exists_splitHttpsUrl hserver hplain hauthority
    exact ⟨parts, hsplit, readHead_siteConnect hhost, readHead_siteGet hlf hhost huserAgent⟩

theorem site_probed_sample : SiteProbed (fun host => some host) "https://h:8443/?q" "ua" :=
  (site_probed_iff (fun host => some host) (fun _ _ _ => rfl) (sampleTargets "https://h:8443/?q" "ua") (by decide +kernel)
    "site" ⟨"https://h:8443/?q"⟩ (by decide +kernel)).mpr
      ⟨⟨"h".toList, by decide, List.all_iff_forall_prop.mp (by decide), .inr ⟨"8443".toList, by decide, by decide⟩⟩, by decide⟩

/-- The configuration is accepted, lists the URL as a site, and the probe of that site is not what is meant. -/
def Broken (cfg : Config) (url : String) : Prop := cfg.validateTargets = .ok () ∧ cfg.sites.list["site"]? = some ⟨url⟩ ∧
  ¬ SiteProbed (fun host => some host) url cfg.sites.userAgent

/-- A port that is none, and a user agent that adds a header. -/
theorem site_probe_broken : Broken (sampleTargets "https://h:99999/" "ua") "https://h:99999/" ∧
    Broken (sampleTargets "https://h/" "ua\r\nX-Added: 1") "https://h/" := by
  refine ⟨⟨by decide +kernel, by decide +kernel, ?_⟩, by decide +kernel, by decide +kernel, ?_⟩
  · intro h
    obtain ⟨parts, hsplit, -⟩ := h
    have hnone : (splitHttpsUrl (fun host => some host) "https://h:99999/").toOption.isNone = true := by decide +kernel
    rw [hsplit] at hnone
    cases hnone
  · intro h
    exact h.userAgent (by decide)

end Causeway

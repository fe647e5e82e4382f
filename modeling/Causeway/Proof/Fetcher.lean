import Causeway.Proof.UrlFile
import Causeway.Text.Escape

/-!
# The fetcher's configuration

The text that `curl` reads, by a grammar of lines `key = "value"` in which a backslash escapes the next character. A URL that the fetch admits is a value and nothing else.
-/

namespace Causeway

open Text

/-- A value up to its closing quote, which ends the line. -/
def quotedValue (text : List Char) : Option (List Char) :=
  (marks text).bind fun ms =>
    match ms.dropWhile (· ≠ .plain '"') with
    | [_] => some ((ms.takeWhile (· ≠ .plain '"')).map Mark.char)
    | _ => none

/-- A line: a key, an equals sign and a quoted value, with blanks between them. -/
def configSetting (line : List Char) : Option (List Char × List Char) :=
  match (line.dropWhile fun c => c ≠ ' ' && c ≠ '=').dropWhile (· = ' ') with
  | '=' :: rest =>
      match rest.dropWhile (· = ' ') with
      | '"' :: text => (quotedValue text).map fun value => (line.takeWhile (fun c => c ≠ ' ' && c ≠ '='), value)
      | _ => none
  | _ => none

/-- The settings of a configuration, line by line. -/
def configSettings (text : List Char) : Option (List (List Char × List Char)) :=
  ((text.splitOn '\n').filter fun line => !line.isEmpty).mapM configSetting

/-- The characters of a value that curl takes for something else. -/
def curlSpecial (c : Char) : Bool := c = '\\' || c = '"'

variable {value text : List Char}

/-- The two replacements, backslashes first, escape each special character once. -/
theorem escapeCurlConfig_eq : escapeCurlConfig value = escape curlSpecial value := by
  unfold escapeCurlConfig replaceChar escape curlSpecial
  rw [List.flatMap_assoc]
  congr 1
  funext c
  by_cases hbackslash : c = '\\'
  · simp [hbackslash]
  · by_cases hquote : c = '"' <;> simp [hbackslash, hquote]

theorem quotedValue_escape : quotedValue (escape curlSpecial value ++ ['"']) = some value := by
  have hmarks : marks ['"'] = some [.plain '"'] := rfl
  have hvalue : ∀ mark ∈ value.map (markOf curlSpecial), (decide (mark ≠ Mark.plain '"')) = true := by
    intro mark hmark
    obtain ⟨c, -, rfl⟩ := List.mem_map.mp hmark
    unfold markOf
    split
    · simp
    · rename_i hc
      simp only [curlSpecial, Bool.or_eq_true, decide_eq_true_eq, not_or] at hc
      simp [hc.2]
  unfold quotedValue
  rw [marks_escape_append (by decide), hmarks, Option.map_some, Option.bind_some, List.dropWhile_append_of_pos hvalue,
    List.takeWhile_append_of_pos hvalue]
  simp [Function.comp_def]

theorem configSetting_url :
    configSetting ("url = \"".toList ++ (escape curlSpecial value ++ ['"'])) = some ("url".toList, value) := by
  simp [configSetting, quotedValue_escape]

theorem nonempty_of_setting {line : List Char} {s : List Char × List Char} (h : configSetting line = some s) :
    (!line.isEmpty) = true := by
  cases line with
  | nil => cases h
  | cons c line => rfl

/-- Two lines, each ended by a line feed. -/
theorem configSettings_lines {line line' : List Char} {s s' : List Char × List Char} (hline : '\n' ∉ line)
    (hline' : '\n' ∉ line')
    (h : configSetting line = some s) (h' : configSetting line' = some s') :
    configSettings (line ++ '\n' :: (line' ++ ['\n'])) = some [s, s'] := by
  have hsplit : (line ++ '\n' :: (line' ++ ['\n'])).splitOn '\n' = [line, line', []] := by
    rw [List.splitOn_append_cons_self_of_not_mem hline, List.splitOn_append_cons_self_of_not_mem hline', List.splitOn_nil]
  have hfilter : [line, line', []].filter (fun line => !line.isEmpty) = [line, line'] := by
    simp only [List.filter_cons, nonempty_of_setting h, nonempty_of_setting h', if_true]
    rfl
  rw [configSettings, hsplit, hfilter, List.mapM_cons, h, List.mapM_cons, h']
  rfl

theorem configSetting_agent : configSetting ("user-agent = \"".toList ++ (subscriptionFetchUserAgent.toList ++ ['"'])) =
    some ("user-agent".toList, subscriptionFetchUserAgent.toList) := by decide

theorem two_lines {agent name middle url value stop : List Char}
    (hmiddle : middle = '"' :: '\n' :: url) (hstop : stop = ['"', '\n']) :
    agent ++ name ++ middle ++ value ++ stop =
      (agent ++ (name ++ ['"'])) ++ '\n' :: ((url ++ (value ++ ['"'])) ++ ['\n']) := by
  rw [hmiddle, hstop]
  simp

theorem configSettings_fetcherConfig {url : String} (h : '\n' ∉ url.toList) : configSettings (fetcherConfig url) =
    some [("user-agent".toList, subscriptionFetchUserAgent.toList), ("url".toList, url.toList)] := by
  have htext : fetcherConfig url = ("user-agent = \"".toList ++ (subscriptionFetchUserAgent.toList ++ ['"'])) ++
      '\n' :: (("url = \"".toList ++ (escape curlSpecial url.toList ++ ['"'])) ++ ['\n']) := by
    unfold fetcherConfig
    rw [escapeCurlConfig_eq]
    exact two_lines rfl rfl
  have hagent : '\n' ∉ "user-agent = \"".toList ++ (subscriptionFetchUserAgent.toList ++ ['"']) := by decide
  have hurl : '\n' ∉ "url = \"".toList ++ (escape curlSpecial url.toList ++ ['"']) := by simp [mem_escape, h]
  rw [htext]
  exact configSettings_lines hagent hurl configSetting_agent configSetting_url

/-- A URL that passes the checks has no line feed. -/
theorem visible_of_fetchUrl {tree : Tree} {path : Path} {url : String} (h : fetchUrl tree path = .ok url) :
    ∀ c ∈ url.toList, isWhitespace c = false ∧ isControl c = false := by
  unfold fetchUrl at h
  simp only [bind, Except.bind] at h
  split at h
  · cases h
  · split at h
    · split at h
      · cases h
      · split at h
        · cases h
        · split at h
          · cases h
          · rename_i hchecked
            cases h
            simp only [Bool.or_eq_true, not_or, Bool.not_eq_true, List.any_eq_false] at hchecked
            exact hchecked.2
    · cases h

/-- Every URL that is fetched is one setting, next to the fixed user agent. -/
theorem fetcher_config_intact (tree : Tree) (path : Path) (url : String) (h : fetchUrl tree path = .ok url) :
    configSettings (fetcherConfig url) =
      some [("user-agent".toList, "clash-verge/v2.2.3".toList), ("url".toList, url.toList)] := by
  apply configSettings_fetcherConfig
  intro hmem
  have hvisible := (visible_of_fetchUrl h '\n' hmem).1
  exact absurd hvisible (by decide)

/-- A file whose URL has a quote and a backslash. -/
def quotingTree : Tree := fun _ => some (.file "https://h/\"\\\n".toUTF8 0o600)

theorem fetcher_config_intact_quoting : configSettings (fetcherConfig "https://h/\"\\") =
    some [("user-agent".toList, "clash-verge/v2.2.3".toList), ("url".toList, "https://h/\"\\".toList)] :=
  fetcher_config_intact quotingTree ["url"] "https://h/\"\\" (by decide +kernel)

end Causeway

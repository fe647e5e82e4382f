import Causeway.Model.Adapters
import Causeway.Model.Manifest
import Causeway.Text.Escape
import Causeway.Text.Split
import Mathlib.Data.List.Count

/-!
# Plugin options

The options text is read by the grammar of plugin options: `key=value` settings between semicolons, a backslash escapes the next character. What is written without escapes is read back only if it needs none.
-/

namespace Causeway

open Text

/-- A setting: the key ends at the first equals sign that is not escaped. -/
def setting (part : List Mark) : Option (List Char × List Char) :=
  match part.dropWhile (· ≠ .plain '=') with
  | [] => none
  | _ :: value => some ((part.takeWhile (· ≠ .plain '=')).map Mark.char, value.map Mark.char)

/-- The settings of an options text. -/
def pluginOptions (text : List Char) : Option (List (List Char × List Char)) :=
  (marks text).bind fun ms => (ms.splitOn (.plain ';')).mapM setting

/-- The settings that the parameters stand for. -/
def ObfsOpts.settings (opts : ObfsOpts) : List (List Char × List Char) :=
  ("obfs".toList, opts.mode.toList) :: (opts.host.map fun host => ("obfs-host".toList, host.toList)).toList

/-- The text is read back as these settings and no others. -/
def ObfsOpts.Intact (opts : ObfsOpts) : Prop := pluginOptions opts.toPluginOpts.toList = some opts.settings

/-- Without the characters that would have to be escaped. -/
structure PlainValue (value : String) : Prop where
  semicolon : ';' ∉ value.toList
  backslash : '\\' ∉ value.toList

structure ObfsOpts.Plain (opts : ObfsOpts) : Prop where
  mode : PlainValue opts.mode
  host : ∀ host, opts.host = some host → PlainValue host

section Settings

variable {part key value : List Char} {ms : List Mark} {parts : List (List Mark)} {setting' : List Char × List Char}
  {settings : List (List Char × List Char)}

theorem length_setting (h : setting ms = some setting') : ms.length = setting'.1.length + setting'.2.length + 1 := by
  have hparts := congrArg List.length (List.takeWhile_append_dropWhile (p := (· ≠ Mark.plain '=')) (l := ms))
  unfold setting at h
  split at h
  · cases h
  · rename_i mark value hvalue
    cases h
    rw [hvalue, List.length_append, List.length_cons] at hparts
    simp only [List.length_map]
    omega

theorem length_settings (h : parts.mapM setting = some settings) : parts.length = settings.length ∧
    (parts.map fun part => part.length + 1).sum = (settings.map fun s => s.1.length + s.2.length + 2).sum := by
  induction parts generalizing settings with
  | nil =>
      cases h
      simp
  | cons part parts ih =>
      rw [List.mapM_cons] at h
      obtain ⟨setting', hsetting, h⟩ := Option.bind_eq_some_iff.mp h
      obtain ⟨settings', hsettings, h⟩ := Option.bind_eq_some_iff.mp h
      cases h
      obtain ⟨hcount, hsum⟩ := ih hsettings
      have hpart := length_setting hsetting
      refine ⟨by rw [List.length_cons, List.length_cons, hcount], ?_⟩
      rw [List.map_cons, List.sum_cons, List.map_cons, List.sum_cons, hsum, hpart]

theorem setting_plain (hkey : '=' ∉ key) : setting ((key ++ '=' :: value).map .plain) = some (key, value) := by
  have hplain : ∀ mark ∈ key.map Mark.plain, (decide (mark ≠ Mark.plain '=')) = true := by
    intro mark hmark
    obtain ⟨c, hc, rfl⟩ := List.mem_map.mp hmark
    simp only [ne_eq, Mark.plain.injEq, decide_not, Bool.not_eq_true', decide_eq_false_iff_not]
    intro heq
    exact hkey (heq ▸ hc)
  unfold setting
  rw [List.map_append, List.map_cons, List.dropWhile_append_of_pos hplain, List.takeWhile_append_of_pos hplain]
  simp [Function.comp_def, Mark.char]

theorem count_plain (c : Char) : (part.map Mark.plain).count (.plain c) = part.count c :=
  List.count_map_of_injective part Mark.plain (fun _ _ h => Mark.plain.inj h) c

/-- A text is read as the settings only if it has as many characters as they need, and as many separators. -/
theorem plain_of_pluginOptions (h : pluginOptions part = some settings)
    (hlength : part.length + 1 = (settings.map fun s => s.1.length + s.2.length + 2).sum) :
    '\\' ∉ part ∧ part.count ';' + 1 = settings.length := by
  obtain ⟨ms, hms, h⟩ := Option.bind_eq_some_iff.mp h
  obtain ⟨hcount, hsum⟩ := length_settings h
  rw [sum_splitOn, ← hlength] at hsum
  have hplain := not_mem_of_length_marks hms (Nat.add_right_cancel hsum)
  rw [marks_plain hplain] at hms
  cases hms
  rw [length_splitOn, count_plain] at hcount
  exact ⟨hplain, hcount⟩

end Settings

variable {opts : ObfsOpts}

theorem toPluginOpts_toList : opts.toPluginOpts.toList = "obfs=".toList ++ opts.mode.toList ++
    (opts.host.elim [] fun host => ";obfs-host=".toList ++ host.toList) := by
  unfold ObfsOpts.toPluginOpts
  cases opts.host <;> simp [String.toList_append]

theorem length_toPluginOpts :
    opts.toPluginOpts.toList.length + 1 = (opts.settings.map fun s => s.1.length + s.2.length + 2).sum := by
  rw [toPluginOpts_toList, ObfsOpts.settings]
  cases opts.host <;> simp <;> omega

theorem ObfsOpts.Plain.intact (h : opts.Plain) : opts.Intact := by
  have hmode := h.mode
  unfold ObfsOpts.Intact pluginOptions
  rw [toPluginOpts_toList, ObfsOpts.settings]
  cases hhost : opts.host with
  | none =>
      have hplain : '\\' ∉ "obfs=".toList ++ opts.mode.toList ++ [] := by simpa using hmode.backslash
      have hsplit : Mark.plain ';' ∉ ("obfs".toList ++ '=' :: opts.mode.toList).map Mark.plain := by
        simpa using hmode.semicolon
      have htext : "obfs=".toList ++ opts.mode.toList ++ [] = "obfs".toList ++ '=' :: opts.mode.toList := by simp
      rw [Option.elim_none, marks_plain hplain, Option.bind_some, htext, List.splitOn_eq_singleton hsplit, List.mapM_cons,
        setting_plain (by decide)]
      rfl
  | some host =>
      have hhost := h.host host hhost
      have hplain : '\\' ∉ "obfs=".toList ++ opts.mode.toList ++ (";obfs-host=".toList ++ host.toList) := by
        simpa using ⟨hmode.backslash, hhost.backslash⟩
      have hfirst : Mark.plain ';' ∉ ("obfs".toList ++ '=' :: opts.mode.toList).map Mark.plain := by
        simpa using hmode.semicolon
      have hsecond : Mark.plain ';' ∉ ("obfs-host".toList ++ '=' :: host.toList).map Mark.plain := by
        simpa using hhost.semicolon
      have htext : "obfs=".toList ++ opts.mode.toList ++ (";obfs-host=".toList ++ host.toList) =
          ("obfs".toList ++ '=' :: opts.mode.toList) ++ ';' :: ("obfs-host".toList ++ '=' :: host.toList) := by simp
      rw [Option.elim_some, marks_plain hplain, Option.bind_some, htext, List.map_append, List.map_cons,
        List.splitOn_append_cons_self_of_not_mem hfirst, List.splitOn_eq_singleton hsecond, List.mapM_cons,
        setting_plain (by decide), List.mapM_cons, setting_plain (by decide)]
      rfl

theorem ObfsOpts.Intact.plain (h : opts.Intact) : opts.Plain := by
  obtain ⟨hbackslash, hcount⟩ := plain_of_pluginOptions h length_toPluginOpts
  rw [toPluginOpts_toList] at hbackslash hcount
  rw [ObfsOpts.settings] at hcount
  cases hhost : opts.host with
  | none =>
      rw [hhost] at hbackslash hcount
      simp [List.count_eq_zero] at hbackslash hcount
      refine ⟨⟨hcount, hbackslash⟩, ?_⟩
      intro host hsome
      rw [hhost] at hsome
      cases hsome
  | some host =>
      rw [hhost] at hbackslash hcount
      simp [List.count_append] at hbackslash hcount
      refine ⟨⟨List.count_eq_zero.mp (by omega), hbackslash.1⟩, ?_⟩
      intro other hsome
      rw [hhost] at hsome
      cases hsome
      exact ⟨List.count_eq_zero.mp (by omega), hbackslash.2⟩

/-- On plain values the text determines the parameters. -/
theorem toPluginOpts_injOn {opts' : ObfsOpts} (h : opts.Plain) (h' : opts'.Plain)
    (heq : opts.toPluginOpts = opts'.toPluginOpts) :
    opts = opts' := by
  have hintact := h.intact
  rw [ObfsOpts.Intact, heq, h'.intact, Option.some.injEq] at hintact
  obtain ⟨mode, host⟩ := opts
  obtain ⟨mode', host'⟩ := opts'
  cases host <;> cases host' <;> simp [ObfsOpts.settings, String.toList_inj] at hintact <;> simp [hintact]

/-- Both locals are given the text, and only for a node with a plugin. -/
theorem plugin_opts_of_locals (node : SsNode) (socksAddr httpAddr : SocketAddr) (obfsBin : String)
    (aclPath : Option String) :
    (((buildSslocalConfigWithAcl node socksAddr httpAddr obfsBin aclPath).get? "locals").elim [] Json.array).map
      (Json.get? "plugin_opts") = List.replicate 2 (node.plugin.map fun opts => .str opts.toPluginOpts) := by
  cases hplugin : node.plugin <;> simp [buildSslocalConfigWithAcl, hplugin, Json.get?, Json.array, List.replicate]

/-- The text that both locals of a node are given is read back exactly if mode and host have no semicolon and no backslash; on such values it is injective. -/
theorem plugin_options_intact_iff (opts : ObfsOpts) : (opts.Intact ↔ opts.Plain) ∧
    (∀ opts' : ObfsOpts, opts.Plain → opts'.Plain → opts.toPluginOpts = opts'.toPluginOpts → opts = opts') ∧
    ∀ (node : SsNode) (socksAddr httpAddr : SocketAddr) (obfsBin : String) (aclPath : Option String),
      node.plugin = some opts →
      (((buildSslocalConfigWithAcl node socksAddr httpAddr obfsBin aclPath).get? "locals").elim [] Json.array).map
        (Json.get? "plugin_opts") = [some (.str opts.toPluginOpts), some (.str opts.toPluginOpts)] := by
  refine ⟨⟨ObfsOpts.Intact.plain, ObfsOpts.Plain.intact⟩, fun _ => toPluginOpts_injOn, ?_⟩
  intro node socksAddr httpAddr obfsBin aclPath hplugin
  rw [plugin_opts_of_locals, hplugin]
  rfl

/-- An entry whose mode brings a host of its own. -/
def injectingProxy : RawProxy :=
  { kind := "ss", name := some "A", server := some "s", port := some (.number (.posInt 443)), cipher := some "c",
    password := some (.string "p"), plugin := some "obfs",
    pluginOpts := some { mode := some "http;obfs-host=x", host := none },
    sni := none, alpn := none, clientFingerprint := none, skipCertVerify := none }

theorem plugin_options_injected :
    (ssNode injectingProxy).bind SsNode.plugin = some { mode := "http;obfs-host=x", host := none } ∧
    ¬ ObfsOpts.Intact { mode := "http;obfs-host=x", host := none } ∧
    ObfsOpts.toPluginOpts { mode := "http;obfs-host=x", host := none } =
      ObfsOpts.toPluginOpts { mode := "http", host := some "x" } := by
  refine ⟨rfl, ?_, by decide⟩
  unfold ObfsOpts.Intact
  decide +kernel

end Causeway

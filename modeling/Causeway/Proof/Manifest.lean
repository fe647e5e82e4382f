import Causeway.Order.Firsts
import Causeway.Model.Manifest

/-!
# The manifest law

A manifest is converted entry by entry, and of nodes with one name the first is kept. What cannot be converted leaves no trace; an entry with a plugin is converted with its plugin or not at all.
-/

namespace Causeway

open Firsts

def nodeOfEntry (fromValue : YamlValue → Option RawProxy) (value : YamlValue) : Option Node :=
  (fromValue value).bind nodeOfProxy

/-- A port is a number in range, or a text with such a number. -/
inductive PortOf : YamlValue → UInt16 → Prop where
  | number (n : UInt64) (port : UInt16) (h : n.toNat = port.toNat) : PortOf (.number (.posInt n)) port
  | string (s : String) (port : UInt16) (h : parseU16 (trimText s.toList) = some port.toNat) : PortOf (.string s) port

inductive PasswordOf : YamlValue → String → Prop where
  | number (n : YamlNumber) : PasswordOf (.number n) n.toText
  | string (s : String) : PasswordOf (.string s) s

/-- Simple-obfs with its mode, or no plugin where the entry has none. -/
inductive PluginOf (proxy : RawProxy) : Option ObfsOpts → Prop where
  | plain (h : proxy.plugin = none) : PluginOf proxy none
  | obfs (opts : RawPluginOpts) (mode : String) (h : proxy.plugin = some "obfs") (hopts : proxy.pluginOpts = some opts)
      (hmode : opts.mode = some mode) : PluginOf proxy (some { mode := mode, host := opts.host })

structure SsOf (proxy : RawProxy) (node : SsNode) : Prop where
  name : proxy.name = some node.name
  server : proxy.server = some node.server
  port : ∃ value, proxy.port = some value ∧ PortOf value node.port
  cipher : proxy.cipher = some node.cipher
  password : ∃ value, proxy.password = some value ∧ PasswordOf value node.password
  plugin : PluginOf proxy node.plugin

structure AnytlsOf (proxy : RawProxy) (node : AnytlsNode) : Prop where
  name : proxy.name = some node.name
  server : proxy.server = some node.server
  port : ∃ value, proxy.port = some value ∧ PortOf value node.port
  password : ∃ value, proxy.password = some value ∧ PasswordOf value node.password
  sni : node.sni = proxy.sni
  alpn : node.alpn = proxy.alpn
  clientFingerprint : node.clientFingerprint = proxy.clientFingerprint
  skipCertVerify : node.skipCertVerify = proxy.skipCertVerify.getD false

/-- A node has what its entry says, field by field. -/
inductive NodeOf (proxy : RawProxy) : Node → Prop where
  | ss (node : SsNode) (kind : proxy.kind = "ss") (h : SsOf proxy node) : NodeOf proxy (.ss node)
  | anytls (node : AnytlsNode) (kind : proxy.kind = "anytls") (h : AnytlsOf proxy node) : NodeOf proxy (.anytls node)

/-- What the decoder keeps of a plugin: an entry that has one is decoded with one. -/
def PluginKept (fromValue : YamlValue → Option RawProxy) : Prop :=
  ∀ value proxy plugin, fromValue value = some proxy → value.get? "plugin" = some plugin → plugin ≠ .null →
    proxy.plugin ≠ none

/-- The fields that both kinds of nodes need are there and of their types. -/
structure RawProxy.Complete (proxy : RawProxy) : Prop where
  name : proxy.name ≠ none
  server : proxy.server ≠ none
  port : proxy.port.bind yamlValueToPort ≠ none
  password : proxy.password.bind yamlValueToString ≠ none

/-- The entries that are passed over. -/
inductive Unusable (fromValue : YamlValue → Option RawProxy) (value : YamlValue) : Prop where
  | mistyped (h : fromValue value = none)
  | unsupported (proxy : RawProxy) (h : fromValue value = some proxy) (hss : proxy.kind ≠ "ss")
    (hanytls : proxy.kind ≠ "anytls")
  | malformed (proxy : RawProxy) (h : fromValue value = some proxy) (hfields : ¬ proxy.Complete)
  | cipher (proxy : RawProxy) (h : fromValue value = some proxy) (hss : proxy.kind = "ss") (hcipher : proxy.cipher = none)
  | unknownPlugin (proxy : RawProxy) (plugin : String) (h : fromValue value = some proxy) (hss : proxy.kind = "ss")
      (hplugin : proxy.plugin = some plugin) (hobfs : plugin ≠ "obfs")
  | incompletePlugin (proxy : RawProxy) (h : fromValue value = some proxy) (hss : proxy.kind = "ss")
      (hplugin : proxy.plugin = some "obfs") (hmode : proxy.pluginOpts.bind RawPluginOpts.mode = none)

section Conversion

variable {proxy : RawProxy}

theorem ssNode_eq_none : ssNode proxy = none ↔ ¬ proxy.Complete ∨ proxy.cipher = none ∨
    (∃ plugin, proxy.plugin = some plugin ∧ plugin ≠ "obfs") ∨
      proxy.plugin = some "obfs" ∧ proxy.pluginOpts.bind RawPluginOpts.mode = none := by
  unfold ssNode
  split
  · rename_i hname hserver hport hcipher hpassword
    have hcomplete : proxy.Complete := ⟨by simp [hname], by simp [hserver], by simp [hport], by simp [hpassword]⟩
    simp only [hcomplete, not_true_eq_false, hcipher, reduceCtorEq, false_or]
    split
    · rename_i hplugin
      simp [hplugin]
    · rename_i plugin hplugin
      by_cases hobfs : plugin = "obfs"
      · subst hobfs
        simp only [hplugin, if_true]
        split
        · rename_i hmode
          simp [hmode]
        · rename_i hmode
          simp [hmode]
      · simp [hplugin, hobfs]
  · rename_i hmissing
    simp only [true_iff]
    by_contra hnone
    simp only [not_or, not_not] at hnone
    obtain ⟨hcomplete, hcipher, -⟩ := hnone
    obtain ⟨name, hname⟩ := Option.ne_none_iff_exists'.mp hcomplete.name
    obtain ⟨server, hserver⟩ := Option.ne_none_iff_exists'.mp hcomplete.server
    obtain ⟨port, hport⟩ := Option.ne_none_iff_exists'.mp hcomplete.port
    obtain ⟨password, hpassword⟩ := Option.ne_none_iff_exists'.mp hcomplete.password
    obtain ⟨cipher, hcipher⟩ := Option.ne_none_iff_exists'.mp hcipher
    exact hmissing name server port cipher password hname hserver hport hcipher hpassword

theorem anytlsNode_eq_none : anytlsNode proxy = none ↔ ¬ proxy.Complete := by
  unfold anytlsNode
  split
  · rename_i hname hserver hport hpassword
    have hcomplete : proxy.Complete := ⟨by simp [hname], by simp [hserver], by simp [hport], by simp [hpassword]⟩
    simp [hcomplete]
  · rename_i hmissing
    simp only [true_iff]
    intro hcomplete
    obtain ⟨name, hname⟩ := Option.ne_none_iff_exists'.mp hcomplete.name
    obtain ⟨server, hserver⟩ := Option.ne_none_iff_exists'.mp hcomplete.server
    obtain ⟨port, hport⟩ := Option.ne_none_iff_exists'.mp hcomplete.port
    obtain ⟨password, hpassword⟩ := Option.ne_none_iff_exists'.mp hcomplete.password
    exact hmissing name server port password hname hserver hport hpassword

theorem yamlValueToPort_eq_some {value : YamlValue} {port : UInt16} :
    yamlValueToPort value = some port ↔ PortOf value port := by
  constructor
  · intro h
    unfold yamlValueToPort at h
    split at h
    · rename_i number
      obtain ⟨n, hn, hport⟩ := Option.bind_eq_some_iff.mp h
      cases number with
      | posInt m =>
          cases hn
          split at hport
          · rename_i hsmall
            cases hport
            exact .number n _ (by rw [UInt64.toNat_toUInt16, Nat.mod_eq_of_lt hsmall])
          · cases hport
      | negInt m => cases hn
      | float text => cases hn
    · rename_i s
      obtain ⟨n, hn, rfl⟩ := Option.map_eq_some_iff.mp h
      obtain ⟨digits, -, -, -, hsmall⟩ := Text.parseUnsigned_eq_some.mp hn
      exact .string s _ (by rw [hn, UInt16.toNat_ofNat', Nat.mod_eq_of_lt hsmall])
    · cases h
  · rintro (⟨n, port, h⟩ | ⟨s, port, h⟩)
    · have hsmall : n.toNat < 2 ^ 16 := h ▸ port.toNat_lt
      have hport : n.toUInt16 = port := UInt16.toNat_inj.mp (by simp; omega)
      simp only [yamlValueToPort, YamlNumber.asU64, Option.bind_some, if_pos hsmall, hport]
    · rw [yamlValueToPort, h, Option.map_some, UInt16.ofNat_toNat]

theorem yamlValueToString_eq_some {value : YamlValue} {text : String} :
    yamlValueToString value = some text ↔ PasswordOf value text := by
  constructor
  · intro h
    unfold yamlValueToString at h
    split at h
    · cases h
      exact .string _
    · cases h
      exact .number _
    · cases h
  · rintro (n | s)
    · rfl
    · rfl

theorem bind_yamlValueToPort {value : Option YamlValue} {port : UInt16} :
    value.bind yamlValueToPort = some port ↔ ∃ found, value = some found ∧ PortOf found port := by
  simp only [Option.bind_eq_some_iff, yamlValueToPort_eq_some]

theorem bind_yamlValueToString {value : Option YamlValue} {text : String} :
    value.bind yamlValueToString = some text ↔ ∃ found, value = some found ∧ PasswordOf found text := by
  simp only [Option.bind_eq_some_iff, yamlValueToString_eq_some]

theorem ssNode_eq_some {node : SsNode} : ssNode proxy = some node ↔ SsOf proxy node := by
  constructor
  · intro h
    unfold ssNode at h
    split at h
    · rename_i hname hserver hport hcipher hpassword
      have hfields : ∀ plugin, PluginOf proxy plugin → SsOf proxy ⟨_, _, _, _, _, plugin⟩ := fun _ hplugin =>
        ⟨hname, hserver, bind_yamlValueToPort.mp hport, hcipher, bind_yamlValueToString.mp hpassword, hplugin⟩
      dsimp only at h
      split at h
      · rename_i hnone
        cases h
        exact hfields none (.plain hnone)
      · rename_i plugin hsome
        split at h
        · rename_i hobfs
          split at h
          · rename_i mode hmode
            obtain ⟨opts, hopts, hmode⟩ := Option.bind_eq_some_iff.mp hmode
            cases h
            rw [hopts, Option.bind_some]
            exact hfields _ (.obfs opts mode (by rw [hsome, hobfs]) hopts hmode)
          · cases h
        · cases h
    · cases h
  · intro ⟨hname, hserver, hport, hcipher, hpassword, hplugin⟩
    rw [← bind_yamlValueToPort] at hport
    rw [← bind_yamlValueToString] at hpassword
    obtain ⟨name, server, port, cipher, password, plugin⟩ := node
    rw [ssNode, hname, hserver, hport, hcipher, hpassword]
    cases hplugin with
    | plain h => simp only [h]
    | obfs opts mode h hopts hmode => simp [h, hopts, hmode]

theorem anytlsNode_eq_some {node : AnytlsNode} : anytlsNode proxy = some node ↔ AnytlsOf proxy node := by
  constructor
  · intro h
    unfold anytlsNode at h
    split at h
    · rename_i hname hserver hport hpassword
      cases h
      exact ⟨hname, hserver, bind_yamlValueToPort.mp hport, bind_yamlValueToString.mp hpassword, rfl, rfl, rfl, rfl⟩
    · cases h
  · intro ⟨hname, hserver, hport, hpassword, hsni, halpn, hfingerprint, hskip⟩
    rw [← bind_yamlValueToPort] at hport
    rw [← bind_yamlValueToString] at hpassword
    obtain ⟨name, server, port, password, sni, alpn, fingerprint, skip⟩ := node
    simp only at hsni halpn hfingerprint hskip
    rw [anytlsNode, hname, hserver, hport, hpassword, hsni, halpn, hfingerprint, hskip]

theorem nodeOfProxy_eq_some {node : Node} : nodeOfProxy proxy = some node ↔ NodeOf proxy node := by
  constructor
  · intro h
    unfold nodeOfProxy at h
    split at h
    · rename_i hkind
      obtain ⟨ss, hss, rfl⟩ := Option.map_eq_some_iff.mp h
      exact .ss ss hkind (ssNode_eq_some.mp hss)
    · split at h
      · rename_i hkind
        obtain ⟨anytls, hanytls, rfl⟩ := Option.map_eq_some_iff.mp h
        exact .anytls anytls hkind (anytlsNode_eq_some.mp hanytls)
      · cases h
  · rintro (⟨node, hkind, h⟩ | ⟨node, hkind, h⟩)
    · rw [nodeOfProxy, if_pos hkind, ssNode_eq_some.mpr h, Option.map_some]
    · rw [nodeOfProxy, if_neg (by rw [hkind]; decide), if_pos hkind, anytlsNode_eq_some.mpr h, Option.map_some]

end Conversion

section Parsing

variable {fromStr : String → Option (List YamlValue)} {fromValue : YamlValue → Option RawProxy} {value : YamlValue}
  {values values' : List YamlValue}

theorem unusable_iff : Unusable fromValue value ↔ nodeOfEntry fromValue value = none := by
  cases h : fromValue value with
  | none =>
      simp only [nodeOfEntry, h, Option.bind_none, iff_true]
      exact .mistyped h
  | some proxy =>
      have heq : ∀ other, fromValue value = some other → other = proxy := by
        intro other hother
        rw [h] at hother
        exact (Option.some.inj hother).symm
      simp only [nodeOfEntry, h, Option.bind_some, nodeOfProxy]
      split
      · rename_i hss
        rw [Option.map_eq_none_iff, ssNode_eq_none]
        constructor
        · intro hbad
          cases hbad with
          | mistyped hnone => simp [h] at hnone
          | unsupported other hother hne _ =>
              rw [heq other hother] at hne
              exact absurd hss hne
          | malformed other hother hfields => exact .inl (heq other hother ▸ hfields)
          | cipher other hother _ hcipher => exact .inr (.inl (heq other hother ▸ hcipher))
          | unknownPlugin other plugin hother _ hplugin hobfs =>
              exact .inr (.inr (.inl ⟨plugin, heq other hother ▸ hplugin, hobfs⟩))
          | incompletePlugin other hother _ hplugin hmode =>
              cases heq other hother
              exact .inr (.inr (.inr ⟨hplugin, hmode⟩))
        · intro hbad
          rcases hbad with hfields | hcipher | ⟨plugin, hplugin, hobfs⟩ | ⟨hplugin, hmode⟩
          · exact .malformed proxy h hfields
          · exact .cipher proxy h hss hcipher
          · exact .unknownPlugin proxy plugin h hss hplugin hobfs
          · exact .incompletePlugin proxy h hss hplugin hmode
      · rename_i hss
        split
        · rename_i hanytls
          rw [Option.map_eq_none_iff, anytlsNode_eq_none]
          constructor
          · intro hbad
            cases hbad with
            | mistyped hnone => simp [h] at hnone
            | unsupported other hother _ hne =>
                rw [heq other hother] at hne
                exact absurd hanytls hne
            | malformed other hother hfields => exact heq other hother ▸ hfields
            | cipher other hother hkind _ => exact absurd (heq other hother ▸ hkind) hss
            | unknownPlugin other _ hother hkind _ _ => exact absurd (heq other hother ▸ hkind) hss
            | incompletePlugin other hother hkind _ _ => exact absurd (heq other hother ▸ hkind) hss
          · exact .malformed proxy h
        · rename_i hanytls
          simp only [iff_true]
          exact .unsupported proxy h hss hanytls

/-- The loop keeps what it has not seen of the conversions. -/
theorem parseEntries_eq (seen : List String) (nodes : List Node) :
    parseEntries fromValue seen nodes values =
      nodes ++ unseen Node.name seen (values.filterMap (nodeOfEntry fromValue)) := by
  induction values generalizing seen nodes with
  | nil => simp [parseEntries, unseen]
  | cons value values ih =>
      cases hvalue : fromValue value with
      | none =>
          rw [parseEntries, hvalue, List.filterMap_cons_none (by rw [nodeOfEntry, hvalue]; rfl)]
          exact ih seen nodes
      | some proxy =>
          rw [parseEntries, hvalue]
          dsimp only
          cases hnode : nodeOfProxy proxy with
          | none =>
              rw [List.filterMap_cons_none (by rw [nodeOfEntry, hvalue, Option.bind_some, hnode])]
              exact ih seen nodes
          | some node =>
              rw [List.filterMap_cons_some (by rw [nodeOfEntry, hvalue, Option.bind_some, hnode]), unseen]
              dsimp only
              by_cases hseen : node.name ∈ seen
              · rw [if_pos hseen, if_pos hseen, ih]
              · rw [if_neg hseen, if_neg hseen, ih, List.append_assoc, List.singleton_append]

theorem parseEntries_eq_firsts :
    parseEntries fromValue [] [] values = firsts Node.name (values.filterMap (nodeOfEntry fromValue)) := by
  rw [parseEntries_eq, unseen_eq]
  simp

theorem parseEntries_padded (h : Padded (Unusable fromValue) values values') :
    parseEntries fromValue [] [] values' = parseEntries fromValue [] [] values := by
  rw [parseEntries_eq_firsts, parseEntries_eq_firsts, h.filterMap_eq fun value hbad => unusable_iff.mp hbad]

theorem mem_parseEntries {node : Node} (h : node ∈ parseEntries fromValue [] [] values) :
    ∃ value ∈ values, nodeOfEntry fromValue value = some node := by
  rw [parseEntries_eq_firsts] at h
  exact List.mem_filterMap.mp (mem_of_mem_firsts h)

theorem nodeOfEntry_eq_some {node : Node} :
    nodeOfEntry fromValue value = some node ↔ ∃ proxy, fromValue value = some proxy ∧ NodeOf proxy node := by
  simp only [nodeOfEntry, Option.bind_eq_some_iff, nodeOfProxy_eq_some]

/-- A Shadowsocks node of an entry with a plugin has the plugin's mode. -/
theorem NodeOf.plugin {proxy : RawProxy} {node : SsNode} (h : NodeOf proxy (.ss node)) (hplugin : proxy.plugin ≠ none) :
    ∃ opts mode, proxy.pluginOpts = some opts ∧ opts.mode = some mode ∧
      node.plugin = some { mode := mode, host := opts.host } := by
  cases h with
  | ss node kind h =>
      obtain ⟨plugin, hfound⟩ : ∃ plugin, node.plugin = plugin := ⟨_, rfl⟩
      have hof := h.plugin
      rw [hfound] at hof ⊢
      cases hof with
      | plain hnone => exact absurd hnone hplugin
      | obfs opts mode _ hopts hmode => exact ⟨opts, mode, hopts, hmode, rfl⟩

end Parsing

/-! ### Several files -/

theorem mergeNodes_eq (all nodes : List Node) :
    mergeNodes all nodes = all ++ unseen Node.name (all.map Node.name) nodes := by
  induction nodes generalizing all with
  | nil => simp [mergeNodes, unseen]
  | cons node nodes ih =>
      rw [mergeNodes, unseen]
      by_cases hseen : node.name ∈ all.map Node.name
      · have hany : (all.any fun seen => seen.name = node.name) = true := by simpa using hseen
        rw [hany, if_pos rfl, if_pos hseen, ih]
      · have hany : (all.any fun seen => seen.name = node.name) = false := by simpa using hseen
        rw [hany, if_neg (by decide), if_neg hseen, ih, List.append_assoc, List.singleton_append]
        congr 2
        rw [unseen_eq, unseen_eq]
        apply List.filter_congr
        intro other _
        simp [and_comm]

theorem mergeNodes_firsts (nodes more : List Node) :
    mergeNodes (firsts Node.name nodes) more = firsts Node.name (nodes ++ more) := by
  rw [mergeNodes_eq, firsts_append_unseen]

theorem loadAll_eq (parse : Bytes → Option (List Node)) (read : Path → Option Bytes) (paths : List Path) :
    loadAll parse read paths = firsts Node.name (paths.flatMap fun path => ((read path).bind parse).getD []) := by
  have hrun : ∀ nodes, paths.foldl (fun all path => mergeNodes all (((read path).bind parse).getD []))
    (firsts Node.name nodes) =
      firsts Node.name (nodes ++ paths.flatMap fun path => ((read path).bind parse).getD []) := by
    induction paths with
    | nil => simp
    | cons path paths ih =>
        intro nodes
        rw [List.foldl_cons, mergeNodes_firsts, ih, List.flatMap_cons, List.append_assoc]
  exact hrun []

/-- Manifests are parsed entry by entry, the first node of each name is kept, and no plugin is dropped. -/
theorem manifest_law (fromStr : String → Option (List YamlValue)) (fromValue : YamlValue → Option RawProxy)
    (hkept : PluginKept fromValue) :
    (∀ text values, fromStr text = some values →
      parseStr fromStr fromValue text = some (firsts Node.name (values.filterMap (nodeOfEntry fromValue)))) ∧
    (∀ value node, nodeOfEntry fromValue value = some node ↔ ∃ proxy, fromValue value = some proxy ∧ NodeOf proxy node) ∧
    (∀ value, Unusable fromValue value ↔ nodeOfEntry fromValue value = none) ∧
    (∀ values values', Padded (Unusable fromValue) values values' →
      parseEntries fromValue [] [] values' = parseEntries fromValue [] [] values) ∧
    (∀ values, ∀ node ∈ parseEntries fromValue [] [] values, ∃ value ∈ values, nodeOfEntry fromValue value = some node) ∧
    (∀ value node plugin, nodeOfEntry fromValue value = some (.ss node) → value.get? "plugin" = some plugin →
      plugin ≠ .null →
      ∃ proxy opts mode, fromValue value = some proxy ∧ proxy.pluginOpts = some opts ∧ opts.mode = some mode ∧
        node.plugin = some { mode := mode, host := opts.host }) ∧
    ∀ read paths, loadAll (parseFile fromStr fromValue) read paths =
      firsts Node.name (paths.flatMap fun path => ((read path).bind (parseFile fromStr fromValue)).getD []) := by
  refine ⟨?_, fun _ _ => nodeOfEntry_eq_some, fun _ => unusable_iff, fun _ _ => parseEntries_padded,
    fun _ _ => mem_parseEntries, ?_, loadAll_eq _⟩
  · intro text values htext
    rw [parseStr, htext, Option.map_some, parseEntries_eq_firsts]
  · intro value node plugin h hplugin hnull
    obtain ⟨proxy, hproxy, hnode⟩ := nodeOfEntry_eq_some.mp h
    obtain ⟨opts, mode, hopts⟩ := hnode.plugin (hkept value proxy plugin hproxy hplugin hnull)
    exact ⟨proxy, opts, mode, hproxy, hopts⟩

/-! ### A decoder -/

def YamlValue.text : YamlValue → Option String
  | .string s => some s
  | .tagged _ value => value.text
  | _ => none

def YamlValue.texts : YamlValue → Option (List String)
  | .sequence values => values.mapM YamlValue.text
  | _ => none

def YamlValue.flag : YamlValue → Option Bool
  | .bool b => some b
  | _ => none

/-- An optional field: absent, null or decoded. -/
def optionalField {α : Type} (decode : YamlValue → Option α) (value : YamlValue) (key : String) : Option (Option α) :=
  match value.get? key with
  | none | some .null => some none
  | some value => (decode value).map some

def decodeProxy (value : YamlValue) : Option RawProxy := do
  let plugin ← optionalField YamlValue.text value "plugin"
  let kind ← (value.get? "type").bind YamlValue.text
  let name ← optionalField YamlValue.text value "name"
  let server ← optionalField YamlValue.text value "server"
  let port ← optionalField some value "port"
  let cipher ← optionalField YamlValue.text value "cipher"
  let password ← optionalField some value "password"
  let opts ← optionalField (fun opts => do
    return { mode := ← optionalField YamlValue.text opts "mode", host := ← optionalField YamlValue.text opts "host" })
    value "plugin-opts"
  let sni ← optionalField YamlValue.text value "sni"
  let alpn ← optionalField YamlValue.texts value "alpn"
  let fingerprint ← optionalField YamlValue.text value "client-fingerprint"
  let skip ← optionalField YamlValue.flag value "skip-cert-verify"
  return { kind := kind, name := name, server := server, port := port, cipher := cipher, password := password,
           plugin := plugin, pluginOpts := opts, sni := sni, alpn := alpn, clientFingerprint := fingerprint,
           skipCertVerify := skip }

theorem pluginKept_decodeProxy : PluginKept decodeProxy := by
  intro value proxy plugin h hplugin hnull
  simp only [decodeProxy, Option.bind_eq_bind, Option.bind_eq_some_iff, Option.pure_def, Option.some.injEq] at h
  obtain ⟨kept, hkept, _, _, _, _, _, _, _, _, _, _, _, _, _, _, _, _, _, _, _, _, _, _, rfl⟩ := h
  dsimp only
  unfold optionalField at hkept
  rw [hplugin] at hkept
  split at hkept
  · rename_i heq
    cases heq
  · rename_i heq
    exact absurd (Option.some.inj heq) hnull
  · obtain ⟨text, -, rfl⟩ := Option.map_eq_some_iff.mp hkept
    simp

/-- An entry with the fields of a Shadowsocks node and some more. -/
def sampleEntry (more : List (YamlValue × YamlValue)) : YamlValue :=
  .mapping ([(.string "type", .string "ss"), (.string "name", .string "A"), (.string "server", .string "s"),
    (.string "port", .number (.posInt 443)), (.string "cipher", .string "c"),
    (.string "password", .number (.posInt 1))] ++ more)

/-- The entry with an unknown plugin does not reserve the name. -/
theorem manifest_law_sample : parseStr (fun _ => some [sampleEntry [(.string "plugin", .string "kcp")],
      sampleEntry [(.string "plugin", .string "obfs"),
        (.string "plugin-opts", .mapping [(.string "mode", .string "http")])],
      sampleEntry []]) decodeProxy "" =
    some [.ss
      { name := "A", server := "s", port := 443, cipher := "c", password := "1", plugin := some ⟨"http", none⟩ }] := by
  rw [(manifest_law _ _ pluginKept_decodeProxy).1 "" _ rfl]
  decide +kernel

end Causeway

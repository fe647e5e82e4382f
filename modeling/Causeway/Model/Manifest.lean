import Causeway.Model.Subscription
import Causeway.Model.Wire

/-!
# Manifests

`subscription.rs`: the nodes of a Clash manifest. The YAML library is outside the program: `fromStr` gives the entries of `proxies`, `fromValue` decodes one of them.
-/

namespace Causeway

/-- `serde_yaml::Number`; a float comes with the text it is printed as. -/
inductive YamlNumber where
  | posInt (n : UInt64)
  | negInt (n : Int64)
  | float (text : String)
deriving DecidableEq

namespace YamlNumber

def toText : YamlNumber → String
  | .posInt n => toString n
  | .negInt n => toString n
  | .float text => text

def asU64 : YamlNumber → Option UInt64
  | .posInt n => some n
  | _ => none

end YamlNumber

/-- `serde_yaml::Value` -/
inductive YamlValue where
  | null
  | bool (b : Bool)
  | number (n : YamlNumber)
  | string (s : String)
  | sequence (values : List YamlValue)
  | mapping (fields : List (YamlValue × YamlValue))
  | tagged (tag : String) (value : YamlValue)

namespace YamlValue

def isString (s : String) : YamlValue → Bool
  | .string t => t = s
  | _ => false

/-- The value that a mapping has under a key; a tag does not hide it. -/
def get? (key : String) : YamlValue → Option YamlValue
  | .mapping fields => (fields.find? fun field => field.1.isString key).map Prod.snd
  | .tagged _ value => value.get? key
  | _ => none

end YamlValue

structure RawPluginOpts where
  mode : Option String
  host : Option String

structure RawProxy where
  kind : String
  name : Option String
  server : Option String
  port : Option YamlValue
  cipher : Option String
  password : Option YamlValue
  plugin : Option String
  pluginOpts : Option RawPluginOpts
  sni : Option String
  alpn : Option (List String)
  clientFingerprint : Option String
  skipCertVerify : Option Bool

def yamlValueToString : YamlValue → Option String
  | .string s => some s
  | .number n => some n.toText
  | _ => none

def yamlValueToPort : YamlValue → Option UInt16
  | .number n => n.asU64.bind fun u => if u.toNat < 2 ^ 16 then some u.toUInt16 else none
  | .string s => (parseU16 (trimText s.toList)).map UInt16.ofNat
  | _ => none

/-- Convert a `type: ss` entry. Only simple-obfs is recognized as a plugin; there is no fallback to a plain connection. -/
def ssNode (proxy : RawProxy) : Option SsNode :=
  match proxy.name, proxy.server, proxy.port.bind yamlValueToPort, proxy.cipher, proxy.password.bind yamlValueToString with
  | some name, some server, some port, some cipher, some password =>
      let node : SsNode :=
        { name := name, server := server, port := port, cipher := cipher, password := password, plugin := none }
      match proxy.plugin with
      | none => some node
      | some plugin =>
          if plugin = "obfs" then
            match proxy.pluginOpts.bind RawPluginOpts.mode with
            | some mode =>
                some { node with plugin := some { mode := mode, host := proxy.pluginOpts.bind RawPluginOpts.host } }
            | none => none
          else none
  | _, _, _, _, _ => none

/-- Convert a `type: anytls` entry. -/
def anytlsNode (proxy : RawProxy) : Option AnytlsNode :=
  match proxy.name, proxy.server, proxy.port.bind yamlValueToPort, proxy.password.bind yamlValueToString with
  | some name, some server, some port, some password =>
      some
        { name := name, server := server, port := port, password := password, sni := proxy.sni, alpn := proxy.alpn,
          clientFingerprint := proxy.clientFingerprint, skipCertVerify := proxy.skipCertVerify.getD false }
  | _, _, _, _ => none

section Parsing

variable (fromStr : String → Option (List YamlValue)) (fromValue : YamlValue → Option RawProxy)

/-- What an entry is converted to; without the logging. -/
def nodeOfProxy (proxy : RawProxy) : Option Node :=
  if proxy.kind = "ss" then (ssNode proxy).map .ss
  else if proxy.kind = "anytls" then (anytlsNode proxy).map .anytls
  else none

/-- The loop of `parse_str` over the entries, with the names it has seen. -/
def parseEntries (seen : List String) (nodes : List Node) : List YamlValue → List Node
  | [] => nodes
  | value :: values =>
      match fromValue value with
      | none => parseEntries seen nodes values
      | some proxy =>
          match nodeOfProxy proxy with
          | none => parseEntries seen nodes values
          | some node =>
              if node.name ∈ seen then parseEntries seen nodes values
              else parseEntries (node.name :: seen) (nodes ++ [node]) values

def parseStr (text : String) : Option (List Node) := (fromStr text).map (parseEntries fromValue [] [])

/-- `parse_file`, of what the file holds. -/
def parseFile (content : Bytes) : Option (List Node) :=
  (String.fromUTF8? ⟨content.toArray⟩).bind (parseStr fromStr fromValue)

end Parsing

end Causeway

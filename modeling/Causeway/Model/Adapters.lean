import Causeway.Model.Subscription

/-!
# Adapters

`dataplane.rs`: the configurations that the adapters are started with, and the plugin options in one of them. The hosts that go past the node are compiled into both.
-/

namespace Causeway

/-- `serde_json::Value`, without null and fractions. -/
inductive Json where
  | bool (b : Bool)
  | num (n : Nat)
  | str (s : String)
  | arr (values : List Json)
  | obj (fields : List (String × Json))

namespace Json

def get? (key : String) : Json → Option Json
  | .obj fields => (fields.find? fun field => field.1 = key).map Prod.snd
  | _ => none

def array : Json → List Json
  | .arr values => values
  | _ => []

end Json

/-- `IpAddr`; of an IPv6 address the text that it is printed as. -/
inductive IpAddr where
  | v4 (a b c d : UInt8)
  | v6 (text : String)
deriving DecidableEq

def IpAddr.toText : IpAddr → String
  | .v4 a b c d => toString a ++ "." ++ toString b ++ "." ++ toString c ++ "." ++ toString d
  | .v6 text => text

structure SocketAddr where
  ip : IpAddr
  port : UInt16
deriving DecidableEq

/-- The text that `shadowsocks-rust` takes as `plugin_opts`. -/
def ObfsOpts.toPluginOpts (opts : ObfsOpts) : String :=
  match opts.host with
  | some host => "obfs=" ++ opts.mode ++ ";obfs-host=" ++ host
  | none => "obfs=" ++ opts.mode

/-- Exact host names as an ACL; what matches none goes to the node. -/
def buildSslocalAcl (directHosts : List String) : Option String :=
  if directHosts.isEmpty then none
  else some (directHosts.foldl (fun acl host => acl ++ "|" ++ host ++ "\n") "[proxy_all]\n\n[bypass_list]\n")

/-- One process with two locals, each with the node and its plugin. -/
def buildSslocalConfigWithAcl (node : SsNode) (socksAddr httpAddr : SocketAddr) (obfsBin : String) (aclPath : Option String) :
    Json :=
  let plugin : List (String × Json) :=
    match node.plugin with
    | some obfs => [("plugin", .str obfsBin), ("plugin_opts", .str obfs.toPluginOpts)]
    | none => []
  let local' := fun (addr : SocketAddr) (protocol : String) => Json.obj ([("local_address", .str addr.ip.toText),
    ("local_port", .num addr.port.toNat), ("protocol", .str protocol), ("server", .str node.server),
    ("server_port", .num node.port.toNat), ("password", .str node.password), ("method", .str node.cipher),
    ("mode", .str "tcp_only")] ++ plugin)
  .obj ([("locals", .arr [local' socksAddr "socks", local' httpAddr "http"])] ++
    match aclPath with
    | some path => [("acl", .str path)]
    | none => [])

/-- One process with two inbounds; the hosts have a rule of their own. -/
def buildSingboxConfigWithDirectHosts (node : AnytlsNode) (socksAddr httpAddr : SocketAddr) (directHosts : List String) : Json :=
  let inbound := fun (addr : SocketAddr) (protocol : String) => Json.obj [("type", .str protocol),
    ("tag", .str (protocol ++ "-in")), ("listen", .str addr.ip.toText), ("listen_port", .num addr.port.toNat)]
  let sni : List (String × Json) :=
    match node.sni with
    | some sni => [("server_name", .str sni)]
    | none => []
  let insecure : List (String × Json) := if node.skipCertVerify then [("insecure", .bool true)] else []
  let tls := Json.obj ([("enabled", .bool true),
    ("alpn", .arr ((node.alpn.getD ["h2", "http/1.1"]).map .str)),
    ("utls", .obj [("enabled", .bool true), ("fingerprint", .str (node.clientFingerprint.getD "chrome"))])] ++ sni ++ insecure)
  let out := Json.obj [("type", .str "anytls"), ("tag", .str "out"), ("server", .str node.server),
    ("server_port", .num node.port.toNat), ("password", .str node.password), ("tls", tls)]
  let direct : List Json := if directHosts.isEmpty then [] else [.obj [("type", .str "direct"), ("tag", .str "direct")]]
  let rules : List (String × Json) :=
    if directHosts.isEmpty then []
    else [("rules", .arr [.obj [("domain", .arr (directHosts.map .str)), ("outbound", .str "direct")]])]
  .obj [("log", .obj [("level", .str "warn")]),
    ("inbounds", .arr [inbound socksAddr "socks", inbound httpAddr "http"]),
    ("outbounds", .arr (out :: direct)),
    ("route", .obj ([("auto_detect_interface", .bool false), ("final", .str "out")] ++ rules))]

end Causeway

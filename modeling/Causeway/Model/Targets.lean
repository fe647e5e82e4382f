import Causeway.Model.Wire

/-!
# Targets of checks

The URLs that health checks and site probes are aimed at: what `validate_at` asks of them, how `health.rs` and `siteprobe.rs` take them apart, and the request heads made of the parts.
-/

namespace Causeway

/-- What ends the authority of a URL. -/
def endsAuthority (c : Char) : Bool := c = '/' || c = '?'

/-! ### Validation -/

/-- `valid_health_url` and `valid_site_url`, which differ in the scheme. -/
def validUrl (scheme url : String) : Bool :=
  let text := url.toList
  if !scheme.toList.isPrefixOf text || text.any (fun c => isWhitespace c || isControl c) || text.contains '#' then false
  else
    let authority := ((text.drop scheme.length).splitOnP endsAuthority).headD []
    !authority.isEmpty && !authority.contains '@'

def validHealthUrl (url : String) : Bool := validUrl "http://" url

def validSiteUrl (url : String) : Bool := validUrl "https://" url

/-! ### Taking a URL apart -/

/-- The authority and the path of what follows a scheme. -/
def splitAuthority (rest : List Char) : List Char × List Char :=
  match rest.findIdx? endsAuthority with
  | some i => (rest.take i, rest.drop i)
  | none => (rest, ['/'])

def splitUrl (url : String) : Except String (String × String) :=
  let text := url.toList
  if !"http://".toList.isPrefixOf text then .error "health check URL must be plaintext http://"
  else
    let (authority, path) := splitAuthority (text.drop "http://".length)
    if authority.isEmpty || authority.contains '@' || text.contains '#' || text.any fun c => isWhitespace c || isControl c then
      .error "invalid health check URL"
    else .ok (String.ofList authority, String.ofList path)

/-- What `split_https_url` makes of a URL. -/
structure SiteParts (σ : Type) where
  host : String
  port : Nat
  target : String
  serverName : σ

def isHostChar (c : Char) : Bool := c.isAlphanum || c = '-' || c = '.'

/-- The host and the port of an authority, 443 if it names none. -/
def splitSiteAuthority (authority : List Char) : Except String (List Char × Nat) :=
  if !authority.contains ':' then .ok (authority, 443)
  else
    let port := (authority.reverse.takeWhile (· ≠ ':')).reverse
    match parseU16 port with
    | none => .error "invalid site probe port"
    | some number => .ok (authority.take (authority.length - port.length - 1), number)

/-- `split_https_url`; `serverName` is the library's `ServerName::try_from`. -/
def splitHttpsUrl {σ : Type} (serverName : String → Option σ) (url : String) : Except String (SiteParts σ) :=
  let text := url.toList
  if !"https://".toList.isPrefixOf text then .error "site probe URL must be https://"
  else
    let (authority, path) := splitAuthority (text.drop "https://".length)
    if authority.isEmpty || authority.contains '@' then .error "invalid site probe authority"
    else do
      let (host, port) ← splitSiteAuthority authority
      if host.isEmpty || !host.all isHostChar then throw "invalid site probe host"
      match serverName (String.ofList host) with
      | none => throw "invalid server name"
      | some serverName => return { host := String.ofList host, port, target := String.ofList path, serverName }

def validTarget (url : String) : Bool :=
  if "connect://".toList.isPrefixOf url.toList then (splitConnectTarget url).toOption.isSome else (splitUrl url).toOption.isSome

/-! ### Request heads -/

def healthGetHead (url host : String) : String :=
  "GET " ++ url ++ " HTTP/1.1\r\nHost: " ++ host ++ "\r\nUser-Agent: causeway-health/0.1\r\nConnection: close\r\n\r\n"

def healthConnectHead (authority : String) : String :=
  "CONNECT " ++ authority ++ " HTTP/1.1\r\nHost: " ++ authority ++ "\r\nUser-Agent: causeway-health/0.1\r\n\r\n"

/-- The head that a check of the target sends. -/
def checkHead (url : String) : Except String String :=
  if "connect://".toList.isPrefixOf url.toList then (splitConnectTarget url).map healthConnectHead
  else (splitUrl url).map fun (host, _) => healthGetHead url host

/-- The first head that `https_get_status_via_proxy` sends. -/
def siteConnectHead (host : String) (port : Nat) : String :=
  "CONNECT " ++ host ++ ":" ++ toString port ++ " HTTP/1.1\r\nHost: " ++ host ++ ":" ++ toString port ++ "\r\n\r\n"

/-- The head that `https_get_status_via_proxy` sends through the tunnel. -/
def siteGetHead (target host userAgent : String) : String :=
  "GET " ++ target ++ " HTTP/1.1\r\nHost: " ++ host ++ "\r\nUser-Agent: " ++ userAgent ++
    "\r\nAccept: */*\r\nConnection: close\r\n\r\n"

/-! ### The configuration -/

/-- What `validate_at` asks of the health target of one class. -/
def ClassConfig.validateTarget (name : String) (cls : ClassConfig) : Except String Unit :=
  match cls.health.bind (·.url) with
  | none => .ok ()
  | some url =>
      if url.isEmpty then .error ("classes." ++ name ++ ".health.url is empty — omit the key to inherit [health].url")
      else if !validTarget url then
        .error ("classes." ++ name ++ ".health.url must be a plaintext http:// URL or a connect://host[:port] target, " ++
          "without credentials, fragments, whitespace, or control characters")
      else .ok ()

/-- What `validate_at` asks of one site. -/
def SiteTarget.validate (name : String) (target : SiteTarget) : Except String Unit :=
  if !validSiteUrl target.url then
    .error ("sites.list." ++ name ++ ".url must be an absolute https:// URL without credentials, fragments, whitespace, " ++
      "or control characters")
  else .ok ()

/-- The checks of `validate_at` that look at targets and at the user agent, in their order. -/
def Config.validateTargets (cfg : Config) : Except String Unit := do
  cfg.classes.toList.forM fun entry => entry.2.validateTarget entry.1
  if !validHealthUrl cfg.health.url then
    throw ("health.url must be an absolute plaintext http:// URL without credentials, fragments, whitespace, " ++
      "or control characters")
  cfg.sites.list.toList.forM fun entry => entry.2.validate entry.1
  if (trimText cfg.sites.userAgent.toList).isEmpty then throw "sites.user_agent must be a non-empty string"

end Causeway

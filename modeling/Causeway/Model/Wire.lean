import Causeway.Model.Config
import Causeway.Text.Numeral

/-!
# What checks read from a proxy

`health.rs` and `siteprobe.rs` read a proxy's answer to CONNECT one `read` at a time. A socket is the list of what its successive reads return; after the last of them there is nothing more: the peer has closed, the read has failed, or the timeout has passed.
-/

namespace Causeway

/-! ### Text -/

/-- `char::is_whitespace` -/
def isWhitespace (c : Char) : Bool :=
  let n := c.toNat
  (9 ≤ n && n ≤ 13) || n = 0x20 || n = 0x85 || n = 0xA0 || n = 0x1680 || (0x2000 ≤ n && n ≤ 0x200A) ||
    n = 0x2028 || n = 0x2029 || n = 0x202F || n = 0x205F || n = 0x3000

/-- `char::is_control` -/
def isControl (c : Char) : Bool :=
  let n := c.toNat
  n < 0x20 || (0x7F ≤ n && n ≤ 0x9F)

/-- `str::split_whitespace` -/
def splitWhitespace (text : List Char) : List (List Char) :=
  (text.splitOnP isWhitespace).filter fun word => !word.isEmpty

/-- `str::trim` -/
def trimText (text : List Char) : List Char :=
  (((text.dropWhile isWhitespace).reverse).dropWhile isWhitespace).reverse

def trim (text : String) : String := String.ofList (trimText text.toList)

/-- `str::parse::<u16>` -/
def parseU16 (text : List Char) : Option Nat := Text.parseUnsigned (2 ^ 16) text

/-- A scalar value that is not encoded in more bytes than it needs. -/
def scalarValue (least n : Nat) : Option Char :=
  if least ≤ n ∧ n.isValidChar then some (Char.ofNat n) else none

/-- The character that a first byte and what follows it encode, with the number of bytes after the first. -/
def decodeChar (first : UInt8) (rest : Bytes) : Option (Char × Nat) :=
  let tail := fun (b : UInt8) => 0x80 ≤ b.toNat && b.toNat < 0xC0
  let low := fun (b : UInt8) => b.toNat % 64
  let n := first.toNat
  if n < 0x80 then some (Char.ofNat n, 0)
  else if n < 0xC0 then none
  else if n < 0xE0 then
    match rest with
    | b :: _ => if tail b then (scalarValue 0x80 (n % 32 * 64 + low b)).map (·, 1) else none
    | _ => none
  else if n < 0xF0 then
    match rest with
    | b :: c :: _ =>
        if tail b && tail c then (scalarValue 0x800 ((n % 16 * 64 + low b) * 64 + low c)).map (·, 2) else none
    | _ => none
  else if n < 0xF8 then
    match rest with
    | b :: c :: d :: _ =>
        if tail b && tail c && tail d then
          (scalarValue 0x10000 (((n % 8 * 64 + low b) * 64 + low c) * 64 + low d)).map (·, 3)
        else none
    | _ => none
  else none

/-- `String::from_utf8_lossy`, after the bytes that belong to the last character; every byte that does not decode becomes a replacement character of its own. -/
def fromUtf8Lossy : Nat → Bytes → List Char
  | _, [] => []
  | skip + 1, _ :: bytes => fromUtf8Lossy skip bytes
  | 0, first :: bytes =>
      match decodeChar first bytes with
      | some (c, more) => c :: fromUtf8Lossy more bytes
      | none => '\uFFFD' :: fromUtf8Lossy 0 bytes

/-! ### The status line -/

def findCrlf : Bytes → Option Nat
  | 13 :: 10 :: _ => some 0
  | _ :: bytes => (findCrlf bytes).map (· + 1)
  | [] => none

/-- What one reader says when it gives up. -/
structure ReadErrors where
  closed : String
  tooLong : String

def statusLineCap : Nat := 8192

/-- Read up to the first CR LF, given what has been read; with the line come the reads that are left. -/
def readLine (errors : ReadErrors) (buf : Bytes) : List Bytes → Except String (Bytes × List Bytes)
  | [] => .error errors.closed
  | chunk :: reads =>
      match findCrlf (buf ++ chunk) with
      | some pos => .ok ((buf ++ chunk).take pos, reads)
      | none => if (buf ++ chunk).length > statusLineCap then .error errors.tooLong else readLine errors (buf ++ chunk) reads

/-- The status code of a line, as `read_status_line` parses it. -/
def statusCode (line : Bytes) : Except String Nat :=
  match splitWhitespace (fromUtf8Lossy 0 line) with
  | [] => .error "status line missing protocol version"
  | [_] => .error "status line missing status code"
  | _ :: code :: _ =>
      match parseU16 code with
      | some code => .ok code
      | none => .error "status code is not a number"

def healthReadErrors : ReadErrors where
  closed := "peer closed the connection before the status line"
  tooLong := "status line too long (>8KiB), treating as abnormal"

def readStatusLine (reads : List Bytes) : Except String (Nat × List Bytes) := do
  let (line, reads) ← readLine healthReadErrors [] reads
  return (← statusCode line, reads)

/-! ### The write-through probe -/

/-- The buffer for one read. -/
def readSize : Nat := 512

def splitConnectTarget (url : String) : Except String String :=
  let scheme := "connect://".toList
  if !scheme.isPrefixOf url.toList then .error "connect target must start with connect://"
  else
    let rest := url.toList.drop scheme.length
    if rest.isEmpty || rest.any (['/', '?', '#', '@'].contains ·) || rest.any fun c => isWhitespace c || isControl c then
      .error "invalid connect target"
    else if !rest.contains ':' then .ok (String.ofList rest ++ ":443")
    else
      let port := (rest.reverse.takeWhile (· ≠ ':')).reverse
      let host := rest.take (rest.length - port.length - 1)
      match parseU16 port with
      | none => .error "connect target port must be numeric"
      | some port =>
          if port = 0 then .error "connect target port must be nonzero"
          else if host.isEmpty then .error "connect target must name a host, not just a port"
          else if host.contains ':' then
            .error "connect target must be host:port (or a bare host); extra colons are rejected"
          else .ok (String.ofList rest)

/-- How everything but the reads went. -/
structure Surroundings where
  connected : Bool
  requestSent : Bool
  probeSent : Bool
  /-- The text of whatever failed. -/
  detail : String

/-- `connect_status_timed`, without the time it took. -/
def connectStatusTimed (url : String) (outside : Surroundings) (reads : List Bytes) : Except String Nat := do
  let _ ← splitConnectTarget url
  if !outside.connected then throw outside.detail
  if !outside.requestSent then throw outside.detail
  let (code, reads) ← readStatusLine reads
  if 200 ≤ code && code < 300 then
    if !outside.probeSent then throw outside.detail
    if reads.isEmpty then
      throw "tunnel closed before the write-through probe answered (remote reset or failed dial)"
  return code

/-! ### The site probe -/

def siteReadErrors : ReadErrors where
  closed := "peer closed the connection before the status line"
  tooLong := "status line too long (>8KiB)"

def readStatusLineSocket (reads : List Bytes) : Except String (Nat × List Bytes) := do
  let (line, reads) ← readLine siteReadErrors [] reads
  match (splitWhitespace (fromUtf8Lossy 0 line))[1]? with
  | none => throw "status line missing status code"
  | some code =>
      match parseU16 code with
      | none => throw "status code is not a number"
      | some code => return (code, reads)

/-- The parts of a TLS connection that `pull_ciphertext` calls: `read_tls` with the number of bytes it took, and `process_new_packets`. -/
structure TlsConnection (σ : Type) where
  readTls : σ → Bytes → Option (Nat × σ)
  processNewPackets : σ → Option σ

/-- The loop of `pull_ciphertext` over one read: the bytes handed to the connection, and its state; nothing if it fails. Every round but the last takes a byte, so there are no more rounds than bytes. -/
def feed {σ : Type} (tls : TlsConnection σ) : Nat → σ → Bytes → Option (Bytes × σ)
  | 0, s, _ => some ([], s)
  | _ + 1, s, [] => some ([], s)
  | rounds + 1, s, pending =>
      match tls.readTls s pending with
      | none => none
      | some (consumed, s) =>
          if consumed = 0 then some ([], s)
          else
            match tls.processNewPackets s with
            | none => none
            | some s =>
                (feed tls rounds s (pending.drop consumed)).map fun (bytes, s) => (pending.take consumed ++ bytes, s)

/-- Pull after pull, as long as the connection wants one. -/
def pullCiphertext {σ : Type} (tls : TlsConnection σ) : σ → List Bytes → Option (Bytes × σ)
  | s, [] => some ([], s)
  | s, chunk :: reads =>
      match feed tls chunk.length s chunk with
      | none => none
      | some (bytes, s) => (pullCiphertext tls s reads).map fun (more, s) => (bytes ++ more, s)

/-- The CONNECT leg of `https_get_status_via_proxy`: the reads that are left for the TLS leg. -/
def openTunnel (outside : Surroundings) (reads : List Bytes) : Except String (List Bytes) := do
  if !outside.connected then throw outside.detail
  if !outside.requestSent then throw outside.detail
  let (code, reads) ← readStatusLineSocket reads
  if code ≠ 200 then throw ("proxy CONNECT returned HTTP " ++ toString code)
  return reads

end Causeway

import Causeway.Model.Subscription

/-!
# Filesystem roles

The last path check of `validate_at`: every path the daemon reads or writes has a role, and no writable one may alias or contain another. The file system enters through `normalized`.
-/

namespace Causeway

/-! ### Paths -/

/-- `Path::parent` -/
def parent (path : Path) : Option Path :=
  match path.getLast? with
  | none => none
  | some component => if component = "/" then none else some path.dropLast

/-- `Path::with_file_name` -/
def withFileName (path : Path) (name : String) : Path :=
  if (fileName path).isSome then path.dropLast ++ [name] else path ++ [name]

/-- `Path::file_stem` of a file name: up to the last dot, unless that is its first character. -/
def fileStem (name : String) : String :=
  match name.toList.reverse.dropWhile (· ≠ '.') with
  | [] | [_] => name
  | _ :: stem => String.ofList stem.reverse

/-- `Path::with_extension` -/
def withExtension (path : Path) (extension : String) : Path :=
  match fileName path with
  | none => path
  | some name => path.dropLast ++ [fileStem name ++ "." ++ extension]

/-- `Path::display` -/
def displayPath (path : Path) : String :=
  match path with
  | "/" :: path => "/" ++ "/".intercalate path
  | path => "/".intercalate path

/-! ### Configured files -/

/-- The fields of `Config` that name files. -/
structure FilesConfig where
  stateFile : Path
  logDir : Path
  sslocalBin : Path
  obfsPluginBin : Path
  singboxBin : Path
  subscriptions : SubscriptionsConfig

namespace FilesConfig

variable (cfg : FilesConfig)

/-- The run directory: that of the lock, of the socket and of the adapters' credentials. -/
def runDir : Path :=
  match parent cfg.stateFile with
  | some parent => parent ++ ["run"]
  | none => ["/", "tmp", "causeway-run"]

/-- `control::socket_path` -/
def socketPath : Path := cfg.runDir ++ ["control.sock"]

/-- What a save of the state writes before it renames. -/
def temporaryPath : Path := withExtension cfg.stateFile "json.tmp"

end FilesConfig

/-! ### Roles -/

inductive PathAccess where
  | readOnly
  | writableFile
  | writableDirectory
deriving DecidableEq

def PathAccess.isWritable (access : PathAccess) : Bool := access ≠ .readOnly

structure PathRole where
  path : Path
  label : String
  access : PathAccess
  /-- The namespace; roles in the same one may contain one another. -/
  space : Option String
deriving DecidableEq

namespace PathRole

variable (normalized : Path → Option Path) (path : Path) (label : String)

/-- `PathRole::new` -/
def new (access : PathAccess) (space : Option String) : Except String PathRole :=
  match normalized path with
  | some path => .ok { path := path, label := label, access := access, space := space }
  | none => .error ("normalize filesystem role " ++ label)

def readOnly : Except String PathRole := new normalized path label .readOnly none

def writableFile : Except String PathRole := new normalized path label .writableFile none

def writableFileInNamespace (space : String) : Except String PathRole :=
  new normalized path label .writableFile (some space)

def writableDir : Except String PathRole := new normalized path label .writableDirectory none

def writableDirInNamespace (space : String) : Except String PathRole :=
  new normalized path label .writableDirectory (some space)

end PathRole

def derivedCacheSlotPath (base : Path) (suffix : String) : Except String Path :=
  match fileName base with
  | none => .error ("cache_file must name a file, got " ++ displayPath base)
  | some name => .ok (withFileName base (name ++ "." ++ suffix))

section

variable (normalized : Path → Option Path)

def slotRole (name : String) (cacheFile : Path) (slot label : String) : Except String PathRole := do
  let slotPath ← (derivedCacheSlotPath cacheFile slot).mapError fun _ =>
    "derive cache slot " ++ label ++ " for subscription profile " ++ name.quote ++ " from " ++ displayPath cacheFile
  PathRole.writableFile normalized slotPath ("subscription cache slot " ++ label ++ " of profile " ++ name.quote)

/-- The roles of one profile: its manifests, its URL secret, its cache with both slots. -/
def profileRoles (name : String) (profile : SubscriptionProfileConfig) : Except String (List PathRole) := do
  let sources ← profile.files.zipIdx.mapM fun (file, index) =>
    PathRole.readOnly normalized file
      ("local source #" ++ toString (index + 1) ++ " of profile " ++ name.quote)
  let secret ← profile.urlFile.toList.mapM fun urlFile =>
    PathRole.readOnly normalized urlFile ("URL secret of profile " ++ name.quote)
  let caches ← profile.cacheFile.toList.mapM fun cacheFile => do
    let cache ← PathRole.writableFile normalized cacheFile ("subscription cache of profile " ++ name.quote)
    let slotA ← slotRole normalized name cacheFile "causeway-a" "A"
    let slotB ← slotRole normalized name cacheFile "causeway-b" "B"
    return [cache, slotA, slotB]
  return sources ++ secret ++ caches.flatten

def fixedRoles (cfg : FilesConfig) : List (Except String PathRole) :=
  [PathRole.writableFile normalized cfg.stateFile "persistent state file",
    PathRole.writableFile normalized (withExtension cfg.stateFile "json.tmp") "persistent state temporary file",
    PathRole.writableDir normalized cfg.logDir "log directory namespace",
    PathRole.writableFileInNamespace normalized (cfg.runDir ++ ["control.sock"]) "control socket" "runtime",
    PathRole.writableDirInNamespace normalized cfg.runDir
      "runtime and data-plane credential directory namespace" "runtime",
    PathRole.readOnly normalized cfg.sslocalBin "sslocal executable",
    PathRole.readOnly normalized cfg.obfsPluginBin "transport-plugin executable",
    PathRole.readOnly normalized cfg.singboxBin "sing-box executable"]

/-- The roles that `validate_filesystem_roles` collects. -/
def filesystemRoles (cfg : FilesConfig) (configPath : Option Path) : Except String (List PathRole) := do
  let fixed ← (fixedRoles normalized cfg).mapM id
  let config ← configPath.toList.mapM fun path => PathRole.readOnly normalized path "main config file"
  let legacy ← cfg.subscriptions.files.zipIdx.mapM fun (file, index) =>
    PathRole.readOnly normalized file ("legacy local subscription source #" ++ toString (index + 1))
  let profiles ← cfg.subscriptions.profiles.toList.mapM fun (name, profile) => profileRoles normalized name profile
  return fixed ++ config ++ legacy ++ profiles.flatten

/-! ### Collisions -/

/-- The body of the two inner loops of `validate_role_collisions`. -/
def roleConflict (exactOnly : Bool) (left right : PathRole) : Bool :=
  if !left.access.isWritable && !right.access.isWritable then false
  else
    let exact := decide (left.path = right.path)
    if !exact && left.space.isSome && decide (left.space = right.space) then false
    else
      let contains := right.path.isPrefixOf left.path || left.path.isPrefixOf right.path
      (exactOnly && exact) || (!exactOnly && !exact && contains)

/-- The first conflict of a pass over all pairs. -/
def firstConflict (exactOnly : Bool) : List PathRole → Option (PathRole × PathRole)
  | [] => none
  | left :: roles =>
      match roles.find? (roleConflict exactOnly left) with
      | some right => some (left, right)
      | none => firstConflict exactOnly roles

/-- Exact aliases are reported before containment. -/
def validateRoleCollisions (roles : List PathRole) : Except String Unit :=
  match [true, false].findSome? (firstConflict · roles) with
  | some (left, right) =>
      .error ("filesystem role conflict: " ++ left.label ++ " (" ++ displayPath left.path ++ ") conflicts with " ++
        right.label ++ " (" ++ displayPath right.path ++ ")")
  | none => .ok ()

def validateFilesystemRoles (cfg : FilesConfig) (configPath : Option Path) : Except String Unit := do
  validateRoleCollisions (← filesystemRoles normalized cfg configPath)

end

end Causeway

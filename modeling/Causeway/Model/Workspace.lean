import Causeway.Model.Identity

/-!
# Credential workspaces

`dataplane.rs`: the directories below `run/adapters/`, one for each daemon, and the two ways in which they are removed: by the daemon that owns one, and by the next start for owners that are dead. A run is the removals that it performs, in order; a crash or a failure leaves the first of them.
-/

namespace Causeway

/-! ### Directories -/

inductive FileName where
  | text (name : String)
  /-- Bytes that are no UTF-8. -/
  | raw (bytes : Bytes)
deriving DecidableEq

/-- What a name leads to; links are not followed. -/
inductive FileNode where
  | file (content : Bytes)
  | directory (entries : List (FileName × FileNode))
  | symlink
  | special

abbrev Dir := List (FileName × FileNode)

def Dir.get? (dir : Dir) (name : FileName) : Option FileNode := (dir.find? fun entry => entry.1 = name).map Prod.snd

def Dir.without (dir : Dir) (names : List FileName) : Dir := dir.filter fun entry => entry.1 ∉ names

def FileNode.remove (file : FileName) : FileNode → FileNode
  | .directory entries => .directory (Dir.without entries [file])
  | node => node

def identityFile : FileName := .text identityFileName

/-- How the calls on the adapters directory go; paths are relative to it. -/
structure FsCalls where
  /-- What `read_dir` yields; `none` for an entry that cannot be read. -/
  list : List FileName → Option (List (Option FileName))
  metadata : List FileName → Bool
  read : List FileName → Bool
  /-- Whether the marker is found again before a removal. -/
  recheck : FileName → Bool
  removeFile : List FileName → Bool
  removeDir : FileName → Bool

inductive Removal where
  | file (inst file : FileName)
  | directory (inst : FileName)
deriving DecidableEq

namespace Removal

def inst : Removal → FileName
  | .file inst _ => inst
  | .directory inst => inst

/-- What a removal makes of the adapters directory. -/
def apply (adapters : Dir) : Removal → Dir
  | .file owner name => adapters.map fun entry => if entry.1 = owner then (entry.1, entry.2.remove name) else entry
  | .directory owner => adapters.without [owner]

end Removal

/-- Remove files one after the other, up to a failure. -/
def removeFiles (calls : FsCalls) (inst : FileName) : List FileName → Bool × List Removal
  | [] => (true, [])
  | file :: files =>
      if calls.removeFile [inst, file] then
        ((removeFiles calls inst files).1, .file inst file :: (removeFiles calls inst files).2)
      else (false, [])

/-! ### Processes -/

/-- A line of the process table. -/
structure Process where
  /-- The command name, unless it is no UTF-8. -/
  comm : Option String
  state : Char
  /-- The fields between the state and the start time. -/
  before : List Int
  startTime : UInt64
  after : List Int
  isAlpha_state : state.isAlpha = true
  length_before : before.length = 18

/-- `/proc/<pid>/stat` of a process with this command name. -/
def Process.stat (process : Process) (pid : UInt32) (comm : String) : List Char :=
  (toString pid).toList ++ " (".toList ++ comm.toList ++ ')' ::
    (([process.state] :: process.before.map (fun n => (toString n).toList) ++
      (toString process.startTime).toList :: process.after.map (fun n => (toString n).toList)).flatMap fun field => ' ' :: field) ++
      ['\n']

structure Machine where
  /-- The kernel's boot id as it is read, if it can be read. -/
  bootId : Option String
  processes : UInt32 → Option Process
  readable : UInt32 → Bool

def Machine.readBootId (machine : Machine) : Except String String :=
  match machine.bootId with
  | none => .error "read kernel boot identity"
  | some value =>
      let value := toAsciiLowercase (trimText value.toList)
      if validBootId value then .ok (String.ofList value) else .error "kernel boot identity has an unexpected format"

def Machine.readProcessStartTime (machine : Machine) (pid : UInt32) : Except String (Option UInt64) :=
  match machine.processes pid with
  | none => .ok none
  | some process =>
      match process.comm, machine.readable pid with
      | some comm, true =>
          match parseProcessStartTime (process.stat pid comm) with
          | some startTime => .ok (some startTime)
          | none => .error "parse process start time"
      | _, _ => .error "read process identity from /proc"

/-! ### The owner's cleanup -/

structure AdapterWorkspace where
  inst : FileName
  cleaned : Bool
deriving DecidableEq

/-- The loop of `AdapterWorkspace::cleanup` over the entries of the directory. -/
def removableFiles (calls : FsCalls) (inst : FileName) (entries : Dir) : List (Option FileName) → Except String (List FileName)
  | [] => .ok []
  | none :: _ => .error "unreadable entry"
  | some (.raw _) :: _ => .error "adapter instance has a non-UTF-8 entry; preserving it"
  | some (.text name) :: rest =>
      if name ≠ identityFileName && !strictCredentialName name then
        .error "adapter instance has unexpected contents; preserving it"
      else if !calls.metadata [inst, .text name] then .error "unreadable metadata"
      else
        match entries.get? (.text name) with
        | some (.file _) => (removableFiles calls inst entries rest).map (.text name :: ·)
        | some _ => .error "adapter instance has a non-regular entry; preserving it"
        | none => .error "unreadable metadata"

/-- `AdapterWorkspace::cleanup`, with the removals that it performs. -/
def AdapterWorkspace.cleanup (workspace : AdapterWorkspace) (calls : FsCalls) (adapters : Dir) :
    Except String Unit × AdapterWorkspace × List Removal :=
  let inst := workspace.inst
  if workspace.cleaned then (.ok (), workspace, [])
  else if !calls.metadata [inst] then (.error "inspect owned adapter workspace", workspace, [])
  else
    match adapters.get? inst with
    | none => (.ok (), { workspace with cleaned := true }, [])
    | some (.directory entries) =>
        match calls.list [inst] with
        | none => (.error "inspect adapter instance", workspace, [])
        | some names =>
            match removableFiles calls inst entries names with
            | .error error => (.error error, workspace, [])
            | .ok files =>
                if identityFile ∉ files then (.error "adapter identity marker disappeared; preserving workspace", workspace, [])
                else
                  let (removed, removals) := removeFiles calls inst files
                  if !removed then (.error "remove owned adapter file", workspace, removals)
                  else if calls.removeDir inst && (Dir.without entries files).isEmpty then
                    (.ok (), { workspace with cleaned := true }, removals ++ [.directory inst])
                  else (.error "remove empty adapter instance directory (unexpected contents were preserved)", workspace, removals)
    | some _ => (.error "owned adapter workspace is no longer a real directory", workspace, [])

/-! ### The next start's cleanup -/

/-- The loop of `remove_strict_stale_instance` over the entries: the credentials, and whether the marker was seen; `none` where the whole instance is preserved. -/
def credentialFiles (calls : FsCalls) (inst : FileName) (entries : Dir) :
    List (Option FileName) → Except String (Option (List FileName × Bool))
  | [] => .ok (some ([], false))
  | none :: _ => .error "unreadable entry"
  | some (.raw _) :: _ => .ok none
  | some (.text name) :: rest =>
      if !calls.metadata [inst, .text name] then .error "unreadable metadata"
      else
        match entries.get? (.text name) with
        | none => .error "unreadable metadata"
        | some (.file _) =>
            if name = identityFileName then
              (credentialFiles calls inst entries rest).map fun found => found.map fun found => (found.1, true)
            else if strictCredentialName name then
              (credentialFiles calls inst entries rest).map fun found => found.map fun found => (.text name :: found.1, found.2)
            else .ok none
        | some _ => .ok none

/-- `remove_strict_stale_instance`, with the removals that it performs: the credentials before their marker. -/
def removeStrictStaleInstance (calls : FsCalls) (inst : FileName) (entries : Dir) : Except String Unit × List Removal :=
  match calls.list [inst] with
  | none => (.error "inspect stale adapter instance", [])
  | some names =>
      match credentialFiles calls inst entries names with
      | .error error => (.error error, [])
      | .ok none => (.ok (), [])
      | .ok (some (files, sawMarker)) =>
          if !sawMarker || !calls.recheck inst then (.ok (), [])
          else
            let (removed, removals) := removeFiles calls inst files
            if !removed then (.error "remove stale credential", removals)
            else if !calls.removeFile [inst, identityFile] then (.error "remove stale identity", removals)
            else
              let removals := removals ++ [.file inst identityFile]
              if calls.removeDir inst && (Dir.without entries (identityFile :: files)).isEmpty then
                (.ok (), removals ++ [.directory inst])
              else (.error "remove stale adapter instance", removals)

def definitelyDead (machine : Machine) (currentBoot : String) (marker : ProcessIdentity) : Bool :=
  if marker.bootId ≠ currentBoot then true
  else
    match machine.readProcessStartTime marker.pid with
    | .ok none => true
    | .ok (some startTime) => startTime ≠ marker.startTime
    | .error _ => false

/-- The contents of an entry that is an instance of a dead daemon. -/
def staleEntries (machine : Machine) (calls : FsCalls) (adapters : Dir) (currentBoot : String) (inst : FileName) : Option Dir :=
  match inst, adapters.get? inst with
  | .text name, some (.directory entries) => do
      let namedIdentity ← identityFromInstanceName name
      guard (calls.metadata [inst])
      guard (calls.metadata [inst, identityFile])
      match Dir.get? entries identityFile with
      | some (.file content) => do
          guard (content.length ≤ 512)
          guard (calls.read [inst, identityFile])
          let marker ← (String.fromUTF8? ⟨content.toArray⟩).bind ProcessIdentity.parse
          guard (marker = namedIdentity)
          guard (definitelyDead machine currentBoot marker)
          return entries
      | _ => none
  | _, _ => none

/-- `cleanup_stale_instances`, with the removals that it performs. Each entry is visited once, and a visit changes nothing outside it; what fails in one is logged. -/
def cleanupStaleInstances (machine : Machine) (calls : FsCalls) (adapters : Dir) : Except String Unit × List Removal :=
  match machine.readBootId, calls.list [] with
  | .error error, _ => (.error error, [])
  | .ok _, none => (.error "list adapter workspace", [])
  | .ok currentBoot, some names =>
      (.ok (), names.reduceOption.flatMap fun inst =>
        match staleEntries machine calls adapters currentBoot inst with
        | some entries => (removeStrictStaleInstance calls inst entries).2
        | none => [])

end Causeway

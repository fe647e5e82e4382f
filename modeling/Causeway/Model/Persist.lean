import Causeway.Model.Step

/-!
# Saving

`save_atomic` and the cache commit, file-system step by file-system step, and the supervisor's `save_state`.
-/

namespace Causeway

open Concurrent

inductive SaveOutcome where
  | durable
  | committedNotDurable
deriving DecidableEq

namespace Sup

/-! ### The state file -/

/-- A save begins: from here it counts as in progress. -/
def beginSave (me : Nat) (kind : SaveKind) (st : StateFile) (content : Bytes) : Sup Unit :=
  modify fun w => { w with trail := { w.trail with
    saves := Function.update w.trail.saves me (some ⟨kind, content, none, 0, false⟩)
    window :=
      match kind with
      | .shared => w.trail.window
      | .cloned target _ => Function.update w.trail.window me (some (target, false))
    passed := st :: w.trail.passed } }

def endSave (me : Nat) (kind : SaveKind) (ok : Bool) : Sup Unit :=
  modify fun w => { w with trail := { w.trail with
    saves := Function.update w.trail.saves me none
    window :=
      match kind with
      | .shared => w.trail.window
      | .cloned target _ =>
          Function.update w.trail.window me (if ok then some (target, true) else none) } }

/-- Open the temporary file, truncating it if it is there. -/
def openTmp (me : Nat) : Sup (Option Nat) :=
  act fun o w =>
    if o.ok then
      (some w.stateDir.openTmp.1, { w with
        stateDir := w.stateDir.openTmp.2
        trail := w.trail.updateSave me fun save =>
          { save with inode := some w.stateDir.openTmp.1, written := 0 } })
    else (none, w)

/-- One write of at least one and at most all of the remaining bytes. -/
def writeSome (me inode offset : Nat) (bytes : Bytes) : Sup (Option Nat) :=
  act fun o w =>
    if o.ok then
      let count := max 1 (min o.count bytes.length)
      (some count, { w with
        stateDir := w.stateDir.write inode offset (bytes.take count)
        trail := w.trail.updateSave me fun save => { save with written := offset + count } })
    else (none, w)

/-- `write_all`; `fuel` bounds the number of writes and the length of the buffer is enough. -/
def writeAll (me inode : Nat) : Nat → Nat → Bytes → Sup Bool
  | _, _, [] => return true
  | 0, _, _ => return false
  | fuel + 1, offset, bytes => do
      match ← writeSome me inode offset bytes with
      | none => return false
      | some count => writeAll me inode fuel (offset + count) (bytes.drop count)

/-- What a state file on disk records once it was saved. -/
def saveRecord (kind : SaveKind) (recorded : String → Option (Path × Bytes)) :
    String → Option (Path × Bytes) :=
  match kind with
  | .cloned target (some commit) => Function.update recorded target (some commit)
  | _ => recorded

/-- Rename the temporary file over the state file. -/
def renameTmp (me : Nat) (kind : SaveKind) : Sup Bool :=
  act fun o w =>
    match o.ok, w.stateDir.renameTmp with
    | true, some dir =>
        (true, { w with
          stateDir := dir
          trail := { w.trail.updateSave me fun save => { save with renamed := true } with
            recorded := saveRecord kind w.trail.recorded } })
    | _, _ => (false, w)

/-- The file-system steps between a begun save and its return. -/
def saveSteps (me : Nat) (kind : SaveKind) (content : Bytes) : Sup (Option SaveOutcome) := do
  match ← openTmp me with
  | none => return none
  | some inode =>
      if !(← ask (·.ok)) then return none  -- set_permissions
      if !(← writeAll me inode content.length 0 content) then return none
      if !(← ask (·.ok)) then return none  -- sync_all
      if !(← renameTmp me kind) then return none
      if ← ask (·.ok) then return some .durable else return some .committedNotDurable

/-- `save_atomic`: nothing if the save failed. -/
def saveAtomic (env : Env) (me : Nat) (kind : SaveKind) (st : StateFile) : Sup (Option SaveOutcome) := do
  if !(← ask (·.ok)) then return none  -- create_dir_all
  match env.serialize st with
  | none => return none
  | some content =>
      beginSave me kind st content
      let outcome ← saveSteps me kind content
      endSave me kind outcome.isSome
      return outcome

/-- `save_state`: the state mutex is held until the file system has answered. -/
def saveState (env : Env) (me : Nat) : Sup Unit := do
  acquireWrite me .state
  let st ← look (·.state)
  let _ ← saveAtomic env me .shared st
  release me .state

/-! ### The cache -/

def createCacheTmp : Sup (Option Nat) :=
  act fun o w =>
    if o.ok then
      (some w.cacheDir.inodes.create.1,
        { w with cacheDir := { w.cacheDir with inodes := w.cacheDir.inodes.create.2 } })
    else (none, w)

def writeCache (inode offset : Nat) (bytes : Bytes) : Sup (Option Nat) :=
  act fun o w =>
    if o.ok then
      let count := max 1 (min o.count bytes.length)
      (some count, { w with cacheDir := { w.cacheDir with
        inodes := w.cacheDir.inodes.write inode offset (bytes.take count) } })
    else (none, w)

def writeAllCache (inode : Nat) : Nat → Nat → Bytes → Sup Bool
  | _, _, [] => return true
  | 0, _, _ => return false
  | fuel + 1, offset, bytes => do
      match ← writeCache inode offset bytes with
      | none => return false
      | some count => writeAllCache inode fuel (offset + count) (bytes.drop count)

def renameCache (inode : Nat) (path : Path) : Sup Bool :=
  act fun o w =>
    if o.ok then (true, { w with cacheDir := w.cacheDir.rename inode path }) else (false, w)

/-- `save_private_cache`: false if it failed, also after the rename. -/
def savePrivateCache (path : Path) (bytes : Bytes) : Sup Bool := do
  if !(← ask (·.ok)) then return false  -- create_dir_all
  match ← createCacheTmp with
  | none => return false
  | some inode =>
      if !(← writeAllCache inode bytes.length 0 bytes) then return false
      if !(← ask (·.ok)) then return false  -- sync_all
      if !(← renameCache inode path) then return false
      ask (·.ok)  -- sync of the parent directory

/-- `commit_cache_slot`: the pending body goes into the slot that is not confirmed. -/
def commitCacheSlot (prepared : PreparedProfile) (confirmedSlot : Option String) :
    Sup (Option PreparedProfile) :=
  match prepared.pendingCache with
  | none => return some prepared
  | some (base, bytes) => do
      match cacheSlotPath base (nextSlot confirmedSlot) with
      | none => return none
      | some path =>
          if ← savePrivateCache path bytes then
            return some { prepared with
              pendingCache := none
              committedSlot := some (nextSlot confirmedSlot) }
          else return none

end Sup

end Causeway

import Causeway.Timing.Windows

/-!
# Accept errors

`listener.rs`: the warnings that a listener writes when `accept` fails, throttled so that a tight loop of failures cannot fill the disk. Times are in nanoseconds.
-/

namespace Causeway

/-- `std::io::ErrorKind` -/
inductive ErrorKind where
  | notFound | permissionDenied | connectionRefused | connectionReset | hostUnreachable | networkUnreachable | connectionAborted
  | notConnected | addrInUse | addrNotAvailable | networkDown | brokenPipe | alreadyExists | wouldBlock | notADirectory | isADirectory
  | directoryNotEmpty | readOnlyFilesystem | filesystemLoop | staleNetworkFileHandle | invalidInput | invalidData | timedOut
  | writeZero | storageFull | notSeekable | quotaExceeded | fileTooLarge | resourceBusy | executableFileBusy | deadlock
  | crossesDevices | tooManyLinks | invalidFilename | argumentListTooLong | interrupted | unsupported | unexpectedEof | outOfMemory
  | inProgress | other | uncategorized
deriving DecidableEq

abbrev AcceptError := Windows.Event ErrorKind

/-- `ACCEPT_ERROR_LOG_INTERVAL`, five seconds. -/
def acceptErrorLogInterval : Nat := 5 * 10 ^ 9

structure AcceptErrorThrottle where
  lastKind : Option ErrorKind
  suppressed : UInt64
  lastLog : Nat
deriving DecidableEq

/-- `u64::saturating_add(1)` -/
def saturatingSucc (n : UInt64) : UInt64 := if n.toNat + 1 < 2 ^ 64 then n + 1 else n

namespace AcceptErrorThrottle

def new (now : Nat) : AcceptErrorThrottle where
  lastKind := none
  suppressed := 0
  lastLog := now

/-- The number of failures that were suppressed, if a warning is due. -/
def observe (throttle : AcceptErrorThrottle) (kind : ErrorKind) (now : Nat) : Option UInt64 × AcceptErrorThrottle :=
  let sameKind := throttle.lastKind = some kind
  let intervalElapsed := acceptErrorLogInterval ≤ now - throttle.lastLog
  if sameKind ∧ ¬ intervalElapsed then (none, { throttle with suppressed := saturatingSucc throttle.suppressed })
  else
    let suppressed := if sameKind then throttle.suppressed else 0
    (some suppressed, { lastKind := some kind, suppressed := 0, lastLog := now })

end AcceptErrorThrottle

/-- The warning "accept failed"; its field is left out where nothing was suppressed. -/
structure AcceptFailed where
  error : ErrorKind
  suppressed : Option UInt64
deriving DecidableEq

def AcceptFailed.count (warning : AcceptFailed) : UInt64 := warning.suppressed.getD 0

/-- The error arm of the loop in `serve_with_drain_timeout`. -/
def acceptFailed (throttle : AcceptErrorThrottle) (error : AcceptError) : Option AcceptFailed × AcceptErrorThrottle :=
  let (suppressed, throttle) := throttle.observe error.kind error.time
  (suppressed.map fun n => ⟨error.kind, if 0 < n then some n else none⟩, throttle)

/-- The throttle of a listener after some errors, the newest first. -/
def throttleAfter (start : Nat) : List AcceptError → AcceptErrorThrottle
  | [] => .new start
  | error :: earlier => (acceptFailed (throttleAfter start earlier) error).2

def warningAfter (start : Nat) (earlier : List AcceptError) (error : AcceptError) : Option AcceptFailed :=
  (acceptFailed (throttleAfter start earlier) error).1

end Causeway

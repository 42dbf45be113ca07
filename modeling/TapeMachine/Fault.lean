/-!
# Faults of input and output

What can go wrong when a machine talks to its surroundings. A fault is either the end of an input
that was promised more, or an input/output error. Such an error has a kind, which decides how it is
treated, and a text, which is only shown; one that the operating system reports has a number as
well. The list of kinds is that of the system's library, and closed.

Faults are compared by `Fault.alike`, which looks at kinds and never at texts, so that an error
counts as the same whoever has put it into words.
-/

namespace TapeMachine

/-- The kinds of input/output errors. Only one of them, the interruption, makes a difference to what
a reader or a writer does; all others are passed on as they come. -/
inductive IoKind where
  | notFound
  | permissionDenied
  | connectionRefused
  | connectionReset
  | hostUnreachable
  | networkUnreachable
  | connectionAborted
  | notConnected
  | addrInUse
  | addrNotAvailable
  | networkDown
  | brokenPipe
  | alreadyExists
  | wouldBlock
  | notADirectory
  | isADirectory
  | directoryNotEmpty
  | readOnlyFilesystem
  | filesystemLoop
  | staleNetworkFileHandle
  | invalidInput
  | invalidData
  | timedOut
  | writeZero
  | storageFull
  | notSeekable
  | quotaExceeded
  | fileTooLarge
  | resourceBusy
  | executableFileBusy
  | deadlock
  | crossesDevices
  | tooManyLinks
  | invalidFilename
  | argumentListTooLong
  | interrupted
  | unsupported
  | unexpectedEof
  | outOfMemory
  | inProgress
  | other
  | uncategorized
deriving DecidableEq

namespace IoKind

/-- The name of a kind, as an error shows it in full detail. -/
def name : IoKind → String
  | notFound => "NotFound"
  | permissionDenied => "PermissionDenied"
  | connectionRefused => "ConnectionRefused"
  | connectionReset => "ConnectionReset"
  | hostUnreachable => "HostUnreachable"
  | networkUnreachable => "NetworkUnreachable"
  | connectionAborted => "ConnectionAborted"
  | notConnected => "NotConnected"
  | addrInUse => "AddrInUse"
  | addrNotAvailable => "AddrNotAvailable"
  | networkDown => "NetworkDown"
  | brokenPipe => "BrokenPipe"
  | alreadyExists => "AlreadyExists"
  | wouldBlock => "WouldBlock"
  | notADirectory => "NotADirectory"
  | isADirectory => "IsADirectory"
  | directoryNotEmpty => "DirectoryNotEmpty"
  | readOnlyFilesystem => "ReadOnlyFilesystem"
  | filesystemLoop => "FilesystemLoop"
  | staleNetworkFileHandle => "StaleNetworkFileHandle"
  | invalidInput => "InvalidInput"
  | invalidData => "InvalidData"
  | timedOut => "TimedOut"
  | writeZero => "WriteZero"
  | storageFull => "StorageFull"
  | notSeekable => "NotSeekable"
  | quotaExceeded => "QuotaExceeded"
  | fileTooLarge => "FileTooLarge"
  | resourceBusy => "ResourceBusy"
  | executableFileBusy => "ExecutableFileBusy"
  | deadlock => "Deadlock"
  | crossesDevices => "CrossesDevices"
  | tooManyLinks => "TooManyLinks"
  | invalidFilename => "InvalidFilename"
  | argumentListTooLong => "ArgumentListTooLong"
  | interrupted => "Interrupted"
  | unsupported => "Unsupported"
  | unexpectedEof => "UnexpectedEof"
  | outOfMemory => "OutOfMemory"
  | inProgress => "InProgress"
  | other => "Other"
  | uncategorized => "Uncategorized"

/-- What is said about an error of which nothing but the kind is known. -/
def text : IoKind → String
  | notFound => "entity not found"
  | permissionDenied => "permission denied"
  | connectionRefused => "connection refused"
  | connectionReset => "connection reset"
  | hostUnreachable => "host unreachable"
  | networkUnreachable => "network unreachable"
  | connectionAborted => "connection aborted"
  | notConnected => "not connected"
  | addrInUse => "address in use"
  | addrNotAvailable => "address not available"
  | networkDown => "network down"
  | brokenPipe => "broken pipe"
  | alreadyExists => "entity already exists"
  | wouldBlock => "operation would block"
  | notADirectory => "not a directory"
  | isADirectory => "is a directory"
  | directoryNotEmpty => "directory not empty"
  | readOnlyFilesystem => "read-only filesystem or storage medium"
  | filesystemLoop => "filesystem loop or indirection limit (e.g. symlink loop)"
  | staleNetworkFileHandle => "stale network file handle"
  | invalidInput => "invalid input parameter"
  | invalidData => "invalid data"
  | timedOut => "timed out"
  | writeZero => "write zero"
  | storageFull => "no storage space"
  | notSeekable => "seek on unseekable file"
  | quotaExceeded => "quota exceeded"
  | fileTooLarge => "file too large"
  | resourceBusy => "resource busy"
  | executableFileBusy => "executable file busy"
  | deadlock => "deadlock"
  | crossesDevices => "cross-device link or rename"
  | tooManyLinks => "too many links"
  | invalidFilename => "invalid filename"
  | argumentListTooLong => "argument list too long"
  | interrupted => "operation interrupted"
  | unsupported => "unsupported"
  | unexpectedEof => "unexpected end of file"
  | outOfMemory => "out of memory"
  | inProgress => "in progress"
  | other => "other error"
  | uncategorized => "uncategorized error"

end IoKind

/-- An error as the operating system reports it. The system numbers its errors and has words of its
own for each; the kind is what the number stands for. -/
structure SystemError where
  /-- the number of the error -/
  code : Nat
  /-- the kind of the error -/
  kind : IoKind
  /-- the system's words for the error -/
  text : String
deriving DecidableEq

/-- A device takes no more bytes. -/
def SystemError.noSpace : SystemError := ⟨28, .storageFull, "No space left on device"⟩

/-- An input/output error. -/
inductive IoError where
  /-- an error of which only the kind is known -/
  | plain (kind : IoKind)
  /-- an error with a text of its own -/
  | described (kind : IoKind) (text : String)
  /-- an error reported by the operating system -/
  | system (error : SystemError)
deriving DecidableEq

namespace IoError

/-- The kind of the error. -/
def kind : IoError → IoKind
  | plain kind => kind
  | described kind _ => kind
  | system error => error.kind

/-- What is said about the error. -/
def text : IoError → String
  | plain kind => kind.text
  | described _ text => text
  | system error => error.text ++ " (os error " ++ toString error.code ++ ")"

/-- Whether the operation was only interrupted and may be tried again. -/
def isInterrupted (e : IoError) : Bool := e.kind = .interrupted

end IoError

/-- What a request for input or output can fail with. -/
inductive Fault where
  /-- the input has nothing more to give -/
  | inputExhausted
  /-- the input or output itself failed -/
  | io (error : IoError)
deriving DecidableEq

namespace Fault

/-- The report on a fault. -/
def message : Fault → String
  | inputExhausted => "Input exhausted"
  | io error => "IO error: " ++ error.text

/-- Whether two faults are of the same nature: both the end of an input, or both errors of one
kind. -/
def alike : Fault → Fault → Bool
  | inputExhausted, inputExhausted => true
  | io d, io e => d.kind = e.kind
  | _, _ => false

end Fault

end TapeMachine

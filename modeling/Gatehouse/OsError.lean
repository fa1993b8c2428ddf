/-!
# Failures of the operating system

The ways in which files and sockets fail the bastion, each with the name of its kind and the text
that log lines, session records and users see.
-/

namespace Gatehouse

/-- A failure of a system call, or of a library call that stands for one. -/
inductive OsError where
  | notFound
  | alreadyExists
  | notADirectory
  | isADirectory
  | nameTooLong
  /-- A file name or host name holds a zero byte. -/
  | zeroInName
  | addressInUse
  | addressNotAvailable
  | networkUnreachable
  | connectionRefused
  /-- A host name cannot be looked up. -/
  | unresolved
  /-- The log writer is gone. -/
  | writerGone
  /-- A write or flush was refused; the text says how. -/
  | refused (text : String)
  /-- A file that should be text is not UTF-8. -/
  | notText
  /-- A file that should be a record store is not one. -/
  | notAStore
  /-- A listening address is not of the form `host:port`. -/
  | badAddress (text : String)
deriving DecidableEq

namespace OsError

/-- The name of the kind of failure. -/
def kind : OsError → String
  | notFound => "NotFound"
  | alreadyExists => "AlreadyExists"
  | notADirectory => "NotADirectory"
  | isADirectory => "IsADirectory"
  | nameTooLong => "InvalidFilename"
  | zeroInName => "InvalidInput"
  | addressInUse => "AddrInUse"
  | addressNotAvailable => "AddrNotAvailable"
  | networkUnreachable => "NetworkUnreachable"
  | connectionRefused => "ConnectionRefused"
  | unresolved => "Uncategorized"
  | writerGone => "BrokenPipe"
  | refused _ => "Other"
  | notText => "InvalidData"
  | notAStore => "InvalidData"
  | badAddress _ => "InvalidInput"

/-- The text of the failure. -/
def message : OsError → String
  | notFound => "No such file or directory (os error 2)"
  | alreadyExists => "File exists (os error 17)"
  | notADirectory => "Not a directory (os error 20)"
  | isADirectory => "Is a directory (os error 21)"
  | nameTooLong => "File name too long (os error 36)"
  | zeroInName => "file name contained an unexpected NUL byte"
  | addressInUse => "Address already in use (os error 98)"
  | addressNotAvailable => "Cannot assign requested address (os error 99)"
  | networkUnreachable => "Network is unreachable (os error 101)"
  | connectionRefused => "Connection refused (os error 111)"
  | unresolved => "failed to lookup address information: Temporary failure in name resolution"
  | writerGone => "session log writer is gone"
  | refused text => text
  | notText => "stream did not contain valid UTF-8"
  | notAStore => "invalid data"
  | badAddress text => text

end OsError

end Gatehouse

import Gatehouse.Bastion.Error
import Gatehouse.Bastion.Handler
import Gatehouse.Files.Tree
import Gatehouse.Recording.Log
import Gatehouse.Recording.LogPath

/-!
# The log of a session

If anything is recorded of a host, the session has a log file of its own, which is opened before the
channel is relayed. After the relay the log is flushed, and only then, whatever came of that, the
session's record is closed.
-/

namespace Gatehouse.Bastion

open Recording (Log)
open Relay (RelayError)
open Time (Instant)

/-! ## The file -/

/-- Opens the log of a session, in a file below a directory, if anything is recorded of the host.
Gives the files then, and where the log's file lies. -/
def openLog (files : Files.Tree) (directory : String) (user : User) (host : Host) (kind : ChannelKind)
    (session : Id) (t : Instant) : Except OsError (Files.Tree × Option Files.Place) :=
  if host.logging.isEnabled then do
    let path : Files.Path := ⟨Recording.logPath directory user.name kind.logName session t⟩
    let (files, place) ← files.openFile path
    return (files, some place)
  else return (files, none)

/-- The files after all writes of a log, each of which went to the end of the log's file. A log without
a file writes nothing. -/
def saveLog (log : Log) (files : Files.Tree) : Option Files.Place → Files.Tree
  | some place => log.attempts.foldl (fun files attempt => files.append place attempt.inFile) files
  | none => files

/-! ## The end -/

/-- The store after a session has been stopped; if it cannot be stopped it stays as it is. -/
def stopSession (s : Store) (now : Instant) (id : Id) (error : String) : Store :=
  match s.closeSession now id error with
  | .ok s => s
  | .error _ => s

/-- What a session record says of a relay. -/
def relayErrorText : Except RelayError Unit → String
  | .ok () => ""
  | .error e => e.message

/-- Ends a session whose channel has been relayed. -/
def endSession (s : Store) (log : Log) (disk : Log.Disk) (now : Instant) (id : Id)
    (relay : Except RelayError Unit) : Log × Store :=
  let (log, _) := log.flush disk
  (log, stopSession s now id (relayErrorText relay))

end Gatehouse.Bastion

import Gatehouse.Files.Path
import Gatehouse.Records
import Gatehouse.Time.Rfc3339

/-!
# Names of session logs

Each session has a log file of its own below a common directory. Its name tells the user, the type
of the channel, the session and the time. Slashes in a user's name are replaced, so that the log is
always a file of that directory.
-/

namespace Gatehouse.Recording

/-- The user's name without slashes of either kind. -/
def safeName (user : String) : String :=
  String.ofList (user.toList.map fun c => if c = '/' || c = '\\' then '_' else c)

/-- The name of a log file. -/
def logName (user channelType : String) (session : Id) (t : Time.Instant) : String :=
  safeName user ++ "-" ++ channelType ++ "-" ++ String.ofList (Text.decimal session.toNat) ++ "-" ++
    Time.Rfc3339.writeSeconds t

/-- The path of a log file. -/
def logPath (root user channelType : String) (session : Id) (t : Time.Instant) : String :=
  Files.join root (logName user channelType session t)

end Gatehouse.Recording

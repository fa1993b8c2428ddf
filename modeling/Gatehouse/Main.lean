import Gatehouse.Bastion.Launch

/-!
# The command line

The program takes the path of a configuration file, or uses the one in the data directory. It creates
the directories it needs and starts on its record store; when it ends it says why in one line. A
store file is taken over only while it is empty, since what fills it is kept elsewhere.
-/

namespace Gatehouse

/-- The failure of a file operation. -/
def osError : IO.Error → OsError
  | .noFileOrDirectory .. => .notFound
  | .alreadyExists .. => .alreadyExists
  | .inappropriateType _ code _ => if code = 21 then .isADirectory else .notADirectory
  | e@(.invalidArgument _ code _) => if code = 36 then .nameTooLong else .refused (toString e)
  | e => .refused (toString e)

/-- Runs a file operation. -/
def attempt {α : Type} (operation : IO α) : IO (Except OsError α) := do
  match ← operation.toBaseIO with
  | .ok a => return .ok a
  | .error e => return .error (osError e)

/-- Creates the directories of a configuration. -/
def createDirectories (config : Config) : IO (Except OsError Unit) := do
  for directory in config.directories do
    if !directory.isEmpty then
      match ← attempt (IO.FS.createDirAll directory.text) with
      | .error e => return .error e
      | .ok () => pure ()
  return .ok ()

/-- Opens the file of the record store, creating it if it is missing. -/
def openStore (path : String) : IO (Except OsError Store) := do
  match ← attempt (IO.FS.withFile path .append fun _ => IO.FS.readBinFile path) with
  | .error e => return .error e
  | .ok content => return if content.isEmpty then .ok .empty else .error .notAStore

/-- Starts with a configuration; gives the line that says why the program ends. -/
def serve (config : Config) : IO String := do
  match ← createDirectories config with
  | .error e => return Bastion.Launch.directoryFailure e
  | .ok () =>
    let opened ← openStore config.dbPath
    let started := Bastion.start (.ofSecret config.aesKey) .epoch opened config.bindAddress
      fun _ => .error (.refused "there is no network to listen on")
    match started.result with
    | .error e => return Bastion.Launch.startFailure e
    | .ok _ => return "sshbastion stopped"

end Gatehouse

open Gatehouse in
/-- The program. -/
def main (arguments : List String) : IO UInt32 := do
  let home := (← IO.getEnv "HOME").getD "."
  let dataDirectory := Config.dataDirectory home (← IO.getEnv "XDG_DATA_HOME")
  let path := arguments.headD (Files.join dataDirectory "config.json")
  let file ← attempt (IO.FS.readBinFile path)
  let line ← match Config.load dataDirectory (file.map fun content => content.toList) with
    | .error e => pure (Bastion.Launch.configFailure path e)
    | .ok config => serve config
  IO.eprintln line
  return 1

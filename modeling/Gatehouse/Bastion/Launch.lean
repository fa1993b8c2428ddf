import Gatehouse.Bastion.Startup
import Gatehouse.Config

/-!
# Launching from the command line

The program takes the path of a configuration file, creates the directories that it needs, and
starts. Whatever stops it is told in one line.
-/

namespace Gatehouse.Bastion

/-- What the program finds around it. -/
structure Launch where
  /-- The data directory, for the defaults of the configuration. -/
  dataDirectory : String
  /-- The path of the configuration file. -/
  configPath : String
  /-- What reading that file comes to. -/
  configFile : Except OsError Bytes
  /-- What a store file that exists already holds. -/
  stored : Except OsError Store
  now : Time.Instant
  /-- What binding an address comes to. -/
  listen : String × UInt16 → Except OsError Unit

namespace Launch

/-- The line for a configuration that cannot be loaded. -/
def configFailure (path : String) (e : Config.LoadError) : String :=
  "Failed to load config " ++ Text.quote path ++ ": " ++ e.message

/-- The line for directories that cannot be created. -/
def directoryFailure (e : OsError) : String :=
  "Failed to create data directories: IO error: " ++ e.message

/-- The line for a failed start. -/
def startFailure (e : BastionError) : String :=
  "sshbastion stopped: " ++ e.message

/-- Opens the file of the store, which is created if it is missing. -/
def openStore (l : Launch) (path : String) (tree : Files.Tree) :
    Files.Tree × Except OsError Store :=
  match tree.ensureFile ⟨path⟩ with
  | .error e => (tree, .error e)
  | .ok tree => (tree, l.stored)

/-- Starts with a loaded configuration. -/
def startWith (l : Launch) (config : Config) (tree : Files.Tree) :
    Files.Tree × Except String Key.PrivateKey :=
  match config.ensureDirectories tree with
  | (tree, .error e) => (tree, .error (directoryFailure e))
  | (tree, .ok ()) =>
    let (tree, opened) := l.openStore config.dbPath tree
    let started := start (.ofSecret config.aesKey) l.now opened config.bindAddress l.listen
    (tree, started.result.mapError startFailure)

/-- Launches the program; gives the key with which it serves, or the line that says why it ends. -/
def run (l : Launch) (tree : Files.Tree) : Files.Tree × Except String Key.PrivateKey :=
  match Config.load l.dataDirectory l.configFile with
  | .error e => (tree, .error (configFailure l.configPath e))
  | .ok config => l.startWith config tree

end Launch

end Gatehouse.Bastion

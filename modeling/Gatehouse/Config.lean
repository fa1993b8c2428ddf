import Gatehouse.Files.Tree
import Gatehouse.Json.Read
import Gatehouse.Json.Write
import Gatehouse.Text.Utf8

/-!
# Configuration

The settings of the bastion, read from a JSON file. A missing file means the defaults. A loaded
configuration has a listening address that is not blank, a key of 0, 16, 24 or 32 bytes, and room
for at least one host in a chain.
-/

namespace Gatehouse

/-- The settings. -/
structure Config where
  /-- Where the bastion listens. -/
  bindAddress : String
  /-- The file of the record store. -/
  dbPath : String
  /-- The key for secrets at rest; empty leaves them unsealed. -/
  aesKey : String
  /-- Seconds of inactivity after which a connection ends; zero for never. -/
  idleTimeoutSecs : UInt64
  /-- A command that is asked about every access decision. -/
  aclCheckCmd : Option String
  /-- The directory of session recordings. -/
  logsLocation : String
  /-- Seconds to wait for each host of a chain. -/
  dialTimeoutSecs : UInt64
  /-- The greatest number of hosts in a chain, the target included. -/
  maxHops : UInt64
deriving DecidableEq

namespace Config

/-! ## Places -/

/-- The data directory: below the directory that the environment names for data, if that is an
absolute path, and otherwise below the home directory. -/
def dataDirectory (home : String) (data : Option String) : String :=
  match data with
  | some data =>
    if data.startsWith "/" then Files.join data "sshbastion"
    else Files.join (Files.join home ".local/share") "sshbastion"
  | none => Files.join (Files.join home ".local/share") "sshbastion"

/-- The record store's file within the data directory. -/
def defaultDbPath (dataDirectory : String) : String :=
  Files.join dataDirectory "bastion.redb"

/-! ## Form -/

/-- The members of the file. Each has a default; the store's depends on the data directory. -/
@[reducible] def fields (dataDirectory : String) : List Field := [
  ⟨"bind_address", .text, some "0.0.0.0:2222"⟩,
  ⟨"db_path", .text, some (defaultDbPath dataDirectory)⟩,
  ⟨"aes_key", .text, some ""⟩,
  ⟨"idle_timeout_secs", .word64, some 0⟩,
  ⟨"acl_check_cmd", .optional .text, some none⟩,
  ⟨"logs_location", .text, some "./log"⟩,
  ⟨"dial_timeout_secs", .word64, some 30⟩,
  ⟨"max_hops", .word64, some 16⟩]

/-- The row of a configuration. -/
def toRow (dataDirectory : String) (c : Config) : Row (fields dataDirectory) :=
  (c.bindAddress, c.dbPath, c.aesKey, c.idleTimeoutSecs, c.aclCheckCmd, c.logsLocation,
    c.dialTimeoutSecs, c.maxHops, ())

/-- The configuration of a row. -/
def ofRow (dataDirectory : String) : Row (fields dataDirectory) → Config :=
  fun (bindAddress, dbPath, aesKey, idleTimeoutSecs, aclCheckCmd, logsLocation, dialTimeoutSecs,
      maxHops, _) =>
    { bindAddress, dbPath, aesKey, idleTimeoutSecs, aclCheckCmd, logsLocation, dialTimeoutSecs,
      maxHops }

/-- The configuration of an empty file. -/
def default (dataDirectory : String) : Config :=
  { bindAddress := "0.0.0.0:2222"
    dbPath := defaultDbPath dataDirectory
    aesKey := ""
    idleTimeoutSecs := 0
    aclCheckCmd := none
    logsLocation := "./log"
    dialTimeoutSecs := 30
    maxHops := 16 }

/-- The configuration as a JSON text. -/
def render (c : Config) : String :=
  String.ofList (Json.writeRow (fields "") (c.toRow ""))

/-! ## Loading -/

/-- What is wrong with a configuration that has been read. -/
inductive Mistake where
  | blankAddress
  | keyLength (bytes : Nat)
  | noHops
deriving DecidableEq

/-- The wording of a mistake. -/
def Mistake.message : Mistake → String
  | .blankAddress => "Invalid configuration: bind_address is empty"
  | .keyLength bytes =>
    "Invalid configuration: aes_key must be 16, 24 or 32 bytes long, got " ++
      String.ofList (Text.decimal bytes)
  | .noHops => "Invalid configuration: max_hops must be at least 1"

/-- Why no configuration could be loaded. -/
inductive LoadError where
  | io (e : OsError)
  | json (e : Json.Failure)
  | invalid (m : Mistake)
deriving DecidableEq

/-- The wording of a failed loading. -/
def LoadError.message : LoadError → String
  | .io e => "IO error: " ++ e.message
  | .json e => "JSON error: " ++ e.category
  | .invalid m => m.message

/-- Finds the first mistake. -/
def validate (c : Config) : Except Mistake Unit :=
  if Text.isBlankText c.bindAddress then .error .blankAddress
  else if Text.utf8Size c.aesKey ∉ [0, 16, 24, 32] then
    .error (.keyLength (Text.utf8Size c.aesKey))
  else if c.maxHops = 0 then .error .noHops
  else .ok ()

/-- Reads the text of a configuration file. -/
def parse (dataDirectory source : String) : Except Json.Failure Config := do
  return ofRow dataDirectory (← Json.document (Json.row (fields dataDirectory)) source.toList)

/-- Loads a configuration from what reading its file came to. -/
def load (dataDirectory : String) (file : Except OsError Bytes) : Except LoadError Config := do
  let config ← match file with
    | .error .notFound => .ok (default dataDirectory)
    | .error e => .error (.io e)
    | .ok bytes =>
      match Text.ofUtf8? bytes with
      | none => .error (.io .notText)
      | some source =>
        match parse dataDirectory source with
        | .error e => .error (.json e)
        | .ok config => .ok config
  match config.validate with
  | .error m => .error (.invalid m)
  | .ok () => .ok config

/-! ## Use -/

/-- The seconds after which an idle connection ends, if ever. -/
def idleTimeout (c : Config) : Option Nat :=
  if c.idleTimeoutSecs = 0 then none else some c.idleTimeoutSecs.toNat

/-- The seconds to wait for a host, at least one. -/
def dialTimeout (c : Config) : Nat :=
  max c.dialTimeoutSecs.toNat 1

/-- The hook command, if there is one that is not blank. -/
def aclHook (c : Config) : Option String :=
  (c.aclCheckCmd.map Text.trim).filter (· ≠ "")

/-- The directories that have to exist: the one the record store lies in, and the one of the
recordings. -/
def directories (c : Config) : List Files.Path :=
  let above := (Files.Path.mk c.dbPath).parent?.toList.filter fun p => !p.isEmpty
  above ++ [⟨c.logsLocation⟩]

/-- Creates the directories in order, up to the first failure. -/
def ensureDirectories (c : Config) (t : Files.Tree) : Files.Tree × Except OsError Unit :=
  c.directories.foldl (fun (t, result) p =>
    match result with
    | .error e => (t, .error e)
    | .ok () => t.ensureDirectory p) (t, .ok ())

end Config

end Gatehouse

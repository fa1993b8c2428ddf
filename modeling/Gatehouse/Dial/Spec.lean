import Gatehouse.Bastion.Error
import Gatehouse.Dial.Address
import Gatehouse.SecretBox

/-!
# Dial specifications

All that is needed to dial one host: where it is, whom to log in as, and the credentials in the order
in which they are tried. Credentials are opened with the secret box only here.
-/

namespace Gatehouse.Dial

/-- Reads an address, or says which text is none. -/
def Address.read (text : String) : Except BastionError Address :=
  match Address.parse? text with
  | none => .error (.invalidAddress (Text.trim text))
  | some address => .ok address

/-- A way to log in. -/
inductive Credential where
  | key (key : Key.PrivateKey)
  | password (text : String)
deriving DecidableEq

/-- What a log line shows of a credential. -/
def Credential.describe : Credential → String
  | .key _ => "Key(..)"
  | .password _ => "Password(..)"

/-- All that is needed to dial one host. -/
structure Spec where
  host : Host
  address : Address
  username : String
  /-- The key before the password. -/
  credentials : List Credential
deriving DecidableEq

/-- What a log line shows of credentials. -/
def describeAll (credentials : List Credential) : String :=
  "[" ++ ", ".intercalate (credentials.map Credential.describe) ++ "]"

/-- The private key of a host, if it names one. -/
def keyCredential (s : Store) (box : SecretBox) (host : Host) :
    Except BastionError (List Credential) :=
  match host.sshKeyId with
  | none => .ok []
  | some id =>
    match s.sshKey id with
    | .error e => .error (.store e)
    | .ok none => .error (.missingKey id host.name)
    | .ok (some key) =>
      match Key.PrivateKey.parse (box.decryptOrRaw key.privateKey) with
      | .error e => .error (.key e)
      | .ok key => .ok [.key key]

/-- The password of a host, if it has one. -/
def passwordCredential (box : SecretBox) (host : Host) : List Credential :=
  if host.password = "" then [] else [.password (box.decryptOrRaw host.password)]

/-- The specification for a host. -/
def Spec.ofHost (s : Store) (box : SecretBox) (host : Host) : Except BastionError Spec := do
  match Address.parse? host.addr with
  | none => throw (.invalidAddress (Text.trim host.addr))
  | some address =>
    let credentials := (← keyCredential s box host) ++ passwordCredential box host
    if credentials.isEmpty then throw (.noAuthMethod host.name)
    else return { host, address, username := host.user, credentials }

end Gatehouse.Dial

import Gatehouse.Key.Public
import Gatehouse.Store.Queries
import Gatehouse.Text.Quoted

/-!
# Authentication

A connection's user name says what is wanted: a health check, the administrative shell, the redeeming
of an invite, or a host. A public key is always let in, so that what is wrong with it can be shown on
the first channel; a password is accepted for the health check alone.
-/

namespace Gatehouse.Bastion

open Time (Instant)

/-- What a connection is for. -/
inductive Intent where
  | healthcheck
  | shell
  | invite (token : String)
  | host (name : String)
deriving DecidableEq

/-- The user name of the health check. -/
def healthcheckName : String := "healthcheck"

/-- What the user name of an invite starts with. -/
def inviteMark : String := "invite:"

/-- What a user name asks for, given the user that the key belongs to. -/
def Intent.classify (username : String) (user : Option User) : Intent :=
  if username = healthcheckName then .healthcheck
  else if username = "admin" ∨ user.any fun u => username == u.name || username == u.email then
    .shell
  else if username.startsWith inviteMark then
    .invite (String.ofList (username.toList.drop inviteMark.length))
  else .host username

/-- How a connection has been authenticated. -/
inductive AuthMethod where
  | none
  | publicKey
  | password
deriving DecidableEq, Repr

/-- What a connection has come to by its authentication. -/
structure Context where
  username : String := ""
  user : Option User := none
  intent : Intent := .host ""
  method : AuthMethod := .none
  /-- Shown on the first channel instead of serving it. -/
  deferredError : Option String := none
  /-- Shown on a local channel. -/
  message : Option String := none
deriving DecidableEq

/-- A presented key in the forms that the store knows. -/
structure Credential where
  authorizedKey : String
  keyBlob : Bytes
deriving DecidableEq

/-- The credential of a public key. -/
def Credential.ofPublicKey (key : Key.PublicKey) : Credential :=
  { authorizedKey := key.authorizedKey, keyBlob := key.blob }

namespace Context

/-- The user that a key belongs to. -/
def owner (s : Store) (authorizedKey : String) : Except StoreError (Option User) := do
  match ← s.userKey authorizedKey with
  | none => return none
  | some key => s.user key.userId

/-- Settles a connection by a key that belongs to a user. -/
def known (c : Context) (user : User) : Context :=
  match c.intent with
  | .invite _ =>
    { c with
      user := some user
      deferredError := some (
        "invites are only supported for new SSH keys; " ++
          "your ssh key is already associated with the user " ++ Text.quote user.email) }
  | _ => { c with user := some user }

/-- The welcome after an invite has been redeemed. -/
def welcome (user : User) : String :=
  "Welcome " ++ user.name ++ "!\n\nYour key is now associated with the user " ++
    Text.quote user.email ++ ".\n"

/-- Settles a connection by a key that belongs to nobody, redeeming the invite that it may ask
for. -/
def unknown (c : Context) (s : Store) (now : Instant) (key : Credential) :
    Context × Store × Except StoreError Unit :=
  match c.intent with
  | .invite token =>
    let link : Store.NewUserKey := {
      authorizedKey := key.authorizedKey
      keyBlob := key.keyBlob
      comment := "created by sshbastion" }
    match s.redeemInvite now token link with
    | .error e => (c, s, .error e)
    | .ok (s, some user) => ({ c with user := some user, message := some (welcome user) }, s, .ok ())
    | .ok (s, none) =>
      ({ c with user := none, deferredError := some "your token is invalid or expired" }, s, .ok ())
  | _ => ({ c with user := none, deferredError := some "unknown ssh key" }, s, .ok ())

/-- Authenticates by a public key. The key is always accepted, unless the store fails. -/
def authenticateKey (c : Context) (s : Store) (now : Instant) (username : String)
    (key : Credential) : Context × Store × Except StoreError Unit :=
  let c := { c with username, method := .publicKey, deferredError := none, message := none }
  if username = healthcheckName then ({ c with intent := .healthcheck }, s, .ok ())
  else
    match owner s key.authorizedKey with
    | .error e => (c, s, .error e)
    | .ok user =>
      let c := { c with intent := Intent.classify username user }
      match user with
      | some user => (c.known user, s, .ok ())
      | none => c.unknown s now key

/-- Authenticates by a password, which exists for the health check alone. -/
def authenticatePassword (c : Context) (username : String) : Context × Bool :=
  if username = healthcheckName then
    ({ c with username, method := .password, intent := .healthcheck, user := none,
              deferredError := none }, true)
  else (c, false)

end Context

end Gatehouse.Bastion

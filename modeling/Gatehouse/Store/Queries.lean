import Gatehouse.Access.Action
import Gatehouse.Store.Basic
import Gatehouse.Text.Blank

/-!
# What the bastion asks of the store

The look-ups and the few changes that the bastion makes: redeeming an invite, pinning a host key, and
keeping the records of sessions. The time is an argument of each operation that records it.
-/

namespace Gatehouse.Store

open Time (Instant)

/-! ## Look-ups -/

/-- The user with an identifier. -/
def user (s : Store) (id : Id) : Except StoreError (Option User) :=
  s.get User .users id

/-- The link of a public key to a user. White space around the keys does not count. -/
def userKey (s : Store) (authorizedKey : String) : Except StoreError (Option UserKey) :=
  let wanted := Text.trim authorizedKey
  s.find .userKeys fun key : UserKey => Text.trim key.authorizedKey == wanted

/-- The host with an identifier. -/
def host (s : Store) (id : Id) : Except StoreError (Option Host) :=
  s.get Host .hosts id

/-- The first host with a name. -/
def hostNamed (s : Store) (name : String) : Except StoreError (Option Host) :=
  s.find .hosts fun host : Host => host.name == name

/-- The private key with an identifier. -/
def sshKey (s : Store) (id : Id) : Except StoreError (Option SshKey) :=
  s.get SshKey .sshKeys id

/-- The first private key with a name. -/
def sshKeyNamed (s : Store) (name : String) : Except StoreError (Option SshKey) :=
  s.find .sshKeys fun key : SshKey => key.name == name

/-- The session with an identifier. -/
def session (s : Store) (id : Id) : Except StoreError (Option Session) :=
  s.get Session .sessions id

/-- Loads the rules of groups one group after the other. The groups' rules are read at successive
moments, between which the store may change; gives also the first moment that was not used. -/
def loadAcls (moment : Nat → Store) :
    (next : Nat) → List Group → Except StoreError (List Access.GroupAcls × Nat)
  | next, [] => .ok ([], next)
  | next, group :: more => do
    let acls ← (moment next).getMany Acl .acls group.aclIds
    let (loaded, next) ← loadAcls moment (next + 1) more
    return (⟨group, acls⟩ :: loaded, next)

/-- Loads the groups with these identifiers at one moment, and their rules at the moments after it.
Groups and rules that do not exist are passed over. -/
def loadGroups (moment : Nat → Store) (next : Nat) (t : Table) (ids : List Id) :
    Except StoreError (List Access.GroupAcls × Nat) := do
  let groups ← (moment next).getMany Group t ids
  loadAcls moment (next + 1) groups

/-- The groups of a user with their rules. -/
def userGroups (s : Store) (u : User) : Except StoreError (List Access.GroupAcls) :=
  (loadGroups (fun _ => s) 0 .userGroups u.groupIds).map Prod.fst

/-- The groups of a host with their rules. -/
def hostGroups (s : Store) (h : Host) : Except StoreError (List Access.GroupAcls) :=
  (loadGroups (fun _ => s) 0 .hostGroups h.groupIds).map Prod.fst

/-! ## Invites -/

/-- A public key that is about to be linked to a user. -/
structure NewUserKey where
  authorizedKey : String
  keyBlob : Bytes
  comment : String

/-- Redeems an invite: links the key to the first user whose valid invite has this token, and takes
the invite from that user. Gives nothing if there is no such user, or if the token is empty. -/
def redeemInvite (s : Store) (now : Instant) (token : String) (key : NewUserKey) :
    Except StoreError (Store × Option User) := do
  if token = "" then return (s, none)
  match ← s.find .users fun u : User => u.inviteIsValid now && u.inviteToken == token with
  | none => return (s, none)
  | some u =>
    let link : UserKey := {
      id := (s.rows .userKeys).freshId
      userId := u.id
      authorizedKey := key.authorizedKey
      keyBlob := key.keyBlob
      comment := key.comment
      createdAt := now }
    let u := { u with inviteToken := "", inviteExpiresAt := none }
    let s ← s.write .userKeys link.id (MessagePack.encode link)
    return (← s.write .users u.id (MessagePack.encode u), some u)

/-! ## Host keys -/

/-- Pins a host's key. -/
def pinHostKey (s : Store) (id : Id) (key : Bytes) : Except StoreError Store := do
  match ← s.modify .hosts id fun h : Host => { h with hostKey := key } with
  | some s => return s
  | none => throw (.notFound ("host " ++ String.ofList (Text.decimal id.toNat)))

/-! ## Sessions -/

/-- Records the start of a session. -/
def createSession (s : Store) (now : Instant) (userId hostId : Id) :
    Except StoreError (Store × Session) :=
  s.put .sessions { id := 0, userId, hostId, status := .active, createdAt := now : Session }

/-- The session ended, for a reason that is empty if it ended well. -/
def closed (now : Instant) (error : String) (session : Session) : Session :=
  { session with status := .closed, error, stoppedAt := some now }

/-- Records the end of a session. -/
def closeSession (s : Store) (now : Instant) (id : Id) (error : String) :
    Except StoreError Store := do
  match ← s.modify .sessions id (closed now error) with
  | some s => return s
  | none => throw (.notFound ("session " ++ String.ofList (Text.decimal id.toNat)))

/-- Decodes all rows of a table. -/
def decodeAll (α : Type) [Record α] (rows : Rows) : Except StoreError (List α) :=
  rows.mapM fun (_, bytes) => decode bytes

/-- Ends every session that is still active, and counts them. -/
def closeActiveSessions (s : Store) (now : Instant) (reason : String) :
    Except StoreError (Store × Nat) := do
  let sessions ← decodeAll Session (s.rows .sessions)
  let active := sessions.filter fun session => session.status = .active
  let s ← active.foldlM (fun s session =>
    s.write .sessions session.id (MessagePack.encode (closed now reason session))) s
  return (s, active.length)

end Gatehouse.Store

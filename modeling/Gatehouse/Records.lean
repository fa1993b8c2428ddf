import Gatehouse.Schema

/-!
# Records

What the bastion knows: users and the keys linked to them, groups with their access rules, hosts,
the private keys it holds, and the sessions it has relayed. Each record type says which schema its
stored and readable forms follow.
-/

namespace Gatehouse

/-- The identifier of a record within its table. -/
abbrev Id := UInt64

open Time (Instant)

/-! ## Users -/

/-- A person who may log in. -/
structure User where
  id : Id
  name : String
  email : String
  /-- The token of an outstanding invite, empty if there is none. -/
  inviteToken : String := ""
  inviteExpiresAt : Option Instant := none
  groupIds : List Id := []
  roles : List String := []
  comment : String := ""
deriving DecidableEq

instance : Record User where
  fields := [
    ⟨"id", .word64, none⟩,
    ⟨"name", .text, none⟩,
    ⟨"email", .text, none⟩,
    ⟨"invite_token", .text, some ""⟩,
    ⟨"invite_expires_at", .optional .time, some none⟩,
    ⟨"group_ids", .list .word64, some []⟩,
    ⟨"roles", .list .text, some []⟩,
    ⟨"comment", .text, some ""⟩]
  toRow u := (u.id, u.name, u.email, u.inviteToken, u.inviteExpiresAt, u.groupIds, u.roles,
    u.comment, ())
  ofRow := fun (id, name, email, inviteToken, inviteExpiresAt, groupIds, roles, comment, _) =>
    { id, name, email, inviteToken, inviteExpiresAt, groupIds, roles, comment }

/-- Whether the outstanding invite can still be redeemed: there is one, and it has not expired. -/
def User.inviteIsValid (u : User) (now : Instant) : Bool :=
  u.inviteToken ≠ "" && u.inviteExpiresAt.all fun expiry => now.isBefore expiry

/-- A public key linked to a user. -/
structure UserKey where
  id : Id
  userId : Id
  /-- The algorithm and the encoded key, by which keys are looked up. -/
  authorizedKey : String
  /-- The key in wire form. -/
  keyBlob : Bytes
  comment : String := ""
  createdAt : Instant
deriving DecidableEq

instance : Record UserKey where
  fields := [
    ⟨"id", .word64, none⟩,
    ⟨"user_id", .word64, none⟩,
    ⟨"authorized_key", .text, none⟩,
    ⟨"key_blob", .list .byte, none⟩,
    ⟨"comment", .text, some ""⟩,
    ⟨"created_at", .time, none⟩]
  toRow k := (k.id, k.userId, k.authorizedKey, k.keyBlob, k.comment, k.createdAt, ())
  ofRow := fun (id, userId, authorizedKey, keyBlob, comment, createdAt, _) =>
    { id, userId, authorizedKey, keyBlob, comment, createdAt }

/-! ## Groups and access rules -/

/-- A group of users or of hosts, with the access rules it carries. -/
structure Group where
  id : Id
  name : String
  aclIds : List Id := []
  comment : String := ""
deriving DecidableEq

instance : Record Group where
  fields := [
    ⟨"id", .word64, none⟩,
    ⟨"name", .text, none⟩,
    ⟨"acl_ids", .list .word64, some []⟩,
    ⟨"comment", .text, some ""⟩]
  toRow g := (g.id, g.name, g.aclIds, g.comment, ())
  ofRow := fun (id, name, aclIds, comment, _) => { id, name, aclIds, comment }

/-- An access rule. It applies between a user group and a host group that both carry it. -/
structure Acl where
  id : Id
  /-- `allow` or `deny`; any other text is a mistake that shows when the rule decides. -/
  action : String
  /-- The rule of the least weight decides. -/
  weight : UInt32
  hostPattern : String := ""
  inception : Option Instant := none
  expiration : Option Instant := none
  comment : String := ""
deriving DecidableEq

instance : Record Acl where
  fields := [
    ⟨"id", .word64, none⟩,
    ⟨"action", .text, none⟩,
    ⟨"weight", .word32, none⟩,
    ⟨"host_pattern", .text, some ""⟩,
    ⟨"inception", .optional .time, some none⟩,
    ⟨"expiration", .optional .time, some none⟩,
    ⟨"comment", .text, some ""⟩]
  toRow a := (a.id, a.action, a.weight, a.hostPattern, a.inception, a.expiration, a.comment, ())
  ofRow := fun (id, action, weight, hostPattern, inception, expiration, comment, _) =>
    { id, action, weight, hostPattern, inception, expiration, comment }

/-! ## Hosts -/

/-- What is recorded of the channels relayed to a host. -/
inductive LoggingMode where
  | disabled
  | input
  | everything
deriving DecidableEq, Repr

instance : Choice LoggingMode where
  names := ["disabled", "input", "everything"]
  toIndex
    | .disabled => 0
    | .input => 1
    | .everything => 2
  ofIndex
    | 0 => .disabled
    | 1 => .input
    | 2 => .everything

namespace LoggingMode

/-- Whether there is a recording at all. -/
def isEnabled (mode : LoggingMode) : Bool :=
  mode ≠ .disabled

/-- Whether what the user sends is recorded. -/
def recordsInput (mode : LoggingMode) : Bool :=
  mode = .input || mode = .everything

/-- Whether what the host sends is recorded. -/
def recordsOutput (mode : LoggingMode) : Bool :=
  mode = .everything

end LoggingMode

/-- A machine that users are connected to. -/
structure Host where
  id : Id
  name : String
  /-- Where to dial, with an optional port. -/
  addr : String
  /-- Whom to log in as. -/
  user : String
  /-- Sealed or plain, empty if there is none. -/
  password : String := ""
  sshKeyId : Option Id := none
  /-- The host through which this one is reached. -/
  hopId : Option Id := none
  logging : LoggingMode := .everything
  /-- The pinned key in wire form, empty until first contact. -/
  hostKey : Bytes := []
  groupIds : List Id := []
  comment : String := ""
deriving DecidableEq

instance : Record Host where
  fields := [
    ⟨"id", .word64, none⟩,
    ⟨"name", .text, none⟩,
    ⟨"addr", .text, none⟩,
    ⟨"user", .text, none⟩,
    ⟨"password", .text, some ""⟩,
    ⟨"ssh_key_id", .optional .word64, some none⟩,
    ⟨"hop_id", .optional .word64, some none⟩,
    ⟨"logging", .choice (Choice.names LoggingMode), some (Choice.toIndex LoggingMode.everything)⟩,
    ⟨"host_key", .list .byte, some []⟩,
    ⟨"group_ids", .list .word64, some []⟩,
    ⟨"comment", .text, some ""⟩]
  toRow h := (h.id, h.name, h.addr, h.user, h.password, h.sshKeyId, h.hopId,
    Choice.toIndex h.logging, h.hostKey, h.groupIds, h.comment, ())
  ofRow := fun (id, name, addr, user, password, sshKeyId, hopId, logging, hostKey, groupIds,
      comment, _) =>
    { id, name, addr, user, password, sshKeyId, hopId, logging := Choice.ofIndex logging, hostKey,
      groupIds, comment }
  ofRow_toRow h := by
    cases h with
    | mk _ _ _ _ _ _ _ logging => cases logging <;> rfl

/-- A private key that the bastion holds, as its own identity or to log in to hosts. -/
structure SshKey where
  id : Id
  name : String
  keyType : String
  /-- The key file, sealed or plain. -/
  privateKey : String
  publicKey : String := ""
  comment : String := ""
deriving DecidableEq

instance : Record SshKey where
  fields := [
    ⟨"id", .word64, none⟩,
    ⟨"name", .text, none⟩,
    ⟨"key_type", .text, none⟩,
    ⟨"private_key", .text, none⟩,
    ⟨"public_key", .text, some ""⟩,
    ⟨"comment", .text, some ""⟩]
  toRow k := (k.id, k.name, k.keyType, k.privateKey, k.publicKey, k.comment, ())
  ofRow := fun (id, name, keyType, privateKey, publicKey, comment, _) =>
    { id, name, keyType, privateKey, publicKey, comment }

/-! ## Sessions -/

/-- Whether a session still runs. -/
inductive SessionStatus where
  | active
  | closed
deriving DecidableEq, Repr

instance : Choice SessionStatus where
  names := ["active", "closed"]
  toIndex
    | .active => 0
    | .closed => 1
  ofIndex
    | 0 => .active
    | 1 => .closed

/-- The life of one relayed channel. -/
structure Session where
  id : Id
  userId : Id
  hostId : Id
  status : SessionStatus
  /-- Why the session ended, empty if it ended well. -/
  error : String := ""
  createdAt : Instant
  stoppedAt : Option Instant := none
deriving DecidableEq

instance : Record Session where
  fields := [
    ⟨"id", .word64, none⟩,
    ⟨"user_id", .word64, none⟩,
    ⟨"host_id", .word64, none⟩,
    ⟨"status", .choice (Choice.names SessionStatus), none⟩,
    ⟨"error", .text, some ""⟩,
    ⟨"created_at", .time, none⟩,
    ⟨"stopped_at", .optional .time, some none⟩]
  toRow s := (s.id, s.userId, s.hostId, Choice.toIndex s.status, s.error, s.createdAt,
    s.stoppedAt, ())
  ofRow := fun (id, userId, hostId, status, error, createdAt, stoppedAt, _) =>
    { id, userId, hostId, status := Choice.ofIndex status, error, createdAt, stoppedAt }
  ofRow_toRow s := by
    cases s with
    | mk _ _ _ status => cases status <;> rfl

end Gatehouse

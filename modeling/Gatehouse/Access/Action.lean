import Gatehouse.Records
import Gatehouse.Text.Quoted

/-!
# Access decisions

A rule applies between a user and a host when it is carried by a group on each side. Among the
shared rules the one of least weight decides, and of those of equal weight the one of least id.
Where no rule is shared, access is denied.
-/

namespace Gatehouse.Access

/-- What a rule, or the decision as a whole, says. -/
inductive Action where
  | allow
  | deny
deriving DecidableEq, Repr

/-- The word for an action. -/
def Action.word : Action → String
  | .allow => "allow"
  | .deny => "deny"

/-- A rule's action is neither of the two words. -/
structure InvalidAction where
  text : String
deriving DecidableEq

/-- The wording of the mistake. -/
def InvalidAction.message (e : InvalidAction) : String :=
  "invalid ACL action: " ++ Text.quote e.text

/-- The action of a word. -/
def Action.parse (text : String) : Except InvalidAction Action :=
  if text = "allow" then .ok .allow
  else if text = "deny" then .ok .deny
  else .error ⟨text⟩

/-- A group with the rules it carries. -/
structure GroupAcls where
  group : Group
  acls : List Acl

/-- The last rule of each id, in ascending order of ids. -/
def lastById (acls : List Acl) : List Acl :=
  acls.foldl insert []
where
  /-- Puts a rule in its place, instead of one with the same id. -/
  insert : List Acl → Acl → List Acl
    | [], acl => [acl]
    | x :: xs, acl =>
      if acl.id < x.id then acl :: x :: xs
      else if acl.id = x.id then acl :: xs
      else x :: insert xs acl

/-- The first rule of least weight. -/
def lightest? : List Acl → Option Acl
  | [] => none
  | acl :: acls =>
    match lightest? acls with
    | none => some acl
    | some other => if other.weight < acl.weight then some other else some acl

/-- The rules shared by two lists, as the host side has them. -/
def shared (userAcls hostAcls : List Acl) : List Acl :=
  lastById (hostAcls.filter fun acl => userAcls.any fun other => other.id = acl.id)

/-- The decision for groups with their rules. -/
def resolve (userGroups hostGroups : List GroupAcls) : Except InvalidAction Action :=
  match lightest? (shared (userGroups.flatMap GroupAcls.acls) (hostGroups.flatMap GroupAcls.acls)) with
  | some acl => Action.parse acl.action
  | none => .ok .deny

end Gatehouse.Access

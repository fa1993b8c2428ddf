import Gatehouse.Bastion.Service

/-!
# A machine without a network

Whatever is dialed from such a machine cannot be reached, and a name cannot even be looked up. It
can listen only on addresses of its own.
-/

namespace Gatehouse.Rehearsal.Offline

/-! ## Numeric hosts -/

/-- The value of digits of the given base, of which there has to be one. -/
def inBase? (base : Nat) (cs : List Char) : Option Nat :=
  if cs.isEmpty then none
  else cs.foldlM (fun n c => do
    let d ← Bytes.hexValue? c
    if d < base then some (base * n + d) else none) 0

/-- The number that a part of an IPv4 address writes: hexadecimal after `0x`, octal after a zero, or
decimal. -/
def part? : List Char → Option Nat
  | '0' :: 'x' :: digits => inBase? 16 digits
  | '0' :: 'X' :: digits => inBase? 16 digits
  | '0' :: digits => inBase? 8 ('0' :: digits)
  | digits => inBase? 10 digits

/-- The number of an IPv4 address of up to four parts. Each part is a byte but the last one, which
stands for all bytes that are left. -/
def ipv4? (host : String) : Option Nat := do
  let parts ← (host.splitOn ".").mapM fun part => part? part.toList
  let front := parts.dropLast
  let last ← parts.getLast?
  if front.length ≤ 3 ∧ front.all (· < 256) ∧ last < 1 <<< (8 * (4 - front.length)) then
    some ((front.foldl (fun n byte => 256 * n + byte) 0 <<< (8 * (4 - front.length))) + last)
  else none

/-- The number of groups in a part of an IPv6 address, without a gap: hexadecimal groups of at most
four digits, of which an IPv4 address at the end counts as two. -/
def groups? (text : String) : Option Nat :=
  if text = "" then some 0
  else
    let parts := (text.splitOn ":").map String.toList
    let isGroup (part : List Char) : Bool :=
      0 < part.length && part.length ≤ 4 && (inBase? 16 part).isSome
    let isQuad (part : List Char) : Bool :=
      let bytes := (String.ofList part).splitOn "."
      bytes.length = 4 && bytes.all fun byte =>
        byte.toList.head? ≠ some '+' && (Text.bounded? 255 byte.toList).isSome
    if parts.all isGroup then some parts.length
    else if parts.dropLast.all isGroup && parts.getLast?.any isQuad then some (parts.length + 1)
    else none

/-- Whether a host is an IPv6 address. One gap may stand for groups of zeros. -/
def isIpv6 (host : String) : Bool :=
  match (host.splitOn "::").mapM groups? with
  | some [n] => n = 8
  | some [n, m] => n + m < 8
  | _ => false

/-! ## Hosts -/

/-- Whether a host is the one name that every machine knows. -/
def isLocalName (host : String) : Bool :=
  host.toLower = "localhost"

/-- A host without the brackets around an IPv6 address. -/
def unbracketed (host : String) : String :=
  match host.toList with
  | '[' :: rest =>
    if rest.getLast? = some ']' ∧ isIpv6 (String.ofList rest.dropLast) then
      String.ofList rest.dropLast
    else host
  | _ => host

/-- How looking up a host fails, unless it is found without asking anyone. -/
def lookupFailure? (host : String) : Option OsError :=
  if isLocalName host || (ipv4? host).isSome || isIpv6 (unbracketed host) then none
  else if host.contains '\x00' then some .zeroInName
  else some .unresolved

/-- How dialing an address fails. -/
def failure (address : Dial.Address) : OsError :=
  (lookupFailure? address.host).getD .networkUnreachable

/-- Whether a host stands for the machine itself. -/
def isOwn (host : String) : Bool :=
  match ipv4? host with
  | some n => n = 0 || n >>> 24 = 127
  | none => isLocalName host || unbracketed host = "::"

/-- The hosts of a plan, none of which can be reached. -/
def network (plan : List Dial.Spec) (hop : Nat) : Dial.Peer :=
  { key := .error (.os (match plan[hop]? with
      | some spec => failure spec.address
      | none => .networkUnreachable))
    accepts := fun _ => .error .disconnected
    tunnel := .error .disconnected }

/-- What happens outside while a channel is served. -/
def surroundings (now : Time.Instant) : Bastion.Surroundings :=
  { network := network
    opening := .error .disconnected
    files := { nodes := [], working := [] }
    relay := .ok ()
    startedAt := now
    openedAt := now
    stoppedAt := now }

/-- What binding an address comes to, if the address in use is `busy`. -/
def listen (busy : Option String) (bindAddress : String) (address : String × UInt16) :
    Except OsError Unit :=
  if busy = some bindAddress then .error .addressInUse
  else if isOwn address.1 then .ok ()
  else .error ((lookupFailure? address.1).getD .addressNotAvailable)

end Gatehouse.Rehearsal.Offline

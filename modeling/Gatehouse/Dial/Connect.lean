import Gatehouse.Dial.Spec
import Gatehouse.Dial.Trust

/-!
# Dialing a chain

The hosts of a plan are dialed one after the other, each but the first through a tunnel of the one
before it. A host first presents its key, then it is offered credentials, and then it is asked for
the tunnel to the next one. What the hosts do is an argument, and everything that is done is noted in
order.
-/

namespace Gatehouse.Dial

/-- What a host does while it is dialed. -/
structure Peer where
  /-- The key that it presents, or how the connection fails before that. -/
  key : Except TransportError Bytes
  /-- Whether it accepts a credential, or how the attempt fails. -/
  accepts : Credential → Except TransportError Bool
  /-- Whether it opens the tunnel to the next host. -/
  tunnel : Except TransportError Unit

/-- Something that is done while dialing. Hosts are counted from zero in the order of the plan. -/
inductive DialEvent where
  | contacted (hop : Nat)
  /-- The host has presented a key that is trusted. -/
  | trusted (hop : Nat) (key : Bytes)
  | offered (hop : Nat) (credential : Credential)
  | loggedIn (hop : Nat)
  /-- A tunnel to the next host is asked for. -/
  | tunneled (hop : Nat) (next : Address)
  | disconnected (hop : Nat)
deriving DecidableEq

/-- What dialing has come to. -/
structure Dialed where
  store : Store
  events : List DialEvent
  /-- The connected hosts in the order of the plan. -/
  result : Except BastionError (List Nat)

/-- The same, with some events before it. -/
def Dialed.after (events : List DialEvent) (d : Dialed) : Dialed :=
  { d with events := events ++ d.events }

/-- The end of connections, the one nearest to the target first. -/
def hangUp (connected : List Nat) : List DialEvent :=
  connected.map .disconnected

/-- Contacts a host and checks its key. -/
def greet (peer : Peer) (spec : Spec) (s : Store) : Except BastionError (Bytes × Store) :=
  match peer.key with
  | .error e => .error (.transport e)
  | .ok key => ((Trust.ofHost spec.host).check s key).map fun (_, s) => (key, s)

/-- Offers credentials until one is accepted; gives whether one was. -/
def logIn (peer : Peer) (hop : Nat) : List Credential → List DialEvent × Bool
  | [] => ([], false)
  | credential :: more =>
    match peer.accepts credential with
    | .ok true => ([.offered hop credential, .loggedIn hop], true)
    | .ok false | .error _ =>
      let (events, accepted) := logIn peer hop more
      (.offered hop credential :: events, accepted)

/-- Dials the hosts from number `hop` on. `connected` has those before it, the nearest to the target
first. -/
def connectFrom (network : Nat → Peer) (s : Store) (hop : Nat) (connected : List Nat) :
    List Spec → Dialed
  | [] => { store := s, events := [], result := .ok connected.reverse }
  | spec :: later =>
    let peer := network hop
    match greet peer spec s with
    | .error e =>
      { store := s, events := .contacted hop :: hangUp connected, result := .error e }
    | .ok (key, s) =>
      let (attempts, accepted) := logIn peer hop spec.credentials
      let events := .contacted hop :: .trusted hop key :: attempts
      if !accepted then
        { store := s, events := events ++ hangUp connected,
          result := .error (.rejectedCredentials spec.host.name) }
      else
        match later, peer.tunnel with
        | next :: _, .error e =>
          { store := s, events := events ++ .tunneled hop next.address :: hangUp (hop :: connected),
            result := .error (.tunnel next.address.host next.address.port e) }
        | next :: _, .ok () =>
          (connectFrom network s (hop + 1) (hop :: connected) later).after
            (events ++ [.tunneled hop next.address])
        | [], _ => (connectFrom network s (hop + 1) (hop :: connected) later).after events

/-- Dials all hosts of a plan. -/
def connect (network : Nat → Peer) (s : Store) (plan : List Spec) : Dialed :=
  if plan.isEmpty then { store := s, events := [], result := .error .emptyChain }
  else connectFrom network s 0 [] plan

end Gatehouse.Dial

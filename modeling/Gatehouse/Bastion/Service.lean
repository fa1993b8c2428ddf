import Gatehouse.Bastion.SessionLog
import Gatehouse.Config
import Gatehouse.Dial.Chain
import Gatehouse.Dial.Connect
import Gatehouse.Recording.Streams

/-!
# Serving a relayed channel

A channel to a host goes through stages: the host is looked up and its chain resolved, the chain is
dialed, a channel is opened on the target, a session record and a recording are begun, and then the
channel is relayed until it ends. What fails before the relay is shown to the user; what fails in the
relay is kept in the session record. What happens outside is an argument, and everything that is done
is noted in order.
-/

namespace Gatehouse.Bastion

open Recording (Log SessionStreams)
open Relay (RelayError UserMessage)
open Time (Instant)

/-! ## What is recorded -/

/-- How a channel of some kind is recorded in some mode. -/
def ChannelKind.streams (kind : ChannelKind) (mode : LoggingMode) : SessionStreams :=
  match kind with
  | .session => .terminal mode
  | .forward host _ originHost _ => .forwarded mode host originHost

/-! ## Admission -/

/-- What all channels share. -/
structure Service where
  box : SecretBox
  hook : Option Access.Hook
  maxHops : Nat
  /-- The directory of the logs. -/
  logs : String

/-- The service of a configuration. The hook's behaviour is an argument, as only its command is
configured. -/
def Service.ofConfig (config : Config) (hook : Option Access.Hook) : Service :=
  { box := .ofSecret config.aesKey
    hook
    maxHops := config.maxHops.toNat
    logs := config.logsLocation }

/-- Looks up a host and resolves its chain. -/
def Service.admission (service : Service) (s : Store) (user : User) (hostName : String) :
    Access.HookM (Except BastionError (Host × List Dial.Spec)) := do
  match s.hostNamed hostName with
  | .error e => return .error (.store e)
  | .ok none => return .error (.unknownHost hostName)
  | .ok (some host) =>
    let resolver : Dial.Resolver := {
      store := s, box := service.box, hook := service.hook, maxHops := service.maxHops }
    return (← resolver.resolve user host).map fun plan => (host, plan)

/-! ## The whole life of a channel -/

/-- What happens outside the bastion while a channel is served. -/
structure Surroundings where
  /-- The hosts of the dialed plan. -/
  network : List Dial.Spec → Nat → Dial.Peer
  /-- Whether the target opens a channel. -/
  opening : Except TransportError Unit
  /-- The files in which the log of the session gets its own. -/
  files : Files.Tree
  /-- How the relay ends. -/
  relay : Except RelayError Unit
  /-- The log as the relay leaves it. -/
  log : Log := {}
  /-- How those writes of the log end that the relay leaves to be done. -/
  disk : Log.Disk := {}
  startedAt : Instant
  /-- When the log is opened. -/
  openedAt : Instant
  stoppedAt : Instant

/-- Something that is done for a channel. -/
inductive ServiceEvent where
  | dial (event : Dial.DialEvent)
  | sessionStarted (id : Id)
  | relayed
  | sessionStopped (id : Id)
  /-- The user is shown why the channel is refused. -/
  | refused (reason : String)
deriving DecidableEq

/-- What the user's channel is sent because of something that is done, the relay apart. -/
def ServiceEvent.messages : ServiceEvent → List UserMessage
  | refused reason => Relay.refusal reason
  | dial _ | sessionStarted _ | relayed | sessionStopped _ => []

/-- What serving a channel has come to. -/
structure Served where
  store : Store
  files : Files.Tree
  events : List ServiceEvent

namespace Served

/-- The channel is refused. -/
def refused (s : Store) (files : Files.Tree) (events : List ServiceEvent) (e : BastionError) : Served :=
  { store := s, files, events := events ++ [.refused e.message] }

/-- Hangs up all connected hosts, the target first. -/
def hangUp (hops : List Nat) : List ServiceEvent :=
  (Dial.hangUp hops.reverse).map .dial

/-- What the user's channel is sent, the relay apart. -/
def messages (served : Served) : List UserMessage :=
  served.events.flatMap ServiceEvent.messages

end Served

namespace Service

/-- Runs a relay inside a session record. -/
def recordSession (service : Service) (w : Surroundings) (s : Store) (user : User) (host : Host)
    (kind : ChannelKind) (hops : List Nat) (events : List ServiceEvent) : Served :=
  match s.createSession w.startedAt user.id host.id with
  | .error e => .refused s w.files (events ++ Served.hangUp hops) (.store e)
  | .ok (s, session) =>
    let started := events ++ [.sessionStarted session.id]
    match openLog w.files service.logs user host kind session.id w.openedAt with
    | .error e =>
      let s := stopSession s w.stoppedAt session.id (BastionError.io e).message
      .refused s w.files (started ++ [.sessionStopped session.id] ++ Served.hangUp hops) (.io e)
    | .ok (files, place?) =>
      let (log, s) := endSession s w.log w.disk w.stoppedAt session.id w.relay
      { store := s
        files := saveLog log files place?
        events := started ++ [.relayed, .sessionStopped session.id] ++ Served.hangUp hops }

/-- Serves a channel of some kind from its admission to its end. -/
def serve (service : Service) (w : Surroundings) (s : Store) (user : User) (hostName : String)
    (kind : ChannelKind) : Access.HookM Served := do
  match ← service.admission s user hostName with
  | .error e => return .refused s w.files [] e
  | .ok (host, plan) =>
    let dialed := Dial.connect (w.network plan) s plan
    let events := dialed.events.map ServiceEvent.dial
    match dialed.result with
    | .error e => return .refused dialed.store w.files events e
    | .ok hops =>
      match w.opening with
      | .error e => return .refused dialed.store w.files (events ++ Served.hangUp hops) (.channel e)
      | .ok () => return service.recordSession w dialed.store user host kind hops events

end Service

end Gatehouse.Bastion

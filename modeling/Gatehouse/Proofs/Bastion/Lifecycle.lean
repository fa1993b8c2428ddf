import Gatehouse.Proofs.Bastion.Admission
import Gatehouse.Proofs.Dial.Connect
import Gatehouse.Proofs.Store.FreshId
import Gatehouse.Proofs.Text.ReadBack
import Mathlib.Data.List.Count

/-!
# The life of a session

`session_lifecycle`: whatever fails while a channel is served, its session record, what the user is shown
and the connections to the hosts agree about it. Without a record the sessions stay as they are; a record
is closed when serving ends, with the text of what went wrong. The user is shown a refusal, once, exactly
if something failed before the relay. Once the hosts have been dialed, each is hung up exactly once.

The record is a new row as long as identifiers last. When they have run out and have started again, it takes
the place of another session's (`session_row_replaced`).

Proof. What fails first decides how serving ends (`outcome_of_fails`), and if nothing does, the relay runs
(`relays_of_not_fails`). In a session's record the two ways to end differ in the text, the files and the
refusal alone (`outcome_of_records`). Closing the record finds the row that was just written, as nothing else
is written in between (`ended_of_created`).
-/

namespace Gatehouse.Bastion

open Access (HookCall HookM)
open Relay (UserMessage)
open Store (valueLimit)

namespace Service

section

variable (service : Service) (w : Surroundings) (s : Store) (user : User) (name : String)
  (kind : ChannelKind) (calls : List HookCall)

/-! ### What is left of a session -/

/-- What comes of opening the log of a session. -/
def logOpening (host : Host) (id : Id) : Except OsError (Files.Tree × Option Files.Place) :=
  openLog w.files service.logs user host kind id w.openedAt

/-- What the session's record says in the end: why there is no recording, or how the relay ended. -/
def endText (host : Host) (id : Id) : String :=
  match service.logOpening w user kind host id with
  | .error e => (BastionError.io e).message
  | .ok _ => relayErrorText w.relay

/-- The record of a session that has ended. -/
def endedSession (host : Host) (id : Id) : Session where
  id := id
  userId := user.id
  hostId := host.id
  status := .closed
  error := service.endText w user kind host id
  createdAt := w.startedAt
  stoppedAt := some w.stoppedAt

/-! ### How far serving a channel comes -/

/-- The host is found, its chain is resolved, and all of it is dialed. -/
structure Dials (host : Host) (plan : List Dial.Spec) (hops : List Nat) : Prop where
  admitted : ∃ calls', (service.admission s user name).run calls = (.ok (host, plan), calls')
  dialed : (Dial.connect (w.network plan) s plan).result = .ok hops

/-- Then the target opens a channel, and the session's row is created. -/
structure Records (host : Host) (plan : List Dial.Spec) (hops : List Nat) (s₁ : Store)
    (session : Session) : Prop extends Dials service w s user name calls host plan hops where
  opened : w.opening = .ok ()
  created : (Dial.connect (w.network plan) s plan).store.createSession w.startedAt user.id host.id =
    .ok (s₁, session)

/-- Something fails before the relay starts. -/
inductive Fails : BastionError → Prop
  | admission {e : BastionError} {calls' : List HookCall} :
      (service.admission s user name).run calls = (.error e, calls') → Fails e
  | dialing {e : BastionError} {calls' : List HookCall} {host : Host} {plan : List Dial.Spec} :
      (service.admission s user name).run calls = (.ok (host, plan), calls') →
      (Dial.connect (w.network plan) s plan).result = .error e → Fails e
  | opening {e : TransportError} {host : Host} {plan : List Dial.Spec} {hops : List Nat} :
      Dials service w s user name calls host plan hops → w.opening = .error e → Fails (.channel e)
  | creating {e : StoreError} {host : Host} {plan : List Dial.Spec} {hops : List Nat} :
      Dials service w s user name calls host plan hops → w.opening = .ok () →
      (Dial.connect (w.network plan) s plan).store.createSession w.startedAt user.id host.id =
        .error e → Fails (.store e)
  | recording {e : OsError} {host : Host} {plan : List Dial.Spec} {hops : List Nat} {s₁ : Store}
      {session : Session} :
      Records service w s user name calls host plan hops s₁ session →
      service.logOpening w user kind host session.id = .error e → Fails (.io e)

/-- What serving the channel comes to. -/
def outcome : Served :=
  ((service.serve w s user name kind).run calls).1

end

variable {service : Service} {w : Surroundings} {s s₁ : Store} {user : User} {name : String}
  {kind : ChannelKind} {calls calls' : List HookCall} {host : Host} {plan : List Dial.Spec}
  {hops : List Nat} {session : Session}

/-! ### How serving a channel ends -/

theorem outcome_of_admission_error {e : BastionError}
    (h : (service.admission s user name).run calls = (.error e, calls')) :
    service.outcome w s user name kind calls = .refused s w.files [] e := by
  rw [outcome, serve_run_of_error service w kind h]

theorem outcome_of_admission (h : (service.admission s user name).run calls = (.ok (host, plan), calls')) :
    service.outcome w s user name kind calls =
      let dialed := Dial.connect (w.network plan) s plan
      let events := dialed.events.map ServiceEvent.dial
      match dialed.result with
      | .error e => .refused dialed.store w.files events e
      | .ok hops =>
        match w.opening with
        | .error e => .refused dialed.store w.files (events ++ Served.hangUp hops) (.channel e)
        | .ok () => service.recordSession w dialed.store user host kind hops events := by
  rw [outcome, serve, StateT.run_bind, h]
  change (StateT.run (_ : HookM Served) calls').1 = _
  dsimp only
  rcases (Dial.connect (w.network plan) s plan).result with e | hops
  · rfl
  · rcases w.opening with e | ⟨⟩
    · rfl
    · rfl

theorem outcome_of_dials (h : Dials service w s user name calls host plan hops) :
    service.outcome w s user name kind calls =
      let dialed := Dial.connect (w.network plan) s plan
      let events := dialed.events.map ServiceEvent.dial
      match w.opening with
      | .error e => .refused dialed.store w.files (events ++ Served.hangUp hops) (.channel e)
      | .ok () => service.recordSession w dialed.store user host kind hops events := by
  obtain ⟨calls', hadmitted⟩ := h.admitted
  rw [outcome_of_admission hadmitted]
  dsimp only
  rw [h.dialed]

theorem outcome_of_records (h : Records service w s user name calls host plan hops s₁ session) :
    service.outcome w s user name kind calls =
      let started := (Dial.connect (w.network plan) s plan).events.map ServiceEvent.dial ++
        [.sessionStarted session.id]
      let ended := stopSession s₁ w.stoppedAt session.id (service.endText w user kind host session.id)
      match service.logOpening w user kind host session.id with
      | .error e =>
        .refused ended w.files (started ++ [.sessionStopped session.id] ++ Served.hangUp hops) (.io e)
      | .ok (files, place?) =>
        { store := ended
          files := saveLog (w.log.flush w.disk).1 files place?
          events := started ++ [.relayed, .sessionStopped session.id] ++ Served.hangUp hops } := by
  rw [outcome_of_dials h.toDials, h.opened]
  dsimp only
  rw [recordSession, h.created]
  unfold endText logOpening
  dsimp only
  rcases openLog w.files service.logs user host kind session.id w.openedAt with e | ⟨files, place?⟩
  · rfl
  · rfl

/-! ### Refusals -/

@[simp] theorem flatMap_messages_dial (events : List Dial.DialEvent) :
    (events.map ServiceEvent.dial).flatMap ServiceEvent.messages = [] := by
  rw [List.flatMap_map]
  exact List.flatMap_eq_nil_iff.mpr fun _ _ => rfl

@[simp] theorem flatMap_messages_hangUp (hops : List Nat) :
    (Served.hangUp hops).flatMap ServiceEvent.messages = [] :=
  flatMap_messages_dial _

theorem append_ne_empty {text more : String} (h : text ≠ "") : text ++ more ≠ "" := by
  rw [Ne, String.append_eq_empty_iff]
  exact fun hboth => h hboth.1

/-- All of a refusal reaches a user whose channel is open, and then the channel is closed. -/
theorem sendAll_refusal (reason : String) : Relay.UserLink.running.sendAll (Relay.refusal reason) =
    (.closed, [.data { data := Text.utf8 ("error: " ++ reason ++ "\n") }, .exitStatus 1, .eof, .close]) := by
  have hline : (Text.utf8 ("error: " ++ reason ++ "\n")).isEmpty = false := by
    rw [List.isEmpty_eq_false_iff]
    intro hempty
    have hnone : "error: " ++ reason ++ "\n" = "" := Text.utf8_injective (hempty.trans rfl)
    exact append_ne_empty (append_ne_empty (by decide)) hnone
  simp only [Relay.refusal, Relay.UserLink.sendAll, Relay.UserLink.send, Relay.UserLink.visible, hline]
  rfl

/-- A refusal is the last thing that is done. Before it nothing is relayed and nothing else is sent. -/
theorem outcome_of_fails {e : BastionError} (h : Fails service w s user name kind calls e) :
    ∃ s' files before, service.outcome w s user name kind calls = .refused s' files before e ∧
      before.flatMap ServiceEvent.messages = [] ∧ .relayed ∉ before := by
  cases h with
  | admission hadmission =>
    exact ⟨s, w.files, [], outcome_of_admission_error hadmission, rfl, List.not_mem_nil⟩
  | dialing hadmission hdial =>
    rw [outcome_of_admission hadmission]
    dsimp only
    rw [hdial]
    exact ⟨_, _, _, rfl, by simp, by simp⟩
  | opening hdials hopen =>
    rw [outcome_of_dials hdials, hopen]
    exact ⟨_, _, _, rfl, by simp, by simp [Served.hangUp]⟩
  | creating hdials hopen hcreate =>
    rw [outcome_of_dials hdials, hopen]
    dsimp only
    rw [recordSession, hcreate]
    exact ⟨_, _, _, rfl, by simp, by simp [Served.hangUp]⟩
  | recording hrecords hlog =>
    rw [outcome_of_records hrecords, hlog]
    exact ⟨_, _, _, rfl, by simp [ServiceEvent.messages], by simp [Served.hangUp]⟩

/-- If nothing fails before it, the relay runs. -/
theorem relays_of_not_fails (h : ∀ e, ¬ Fails service w s user name kind calls e) :
    ∃ host plan hops s₁ session, Records service w s user name calls host plan hops s₁ session ∧
      ∃ opened, service.logOpening w user kind host session.id = .ok opened := by
  rcases hadmission : (service.admission s user name).run calls with ⟨e | ⟨host, plan⟩, calls'⟩
  · exact absurd (.admission hadmission) (h e)
  rcases hdial : (Dial.connect (w.network plan) s plan).result with e | hops
  · exact absurd (.dialing hadmission hdial) (h e)
  have hdials : Dials service w s user name calls host plan hops := ⟨⟨calls', hadmission⟩, hdial⟩
  rcases hopen : w.opening with e | ⟨⟩
  · exact absurd (.opening hdials hopen) (h _)
  rcases hcreate : (Dial.connect (w.network plan) s plan).store.createSession w.startedAt user.id
      host.id with e | ⟨s₁, session⟩
  · exact absurd (.creating hdials hopen hcreate) (h _)
  have hrecords : Records service w s user name calls host plan hops s₁ session :=
    ⟨hdials, hopen, hcreate⟩
  refine ⟨host, plan, hops, s₁, session, hrecords, ?_⟩
  rcases hlog : service.logOpening w user kind host session.id with e | opened
  · exact absurd (.recording hrecords hlog) (h _)
  · exact ⟨opened, rfl⟩

/-! ### Connections -/

/-- All that is hung up after the hosts have been dialed are these hosts, once. -/
theorem hangUp_of_dials (h : Dials service w s user name calls host plan hops) :
    ∃ before after, (service.outcome w s user name kind calls).events =
        (Dial.connect (w.network plan) s plan).events.map ServiceEvent.dial ++ before ++
          Served.hangUp hops ++ after ∧
      ∀ e, .dial e ∉ before ∧ .dial e ∉ after := by
  rcases hopen : w.opening with e | ⟨⟩
  · rw [outcome_of_dials h, hopen]
    exact ⟨[], [.refused (BastionError.channel e).message], by simp [Served.refused], by simp⟩
  rcases hcreate : (Dial.connect (w.network plan) s plan).store.createSession w.startedAt user.id
      host.id with e | ⟨s₁, session⟩
  · rw [outcome_of_dials h, hopen]
    dsimp only
    rw [recordSession, hcreate]
    exact ⟨[], [.refused (BastionError.store e).message], by simp [Served.refused], by simp⟩
  rw [outcome_of_records ⟨h, hopen, hcreate⟩]
  dsimp only
  rcases service.logOpening w user kind host session.id with e | ⟨files, place?⟩
  · refine ⟨[.sessionStarted session.id, .sessionStopped session.id],
      [.refused (BastionError.io e).message], ?_, by simp⟩
    simp [Served.refused]
  · refine ⟨[.sessionStarted session.id, .relayed, .sessionStopped session.id], [], ?_, by simp⟩
    simp

theorem count_disconnected (h : Dials service w s user name calls host plan hops) (hop : Nat) :
    (service.outcome w s user name kind calls).events.count (.dial (.disconnected hop)) =
      if hop < plan.length then 1 else 0 := by
  obtain ⟨before, after, hevents, hother⟩ := hangUp_of_dials h
  obtain ⟨hhops, hnone⟩ := Dial.connect_eq_ok h.dialed
  have hdial : ServiceEvent.dial (.disconnected hop) ∉
      (Dial.connect (w.network plan) s plan).events.map ServiceEvent.dial := by
    rw [List.mem_map]
    rintro ⟨event, hmem, heq⟩
    cases heq
    exact hnone hop hmem
  have hinjective : Function.Injective fun hop => ServiceEvent.dial (.disconnected hop) := by
    intro a b hab
    cases hab
    rfl
  have hhang : (Served.hangUp hops).count (.dial (.disconnected hop)) = hops.count hop := by
    rw [Served.hangUp, Dial.hangUp, List.map_map, ← List.count_reverse (l := hops)]
    exact List.count_map_of_injective _ _ hinjective _
  rw [hevents, List.count_append, List.count_append, List.count_append, hhang,
    List.count_eq_zero_of_not_mem hdial, List.count_eq_zero_of_not_mem (hother _).1,
    List.count_eq_zero_of_not_mem (hother _).2, hhops, List.count_range]
  simp

/-! ### The session's row -/

/-- The session's row is the only one of the sessions that differs, and it is closed. -/
structure Ended (service : Service) (w : Surroundings) (user : User) (kind : ChannelKind) (host : Host)
    (id : Id) (s s' : Store) : Prop where
  row : s'.session id = .ok (some (service.endedSession w user kind host id))
  others : ∀ id' ≠ id, (s'.rows .sessions).get? id' = (s.rows .sessions).get? id'
  /-- It is a new one, unless identifiers have run out and zero is in use. -/
  new : (s.rows .sessions).get? id = none ↔
    (s.rows .sessions).get? lastId = none ∨ (s.rows .sessions).get? 0 = none

theorem ended_of_created {s₀ : Store} (hordered : s₀.Ordered)
    (hcreated : s₀.createSession w.startedAt user.id host.id = .ok (s₁, session))
    (hfits : (MessagePack.encode (service.endedSession w user kind host session.id)).length ≤ valueLimit) :
    Ended service w user kind host session.id s₀
      (stopSession s₁ w.stoppedAt session.id (service.endText w user kind host session.id)) := by
  obtain ⟨rfl, hsession, rfl⟩ := Store.createSession_eq_ok hcreated
  generalize hid : (s₀.rows .sessions).freshId = id at *
  have hread : (s₀.putBytes .sessions id (MessagePack.encode _)).session id = .ok (some _) :=
    Store.get_putBytes_self hsession
  have hclose : (s₀.putBytes .sessions id _).closeSession w.stoppedAt id
      (service.endText w user kind host id) = .ok _ :=
    Store.closeSession_of_session hread hfits
  rw [stopSession, hclose]
  refine ⟨Store.get_putBytes_self hfits, fun id' hne => ?_, hid ▸ Rows.freshId_free_iff (hordered .sessions)⟩
  rw [Store.get?_putBytes, if_neg fun h => hne h.2, Store.get?_putBytes, if_neg fun h => hne h.2]

theorem outcome_store_of_records (h : Records service w s user name calls host plan hops s₁ session) :
    (service.outcome w s user name kind calls).store =
      stopSession s₁ w.stoppedAt session.id (service.endText w user kind host session.id) := by
  rw [outcome_of_records h]
  dsimp only
  rcases service.logOpening w user kind host session.id with e | ⟨files, place?⟩
  · rfl
  · rfl

theorem ended_of_records (hordered : s.Ordered)
    (h : Records service w s user name calls host plan hops s₁ session)
    (hfits : (MessagePack.encode (service.endedSession w user kind host session.id)).length ≤ valueLimit) :
    Ended service w user kind host session.id s (service.outcome w s user name kind calls).store := by
  have hdialed : Store.Rewritten [.hosts] s (Dial.connect (w.network plan) s plan).store :=
    Dial.rewritten_connect
  have hrows : (Dial.connect (w.network plan) s plan).store.rows .sessions = s.rows .sessions :=
    hdialed.rows_eq (by decide)
  obtain ⟨hrow, hothers, hnew⟩ := ended_of_created (hdialed.ordered hordered) h.created hfits
  rw [outcome_store_of_records h]
  rw [hrows] at hnew
  refine ⟨hrow, fun id' hne => ?_, hnew⟩
  rw [hothers id' hne, hrows]

/-- Without a row for the session the sessions stay as they are. -/
theorem sessions_of_not_records
    (h : ∀ host plan hops s₁ session, ¬ Records service w s user name calls host plan hops s₁ session) :
    (service.outcome w s user name kind calls).store.rows .sessions = s.rows .sessions ∧
      ∀ id, .sessionStarted id ∉ (service.outcome w s user name kind calls).events := by
  rcases hadmission : (service.admission s user name).run calls with ⟨e | ⟨host, plan⟩, calls'⟩
  · rw [outcome_of_admission_error hadmission]
    exact ⟨rfl, by simp [Served.refused]⟩
  have hrows : (Dial.connect (w.network plan) s plan).store.rows .sessions = s.rows .sessions :=
    Dial.rewritten_connect.rows_eq (by decide)
  rcases hdial : (Dial.connect (w.network plan) s plan).result with e | hops
  · rw [outcome_of_admission hadmission]
    dsimp only
    rw [hdial]
    exact ⟨hrows, by simp [Served.refused]⟩
  have hdials : Dials service w s user name calls host plan hops := ⟨⟨calls', hadmission⟩, hdial⟩
  rw [outcome_of_dials hdials]
  rcases hopen : w.opening with e | ⟨⟩
  · exact ⟨hrows, by simp [Served.refused, Served.hangUp]⟩
  dsimp only
  rw [recordSession]
  rcases hcreate : (Dial.connect (w.network plan) s plan).store.createSession w.startedAt user.id
      host.id with e | ⟨s₁, session⟩
  · exact ⟨hrows, by simp [Served.refused, Served.hangUp]⟩
  · exact absurd ⟨hdials, hopen, hcreate⟩ (h host plan hops s₁ session)

/-! ### Texts -/

theorem relayErrorText_eq_empty_iff {result : Except Relay.RelayError Unit} :
    relayErrorText result = "" ↔ result = .ok () := by
  rcases result with e | ⟨⟩
  · have hne : e.message ≠ "" := by
      cases e with
      | closed side => exact append_ne_empty (by cases side <;> decide)
      | send side reason =>
        show "Send failed on " ++ side.word ++ " channel: " ++ reason ≠ ""
        exact append_ne_empty (append_ne_empty (append_ne_empty (by decide)))
      | task reason => exact append_ne_empty (by decide)
    exact ⟨fun h => absurd h hne, nofun⟩
  · exact ⟨fun _ => rfl, fun _ => rfl⟩

theorem endText_eq_empty_iff {id : Id} : service.endText w user kind host id = "" ↔
    (∃ opened, service.logOpening w user kind host id = .ok opened) ∧ w.relay = .ok () := by
  unfold endText
  rcases service.logOpening w user kind host id with e | opened
  · have hne : (BastionError.io e).message ≠ "" := by
      show "IO error: " ++ e.message ≠ ""
      exact append_ne_empty (by decide)
    exact ⟨fun h => absurd h hne, fun ⟨⟨_, h⟩, _⟩ => nomatch h⟩
  · rw [relayErrorText_eq_empty_iff]
    exact ⟨fun h => ⟨⟨opened, rfl⟩, h⟩, And.right⟩

/-! ### The whole life -/

/-- Without a row for a session the sessions stay as they are; with one, it is the only row that differs, it is
closed in the end, and its text is empty exactly if the relay ran well. The row is a new one unless identifiers
have run out and zero is in use. If something fails before the relay, the user is sent a line that says why,
exit status 1, the end of the data and the close, all of which reach an open channel; if the relay runs, the
user is sent nothing of the kind. Hosts that have been dialed are hung up once each. -/
theorem session_lifecycle (service : Service) (w : Surroundings) {s : Store} (hordered : s.Ordered)
    (user : User) (name : String) (kind : ChannelKind) (calls : List HookCall) :
    let served := service.outcome w s user name kind calls
    let refusal (e : BastionError) : List UserMessage :=
      [.data { data := Text.utf8 ("error: " ++ e.message ++ "\n") }, .exitStatus 1, .eof, .close]
    ((∀ host plan hops s₁ session, ¬ Records service w s user name calls host plan hops s₁ session) →
      served.store.rows .sessions = s.rows .sessions ∧ ∀ id, .sessionStarted id ∉ served.events) ∧
    (∀ host plan hops s₁ session, Records service w s user name calls host plan hops s₁ session →
      (MessagePack.encode (service.endedSession w user kind host session.id)).length ≤ valueLimit →
      Ended service w user kind host session.id s served.store) ∧
    (∀ host id, service.endText w user kind host id = "" ↔
      (∃ opened, service.logOpening w user kind host id = .ok opened) ∧ w.relay = .ok ()) ∧
    (∀ e, Fails service w s user name kind calls e →
      served.messages = refusal e ∧ Relay.UserLink.running.sendAll served.messages = (.closed, refusal e) ∧
        .relayed ∉ served.events) ∧
    ((∀ e, ¬ Fails service w s user name kind calls e) →
      served.messages = [] ∧ .relayed ∈ served.events) ∧
    (∀ host plan hops, Dials service w s user name calls host plan hops →
      hops = List.range plan.length ∧
        ∀ hop, served.events.count (.dial (.disconnected hop)) = if hop < plan.length then 1 else 0) := by
  intro served refusal
  refine ⟨sessions_of_not_records, fun host plan hops s₁ session hrecords hfits =>
    ended_of_records hordered hrecords hfits, fun host id => endText_eq_empty_iff, fun e hfails => ?_,
    fun hnone => ?_, fun host plan hops hdials =>
    ⟨(Dial.connect_eq_ok hdials.dialed).1, count_disconnected hdials⟩⟩
  · obtain ⟨s', files, before, hserved, hquiet, hnot⟩ := outcome_of_fails hfails
    have hevents : served.events = before ++ [.refused e.message] := congrArg Served.events hserved
    have hmessages : served.messages = Relay.refusal e.message := by
      rw [Served.messages, hevents, List.flatMap_append, hquiet]
      rfl
    rw [hmessages]
    exact ⟨rfl, sendAll_refusal e.message, by simp [hevents, hnot]⟩
  · obtain ⟨host, plan, hops, s₁, session, hrecords, ⟨files, place?⟩, hlog⟩ := relays_of_not_fails hnone
    have hserved : served = _ := outcome_of_records hrecords
    rw [hlog] at hserved
    have hevents := congrArg Served.events hserved
    dsimp only at hevents
    rw [Served.messages, show served.events = _ from hevents]
    exact ⟨by simp [ServiceEvent.messages], by simp⟩

/-- A user, and a host that is open to the user's group. -/
def visitor : User :=
  { id := 1, name := "alice", email := "alice@example.org", groupIds := [1] }

def visited (logging : LoggingMode) : Host :=
  { id := 1, name := "web", addr := "10.0.0.1", user := "root", password := "secret", groupIds := [1], logging }

/-- A store in which the user may visit the host. -/
def visitable (logging : LoggingMode) : Store :=
  (((Store.empty.putBytes .hosts 1 (MessagePack.encode (visited logging))).putBytes .acls 1
    (MessagePack.encode ({ id := 1, action := "allow", weight := 10 } : Acl))).putBytes .userGroups 1
      (MessagePack.encode ({ id := 1, name := "staff", aclIds := [1] } : Group))).putBytes .hostGroups 1
        (MessagePack.encode ({ id := 1, name := "servers", aclIds := [1] } : Group))

/-- A service without secrets and without a hook. -/
def plain : Service :=
  { box := ⟨none⟩, hook := none, maxHops := 16, logs := "/log" }

/-- Everything goes well until the relay, which fails. -/
def failingRelay : Surroundings where
  network := fun _ _ => { key := .ok [75, 49], accepts := fun _ => .ok true, tunnel := .ok () }
  opening := .ok ()
  files := { nodes := [(["log"], .directory)], working := [] }
  relay := .error (.closed .outbound)
  startedAt := .epoch
  openedAt := .epoch
  stoppedAt := .epoch

/-- Where the host is reached, the visitor's channel gets as far as its session's row. -/
theorem exists_records {w : Surroundings} (hnetwork : w.network = failingRelay.network)
    (hopening : w.opening = .ok ()) (hstarted : w.startedAt = .epoch) (logging : LoggingMode) :
    ∃ plan s₁ session, session.id = 1 ∧
      Records plain w (visitable logging) visitor "web" [] (visited logging) plan [0] s₁ session := by
  have hstages : ((plain.admission (visitable logging) visitor "web").run []).1.map (fun admitted =>
      let dialed := Dial.connect (failingRelay.network admitted.2) (visitable logging) admitted.2
      (admitted.1, dialed.result, (dialed.store.createSession .epoch visitor.id (visited logging).id).map
        fun created => created.2.id)) = .ok (visited logging, .ok [0], .ok 1) := by
    cases logging <;> decide +kernel
  rcases hadmission : (plain.admission (visitable logging) visitor "web").run [] with ⟨result, calls'⟩
  rw [hadmission] at hstages
  obtain ⟨⟨host, plan⟩, rfl, heq⟩ := exists_of_map_eq_ok hstages
  rw [Prod.mk.injEq, Prod.mk.injEq] at heq
  obtain ⟨rfl, hdialed, hsession⟩ := heq
  obtain ⟨⟨s₁, session⟩, hcreated, hid⟩ := exists_of_map_eq_ok hsession
  rw [← hnetwork] at hdialed hcreated
  rw [← hstarted] at hcreated
  exact ⟨plan, s₁, session, hid, ⟨⟨calls', hadmission⟩, hdialed⟩, hopening, hcreated⟩

theorem session_lifecycle_failing_relay :
    let s := visitable .disabled
    let served := plain.outcome failingRelay s visitor "web" .session []
    s.Ordered ∧ served.events = [
      .dial (.contacted 0), .dial (.trusted 0 [75, 49]), .dial (.offered 0 (.password "secret")),
      .dial (.loggedIn 0), .sessionStarted 1, .relayed, .sessionStopped 1, .dial (.disconnected 0)] ∧
    plain.endText failingRelay visitor .session (visited .disabled) 1 = "outbound channel closed" ∧
    Ended plain failingRelay visitor .session (visited .disabled) 1 s served.store := by
  intro s served
  have hordered : s.Ordered := by
    intro t
    cases t <;> decide +kernel
  have hfits : (MessagePack.encode (plain.endedSession failingRelay visitor .session (visited .disabled) 1)).length ≤
      valueLimit := by
    decide +kernel
  obtain ⟨plan, s₁, session, hid, hrecords⟩ := exists_records (w := failingRelay) rfl rfl rfl .disabled
  have hlife := session_lifecycle plain failingRelay hordered visitor "web" .session []
  refine ⟨hordered, by decide +kernel, by decide +kernel, ?_⟩
  have hended := hlife.2.1 _ plan [0] s₁ session hrecords
  rw [hid] at hended
  exact hended hfits

/-- The store with two sessions of another user: one has the greatest identifier of all, and the next one got
zero after it. -/
def crowded : Store :=
  let other (id : Id) : Session := { id, userId := 2, hostId := 1, status := .closed, createdAt := .epoch }
  ((visitable .disabled).putBytes .sessions 0 (MessagePack.encode (other 0))).putBytes .sessions lastId
    (MessagePack.encode (other lastId))

/-- In this store the visitor's session gets no row of its own: it takes the place of one of the other user's. -/
theorem session_row_replaced :
    let served := plain.outcome failingRelay crowded visitor "web" .session []
    .sessionStarted 0 ∈ served.events ∧ (crowded.rows .sessions).map Prod.fst = [0, lastId] ∧
    (served.store.rows .sessions).map Prod.fst = [0, lastId] ∧
    (crowded.session 0).map (Option.map Session.userId) = .ok (some 2) ∧
    (served.store.session 0).map (Option.map Session.userId) = .ok (some 1) := by
  intro served
  refine ⟨?_, ?_, ?_, ?_, ?_⟩
  all_goals decide +kernel

end Service

end Gatehouse.Bastion

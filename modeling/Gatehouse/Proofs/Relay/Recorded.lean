import Gatehouse.Proofs.Relay.Data
import Gatehouse.Proofs.Relay.RecordWay

/-!
# Nothing passes unrecorded

`Channel.audited_of_run`: in every run of a relayed channel in which writing to the disk succeeds, the books
are kept (`Channel.Audited`). What each copying task has handed on is a beginning of what was recorded on
the same way, the commands under way to the host are among the recorded ones, in their order, and each
record that was put into the log has been written as a whole or still waits.

Proof. What a run records, takes and hands on is told by its steps (`Channel.entries`,
`Channel.commandsTaken`, `Channel.handed`). A step either passes by the pipe and records nothing
(`bypasses_of_alone`), or it books what the step of the pipe says (`books_of_prepares`), and the tasks of
the pipe record before they pass on (`Pipe.Keeps.step`, `Pipe.Notes.step`). A command that has been recorded
only moves on, from the forwarding task to the owner and from there to the host (`underway_of_alone`,
`underway_of_prepares`).
-/

namespace Gatehouse.Relay

open Recording (Log SessionStreams Stream WriteOutcome)
open Time (Unix)

/-! ### What is recorded -/

/-- Where something that is recorded comes from. -/
inductive Origin where
  | user
  /-- The user has it executed. -/
  | command
  | host
deriving DecidableEq

/-- Something that is put into the log of a channel. -/
structure LogEntry where
  origin : Origin
  time : Unix
  payload : Bytes
deriving DecidableEq

def Side.origin : Side → Origin
  | .inbound => .user
  | .outbound => .host

/-- How something is recorded. -/
def streamOf (streams : SessionStreams) : Origin → Stream
  | .user => streams.input.getD .disabled
  | .command => streams.commands
  | .host => streams.output.getD .disabled

def LogEntry.encode (streams : SessionStreams) (entry : LogEntry) : Bytes :=
  (streamOf streams entry.origin).encode entry.time entry.payload

/-- The payloads from one origin, in their order. -/
def payloads (origin : Origin) (entries : List LogEntry) : List Bytes :=
  (entries.filter fun entry => entry.origin = origin).map LogEntry.payload

/-- The data of blocks, without those that are empty. -/
def contents (chunks : List Chunk) : List Bytes :=
  (chunks.map Chunk.data).filter fun data => !data.isEmpty

@[simp] theorem payloads_append (origin : Origin) (entries more : List LogEntry) :
    payloads origin (entries ++ more) = payloads origin entries ++ payloads origin more := by
  rw [payloads, List.filter_append, List.map_append]
  rfl

@[simp] theorem contents_append (chunks more : List Chunk) :
    contents (chunks ++ more) = contents chunks ++ contents more := by
  rw [contents, List.map_append, List.filter_append]
  rfl

def PipeAction.records : PipeAction → Bool
  | .recorded _ _ | .recordedCommand _ => true
  | _ => false

/-- The payloads from an origin that a step of a pipe records. -/
def PipeAction.payloadsRecorded (origin : Origin) : PipeAction → List Bytes
  | .recorded side chunk => if chunk.data.isEmpty ∨ side.origin ≠ origin then [] else [chunk.data]
  | .recordedCommand command => if .command ≠ origin then [] else [command ++ [10]]
  | _ => []

theorem payloadsRecorded_command (a : PipeAction) :
    a.payloadsRecorded .command = a.commandRecorded.map (· ++ [10]) := by
  cases a with
  | recorded side chunk =>
    cases side <;> simp [PipeAction.payloadsRecorded, PipeAction.commandRecorded, Side.origin]
  | recordedCommand command => simp [PipeAction.payloadsRecorded, PipeAction.commandRecorded]
  | _ => rfl

theorem contents_blockRecorded (source : Side) (a : PipeAction) :
    contents (a.blockRecorded source) = a.payloadsRecorded source.origin := by
  cases a with
  | recorded side chunk =>
    by_cases hempty : chunk.data.isEmpty = true
    · cases side <;> cases source <;>
        simp [PipeAction.blockRecorded, PipeAction.payloadsRecorded, contents, hempty]
    · cases side <;> cases source <;>
        simp [PipeAction.blockRecorded, PipeAction.payloadsRecorded, contents, hempty, Side.origin]
  | recordedCommand command => cases source <;> rfl
  | _ => rfl

def Command.exec? : Command → Option Bytes
  | .request _ asked _ => asked.exec?
  | .close _ => none

def OwnerEffect.sent? : OwnerEffect → Option Incoming
  | .sent request wantReply => some { request, wantReply }
  | _ => none

namespace Owner

theorem sent_obey (o : Owner) (sending : Except String Unit) (command : Command) :
    (o.obey sending command).2.filterMap OwnerEffect.sent? = [] ∨
      ∃ call request wantReply, command = .request call request wantReply ∧
        (o.obey sending command).2.filterMap OwnerEffect.sent? = [{ request, wantReply }] := by
  cases command with
  | request call request wantReply =>
    simp only [obey]
    split
    · exact .inl rfl
    · rcases sending with reason | ⟨⟩
      · exact .inl rfl
      · right
        refine ⟨call, request, wantReply, rfl, ?_⟩
        dsimp only
        split
        · rfl
        · rfl
  | close call =>
    left
    simp only [obey]
    split
    · rfl
    · rfl

theorem sent_receive (o : Owner) (message : HostMessage) :
    (o.receive message).2.filterMap OwnerEffect.sent? = [] := by
  have hverdict (accepted : Bool) : (o.verdict accepted).2.filterMap OwnerEffect.sent? = [] := by
    unfold verdict
    split
    · rfl
    · rfl
  cases message with
  | success => exact hverdict true
  | failure => exact hverdict false
  | close =>
    rw [receive, List.filterMap_map]
    exact List.filterMap_eq_nil_iff.mpr fun _ _ => rfl
  | data | eof | exitStatus | exitSignal | other => rfl

end Owner

namespace Channel

variable {c c' c₁ : Channel} {action : ChannelAction} {a : PipeAction} {p : Pipe}

def entry (c : Channel) (origin : Origin) (t : Unix) (payload : Bytes) : List LogEntry :=
  if payload.isEmpty ∨ streamOf c.streams origin = .disabled then []
  else [{ origin, time := t, payload }]

/-- What a step puts into the log. -/
def entries (c : Channel) : ChannelAction → List LogEntry
  | .task (.data source) _ now =>
    match c.pipe.copying source with
    | .recording chunk => c.entry source.origin now chunk.data
    | _ => []
  | .task (.requests .inbound) _ now =>
    match c.pipe.forwarding .inbound with
    | .recording incoming =>
      match incoming.request with
      | .exec command => c.entry .command now (command ++ [10])
      | _ => []
    | _ => []
  | _ => []

/-- The command that a step takes from the user. -/
def commandsTaken (c : Channel) : ChannelAction → List Bytes
  | .task (.requests .inbound) _ _ =>
    match c.pipe.forwarding .inbound, c.feed.takeRequest with
    | .waiting, (_, .item incoming, _) => incoming.request.exec?.toList
    | _, _ => []
  | _ => []

/-- The block that a step hands to the other side. -/
def handed (source : Side) (c : Channel) : ChannelAction → List Chunk
  | .task (.data side) _ _ =>
    match c.pipe.copying side with
    | .writing chunk => if side = source then [chunk] else []
    | _ => []
  | _ => []

/-- What the steps of a run come to, one after the other. -/
def along {α : Type} (f : Channel → ChannelAction → List α) (c : Channel) : List ChannelAction → List α
  | [] => []
  | action :: more =>
    match c.step? action with
    | some c' => f c action ++ c'.along f more
    | none => []

theorem record?_log {record : Option Bytes} (h : c.record? record = some c₁) :
    c₁ = { c with log := c.log.append record } := by
  unfold record? at h
  split_ifs at h
  cases h
  rfl

theorem record?_entry (origin : Origin) (t : Unix) (payload : Bytes) :
    ((streamOf c.streams origin).record? t payload).toList =
      (c.entry origin t payload).map (LogEntry.encode c.streams) := by
  rw [Stream.record?_eq, entry]
  split_ifs
  · rfl
  · rfl

/-- The steps in which the pipe takes none record nothing and hand on nothing. -/
structure Bypasses (c : Channel) (action : ChannelAction) (c' : Channel) : Prop where
  pipe : c'.pipe = c.pipe
  streams : c'.streams = c.streams
  log : c'.log = c.log ∨ ∃ outcome, action = .write outcome ∧ c'.log = c.log.write outcome
  entries : c.entries action = []
  taken : c.commandsTaken action = []
  handed : ∀ source, c.handed source action = []
  dataToHost : c'.passed.dataToHost = c.passed.dataToHost

theorem bypasses_of_alone (h : Alone c action c') : Bypasses c action c' := by
  cases h with
  | @user input =>
    obtain ⟨callback, nextAsker, feed, link, fromUser, toUser, verdicts, heq⟩ := c.handles_call input
    rw [heq]
    exact ⟨rfl, rfl, .inl rfl, rfl, rfl, fun _ => rfl, rfl⟩
  | handler hresume =>
    obtain ⟨callback, nextAsker, feed, link, fromUser, toUser, verdicts, rfl⟩ := handles_resume? hresume
    exact ⟨rfl, rfl, .inl rfl, rfl, rfl, fun _ => rfl, rfl⟩
  | ask hstate =>
    refine ⟨rfl, rfl, .inl rfl, ?_, ?_, fun _ => rfl, rfl⟩
    · simp only [Channel.entries, hstate]
    · simp only [commandsTaken, hstate]
  | deliver | lost | askToClose | host => exact ⟨rfl, rfl, .inl rfl, rfl, rfl, fun _ => rfl, rfl⟩
  | write => exact ⟨rfl, rfl, .inr ⟨_, rfl, rfl⟩, rfl, rfl, fun _ => rfl, rfl⟩
  | @release _ effects | @read _ _ _ effects | @obey _ _ _ _ effects | @finish _ effects =>
    obtain ⟨answered, closeAnswered, requestsToHost, closes, heq⟩ := effects_eq effects _
    rw [heq]
    exact ⟨rfl, rfl, .inl rfl, rfl, rfl, fun _ => rfl, rfl⟩

theorem payloads_entry (origin of : Origin) (t : Unix) (payload : Bytes) :
    payloads of (c.entry origin t payload) =
      if streamOf c.streams of = .disabled then []
      else if payload.isEmpty ∨ origin ≠ of then [] else [payload] := by
  unfold entry
  by_cases hof : origin = of
  · subst hof
    split_ifs <;> simp_all [payloads]
  · split_ifs <;> simp_all [payloads]

/-- What the rest of a channel leaves as it is, of what is recorded and of what is asked of the host. -/
structure Leaves (c : Channel) (a : PipeAction) (c₁ : Channel) : Prop where
  streams : c₁.streams = c.streams
  log : a.records = false → c₁.log = c.log
  requestsToHost : c₁.passed.requestsToHost = c.passed.requestsToHost
  forwardCall : a.worker? ≠ some (.requests .inbound) → c₁.forwardCall = c.forwardCall

theorem leaves_of_prepares (hprepares : Prepares c action a c₁) : Leaves c a c₁ := by
  have hdelivers {feed : Feed} (verdicts : List FeedVerdict) :
      Leaves c a ({ c with feed }.deliverVerdicts verdicts) := by
    obtain ⟨callback, toUser, told, -, heq⟩ := deliverVerdicts_eq { c with feed } verdicts
    rw [heq]
    exact ⟨rfl, fun _ => rfl, rfl, fun _ => rfl⟩
  cases hprepares with
  | recordFromUser hrecord | recordFromHost hrecord | recordCommand hrecord =>
    cases record?_log hrecord
    exact ⟨rfl, nofun, rfl, fun _ => rfl⟩
  | @writeToHost writing _ chunk _ _ hwrite =>
    obtain ⟨dataToHost, heq⟩ := c.writeToHost_eq chunk writing
    rw [hwrite] at heq
    cases heq
    exact ⟨rfl, fun _ => rfl, rfl, fun _ => rfl⟩
  | @halfCloseHost writing _ _ _ hhalf =>
    obtain ⟨halfCloses, heq⟩ := c.halfCloseHost_eq writing
    rw [hhalf] at heq
    cases heq
    exact ⟨rfl, fun _ => rfl, rfl, fun _ => rfl⟩
  | writeToUser hpost | halfCloseUser hpost | closeUser hpost =>
    obtain ⟨outbox, rfl⟩ := post?_eq hpost
    exact ⟨rfl, fun _ => rfl, rfl, fun _ => rfl⟩
  | sendToUser hsend =>
    obtain ⟨outbox, rfl⟩ := requestToUser?_eq hsend
    exact ⟨rfl, fun _ => rfl, rfl, fun _ => rfl⟩
  | takeFromUser | takeEndFromUser | replyToUser => exact hdelivers _
  | collect => exact ⟨rfl, fun _ => rfl, rfl, fun hother => absurd rfl hother⟩
  | _ => exact ⟨rfl, fun _ => rfl, rfl, fun _ => rfl⟩

/-- What a step of the pipe puts into the log, and what it hands on. -/
structure Books (c : Channel) (action : ChannelAction) (a : PipeAction) (c₁ : Channel) : Prop where
  log : ∃ record, c₁.log = c.log.append record ∧
    record.toList = (c.entries action).map (LogEntry.encode c.streams)
  payloads : ∀ origin, payloads origin (c.entries action) =
    if streamOf c.streams origin = .disabled then [] else a.payloadsRecorded origin
  handed : ∀ source, c.handed source action = a.blockHanded source

/-- One payload is recorded, if it is not empty and if its origin is recorded at all. -/
theorem books_of_record {record : Option Bytes} {origin : Origin} {now : Unix} {payload : Bytes}
    (hrecord : c.record? record = some c₁)
    (hstream : record = (streamOf c.streams origin).record? now payload)
    (hentries : c.entries action = c.entry origin now payload)
    (hpayloads : ∀ of, a.payloadsRecorded of = if payload.isEmpty ∨ origin ≠ of then [] else [payload])
    (hhanded : ∀ source, c.handed source action = a.blockHanded source) : Books c action a c₁ := by
  cases record?_log hrecord
  refine ⟨⟨record, rfl, ?_⟩, fun of => ?_, hhanded⟩
  · rw [hstream, hentries, record?_entry]
  · rw [hentries, payloads_entry, hpayloads]

theorem books_of_quiet (hleaves : Leaves c a c₁) (hquiet : a.records = false)
    (hentries : c.entries action = [])
    (hhanded : ∀ source, c.handed source action = a.blockHanded source) : Books c action a c₁ := by
  refine ⟨⟨none, hleaves.log hquiet, by rw [hentries]; rfl⟩, fun origin => ?_, hhanded⟩
  have hnone : a.payloadsRecorded origin = [] := by
    cases a with
    | recorded | recordedCommand => cases hquiet
    | _ => rfl
  rw [hentries, hnone, ite_self]
  rfl

theorem books_of_prepares (hprepares : Prepares c action a c₁) (hstep : Pipe.Step c.pipe a p) :
    Books c action a c₁ := by
  have hleaves := leaves_of_prepares hprepares
  cases hprepares with
  | recordFromUser hrecord | recordFromHost hrecord =>
    cases hstep with
    | recorded hstate =>
      refine books_of_record hrecord rfl ?_ (fun _ => rfl) fun _ => ?_
      · simp only [entries, hstate]
      · simp only [Channel.handed, hstate, PipeAction.blockHanded]
  | @recordCommand _ now command _ hrecord =>
    cases hstep with
    | recordedCommand hstate hexec =>
      have hline : c.streams.commands.recordLine? now command =
        (streamOf c.streams .command).record? now (command ++ [10]) := rfl
      refine books_of_record hrecord hline ?_ (fun of => ?_) fun _ => rfl
      · simp only [entries, hstate, hexec]
      · simp [PipeAction.payloadsRecorded]
  | readFromUser | readFromHost =>
    cases hstep with
    | readChunk hstate =>
      exact books_of_quiet hleaves rfl (by simp only [entries, hstate])
        fun _ => by simp only [Channel.handed, hstate, PipeAction.blockHanded]
  | readEndFromUser | readEndFromHost =>
    cases hstep with
    | readEnd hstate =>
      exact books_of_quiet hleaves rfl (by simp only [entries, hstate])
        fun _ => by simp only [Channel.handed, hstate, PipeAction.blockHanded]
  | writeToHost | writeToUser =>
    cases hstep with
    | wrote hstate | writeError hstate =>
      exact books_of_quiet hleaves rfl (by simp only [entries, hstate])
        fun _ => by simp only [Channel.handed, hstate, PipeAction.blockHanded]
  | halfCloseHost | halfCloseUser =>
    cases hstep with
    | halfClosed hstate =>
      exact books_of_quiet hleaves rfl (by simp only [entries, hstate])
        fun _ => by simp only [Channel.handed, hstate, PipeAction.blockHanded]
  | takeFromUser =>
    cases hstep with
    | took hstate => exact books_of_quiet hleaves rfl (by simp only [entries, hstate]) fun _ => rfl
  | takeEndFromUser =>
    cases hstep with
    | tookEnd hstate => exact books_of_quiet hleaves rfl (by simp only [entries, hstate]) fun _ => rfl
  | sendToEnded =>
    cases hstep with
    | sendError hstate => exact books_of_quiet hleaves rfl (by simp only [entries, hstate]) fun _ => rfl
  | collect =>
    cases hstep with
    | sent hstate | sendError hstate =>
      exact books_of_quiet hleaves rfl (by simp only [entries, hstate]) fun _ => rfl
  | replyToUser =>
    cases hstep with
    | replied hstate => exact books_of_quiet hleaves rfl (by simp only [entries, hstate]) fun _ => rfl
  | _ => exact books_of_quiet hleaves rfl rfl fun _ => rfl

theorem taken_of_prepares (hprepares : Prepares c action a c₁) (hstep : Pipe.Step c.pipe a p) :
    c.commandsTaken action = a.commandTaken := by
  cases hprepares with
  | takeFromUser htake =>
    cases hstep with
    | took hstate => simp only [commandsTaken, hstate, htake, PipeAction.commandTaken]
  | takeEndFromUser htake =>
    cases hstep with
    | tookEnd hstate => simp only [commandsTaken, hstate, htake, PipeAction.commandTaken]
  | recordCommand =>
    cases hstep with
    | recordedCommand hstate => simp only [commandsTaken, hstate, PipeAction.commandTaken]
  | sendToEnded =>
    cases hstep with
    | sendError hstate => simp only [commandsTaken, hstate, PipeAction.commandTaken]
  | collect =>
    cases hstep with
    | sent hstate | sendError hstate => simp only [commandsTaken, hstate, PipeAction.commandTaken]
  | replyToUser =>
    cases hstep with
    | replied hstate => simp only [commandsTaken, hstate, PipeAction.commandTaken]
  | _ => rfl

/-! ### Commands on their way -/

/-- The command that the owner is still to be asked for. -/
def unasked (c : Channel) : Option Bytes :=
  match c.pipe.forwarding .inbound, c.forwardCall with
  | .sending incoming, none => incoming.request.exec?
  | _, _ => none

/-- The commands that the host has been sent, and those that it may yet be sent. -/
def underway (c : Channel) : List Bytes :=
  c.passed.requestsToHost.filterMap (fun incoming => incoming.request.exec?) ++
    (c.commands.filterMap Command.exec? ++ c.unasked.toList)

theorem filterMap_exec (call : CallId) (request : Request) (wantReply : Bool) :
    [Command.request call request wantReply].filterMap Command.exec? = request.exec?.toList := by
  cases hexec : request.exec? <;> simp [Command.exec?, hexec]

theorem requestsToHost_effects (effects : List OwnerEffect) (c : Channel) :
    (effects.foldl effect c).passed.requestsToHost =
      c.passed.requestsToHost ++ effects.filterMap OwnerEffect.sent? := by
  induction effects generalizing c with
  | nil => exact (List.append_nil _).symm
  | cons e effects ih =>
    rw [List.foldl_cons, ih]
    cases e with
    | sent => simp [effect, OwnerEffect.sent?]
    | closed | answered | closeAnswered => rfl

/-- What the owner does sends no command, unless it is one that it was asked to send. -/
theorem underway_effects {effects : List OwnerEffect} (c : Channel) :
    (effects.foldl effect c).underway =
      c.passed.requestsToHost.filterMap (fun incoming => incoming.request.exec?) ++
        ((effects.filterMap OwnerEffect.sent?).filterMap (fun incoming => incoming.request.exec?) ++
          (c.commands.filterMap Command.exec? ++ c.unasked.toList)) := by
  have hsent := requestsToHost_effects effects c
  obtain ⟨answered, closeAnswered, requestsToHost, closes, heq⟩ := effects_eq effects c
  rw [heq] at hsent ⊢
  rw [underway, hsent, List.filterMap_append, List.append_assoc]
  rfl

/-- Apart from recording, a command only goes on its way or is dropped. -/
theorem underway_of_alone (h : Alone c action c') : c'.underway.Sublist c.underway := by
  have heffects {c₀ : Channel} (effects : List OwnerEffect)
      (hsilent : effects.filterMap OwnerEffect.sent? = []) (hsame : c₀.underway = c.underway) :
      (effects.foldl effect c₀).underway.Sublist c.underway := by
    rw [underway_effects, hsilent, ← hsame]
    exact List.Sublist.refl _
  cases h with
  | @user input =>
    obtain ⟨callback, nextAsker, feed, link, fromUser, toUser, verdicts, heq⟩ := c.handles_call input
    rw [heq]
    exact List.Sublist.refl _
  | handler hresume =>
    obtain ⟨callback, nextAsker, feed, link, fromUser, toUser, verdicts, rfl⟩ := handles_resume? hresume
    exact List.Sublist.refl _
  | deliver | lost | host | write => exact List.Sublist.refl _
  | @ask _ _ incoming hstate hcall =>
    -- The command moves on from the forwarding task to the owner.
    have hunasked : c.unasked = incoming.request.exec? := by rw [unasked, hstate, hcall]
    simp only [underway, List.filterMap_append, hunasked]
    simp [unasked, hstate, filterMap_exec]
  | askToClose => simp [underway, unasked, Command.exec?]
  | release hstep =>
    obtain ⟨-, -, -, rfl, rfl⟩ := Owner.step?_release hstep
    exact List.Sublist.refl _
  | @read message inbox owner effects _ hstep =>
    obtain ⟨-, -, -, hreceive⟩ := Owner.step?_message hstep
    refine heffects effects ?_ rfl
    rw [← c.owner.sent_receive message, hreceive]
  | @finish _ effects _ hstep =>
    obtain ⟨-, rfl, rfl⟩ := Owner.step?_finish hstep
    refine heffects _ ?_ rfl
    rw [List.filterMap_append, List.filterMap_map, List.append_eq_nil_iff]
    refine ⟨?_, List.filterMap_eq_nil_iff.mpr fun _ _ => rfl⟩
    split_ifs <;> rfl
  | @obey command commands sending owner effects hcommands hstep =>
    -- The owner sends what it was asked to send, or drops it.
    obtain ⟨-, hobey⟩ := Owner.step?_command hstep
    have hsent := c.owner.sent_obey sending command
    rw [hobey] at hsent
    rw [underway_effects, underway, hcommands]
    refine (List.Sublist.refl _).append ?_
    rcases hsent with hnone | ⟨call, request, wantReply, rfl, hsent⟩
    · rw [hnone]
      exact (((List.sublist_cons_self command commands).filterMap _).append (List.Sublist.refl _))
    · rw [hsent]
      cases hexec : request.exec? <;> simp only [hexec, Command.exec?, List.filterMap_cons]
      · exact List.Sublist.refl _
      · exact List.Sublist.refl _

/-- A task only comes to have a command to send by recording it. -/
theorem sending_of_step (hstep : Pipe.Step c.pipe a p) (hrecords : c.pipe.recording.commands = true)
    (hmine : a.worker? = some (.requests .inbound)) {incoming : Incoming}
    (hsending : p.forwarding .inbound = .sending incoming) :
    incoming.request.exec?.toList.map (· ++ [10]) = a.payloadsRecorded .command := by
  cases hstep with
  | @took source taken =>
    cases hmine
    rw [Pipe.forwarding_setForwarding] at hsending
    cases hrequest : taken.request with
    | exec =>
      simp only [Pipe.afterTake, hrequest, hrecords, if_true] at hsending
      cases hsending
    | _ =>
      simp only [Pipe.afterTake, hrequest] at hsending
      cases hsending
      rw [hrequest]
      rfl
  | @recordedCommand held command _ hexec =>
    rw [Pipe.forwarding_setForwarding] at hsending
    cases hsending
    rw [hexec]
    rfl
  | @sent source held accepted =>
    cases hmine
    rw [Pipe.forwarding_setForwarding] at hsending
    split_ifs at hsending
  | tookEnd | sendError | replied | replyError =>
    cases hmine
    rw [Pipe.forwarding_setForwarding] at hsending
    cases hsending
  | _ => cases hmine

theorem unasked_of_prepares (hprepares : Prepares c action a c₁) (hstep : Pipe.Step c.pipe a p)
    (hrecords : c.pipe.recording.commands = true) :
    ((unasked { c₁ with pipe := p }).toList.map (· ++ [10])).Sublist
      (c.unasked.toList.map (· ++ [10]) ++ a.payloadsRecorded .command) := by
  -- The call to the owner is made by the forwarding task itself, so no other step opens or ends it.
  by_cases hmine : a.worker? = some (.requests .inbound)
  · unfold unasked
    split
    · next incoming hsending _ =>
      rw [sending_of_step hstep hrecords hmine hsending]
      exact List.sublist_append_right _ _
    · exact List.nil_sublist _
  · have hcall := (leaves_of_prepares hprepares).forwardCall hmine
    rcases Pipe.unmoved_of_step hstep hmine with hsame | hgone
    · have hunmoved : unasked { c₁ with pipe := p } = c.unasked := by
        simp only [unasked, hcall, show p.forwarding .inbound = c.pipe.forwarding .inbound from hsame]
      rw [hunmoved]
      exact List.sublist_append_left _ _
    · have hnone : unasked { c₁ with pipe := p } = none := by
        simp only [unasked, Pipe.isGone_requests.mp hgone]
      rw [hnone]
      exact List.nil_sublist _

theorem underway_of_prepares (hprepares : Prepares c action a c₁) (hstep : Pipe.Step c.pipe a p)
    (hrecords : c.pipe.recording.commands = true) :
    ((underway { c₁ with pipe := p }).map (· ++ [10])).Sublist
      (c.underway.map (· ++ [10]) ++ a.payloadsRecorded .command) := by
  have hunasked := unasked_of_prepares hprepares hstep hrecords
  simp only [underway, (leaves_of_prepares hprepares).requestsToHost,
    (aside_of_prepares hprepares).commands, List.map_append, List.append_assoc]
  exact (List.Sublist.refl _).append ((List.Sublist.refl _).append hunasked)

/-! ### What has been recorded -/

/-- The books of a channel. Of what is recorded, every block was recorded before it was handed on, and every
command was recorded once, after it was taken and before it went on its way. -/
structure Audited (c : Channel) (entries : List LogEntry) (taken : List Bytes)
    (handed : Side → List Chunk) : Prop where
  log : c.log.Sound (entries.map (LogEntry.encode c.streams))
  enabled : ∀ origin, streamOf c.streams origin = .disabled → payloads origin entries = []
  ahead : ∀ source, streamOf c.streams source.origin ≠ .disabled →
    ∃ recorded, c.pipe.Keeps source recorded (handed source) ∧
      payloads source.origin entries = contents recorded
  notes : c.streams.commands ≠ .disabled →
    ∃ noted, c.pipe.Notes taken noted ∧ payloads .command entries = noted.map (· ++ [10])
  underway : c.streams.commands ≠ .disabled →
    (c.underway.map (· ++ [10])).Sublist (payloads .command entries)
  received : (c.passed.dataToHost.map Chunk.data).Sublist ((handed .inbound).map Chunk.data)

variable {entries : List LogEntry} {taken : List Bytes} {handed : Side → List Chunk}

theorem records_of_stream {streams : SessionStreams} {source : Side}
    (h : streamOf streams source.origin ≠ .disabled) :
    (start streams).pipe.recording.data source = true := by
  cases source with
  | inbound =>
    cases hinput : streams.input with
    | none => simp [streamOf, Side.origin, hinput] at h
    | some stream => simp [start, hinput]
  | outbound =>
    cases houtput : streams.output with
    | none => simp [streamOf, Side.origin, houtput] at h
    | some stream => simp [start, houtput]

theorem Audited.alone (h : Audited c entries taken handed) (hstep : Alone c action c')
    (hdisk : ∀ outcome, action = .write outcome → outcome = .written) : Audited c' entries taken handed := by
  have hbypasses := bypasses_of_alone hstep
  refine ⟨?_, ?_, ?_, ?_, ?_, ?_⟩
  · rw [hbypasses.streams]
    rcases hbypasses.log with hsame | ⟨outcome, hwrite, hlog⟩
    · rw [hsame]
      exact h.log
    · rw [hlog, hdisk outcome hwrite]
      exact h.log.write
  · rw [hbypasses.streams]
    exact h.enabled
  · rw [hbypasses.streams, hbypasses.pipe]
    exact h.ahead
  · rw [hbypasses.streams, hbypasses.pipe]
    exact h.notes
  · rw [hbypasses.streams]
    exact fun hcommands => ((underway_of_alone hstep).map _).trans (h.underway hcommands)
  · rw [hbypasses.dataToHost]
    exact h.received

theorem Audited.dropEnded (h : Audited c entries taken handed) : Audited c.dropEnded entries taken handed := by
  obtain ⟨callback, feed, demux, toUser, told, -, -, -, -, heq⟩ := c.dropEnded_eq
  rw [heq]
  exact ⟨h.log, h.enabled, h.ahead, h.notes, h.underway, h.received⟩

theorem received_of_prepares (hprepares : Prepares c action a c₁) :
    (c₁.passed.dataToHost.map Chunk.data).Sublist
      (c.passed.dataToHost.map Chunk.data ++ (a.blockHanded .inbound).map Chunk.data) := by
  have haside := aside_of_prepares hprepares
  by_cases hmine : a.worker? = some (.data .inbound)
  · have hquiet (hsame : c₁.passed.dataToHost = c.passed.dataToHost) :
        (c₁.passed.dataToHost.map Chunk.data).Sublist
          (c.passed.dataToHost.map Chunk.data ++ (a.blockHanded .inbound).map Chunk.data) := by
      rw [hsame]
      exact List.sublist_append_left _ _
    cases hprepares with
    | readFromUser | readEndFromUser => exact hquiet rfl
    | recordFromUser hrecord =>
      obtain ⟨log, rfl⟩ := record?_eq hrecord
      exact hquiet rfl
    | @halfCloseHost writing _ _ _ hhalf =>
      obtain ⟨halfCloses, heq⟩ := c.halfCloseHost_eq writing
      rw [hhalf] at heq
      cases heq
      exact hquiet rfl
    | @writeToHost _ _ chunk _ _ hwrite =>
      rcases writeToHost_cases hwrite with ⟨-, rfl, -⟩ | ⟨e, rfl, -⟩ | ⟨-, -, rfl⟩
      · exact hquiet rfl
      · exact hquiet rfl
      · have hcarried : ((Lane.ofChunk chunk).carry chunk.data).data = chunk.data := by
          cases Lane.ofChunk chunk <;> rfl
        simp [PipeAction.blockHanded, hcarried]
    | _ => cases hmine
  · rw [(haside.toHost hmine).2]
    exact List.sublist_append_left _ _

theorem Audited.along (h : Audited c entries taken handed)
    (hrecording : c.pipe.recording = (start c.streams).pipe.recording) (horderly : Pipe.Orderly c.pipe)
    (hprepares : Prepares c action a c₁) (hstep : Pipe.Step c.pipe a p) :
    Audited { c₁ with pipe := p } (entries ++ c.entries action) (taken ++ c.commandsTaken action)
      fun source => handed source ++ c.handed source action := by
  have hleaves := leaves_of_prepares hprepares
  have hbooks := books_of_prepares hprepares hstep
  have hstreams : ({ c₁ with pipe := p } : Channel).streams = c.streams := hleaves.streams
  have hrecords : c.pipe.recording.commands = true := by
    rw [hrecording]
    rfl
  have hcommand (hcommands : c.streams.commands ≠ .disabled) :
      payloads .command (c.entries action) = a.payloadsRecorded .command := by
    rw [hbooks.payloads]
    exact if_neg hcommands
  refine ⟨?_, ?_, ?_, ?_, ?_, ?_⟩
  · obtain ⟨record, hlog, hrecord⟩ := hbooks.log
    rw [hstreams, List.map_append, ← hrecord]
    show Log.Sound c₁.log _
    rw [hlog]
    exact h.log.append record
  · intro origin hdisabled
    rw [hstreams] at hdisabled
    rw [payloads_append, h.enabled origin hdisabled, hbooks.payloads, if_pos hdisabled]
    rfl
  · intro source hrecorded
    rw [hstreams] at hrecorded
    obtain ⟨recorded, hkeeps, hpayloads⟩ := h.ahead source hrecorded
    have hdata : c.pipe.recording.data source = true := by
      rw [hrecording]
      exact records_of_stream hrecorded
    refine ⟨recorded ++ a.blockRecorded source, ?_, ?_⟩
    · rw [hbooks.handed]
      exact hkeeps.step hdata horderly hstep
    · rw [payloads_append, hbooks.payloads, if_neg hrecorded, contents_append,
        contents_blockRecorded, hpayloads]
  · intro hcommands
    rw [hstreams] at hcommands
    obtain ⟨noted, hnotes, hpayloads⟩ := h.notes hcommands
    refine ⟨noted ++ a.commandRecorded, ?_, ?_⟩
    · rw [taken_of_prepares hprepares hstep]
      exact hnotes.step hrecords horderly hstep
    · rw [payloads_append, hcommand hcommands, payloadsRecorded_command, List.map_append, hpayloads]
  · intro hcommands
    rw [hstreams] at hcommands
    rw [payloads_append, hcommand hcommands]
    exact (underway_of_prepares hprepares hstep hrecords).trans
      ((h.underway hcommands).append (List.Sublist.refl _))
  · rw [List.map_append, hbooks.handed]
    exact (received_of_prepares hprepares).trans (h.received.append (List.Sublist.refl _))

theorem Audited.step (h : Audited c entries taken handed)
    (hrecording : c.pipe.recording = (start c.streams).pipe.recording) (horderly : Pipe.Orderly c.pipe)
    (hdisk : ∀ outcome, action = .write outcome → outcome = .written)
    (hstep : c.step? action = some c') :
    Audited c' (entries ++ c.entries action) (taken ++ c.commandsTaken action)
      fun source => handed source ++ c.handed source action := by
  rcases step_of_step? hstep with halone | ⟨a, c₁, p, hprepares, hpipe, rfl⟩
  · have hbypasses := bypasses_of_alone halone
    simp only [hbypasses.entries, hbypasses.taken, hbypasses.handed, List.append_nil]
    exact h.alone halone hdisk
  · have hnext := Pipe.step_of_step? hpipe
    rw [(aside_of_prepares hprepares).pipe] at hnext
    exact (h.along hrecording horderly hprepares hnext).dropEnded

/-- A pipe that returns a success has seen the user's requests come to their end. -/
theorem Relays.reported {cut : Prop} {written : List Chunk} (h : Relays c cut written)
    (hok : c.pipe.result? = some (.ok ())) : c.pipe.Reported (.requests .inbound) :=
  .inr (h.late.earned (.inr (Pipe.control_of_result? hok)) _)

end Channel

end Gatehouse.Relay

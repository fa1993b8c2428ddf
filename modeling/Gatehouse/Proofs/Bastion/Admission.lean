import Gatehouse.Bastion.Service
import Gatehouse.Proofs.Dial.Chain
import Gatehouse.Proofs.Store.Find

/-!
# Who is let through to a host

`dialed_of_admitted_else_untouched`: however a connection has been authenticated, opening a channel
on it either dials the plan that its target resolves to, and then everything that admission asks for
holds (`Admitted`), or it does nothing but refuse.

Proof. A connection is relayed only in the host intent with a user and without a deferred error
(`openChannel_cases`). Authentication sets the intent and the user together, or leaves the two as they
were, or sets an intent that is not a host; so whenever there are a host intent and a user, both come
from the last key that was accepted (`Grounded`, kept by `attempt_grounded`). The rest is the walk
over the hosts (`Resolver.Arrives`).
-/

namespace Gatehouse.Bastion

open Access (HookCall HookM)
open Time (Instant)

/-! ### Histories of authentication -/

/-- An attempt to authenticate a connection. Others may change the store in between, so each attempt
brings the store that it finds. -/
inductive Attempt where
  | key (store : Store) (now : Instant) (username : String) (credential : Credential)
  | password (username : String)

/-- A key that was accepted, with the user name and the store that it was looked up in. -/
structure Acceptance where
  store : Store
  username : String
  credential : Credential

/-- What a connection has come to, and the last key that was accepted on it. -/
structure History where
  context : Context := {}
  last : Option Acceptance := none

namespace History

/-- The history after one more attempt. Only a key is accepted in the sense of `last`, and only if the
store did not fail. -/
def attempt (h : History) : Attempt → History
  | .key store now username credential =>
    match h.context.authenticateKey store now username credential with
    | (context, _, .ok ()) => { context, last := some { store, username, credential } }
    | (context, _, .error _) => { h with context }
  | .password username => { h with context := (h.context.authenticatePassword username).1 }

/-- The history of a connection on which these attempts have been made. -/
def after (attempts : List Attempt) : History :=
  attempts.foldl attempt {}

end History

/-! ### Names and owners -/

/-- The user name can only be that of a host. -/
structure NamesHost (name : String) (user : User) : Prop where
  ne_healthcheck : name ≠ healthcheckName
  ne_admin : name ≠ "admin"
  ne_name : name ≠ user.name
  ne_email : name ≠ user.email
  not_invite : name.startsWith inviteMark = false

theorem Intent.classify_eq_host {username name : String} {user : User}
    (h : Intent.classify username (some user) = .host name) :
    username = name ∧ NamesHost name user := by
  unfold Intent.classify at h
  split_ifs at h with hhealth hshell hinvite
  cases h
  simp only [Option.any_some, Bool.or_eq_true, beq_iff_eq, not_or] at hshell
  exact ⟨rfl, hhealth, hshell.1, hshell.2.1, hshell.2.2, Bool.eq_false_iff.mpr hinvite⟩

/-- A row of the store links the key to the user. -/
def Linked (s : Store) (authorizedKey : String) (user : User) : Prop :=
  ∃ row ∈ s.rows .userKeys, ∃ link : UserKey, Store.decode row.2 = .ok link ∧
    Text.trim link.authorizedKey = Text.trim authorizedKey ∧ s.user link.userId = .ok (some user)

theorem linked_of_owner {s : Store} {authorizedKey : String} {user : User}
    (h : Context.owner s authorizedKey = .ok (some user)) : Linked s authorizedKey user := by
  unfold Context.owner at h
  rcases hlink : s.userKey authorizedKey with e | _ | link
  · rw [hlink] at h
    cases h
  · rw [hlink] at h
    cases h
  · rw [hlink] at h
    obtain ⟨row, hmem, hrow, hkey⟩ := Store.findIn_some hlink
    exact ⟨row, hmem, link, hrow, beq_iff_eq.mp hkey, h⟩

/-! ### What one attempt does -/

namespace Context

/-- The context with which a key is tried: what the attempt before has left to be shown is gone. -/
def fresh (c : Context) (username : String) : Context :=
  { c with username, method := .publicKey, deferredError := none, message := none }

variable {s : Store} {username : String} {key : Credential} (c : Context) (now : Instant)

theorem authenticateKey_healthcheck (s : Store) (key : Credential) :
    c.authenticateKey s now healthcheckName key =
      ({ c.fresh healthcheckName with intent := .healthcheck }, s, .ok ()) := by
  rw [authenticateKey, if_pos rfl]
  rfl

theorem authenticateKey_of_error {e : StoreError} (hname : username ≠ healthcheckName)
    (h : owner s key.authorizedKey = .error e) :
    c.authenticateKey s now username key = (c.fresh username, s, .error e) := by
  rw [authenticateKey, if_neg hname, h]
  rfl

theorem authenticateKey_of_owner {user : User} (hname : username ≠ healthcheckName)
    (h : owner s key.authorizedKey = .ok (some user)) :
    c.authenticateKey s now username key =
      ({ c.fresh username with intent := Intent.classify username (some user) }.known user, s,
        .ok ()) := by
  rw [authenticateKey, if_neg hname, h]
  rfl

theorem authenticateKey_of_none (hname : username ≠ healthcheckName)
    (h : owner s key.authorizedKey = .ok none) :
    c.authenticateKey s now username key =
      { c.fresh username with intent := Intent.classify username none }.unknown s now key := by
  rw [authenticateKey, if_neg hname, h]
  rfl

@[simp] theorem known_intent (user : User) : (c.known user).intent = c.intent := by
  unfold known
  split <;> rfl

@[simp] theorem known_user (user : User) : (c.known user).user = some user := by
  unfold known
  split <;> rfl

@[simp] theorem unknown_intent (s : Store) (key : Credential) :
    (c.unknown s now key).1.intent = c.intent := by
  unfold unknown
  split
  · dsimp only
    split <;> rfl
  · rfl

/-- A key that belongs to nobody leaves no user behind, except where an invite is asked for. -/
theorem unknown_user (s : Store) (key : Credential) (h : ∀ token, c.intent ≠ .invite token) :
    (c.unknown s now key).1.user = none := by
  unfold unknown
  split
  · next token hinvite => exact absurd hinvite (h token)
  · rfl

end Context

/-! ### What a history of attempts leaves behind -/

/-- A host intent and a user have come from one and the same key, the last one that was accepted. -/
def Grounded (h : History) : Prop :=
  ∀ name user, h.context.intent = .host name → h.context.user = some user →
    ∃ a, h.last = some a ∧ a.username = name ∧ Linked a.store a.credential.authorizedKey user ∧
      NamesHost name user

theorem attempt_key_context (h : History) (s : Store) (now : Instant) (username : String)
    (key : Credential) : (h.attempt (.key s now username key)).context =
      (h.context.authenticateKey s now username key).1 := by
  simp only [History.attempt]
  rcases h.context.authenticateKey s now username key with ⟨context, s', e | ⟨⟩⟩ <;> rfl

theorem attempt_key_grounded {h : History} (hg : Grounded h) (s : Store) (now : Instant)
    (username : String) (key : Credential) : Grounded (h.attempt (.key s now username key)) := by
  intro name user hintent huser
  rw [attempt_key_context] at hintent huser
  by_cases hname : username = healthcheckName
  · rw [hname, Context.authenticateKey_healthcheck] at hintent
    cases hintent
  rcases howner : Context.owner s key.authorizedKey with e | _ | owner
  · have herror := Context.authenticateKey_of_error h.context now hname howner
    rw [herror] at hintent huser
    have hlast : (h.attempt (.key s now username key)).last = h.last := by
      simp only [History.attempt, herror]
    rw [hlast]
    exact hg name user hintent huser
  · -- Without an owner only an invite keeps the user of an earlier attempt, and it is no host.
    rw [Context.authenticateKey_of_none h.context now hname howner] at hintent huser
    rw [Context.unknown_intent] at hintent
    rw [Context.unknown_user] at huser
    · cases huser
    · intro token hinvite
      rw [hintent] at hinvite
      cases hinvite
  · have haccept := Context.authenticateKey_of_owner h.context now hname howner
    rw [haccept] at hintent huser
    rw [Context.known_intent] at hintent
    rw [Context.known_user] at huser
    cases huser
    obtain ⟨rfl, hnames⟩ := Intent.classify_eq_host hintent
    refine ⟨⟨s, username, key⟩, ?_, rfl, linked_of_owner howner, hnames⟩
    simp only [History.attempt, haccept]

theorem attempt_password_grounded {h : History} (hg : Grounded h) (username : String) :
    Grounded (h.attempt (.password username)) := by
  intro name user hintent huser
  by_cases hname : username = healthcheckName
  · simp only [History.attempt, Context.authenticatePassword, if_pos hname] at huser
    cases huser
  · simp only [History.attempt, Context.authenticatePassword, if_neg hname] at hintent huser ⊢
    exact hg name user hintent huser

theorem attempt_grounded {h : History} (hg : Grounded h) (a : Attempt) : Grounded (h.attempt a) := by
  cases a with
  | key s now username key => exact attempt_key_grounded hg s now username key
  | password username => exact attempt_password_grounded hg username

theorem foldl_attempt_grounded (attempts : List Attempt) :
    ∀ {h : History}, Grounded h → Grounded (attempts.foldl History.attempt h) := by
  induction attempts with
  | nil => exact id
  | cons a attempts ih =>
    intro h hg
    exact ih (attempt_grounded hg a)

theorem after_grounded (attempts : List Attempt) : Grounded (.after attempts) := by
  refine foldl_attempt_grounded attempts ?_
  intro name user _ huser
  cases huser

/-! ### What the handler asks for -/

theorem route_context (h : Handler) (channel : ChannelId) (request : Relay.Request) :
    (h.route channel request).1.context = h.context := by
  unfold Handler.route
  by_cases hrelayed : channel ∈ h.relayed
  · rw [if_pos hrelayed]
  rw [if_neg hrelayed]
  by_cases hlocal : channel ∉ h.locals
  · rw [if_pos hlocal]
  rw [if_neg hlocal]
  cases request <;> rfl

theorem openChannel_context (h : Handler) (channel : ChannelId) (kind : ChannelKind) :
    (h.openChannel channel kind).1.context = h.context := by
  unfold Handler.openChannel
  split
  · split <;> rfl
  · split <;> rfl

theorem step_context (h : Handler) (event : ConnectionEvent) :
    (h.step event).1.context = h.context := by
  cases event with
  | opened channel kind => exact openChannel_context h channel kind
  | request channel request => exact route_context h channel request
  | data | eof | closed | display | agent => rfl

/-- What happens on a connection does not change what it has come to by its authentication. -/
theorem run_context (h : Handler) (events : List ConnectionEvent) :
    (h.run events).1.context = h.context := by
  induction events generalizing h with
  | nil => rfl
  | cons event events ih => exact (ih (h.step event).1).trans (step_context h event)

/-- A context that lets its channels be relayed: to this host, for this user. -/
structure Relayable (c : Context) (name : String) (user : User) : Prop where
  forHost : c.intent = .host name
  untroubled : c.deferredError = none
  ofUser : c.user = some user

/-- A relay is asked for exactly in a context that lets channels be relayed. -/
theorem openChannel_cases (h : Handler) (channel : ChannelId) (kind : ChannelKind) :
    (∃ name user, Relayable h.context name user ∧
      (h.openChannel channel kind).2 = [.accept channel, .relay channel user name kind]) ∨
    (¬ ∃ name user, Relayable h.context name user) ∧
      ∀ id user name kind', .relay id user name kind' ∉ (h.openChannel channel kind).2 := by
  unfold Handler.openChannel
  rcases hintent : h.context.intent with _ | _ | token | name
  case host =>
    rcases herror : h.context.deferredError with _ | e
    · rcases huser : h.context.user with _ | user
      · refine .inr ⟨?_, by simp [admissionError, herror, huser]⟩
        rintro ⟨_, _, hrel⟩
        rw [hrel.ofUser] at huser
        cases huser
      · exact .inl ⟨name, user, ⟨hintent, herror, huser⟩, by
          simp only [admissionError, herror, huser]⟩
    · refine .inr ⟨?_, by simp [admissionError, herror]⟩
      rintro ⟨_, _, hrel⟩
      rw [hrel.untroubled] at herror
      cases herror
  all_goals
    refine .inr ⟨?_, ?_⟩
    · rintro ⟨_, _, hrel⟩
      rw [hrel.forHost] at hintent
      cases hintent
    · intro id user name kind'
      dsimp only
      split <;> simp

/-! ### Serving what the handler asks for -/

namespace Service

variable (service : Service)

/-- Serves the channels that the handler wants relayed, one after the other. -/
def carryOut (w : Surroundings) (s : Store) : List HandlerEffect → HookM Served
  | [] => return { store := s, files := w.files, events := [] }
  | .relay _ user hostName kind :: more => do
    let served ← service.serve w s user hostName kind
    let later ← carryOut { w with files := served.files } served.store more
    return { later with events := served.events ++ later.events }
  | _ :: more => carryOut w s more

/-- The resolver for the hosts of a store. -/
def resolver (s : Store) : Dial.Resolver :=
  { store := s, box := service.box, hook := service.hook, maxHops := service.maxHops }

variable (w : Surroundings)

theorem carryOut_of_no_relay (s : Store) (calls : List HookCall) {effects : List HandlerEffect}
    (h : ∀ id user name kind, .relay id user name kind ∉ effects) :
    (service.carryOut w s effects).run calls = ({ store := s, files := w.files, events := [] }, calls) := by
  induction effects with
  | nil => rfl
  | cons effect effects ih =>
    have hrest := ih fun id user name kind hmem => h id user name kind (List.mem_cons_of_mem _ hmem)
    cases effect with
    | relay id user name kind => exact absurd List.mem_cons_self (h id user name kind)
    | accept | decline | refuse | feed | send => exact hrest

theorem carryOut_relay (s : Store) (channel : ChannelId) (user : User) (name : String)
    (kind : ChannelKind) (calls : List HookCall) :
    (service.carryOut w s [.accept channel, .relay channel user name kind]).run calls =
      (service.serve w s user name kind).run calls := by
  simp only [carryOut, StateT.run_bind, StateT.run_pure]
  rcases (service.serve w s user name kind).run calls with ⟨⟨s', files, events⟩, calls'⟩
  simp only [pure_bind, List.append_nil]
  rfl

/-- What admission comes to: the host is found, and its chain is resolved. -/
theorem admission_run (s : Store) (user : User) (name : String) (calls : List HookCall) :
    (service.admission s user name).run calls =
      match s.hostNamed name with
      | .error e => (.error (.store e), calls)
      | .ok none => (.error (.unknownHost name), calls)
      | .ok (some host) =>
        match ((service.resolver s).resolve user host).run calls with
        | (.error e, calls') => (.error e, calls')
        | (.ok plan, calls') => (.ok (host, plan), calls') := by
  unfold admission
  rcases s.hostNamed name with e | _ | host
  · rfl
  · rfl
  · simp only [StateT.run_bind]
    change (do
      let (result, calls') ← ((service.resolver s).resolve user host).run calls
      (pure (result.map fun plan => (host, plan)) : HookM _).run calls') = _
    rcases ((service.resolver s).resolve user host).run calls with ⟨e | plan, calls'⟩ <;> rfl

theorem prefix_recordSession (s : Store) (user : User) (host : Host) (kind : ChannelKind) (hops : List Nat)
    (events : List ServiceEvent) :
    events <+: (service.recordSession w s user host kind hops events).events := by
  unfold recordSession
  split
  · simp [Served.refused]
  · dsimp only
    split <;> simp [Served.refused]

theorem serve_run_of_error {s : Store} {user : User} {name : String} (kind : ChannelKind)
    {calls calls' : List HookCall} {e : BastionError}
    (h : (service.admission s user name).run calls = (.error e, calls')) :
    (service.serve w s user name kind).run calls = (.refused s w.files [] e, calls') := by
  simp only [serve, StateT.run_bind, h]
  rfl

/-- A channel that is admitted is served by dialing its plan before anything else. -/
theorem serve_run_of_ok {s : Store} {user : User} {name : String} (kind : ChannelKind)
    {calls calls' : List HookCall} {host : Host} {plan : List Dial.Spec}
    (h : (service.admission s user name).run calls = (.ok (host, plan), calls')) :
    ∃ served, (service.serve w s user name kind).run calls = (served, calls') ∧
      (Dial.connect (w.network plan) s plan).events.map .dial <+: served.events := by
  rw [serve, StateT.run_bind, h]
  change ∃ served, StateT.run _ calls' = _ ∧ _
  dsimp only
  rcases (Dial.connect (w.network plan) s plan).result with e | hops
  · exact ⟨_, rfl, List.prefix_append _ _⟩
  · rcases w.opening with e | ⟨⟩
    · refine ⟨_, rfl, ?_⟩
      rw [Served.refused, List.append_assoc]
      exact List.prefix_append _ _
    · exact ⟨_, rfl, prefix_recordSession service w _ user host kind hops _⟩

end Service

/-- Dialing a plan begins with its first host. -/
theorem contacted_of_ne_nil {plan : List Dial.Spec} (network : Nat → Dial.Peer) (s : Store)
    (h : plan ≠ []) : .contacted 0 ∈ (Dial.connect network s plan).events := by
  rcases plan with _ | ⟨spec, later⟩
  · exact absurd rfl h
  · rw [Dial.connect, if_neg (by simp), Dial.connectFrom]
    rcases Dial.greet (network 0) spec s with e | ⟨key, s'⟩
    · exact List.mem_cons_self
    · dsimp only
      split
      · exact List.mem_cons_self
      · split <;> exact List.mem_cons_self

/-! ### Admission -/

/-- Everything that a channel which is dialed has been asked for: the connection is for a host and
has no error to show, its user is the owner of the last key that was accepted, which came with the
name of the host, and all hosts of the plan are open to this user. -/
structure Admitted (service : Service) (s : Store) (calls : List HookCall) (h : History)
    (name : String) (user : User) (plan : List Dial.Spec) (calls' : List HookCall) : Prop
    extends Relayable h.context name user where
  accepted : ∃ a, h.last = some a ∧ a.username = name ∧
    Linked a.store a.credential.authorizedKey user
  namesHost : NamesHost name user
  resolved : ∃ host, s.hostNamed name = .ok (some host) ∧
    ((service.resolver s).resolve user host).run calls = (.ok plan, calls')
  cleared : (service.resolver s).Cleared user calls (plan.map Dial.Spec.host).reverse calls'

section

variable {service : Service} {s : Store} {calls calls' : List HookCall} {h : History}
  {name : String} {user : User} {host : Host} {plan : List Dial.Spec}

theorem admitted_of_admission (hg : Grounded h) (hrel : Relayable h.context name user)
    (hadm : (service.admission s user name).run calls = (.ok (host, plan), calls')) :
    Admitted service s calls h name user plan calls' ∧ plan ≠ [] := by
  rw [Service.admission_run] at hadm
  rcases hhost : s.hostNamed name with e | _ | found
  · rw [hhost] at hadm
    cases hadm
  · rw [hhost] at hadm
    cases hadm
  · rw [hhost] at hadm
    dsimp only at hadm
    obtain ⟨hosts, hcourse⟩ := Dial.Resolver.exists_course (service.resolver s) user found calls
    rcases hrun : ((service.resolver s).resolve user found).run calls with ⟨e | plan', calls''⟩
    · rw [hrun] at hadm
      cases hadm
    · rw [hrun] at hadm hcourse
      cases hadm
      have harrives : (service.resolver s).Arrives user host calls hosts plan calls' := hcourse
      obtain ⟨a, hlast, hname, hlinked, hnames⟩ := hg name user hrel.forHost hrel.ofUser
      refine ⟨⟨hrel, ⟨a, hlast, hname, hlinked⟩, hnames, ⟨host, hhost, hrun⟩, ?_⟩,
        harrives.plan_ne_nil⟩
      rw [harrives.hosts_eq]
      obtain ⟨-, -, specs, hpass, -⟩ := harrives
      exact hpass.cleared

theorem not_admitted_of_admission {e : BastionError} (hrel : Relayable h.context name user)
    (hadm : (service.admission s user name).run calls = (.error e, calls')) :
    ¬ ∃ name' user' plan calls'', Admitted service s calls h name' user' plan calls'' := by
  rintro ⟨name', user', plan, calls'', hadmitted⟩
  have hintent := hadmitted.forHost
  have huser := hadmitted.ofUser
  rw [hrel.forHost] at hintent
  rw [hrel.ofUser] at huser
  cases hintent
  cases huser
  obtain ⟨found, hhost, hrun⟩ := hadmitted.resolved
  rw [Service.admission_run, hhost] at hadm
  dsimp only at hadm
  rw [hrun] at hadm
  cases hadm

end

/-- However a connection has been authenticated and whatever has happened on it since, a channel that
is opened on it is either admitted, and then its plan is dialed before anything else is done; or it is
not, and then nothing is dialed, no session is recorded, and the store stays as it is. -/
theorem dialed_of_admitted_else_untouched (attempts : List Attempt) (events : List ConnectionEvent)
    (channel : ChannelId) (kind : ChannelKind) (service : Service) (w : Surroundings) (s : Store)
    (calls : List HookCall) :
    let history := History.after attempts
    let handler := (Handler.run { context := history.context } events).1
    let outcome := (service.carryOut w s (handler.openChannel channel kind).2).run calls
    (∃ name user plan, Admitted service s calls history name user plan outcome.2 ∧ plan ≠ [] ∧
        (Dial.connect (w.network plan) s plan).events.map .dial <+: outcome.1.events ∧
        .dial (.contacted 0) ∈ outcome.1.events) ∨
      (¬ ∃ name user plan calls', Admitted service s calls history name user plan calls') ∧
        (∀ e, .dial e ∉ outcome.1.events) ∧ (∀ id, .sessionStarted id ∉ outcome.1.events) ∧
        outcome.1.store = s := by
  intro history handler outcome
  have hcontext : handler.context = history.context := run_context _ events
  have hgrounded : Grounded history := after_grounded attempts
  rcases openChannel_cases handler channel kind with ⟨name, user, hrel, heffects⟩ | ⟨hnot, hnone⟩
  · rw [hcontext] at hrel
    have houtcome : outcome = (service.serve w s user name kind).run calls := by
      show (service.carryOut w s (handler.openChannel channel kind).2).run calls = _
      rw [heffects, Service.carryOut_relay]
    rcases hadm : (service.admission s user name).run calls with ⟨e | ⟨host, plan⟩, calls'⟩
    · right
      rw [houtcome, Service.serve_run_of_error service w kind hadm]
      refine ⟨not_admitted_of_admission hrel hadm, ?_, ?_, rfl⟩
      · intro e he
        simp [Served.refused] at he
      · intro id hid
        simp [Served.refused] at hid
    · left
      obtain ⟨hadmitted, hne⟩ := admitted_of_admission hgrounded hrel hadm
      obtain ⟨served, hserve, hprefix⟩ := Service.serve_run_of_ok service w kind hadm
      rw [houtcome, hserve]
      refine ⟨name, user, plan, hadmitted, hne, hprefix, hprefix.subset ?_⟩
      exact List.mem_map_of_mem (contacted_of_ne_nil (w.network plan) s hne)
  · right
    have houtcome : outcome = ({ store := s, files := w.files, events := [] }, calls) :=
      Service.carryOut_of_no_relay service w s calls hnone
    rw [houtcome]
    refine ⟨?_, by simp, by simp, rfl⟩
    rintro ⟨name, user, plan, calls', hadmitted⟩
    rw [hcontext] at hnot
    exact hnot ⟨name, user, hadmitted.toRelayable⟩

end Gatehouse.Bastion

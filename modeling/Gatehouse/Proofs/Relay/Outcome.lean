import Gatehouse.Proofs.Relay.Closing
import Mathlib.Data.List.Nodup
import Mathlib.Data.List.Perm.Subperm

/-!
# What a pipe returns

`Pipe.outcome_of_run`: in a run in which no task dies, a pipe that has returned has succeeded exactly
if all four tasks have reported success, and has otherwise failed with the error that was reported
first; it has closed each side once, and it never finds that all tasks are gone without a word.

Proof. The reports of a run are kept account of (`Account`). While the control loop goes on, the reported
errors are those that wait to be seen, the tasks that have ended are those that have reported, and some
success is still unseen; so a loop that finds nothing to see has not seen the end of some task that has
reported neither success nor failure, which there is none. Apart from that the closings are counted
(`Counted`): a side that is marked as closed has been closed, unless its closing is under way.
-/

namespace Gatehouse.Relay

/-! ### Reports and closings -/

/-- The errors among some reports. -/
def failures (reports : List (PipeTask × Except RelayError Unit)) : List RelayError :=
  reports.filterMap fun
    | (_, .error e) => some e
    | (_, .ok ()) => none

/-- The tasks that report success. -/
def successes (reports : List (PipeTask × Except RelayError Unit)) : List PipeTask :=
  reports.filterMap fun
    | (_, .error _) => none
    | (task, .ok ()) => some task

/-- The sides whose closers have been called, in this order. -/
def closings (actions : List PipeAction) : List Side :=
  actions.filterMap fun
    | .closed side => some side
    | _ => none

namespace Pipe

/-- What is reported with an action. -/
def reportWith (p : Pipe) : PipeAction → List (PipeTask × Except RelayError Unit)
  | .reports task => (p.report? task).toList.map fun result => (task, result)
  | _ => []

/-- What the tasks of a pipe report in the course of some steps, in this order. -/
def reported (p : Pipe) : List PipeAction → List (PipeTask × Except RelayError Unit)
  | [] => []
  | action :: more =>
    p.reportWith action ++
      match p.step? action with
      | some p' => p'.reported more
      | none => []

variable {p p' : Pipe} {action : PipeAction} {reports : List (PipeTask × Except RelayError Unit)}
  {task : PipeTask} {result : Except RelayError Unit}

theorem mem_failures {e : RelayError} : e ∈ failures reports ↔ ∃ task, (task, .error e) ∈ reports := by
  simp only [failures, List.mem_filterMap]
  constructor
  · rintro ⟨⟨task, e' | ⟨⟩⟩, hmem, heq⟩
    · cases heq
      exact ⟨task, hmem⟩
    · cases heq
  · rintro ⟨task, hmem⟩
    exact ⟨_, hmem, rfl⟩

/-- A task that reports only once reports only one thing. -/
theorem eq_of_mem_of_nodup (hnodup : (reports.map Prod.fst).Nodup)
    {other : Except RelayError Unit} (hresult : (task, result) ∈ reports)
    (hother : (task, other) ∈ reports) : result = other := by
  have heq : (task, result) = (task, other) := List.inj_on_of_nodup_map hnodup hresult hother rfl
  exact (Prod.mk.inj heq).2

/-- Each of the four tasks can report once. -/
theorem length_le_of_nodup (hnodup : (reports.map Prod.fst).Nodup) : reports.length ≤ 4 := by
  have hle : (reports.map Prod.fst).length ≤ tasks.length :=
    (hnodup.subperm fun task _ => mem_tasks task).length_le
  rw [List.length_map] at hle
  exact hle

/-! ### The account of reports -/

/-- The pipe has returned this, or is about to once sides are closed. -/
def EndsWith (p : Pipe) (result : Except RelayError Unit) : Prop :=
  (∃ todo, p.control = .closing todo (some result)) ∨ p.control = .returned result

theorem EndsWith.isEnding (h : p.EndsWith result) : p.IsEnding := by
  rcases h with ⟨todo, h⟩ | h
  · exact .inl ⟨todo, result, h⟩
  · exact .inr ⟨result, h⟩

theorem not_isEnding_of_waiting (h : p.control = .waiting) : ¬ p.IsEnding := by
  rintro (⟨todo, result, hcontrol⟩ | ⟨result, hcontrol⟩) <;> rw [h] at hcontrol <;> cases hcontrol

theorem endsWith_of_startClosing {sides : List Side} {outcome : Option (Except RelayError Unit)}
    (h : (p.startClosing sides outcome).EndsWith result) : outcome = some result := by
  unfold startClosing EndsWith at h
  split at h
  · rcases h with ⟨todo, h⟩ | h <;> cases h
  · rcases h with ⟨todo, h⟩ | h
    · cases h
    · cases h
      rfl
  · rcases h with ⟨todo, h⟩ | h
    · cases h
      rfl
    · cases h

theorem endsWith_startClosing (p : Pipe) (sides : List Side) (result : Except RelayError Unit) :
    (p.startClosing sides (some result)).EndsWith result := by
  unfold startClosing
  split
  · next heq => cases heq
  · next heq =>
    cases heq
    exact .inr rfl
  · exact .inl ⟨_, rfl⟩

/-- What has been reported, as far as it is on record. -/
structure Account (p : Pipe) (reports : List (PipeTask × Except RelayError Unit)) : Prop where
  once : (reports.map Prod.fst).Nodup
  ended : ∀ task result, (task, result) ∈ reports → p.isGone task = true
  errors : p.errors <:+ failures reports
  successes : p.completions <:+ successes reports
  succeeded : ∀ task, (task, .ok ()) ∈ reports ↔ task ∈ p.completions ∨ p.finished task = true

/-- The control loop goes on: it has seen no error, and not yet every success. -/
structure Going (p : Pipe) (reports : List (PipeTask × Except RelayError Unit)) : Prop where
  unseen : failures reports = p.errors
  reported : ∀ task, p.isGone task = true → ∃ result, (task, result) ∈ reports
  unfinished : ∃ task, p.finished task = false

/-- What the control loop has gone by if this is the result. -/
structure Settled (p : Pipe) (reports : List (PipeTask × Except RelayError Unit))
    (result : Except RelayError Unit) : Prop where
  ok : result = .ok () → ∀ task, p.finished task = true
  error : ∀ e, result = .error e → (failures reports).head? = some e

/-- The pipe is orderly, and the control loop is where the reports have brought it. -/
structure Accounted (p : Pipe) (reports : List (PipeTask × Except RelayError Unit)) : Prop
    extends Orderly p, Account p reports where
  going : ¬ p.IsEnding → Going p reports
  settled : ∀ result, p.EndsWith result → Settled p reports result

theorem Accounted.fresh (recording : PipeRecording) : Accounted { recording } [] where
  toOrderly := .fresh recording
  toAccount := by
    refine ⟨List.nodup_nil, fun _ _ h => (by cases h), List.suffix_refl _, List.suffix_refl _,
      fun task => ⟨fun h => (by cases h), ?_⟩⟩
    rintro (h | h) <;> cases h
  going _ := by
    refine ⟨rfl, fun task h => ?_, .data .inbound, rfl⟩
    cases task <;> cases h
  settled _ h := by rcases h with ⟨todo, h⟩ | h <;> cases h

/-! ### Steps and reports -/

theorem isGone_of_isEnding (h : Orderly p) (hending : p.IsEnding) (task : PipeTask) :
    p.isGone task = true := by
  cases task with
  | data source => exact (h.closes.ending hending source).1
  | requests source => exact (h.closes.ending hending source).2

theorem isGone_of_report? (h : p.report? task = some result) : p.isGone task = false := by
  cases task with
  | data source => simp only [isGone, report?_data h]
  | requests source => simp only [isGone, report?_requests h]

/-- A task that has something to report has not reported anything yet, and the control loop goes on. -/
theorem Accounted.going_of_report? (h : Accounted p reports) (hreport : p.report? task = some result) :
    ¬ p.IsEnding ∧ ∀ other, (task, other) ∉ reports := by
  have hgone := isGone_of_report? hreport
  constructor
  · intro hending
    rw [isGone_of_isEnding h.toOrderly hending task] at hgone
    cases hgone
  · intro other hmem
    rw [h.ended task other hmem] at hgone
    cases hgone

/-- A step in which nothing is reported or seen. -/
theorem Accounted.of_quiet (h : Accounted p reports) (horderly : Orderly p')
    (hgone : ∀ task, p'.isGone task = p.isGone task) (herrors : p'.errors = p.errors)
    (hcompletions : p'.completions = p.completions) (hfinished : p'.finished = p.finished)
    (hcontrol : p'.control = p.control) : Accounted p' reports where
  toOrderly := horderly
  toAccount := by
    refine ⟨h.once, fun task result hmem => ?_, ?_, ?_, fun task => ?_⟩
    · rw [hgone]
      exact h.ended task result hmem
    · rw [herrors]
      exact h.errors
    · rw [hcompletions]
      exact h.successes
    · rw [hcompletions, hfinished]
      exact h.succeeded task
  going hgoes := by
    have hgoes' : ¬ p.IsEnding := by
      unfold IsEnding at hgoes ⊢
      rwa [hcontrol] at hgoes
    obtain ⟨hunseen, hreported, hunfinished⟩ := h.going hgoes'
    refine ⟨hunseen.trans herrors.symm, fun task htask => hreported task ?_, ?_⟩
    · rwa [hgone] at htask
    · rwa [hfinished]
  settled result hends := by
    have hends' : p.EndsWith result := by
      unfold EndsWith at hends ⊢
      rwa [hcontrol] at hends
    obtain ⟨hok, herror⟩ := h.settled result hends'
    refine ⟨fun heq => ?_, herror⟩
    rw [hfinished]
    exact hok heq

theorem isGone_setCopying_eq {source : Side} {state : Copying} (hold : p.copying source ≠ .gone)
    (hnew : state ≠ .gone) (task : PipeTask) :
    (p.setCopying source state).isGone task = p.isGone task := by
  cases task with
  | requests side => rfl
  | data side =>
    rw [Bool.eq_iff_iff, isGone_data, isGone_data]
    show (if side = source then state else p.copying side) = .gone ↔ p.copying side = .gone
    split_ifs with heq
    · subst heq
      exact ⟨fun h => absurd h hnew, fun h => absurd h hold⟩
    · exact Iff.rfl

theorem isGone_setForwarding_eq {source : Side} {state : Forwarding}
    (hold : p.forwarding source ≠ .gone) (hnew : state ≠ .gone) (task : PipeTask) :
    (p.setForwarding source state).isGone task = p.isGone task := by
  cases task with
  | data side => rfl
  | requests side =>
    rw [Bool.eq_iff_iff, isGone_requests, isGone_requests]
    show (if side = source then state else p.forwarding side) = .gone ↔ p.forwarding side = .gone
    split_ifs with heq
    · subst heq
      exact ⟨fun h => absurd h hnew, fun h => absurd h hold⟩
    · exact Iff.rfl

theorem isGone_endTask_eq {other : PipeTask} (hne : other ≠ task) :
    (p.endTask task).isGone other = p.isGone other := by
  cases task with
  | data source =>
    cases other with
    | requests side => rfl
    | data side =>
      rw [Bool.eq_iff_iff, isGone_data, isGone_data]
      have hside : side ≠ source := fun heq => hne (by rw [heq])
      show (if side = source then Copying.gone else p.copying side) = .gone ↔ p.copying side = .gone
      rw [if_neg hside]
  | requests source =>
    cases other with
    | data side => rfl
    | requests side =>
      rw [Bool.eq_iff_iff, isGone_requests, isGone_requests]
      have hside : side ≠ source := fun heq => hne (by rw [heq])
      show (if side = source then Forwarding.gone else p.forwarding side) = .gone ↔
        p.forwarding side = .gone
      rw [if_neg hside]

theorem afterRead_ne_gone (p : Pipe) (source : Side) (chunk : Chunk) :
    p.afterRead source chunk ≠ .gone := by
  unfold afterRead
  split <;> nofun

theorem afterTake_ne_gone (p : Pipe) (source : Side) (request : Incoming) :
    p.afterTake source request ≠ .gone := by
  unfold afterTake
  split
  · split <;> nofun
  · nofun

/-- The control loop begins to close sides. -/
theorem Accounted.of_startClosing {sides : List Side} {outcome : Option (Except RelayError Unit)}
    (horderly : Orderly (p.startClosing sides outcome)) (haccount : Account p reports)
    (hgoing : outcome = none → Going p reports)
    (hsettled : ∀ result, outcome = some result → Settled p reports result) :
    Accounted (p.startClosing sides outcome) reports := by
  obtain ⟨closed, control, heq⟩ := p.startClosing_eq sides outcome
  have hendsWith : ∀ result, (p.startClosing sides outcome).EndsWith result → outcome = some result :=
    fun result hends => endsWith_of_startClosing hends
  have hending : outcome ≠ none → (p.startClosing sides outcome).IsEnding := by
    intro hne
    obtain ⟨result, rfl⟩ := Option.ne_none_iff_exists'.mp hne
    exact (endsWith_startClosing p sides result).isEnding
  rw [heq] at horderly hendsWith hending ⊢
  obtain ⟨honce, hended, herrors, hsuccesses, hsucceeded⟩ := haccount
  refine ⟨horderly, ⟨honce, hended, herrors, hsuccesses, hsucceeded⟩, fun hgoes => ?_,
    fun result hends => ?_⟩
  · have hnone : outcome = none := by
      by_contra hne
      exact hgoes (hending hne)
    obtain ⟨hunseen, hreported, hunfinished⟩ := hgoing hnone
    exact ⟨hunseen, hreported, hunfinished⟩
  · obtain ⟨hok, herror⟩ := hsettled result (hendsWith result hends)
    exact ⟨hok, herror⟩

theorem failures_append (before after : List (PipeTask × Except RelayError Unit)) :
    failures (before ++ after) = failures before ++ failures after :=
  List.filterMap_append

theorem successes_append (before after : List (PipeTask × Except RelayError Unit)) :
    successes (before ++ after) = successes before ++ successes after :=
  List.filterMap_append

theorem once_snoc (h : Accounted p reports) (hreport : p.report? task = some result) :
    ((reports ++ [(task, result)]).map Prod.fst).Nodup := by
  obtain ⟨-, hnew⟩ := h.going_of_report? hreport
  rw [List.map_append, List.nodup_append]
  refine ⟨h.once, List.nodup_singleton _, ?_⟩
  intro other hmem last hlast heq
  obtain ⟨⟨reporter, other'⟩, hreported, rfl⟩ := List.mem_map.mp hmem
  rw [List.map_singleton, List.mem_singleton] at hlast
  have htask : reporter = task := heq.trans hlast
  subst htask
  exact hnew _ hreported

/-- Who has reported has ended, and who has ended has reported, when one more task reports. -/
theorem ended_snoc (h : Account p reports) (task : PipeTask) (result : Except RelayError Unit) :
    ∀ other result', (other, result') ∈ reports ++ [(task, result)] →
      (p.endTask task).isGone other = true := by
  intro other result' hmem
  by_cases hne : other = task
  · rw [hne]
    exact isGone_endTask_self p task
  · rw [isGone_endTask_eq hne]
    rcases List.mem_append.mp hmem with hmem | hmem
    · exact h.ended other result' hmem
    · cases List.mem_singleton.mp hmem
      exact absurd rfl hne

theorem reported_snoc (h : Going p reports) (task : PipeTask) (result : Except RelayError Unit) :
    ∀ other, (p.endTask task).isGone other = true →
      ∃ result', (other, result') ∈ reports ++ [(task, result)] := by
  intro other hgone
  by_cases hne : other = task
  · rw [hne]
    exact ⟨result, List.mem_append_right _ (List.mem_singleton_self _)⟩
  · rw [isGone_endTask_eq hne] at hgone
    obtain ⟨result', hmem⟩ := h.reported other hgone
    exact ⟨result', List.mem_append_left _ hmem⟩

theorem endTask_eq (p : Pipe) (task : PipeTask) :
    ∃ copying forwarding, p.endTask task = { p with copying, forwarding } := by
  cases task <;> exact ⟨_, _, rfl⟩

/-- A task reports success. -/
theorem Accounted.succeeds (h : Accounted p reports) (hreport : p.report? task = some (.ok ()))
    (horderly : Orderly { p.endTask task with completions := p.completions ++ [task] }) :
    Accounted { p.endTask task with completions := p.completions ++ [task] }
      (reports ++ [(task, .ok ())]) := by
  obtain ⟨hgoes, -⟩ := h.going_of_report? hreport
  have honce := once_snoc h hreport
  have hended := ended_snoc h.toAccount task (.ok ())
  have hgoing := h.going hgoes
  have hreported := reported_snoc hgoing task (.ok ())
  have hfailures : failures (reports ++ [(task, .ok ())]) = failures reports := by
    rw [failures_append]
    exact List.append_nil _
  have hsuccesses : successes (reports ++ [(task, .ok ())]) = successes reports ++ [task] := by
    rw [successes_append]
    rfl
  obtain ⟨copying, forwarding, heq⟩ := p.endTask_eq task
  rw [heq] at horderly hended hreported ⊢
  refine ⟨horderly, ⟨honce, hended, ?_, ?_, fun other => ?_⟩, fun _ => ⟨?_, hreported, ?_⟩,
    fun result hends => absurd (EndsWith.isEnding hends) hgoes⟩
  · rw [hfailures]
    exact h.errors
  · rw [hsuccesses]
    obtain ⟨seen, hseen⟩ := h.successes
    exact ⟨seen, by rw [← hseen, List.append_assoc]⟩
  · have hsucceeded := h.succeeded other
    simp only [List.mem_append, List.mem_singleton, Prod.mk.injEq, and_true]
    rw [hsucceeded]
    tauto
  · rw [hfailures]
    exact hgoing.unseen
  · exact hgoing.unfinished

/-- A task reports an error. -/
theorem Accounted.fails {e : RelayError} (h : Accounted p reports)
    (hreport : p.report? task = some (.error e))
    (horderly : Orderly { p.endTask task with errors := p.errors ++ [e] }) :
    Accounted { p.endTask task with errors := p.errors ++ [e] }
      (reports ++ [(task, .error e)]) := by
  obtain ⟨hgoes, -⟩ := h.going_of_report? hreport
  have honce := once_snoc h hreport
  have hended := ended_snoc h.toAccount task (.error e)
  have hgoing := h.going hgoes
  have hreported := reported_snoc hgoing task (.error e)
  have hfailures : failures (reports ++ [(task, .error e)]) = failures reports ++ [e] := by
    rw [failures_append]
    rfl
  have hsuccesses : successes (reports ++ [(task, .error e)]) = successes reports := by
    rw [successes_append]
    exact List.append_nil _
  obtain ⟨copying, forwarding, heq⟩ := p.endTask_eq task
  rw [heq] at horderly hended hreported ⊢
  refine ⟨horderly, ⟨honce, hended, ?_, ?_, fun other => ?_⟩, fun _ => ⟨?_, hreported, ?_⟩,
    fun result hends => absurd (EndsWith.isEnding hends) hgoes⟩
  · have hunseen := hgoing.unseen ▸ hfailures
    exact hunseen ▸ List.suffix_refl _
  · rw [hsuccesses]
    exact h.successes
  · have hsucceeded := h.succeeded other
    simp only [List.mem_append, List.mem_singleton, Prod.mk.injEq, reduceCtorEq, and_false, or_false]
    exact hsucceeded
  · rw [hfailures, hgoing.unseen]
  · exact hgoing.unfinished

/-- The control loop sees the oldest error, which is the first that was reported. -/
theorem Accounted.seesError {e : RelayError} {rest : List RelayError} (h : Accounted p reports)
    (hcontrol : p.control = .waiting) (herrors : p.errors = e :: rest)
    (horderly : Orderly ((tasks.foldl endTask { p with errors := rest }).conclude (.error e))) :
    Accounted ((tasks.foldl endTask { p with errors := rest }).conclude (.error e)) reports := by
  have hgoing := h.going (not_isEnding_of_waiting hcontrol)
  have hgone := isGone_stopAll { p with errors := rest }
  obtain ⟨copying, forwarding, heq⟩ := stopAll_eq { p with errors := rest }
  rw [heq] at hgone horderly ⊢
  refine Accounted.of_startClosing horderly ⟨h.once, fun task result _ => hgone task, ?_, h.successes,
    h.succeeded⟩ (fun hno => by cases hno) fun result hresult => ?_
  · have hsuffix := h.errors
    rw [herrors] at hsuffix
    exact (List.suffix_cons e rest).trans hsuffix
  · cases hresult
    refine ⟨fun hno => (by cases hno), fun e' he' => ?_⟩
    cases he'
    rw [hgoing.unseen, herrors]
    rfl

/-- The control loop sees a success. -/
theorem Accounted.seesCompletion {rest : List PipeTask} (h : Accounted p reports)
    (hcontrol : p.control = .waiting) (hcompletions : p.completions = task :: rest)
    (horderly : Orderly ({ p with completions := rest }.noteCompletion task)) :
    Accounted ({ p with completions := rest }.noteCompletion task) reports := by
  let q : Pipe := { p with
    completions := rest
    finished := fun t => if t = task then true else p.finished t }
  have hgoing := h.going (not_isEnding_of_waiting hcontrol)
  have haccount : Account q reports := by
    refine ⟨h.once, h.ended, h.errors, ?_, fun other => ?_⟩
    · have hsuffix := h.successes
      rw [hcompletions] at hsuffix
      exact (List.suffix_cons task rest).trans hsuffix
    · rw [h.succeeded, hcompletions, List.mem_cons]
      show _ ↔ other ∈ rest ∨ (if other = task then true else p.finished other) = true
      split_ifs with heq
      · simp [heq]
      · simp [heq]
  have hq : (∃ t, q.finished t = false) → Going q reports :=
    fun hunfinished => ⟨hgoing.unseen, hgoing.reported, hunfinished⟩
  have hside : ∀ side, ¬ q.sideFinished side = true → ∃ t, q.finished t = false := by
    intro side hno
    rw [sideFinished, Bool.and_eq_true, not_and_or, Bool.not_eq_true, Bool.not_eq_true] at hno
    rcases hno with hno | hno
    · exact ⟨_, hno⟩
    · exact ⟨_, hno⟩
  unfold noteCompletion at horderly ⊢
  change Orderly (if q.sideFinished .inbound && q.sideFinished .outbound then _ else _) at horderly
  change Accounted (if q.sideFinished .inbound && q.sideFinished .outbound then _ else _) reports
  split_ifs at horderly ⊢ with hboth hin hout
  · rw [Bool.and_eq_true] at hboth
    refine Accounted.of_startClosing horderly haccount (fun hno => by cases hno) ?_
    intro result hresult
    cases hresult
    refine ⟨fun _ other => ?_, fun e hno => by cases hno⟩
    simp only [sideFinished, Bool.and_eq_true] at hboth
    rcases other with side | side <;> cases side
    · exact hboth.1.1
    · exact hboth.2.1
    · exact hboth.1.2
    · exact hboth.2.2
  · have hout : ¬ q.sideFinished .outbound = true := by
      intro hout
      rw [hin, hout] at hboth
      exact hboth rfl
    exact Accounted.of_startClosing horderly haccount (fun _ => hq (hside _ hout))
      fun result hno => by cases hno
  · exact Accounted.of_startClosing horderly haccount (fun _ => hq (hside _ hin))
      fun result hno => by cases hno
  · have hgoes : ¬ q.IsEnding := not_isEnding_of_waiting hcontrol
    exact ⟨horderly, haccount, fun _ => hq (hside _ hin),
      fun result hends => absurd (EndsWith.isEnding hends) hgoes⟩

/-- If all tasks have ended, then the control loop has something to see. -/
theorem Accounted.not_nothing (h : Accounted p reports) (hcontrol : p.control = .waiting)
    (herrors : p.errors = []) (hcompletions : p.completions = [])
    (hgone : ∀ task ∈ tasks, p.isGone task = true) : False := by
  obtain ⟨hunseen, hreported, task, hunfinished⟩ := h.going (not_isEnding_of_waiting hcontrol)
  obtain ⟨result, hmem⟩ := hreported task (hgone task (mem_tasks task))
  rcases result with e | ⟨⟩
  · have hmem : e ∈ failures reports := mem_failures.mpr ⟨task, hmem⟩
    rw [hunseen, herrors] at hmem
    cases hmem
  · rcases (h.succeeded task).mp hmem with hno | hfinished
    · rw [hcompletions] at hno
      cases hno
    · rw [hunfinished] at hfinished
      cases hfinished

/-- A side has been closed. -/
theorem Accounted.goesOn {side : Side} {todo : List Side} {outcome : Option (Except RelayError Unit)}
    (h : Accounted p reports) (hcontrol : p.control = .closing (side :: todo) outcome)
    (horderly : Orderly (p.startClosing todo outcome)) :
    Accounted (p.startClosing todo outcome) reports := by
  refine Accounted.of_startClosing horderly h.toAccount (fun hnone => h.going ?_) fun result hresult => ?_
  · subst hnone
    rintro (⟨todo', result, hno⟩ | ⟨result, hno⟩) <;> rw [hcontrol] at hno <;> cases hno
  · subst hresult
    exact h.settled result (.inl ⟨_, hcontrol⟩)

/-- A step keeps the account, with what is reported in it. -/
theorem Accounted.step (h : Accounted p reports) (hstep : Step p action p')
    (hlive : ∀ task, action ≠ .dies task) :
    Accounted p' (reports ++ p.reportWith action) ∧ action ≠ .seesNothing := by
  have horderly := h.toOrderly.step hstep
  have hquiet : p.reportWith action = [] → Accounted p' reports → action ≠ .seesNothing →
      Accounted p' (reports ++ p.reportWith action) ∧ action ≠ .seesNothing := by
    intro hnone hnext hne
    rw [hnone, List.append_nil]
    exact ⟨hnext, hne⟩
  have hcopying : ∀ {source : Side} {old new : Copying}, p.copying source = old → old ≠ .gone →
      new ≠ .gone → Orderly (p.setCopying source new) →
      Accounted (p.setCopying source new) reports := by
    intro source old new hstate hold hnew horderly
    exact h.of_quiet horderly (isGone_setCopying_eq (hstate ▸ hold) hnew) rfl rfl rfl rfl
  have hforwarding : ∀ {source : Side} {old new : Forwarding}, p.forwarding source = old →
      old ≠ .gone → new ≠ .gone → Orderly (p.setForwarding source new) →
      Accounted (p.setForwarding source new) reports := by
    intro source old new hstate hold hnew horderly
    exact h.of_quiet horderly (isGone_setForwarding_eq (hstate ▸ hold) hnew) rfl rfl rfl rfl
  cases hstep with
  | readChunk hstate =>
    exact hquiet rfl (hcopying hstate nofun (afterRead_ne_gone _ _ _) horderly) nofun
  | readEnd hstate | readError hstate | recorded hstate | wrote hstate | writeError hstate
  | halfClosed hstate => exact hquiet rfl (hcopying hstate nofun nofun horderly) nofun
  | took hstate =>
    exact hquiet rfl (hforwarding hstate nofun (afterTake_ne_gone _ _ _) horderly) nofun
  | sent hstate =>
    refine hquiet rfl (hforwarding hstate nofun ?_ horderly) nofun
    split <;> nofun
  | tookEnd hstate | recordedCommand hstate | sendError hstate | replied hstate
  | replyError hstate => exact hquiet rfl (hforwarding hstate nofun nofun horderly) nofun
  | @reports task hreport =>
    refine ⟨?_, nofun⟩
    rw [reportWith, hreport]
    exact h.succeeds hreport horderly
  | @reportsError task e hreport =>
    refine ⟨?_, nofun⟩
    rw [reportWith, hreport]
    exact h.fails hreport horderly
  | @dies task => exact absurd rfl (hlive task)
  | seesError hcontrol herrors => exact hquiet rfl (h.seesError hcontrol herrors horderly) nofun
  | seesCompletion hcontrol hcompletions =>
    exact hquiet rfl (h.seesCompletion hcontrol hcompletions horderly) nofun
  | seesNothing hcontrol herrors hcompletions hgone =>
    exact (h.not_nothing hcontrol herrors hcompletions hgone).elim
  | closed hcontrol => exact hquiet rfl (h.goesOn hcontrol horderly) nofun

/-! ### The count of closings -/

/-- The closing of a side is under way. -/
def isClosing (p : Pipe) (side : Side) : Bool :=
  match p.control with
  | .closing (next :: _) _ => decide (next = side)
  | _ => false

/-- A side that is marked as closed has been closed once, unless that is under way; and both are closed
before the pipe returns. -/
structure Counted (p : Pipe) (closed : List Side) : Prop where
  count : ∀ side, closed.count side + (p.isClosing side).toNat = (p.closed side).toNat
  closing : ∀ todo result, p.control = .closing todo (some result) →
    ∀ side, p.closed side = true ∨ side ∈ todo
  returned : ∀ result, p.control = .returned result → ∀ side, p.closed side = true

theorem Counted.fresh (recording : PipeRecording) : Counted { recording } [] where
  count _ := rfl
  closing _ _ h := by cases h
  returned _ h := by cases h

theorem counted_startClosing {closed sides : List Side} {outcome : Option (Except RelayError Unit)}
    (hcount : ∀ side, closed.count side = (p.closed side).toNat)
    (hall : outcome ≠ none → ∀ side, p.closed side = true ∨ side ∈ sides) :
    Counted (p.startClosing sides outcome) closed := by
  have hopen : ∀ side, p.closed side = true ∨ side ∈ sides →
      p.closed side = true ∨ side ∈ sides.filter fun side => !p.closed side := by
    intro side hside
    cases hclosed : p.closed side with
    | true => exact .inl rfl
    | false =>
      rw [hclosed] at hside
      exact .inr (List.mem_filter.mpr ⟨hside.resolve_left nofun, by rw [hclosed]; rfl⟩)
  unfold startClosing
  split
  · exact ⟨hcount, fun todo result hno => (by cases hno), fun result hno => by cases hno⟩
  · next result hnone =>
    refine ⟨hcount, fun todo result hno => (by cases hno), fun result' _ side => ?_⟩
    have hside := hopen side (hall nofun side)
    rw [hnone] at hside
    exact hside.resolve_right List.not_mem_nil
  · next next todo hsome =>
    have hnext : p.closed next = false := by
      have hmem : next ∈ sides.filter fun side => !p.closed side := hsome ▸ List.mem_cons_self
      simpa using (List.mem_filter.mp hmem).2
    refine ⟨fun side => ?_, fun todo' result hcontrol side => ?_, fun result hno => by cases hno⟩
    · show closed.count side + (decide (next = side)).toNat =
        (if side = next then true else p.closed side).toNat
      rw [hcount]
      by_cases heq : side = next
      · subst heq
        simp [hnext]
      · simp [heq, Ne.symm heq]
    · cases hcontrol
      have hside := hopen side (hall nofun side)
      rw [hsome] at hside
      show (if side = next then true else p.closed side) = true ∨ _
      rcases hside with hside | hside
      · exact .inl (by split_ifs <;> trivial)
      · exact .inr hside

theorem isClosing_of_waiting (h : p.control = .waiting) (side : Side) : p.isClosing side = false := by
  unfold isClosing
  rw [h]

/-- A step keeps the count, with the side that is closed in it. -/
theorem Counted.step {closed : List Side} (h : Counted p closed) (hstep : Step p action p') :
    Counted p' (closed ++ closings [action]) := by
  have hsame : ∀ {q : Pipe}, q.closed = p.closed → q.control = p.control → Counted q closed := by
    intro q hclosed hcontrol
    refine ⟨fun side => ?_, fun todo result htodo side => ?_, fun result hresult side => ?_⟩
    · unfold isClosing
      rw [hclosed, hcontrol]
      exact h.count side
    · rw [hclosed]
      exact h.closing todo result (hcontrol ▸ htodo) side
    · rw [hclosed]
      exact h.returned result (hcontrol ▸ hresult) side
  have hwaiting : p.control = .waiting → ∀ side, closed.count side = (p.closed side).toNat := by
    intro hcontrol side
    have hcount := h.count side
    rw [isClosing_of_waiting hcontrol] at hcount
    exact hcount
  have hboth : ∀ side, side ∈ [Side.outbound, Side.inbound] := by
    intro side
    cases side <;> simp
  cases hstep with
  | readChunk | readEnd | readError | recorded | wrote | writeError | halfClosed | took | tookEnd
  | recordedCommand | sent | sendError | replied | replyError =>
    rw [show closings [_] = [] from rfl, List.append_nil]
    exact hsame rfl rfl
  | @reports task | @reportsError task | @dies task =>
    rw [show closings [_] = [] from rfl, List.append_nil]
    cases task <;> exact hsame rfl rfl
  | @seesError e rest hcontrol =>
    rw [show closings [_] = [] from rfl, List.append_nil]
    obtain ⟨copying, forwarding, heq⟩ := stopAll_eq { p with errors := rest }
    rw [heq]
    exact counted_startClosing (hwaiting hcontrol) fun _ side => .inr (hboth side)
  | @seesCompletion task rest hcontrol =>
    rw [show closings [_] = [] from rfl, List.append_nil]
    have hcount := hwaiting hcontrol
    unfold noteCompletion conclude
    dsimp only
    split_ifs
    · exact counted_startClosing hcount fun _ side => .inr (hboth side)
    · exact counted_startClosing hcount fun hno => absurd rfl hno
    · exact counted_startClosing hcount fun hno => absurd rfl hno
    · exact hsame rfl rfl
  | seesNothing hcontrol =>
    rw [show closings [_] = [] from rfl, List.append_nil]
    exact counted_startClosing (hwaiting hcontrol) fun _ side => .inr (hboth side)
  | @closed side todo outcome hcontrol =>
    have hclosing : ∀ other, p.isClosing other = decide (side = other) := by
      intro other
      unfold isClosing
      rw [hcontrol]
    refine counted_startClosing (fun other => ?_) fun hsome other => ?_
    · have hcount := h.count other
      rw [hclosing] at hcount
      show (closed ++ [side]).count other = _
      rw [List.count_append, List.count_singleton, ← hcount]
      by_cases heq : side = other
      · simp [heq]
      · simp [heq]
    · obtain ⟨result, rfl⟩ := Option.ne_none_iff_exists'.mp hsome
      rcases h.closing _ _ hcontrol other with hclosed | hmem
      · exact .inl hclosed
      · rcases List.mem_cons.mp hmem with rfl | hmem
        · have hcount := h.count other
          rw [hclosing, decide_eq_true rfl] at hcount
          left
          cases hclosed : p.closed other
          · rw [hclosed] at hcount
            simp at hcount
          · rfl
        · exact .inr hmem

/-! ### Runs -/

theorem closings_cons (action : PipeAction) (actions : List PipeAction) :
    closings (action :: actions) = closings [action] ++ closings actions :=
  List.filterMap_append (l := [action])

/-- All steps of a run without deaths keep the account and the count. -/
theorem accounted_of_run? {actions : List PipeAction} :
    ∀ {p : Pipe} {reports : List (PipeTask × Except RelayError Unit)} {closed : List Side},
      Accounted p reports → Counted p closed → p.run? actions = some p' →
      (∀ task, .dies task ∉ actions) →
      Accounted p' (reports ++ p.reported actions) ∧ Counted p' (closed ++ closings actions) ∧
        .seesNothing ∉ actions := by
  induction actions with
  | nil =>
    intro p reports closed haccount hcount hrun _
    cases hrun
    refine ⟨?_, ?_, List.not_mem_nil⟩
    · rw [reported, List.append_nil]
      exact haccount
    · rw [show closings [] = [] from rfl, List.append_nil]
      exact hcount
  | cons action more ih =>
    intro p reports closed haccount hcount hrun hlive
    obtain ⟨p₁, hstep, hrest⟩ := Option.bind_eq_some_iff.mp hrun
    have hstep' := step_of_step? hstep
    obtain ⟨haccount', hne⟩ := haccount.step hstep' fun task heq =>
      hlive task (heq ▸ List.mem_cons_self)
    obtain ⟨haccount'', hcount'', hnever⟩ := ih haccount' (hcount.step hstep') hrest
      fun task hmem => hlive task (List.mem_cons_of_mem _ hmem)
    refine ⟨?_, ?_, ?_⟩
    · rw [reported, hstep, ← List.append_assoc]
      exact haccount''
    · rw [closings_cons, ← List.append_assoc]
      exact hcount''
    · rw [List.mem_cons, not_or]
      exact ⟨Ne.symm hne, hnever⟩

theorem control_of_result? (h : p.result? = some result) : p.control = .returned result := by
  unfold result? at h
  split at h
  · next hcontrol =>
    cases h
    exact hcontrol
  · cases h

/-- What has been seen of the reports decides on the result. -/
theorem Accounted.result_iff (h : Accounted p reports) (hresult : p.result? = some result) :
    (result = .ok () ↔ ∀ task, (task, .ok ()) ∈ reports) ∧
      ∀ e, result = .error e ↔ (failures reports).head? = some e := by
  obtain ⟨hok, herror⟩ := h.settled result (.inr (control_of_result? hresult))
  have hall : result = .ok () → ∀ task, (task, .ok ()) ∈ reports :=
    fun heq task => (h.succeeded task).mpr (.inr (hok heq task))
  have hsome : ∀ e, (failures reports).head? = some e → ∃ task, (task, .error e) ∈ reports :=
    fun e hhead => mem_failures.mp (List.mem_of_mem_head? hhead)
  refine ⟨⟨hall, fun hreports => ?_⟩, fun e => ⟨herror e, fun hhead => ?_⟩⟩
  · rcases result with e | ⟨⟩
    · obtain ⟨task, hmem⟩ := hsome e (herror e rfl)
      cases eq_of_mem_of_nodup h.once hmem (hreports task)
    · rfl
  · rcases result with e' | ⟨⟩
    · rw [herror e' rfl] at hhead
      cases hhead
      rfl
    · obtain ⟨task, hmem⟩ := hsome e hhead
      cases eq_of_mem_of_nodup h.once hmem (hall rfl task)

theorem Counted.count_of_result? {closed : List Side} (h : Counted p closed)
    (hresult : p.result? = some result) (side : Side) : closed.count side = 1 := by
  have hcontrol := control_of_result? hresult
  have hcount := h.count side
  unfold isClosing at hcount
  rw [hcontrol, h.returned result hcontrol side] at hcount
  exact hcount

/-- In a run in which no task dies, every task reports at most once, the queues of reports are never
full, and the control loop always finds a report when all tasks have ended. If the pipe has returned,
then it has succeeded exactly if all four tasks have reported success, it has failed with the error that
was reported first otherwise, and it has called the closer of each side exactly once. -/
theorem outcome_of_run {recording : PipeRecording} {actions : List PipeAction}
    (hrun : Pipe.run? { recording } actions = some p) (hlive : ∀ task, .dies task ∉ actions) :
    let reports := Pipe.reported { recording } actions
    (reports.map Prod.fst).Nodup ∧ p.errors.length ≤ 4 ∧ p.completions.length ≤ 4 ∧
      .seesNothing ∉ actions ∧
      ∀ result, p.result? = some result →
        (result = .ok () ↔ ∀ task, (task, .ok ()) ∈ reports) ∧
        (∀ e, result = .error e ↔ (failures reports).head? = some e) ∧
        ∀ side, (closings actions).count side = 1 := by
  intro reports
  obtain ⟨haccount, hcount, hnever⟩ :=
    accounted_of_run? (.fresh recording) (.fresh recording) hrun hlive
  have hlength := length_le_of_nodup haccount.once
  have herrors : p.errors.length ≤ reports.length :=
    Nat.le_trans haccount.errors.length_le (List.length_filterMap_le _ _)
  have hcompletions : p.completions.length ≤ reports.length :=
    Nat.le_trans haccount.successes.length_le (List.length_filterMap_le _ _)
  refine ⟨haccount.once, Nat.le_trans herrors hlength, Nat.le_trans hcompletions hlength, hnever,
    fun result hresult => ?_⟩
  obtain ⟨hok, herror⟩ := haccount.result_iff hresult
  exact ⟨hok, herror, fun side => hcount.count_of_result? hresult side⟩

/-- A pipe in which two tasks fail after a third has succeeded, and that has closed both sides. -/
theorem outcome_of_run_two_errors :
    let chunk : Chunk := { data := [120] }
    let broken : RelayError := .send .outbound "broken pipe"
    let actions : List PipeAction := [
      .read .inbound (.ok (some chunk)), .took .outbound none, .wrote .inbound chunk (.error broken),
      .reports (.requests .outbound), .read .outbound (.error (.closed .outbound)),
      .reports (.data .inbound), .seesCompletion, .reports (.data .outbound), .seesError,
      .closed .outbound, .closed .inbound]
    ∃ p, Pipe.run? {} actions = some p ∧ (∀ task, .dies task ∉ actions) ∧
      p.result? = some (.error broken) ∧
      failures (Pipe.reported {} actions) = [broken, .closed .outbound] ∧
      (¬ ∀ task, (task, .ok ()) ∈ Pipe.reported {} actions) ∧
      ∀ side, (closings actions).count side = 1 := by
  intro chunk broken actions
  have hlive : ∀ task, .dies task ∉ actions := by
    intro task
    simp [actions]
  obtain ⟨p, hrun, hresult⟩ : ∃ p, Pipe.run? {} actions = some p ∧
      p.result? = some (.error broken) := ⟨_, rfl, rfl⟩
  obtain ⟨-, -, -, -, houtcome⟩ := outcome_of_run hrun hlive
  obtain ⟨hok, -, hclosings⟩ := houtcome _ hresult
  refine ⟨p, hrun, hlive, hresult, rfl, fun hall => ?_, hclosings⟩
  have hnever : (Except.error broken : Except RelayError Unit) = .ok () := hok.mpr hall
  cases hnever

end Pipe

end Gatehouse.Relay

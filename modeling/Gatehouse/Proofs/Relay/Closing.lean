import Gatehouse.Proofs.Relay.Step
import Mathlib.Data.List.Induction

/-!
# A side is closed last

`Pipe.complete_of_closing`: when no task of a pipe fails, then whenever the pipe begins to close a
side, all that was read from the other side has been written to it in order, it has been half-closed
after that and only once, and all requests taken from the other side have been sent to it (`Complete`).

Proof. What a task has done can be told from its state (`CopiedSoFar`, `ForwardedSoFar`): what it has
passed on is what it has taken in, but for what it holds, and a task that has ended has seen the end and
passed it on. The control loop goes by reports (`Orderly`): with or without failures nothing is reported
of a task that has not ended, and no side is closed, or is about to be, before both tasks that read from
the other side have ended. The invariant `Sound` is the two together.
-/

namespace Gatehouse.Relay

/-! ### What passes through a pipe -/

namespace PipeAction

/-- The action is the failure of a task. -/
def fails : PipeAction → Bool
  | .read _ (.error _) | .wrote _ _ (.error _) | .halfClosed _ (.error _) | .sent _ _ (.error _)
  | .replied _ _ (.error _) | .dies _ => true
  | _ => false

/-- What is read from a side; nothing means the end. -/
def reading? (source : Side) : PipeAction → Option (Option Chunk)
  | .read side (.ok outcome) => if side = source then some outcome else none
  | _ => none

/-- What read from a side is passed on; nothing means the half-close. -/
def writing? (source : Side) : PipeAction → Option (Option Chunk)
  | .wrote side chunk (.ok ()) => if side = source then some (some chunk) else none
  | .halfClosed side (.ok ()) => if side = source then some none else none
  | _ => none

/-- The requests taken from a side; nothing means that none will come. -/
def taking? (source : Side) : PipeAction → Option (Option Incoming)
  | .took side request => if side = source then some request else none
  | _ => none

/-- The requests taken from a side that are sent to the other one. -/
def sending? (source : Side) : PipeAction → Option Incoming
  | .sent side request (.ok _) => if side = source then some request else none
  | _ => none

/-- The task whose own work the action is. -/
def worker? : PipeAction → Option PipeTask
  | .read source _ | .recorded source _ | .wrote source _ _ | .halfClosed source _ =>
    some (.data source)
  | .took source _ | .sent source _ _ | .replied source _ _ => some (.requests source)
  | .recordedCommand _ => some (.requests .inbound)
  | _ => none

end PipeAction

/-- What has been read from a side, with its end. -/
def readings (source : Side) (actions : List PipeAction) : List (Option Chunk) :=
  actions.filterMap (PipeAction.reading? source)

/-- What of it has been passed on, with the half-close. -/
def writings (source : Side) (actions : List PipeAction) : List (Option Chunk) :=
  actions.filterMap (PipeAction.writing? source)

/-- The requests that have been taken from a side, with their end. -/
def takings (source : Side) (actions : List PipeAction) : List (Option Incoming) :=
  actions.filterMap (PipeAction.taking? source)

/-- The requests that have been passed on. -/
def sendings (source : Side) (actions : List PipeAction) : List Incoming :=
  actions.filterMap (PipeAction.sending? source)

/-- A side has been told everything that comes from the other one: the blocks that were read there in
their order, after them and once that there are no more, and the requests that were taken there. -/
def Complete (side : Side) (actions : List PipeAction) : Prop :=
  ∃ (chunks : List Chunk) (requests : List Incoming),
    readings side.other actions = chunks.map some ++ [none] ∧
    writings side.other actions = chunks.map some ++ [none] ∧
    takings side.other actions = requests.map some ++ [none] ∧
    sendings side.other actions = requests

/-! ### What a task has done -/

/-- What a copying task has read and passed on, by its state. -/
def CopiedSoFar (read written : List (Option Chunk)) : Copying → Prop
  | .reading => ∃ chunks : List Chunk, read = chunks.map some ∧ written = chunks.map some
  | .recording chunk | .writing chunk =>
    ∃ chunks : List Chunk, read = chunks.map some ++ [some chunk] ∧ written = chunks.map some
  | .halfClosing => ∃ chunks : List Chunk, read = chunks.map some ++ [none] ∧ written = chunks.map some
  | .reporting result => result = .ok () ∧
    ∃ chunks : List Chunk, read = chunks.map some ++ [none] ∧ written = chunks.map some ++ [none]
  | .gone =>
    ∃ chunks : List Chunk, read = chunks.map some ++ [none] ∧ written = chunks.map some ++ [none]

/-- What a forwarding task has taken and passed on, by its state. -/
def ForwardedSoFar (taken : List (Option Incoming)) (sent : List Incoming) : Forwarding → Prop
  | .waiting | .replying _ => taken = sent.map some
  | .recording request | .sending request => taken = sent.map some ++ [some request]
  | .reporting result => result = .ok () ∧ taken = sent.map some ++ [none]
  | .gone => taken = sent.map some ++ [none]

namespace Pipe

variable {p p' : Pipe} {action : PipeAction}

/-! ### What the control loop does -/

/-- Beginning to close sides changes nothing else. -/
theorem startClosing_eq (p : Pipe) (sides : List Side) (result : Option (Except RelayError Unit)) :
    ∃ closed control, p.startClosing sides result = { p with closed, control } := by
  unfold startClosing
  split <;> exact ⟨_, _, rfl⟩

theorem noteCompletion_eq (p : Pipe) (task : PipeTask) :
    ∃ closed control, p.noteCompletion task =
      { p with finished := fun t => if t = task then true else p.finished t, closed, control } := by
  unfold noteCompletion conclude
  dsimp only
  split_ifs
  · exact startClosing_eq _ _ _
  · exact startClosing_eq _ _ _
  · exact startClosing_eq _ _ _
  · exact ⟨_, _, rfl⟩

/-- Only the given sides are closed. -/
theorem closed_of_startClosing {sides : List Side} {result : Option (Except RelayError Unit)}
    {side : Side} (h : (p.startClosing sides result).closed side = true) :
    p.closed side = true ∨ side ∈ sides := by
  unfold startClosing at h
  split at h
  · exact .inl h
  · exact .inl h
  · next next todo _ hsides =>
    dsimp only at h
    split_ifs at h with heq
    · have hmem : side ∈ sides.filter fun side => !p.closed side := by
        rw [hsides, heq]
        exact List.mem_cons_self
      exact .inr (List.mem_filter.mp hmem).1
    · exact .inl h

theorem closing_of_startClosing {sides todo : List Side}
    {result result' : Option (Except RelayError Unit)}
    (h : (p.startClosing sides result).control = .closing todo result') :
    ∀ side ∈ todo, side ∈ sides := by
  intro side hside
  unfold startClosing at h
  split at h
  · cases h
  · cases h
  · next next rest _ hsides =>
    cases h
    have hmem : side ∈ sides.filter fun side => !p.closed side := hsides ▸ hside
    exact (List.mem_filter.mp hmem).1

/-- Both tasks that read from a side have ended. -/
def Drained (p : Pipe) (source : Side) : Prop :=
  p.isGone (.data source) = true ∧ p.isGone (.requests source) = true

/-- The pipe has returned, or is about to once sides are closed. -/
def IsEnding (p : Pipe) : Prop :=
  (∃ todo result, p.control = .closing todo (some result)) ∨ ∃ result, p.control = .returned result

theorem isSome_of_isEnding {sides : List Side} {result : Option (Except RelayError Unit)}
    (h : (p.startClosing sides result).IsEnding) : result.isSome = true := by
  unfold startClosing IsEnding at h
  split at h
  · rcases h with ⟨todo, result', h⟩ | ⟨result', h⟩ <;> cases h
  · rfl
  · rcases h with ⟨todo, result', h⟩ | ⟨result', h⟩
    · cases h
      rfl
    · cases h

/-- A side that is closed, or is next in turn, had its other side drained before, and a pipe that is
ending had both. -/
structure ClosesDrained (p : Pipe) : Prop where
  closed : ∀ side, p.closed side = true → p.Drained side.other
  closing : ∀ todo result, p.control = .closing todo result → ∀ side ∈ todo, p.Drained side.other
  ending : p.IsEnding → ∀ source, p.Drained source

theorem closesDrained_startClosing (h : ClosesDrained p) {sides : List Side}
    (hsides : ∀ side ∈ sides, p.Drained side.other) {result : Option (Except RelayError Unit)}
    (hending : result.isSome = true → ∀ source, p.Drained source) :
    ClosesDrained (p.startClosing sides result) := by
  have hdrained : ∀ source, p.Drained source → (p.startClosing sides result).Drained source := by
    intro source hsource
    obtain ⟨closed, control, heq⟩ := p.startClosing_eq sides result
    rw [heq]
    exact hsource
  refine ⟨fun side hside => hdrained _ ?_, fun todo result' htodo side hside => hdrained _ ?_,
    fun hend source => hdrained _ (hending (isSome_of_isEnding hend) source)⟩
  · rcases closed_of_startClosing hside with hside | hside
    · exact h.closed side hside
    · exact hsides side hside
  · exact hsides side (closing_of_startClosing htodo side hside)

theorem closesDrained_noteCompletion (h : ClosesDrained p) {task : PipeTask}
    (hgone : p.isGone task = true) (hfinished : ∀ t, p.finished t = true → p.isGone t = true) :
    ClosesDrained (p.noteCompletion task) := by
  let q : Pipe := { p with finished := fun t => if t = task then true else p.finished t }
  have hq : ClosesDrained q := ⟨h.closed, h.closing, h.ending⟩
  have hfinishedq : ∀ t, q.finished t = true → q.isGone t = true := by
    intro t ht
    change (if t = task then true else p.finished t) = true at ht
    split_ifs at ht with heq
    · rw [heq]
      exact hgone
    · exact hfinished t ht
  have hdrained : ∀ source, q.sideFinished source = true → q.Drained source := by
    intro source hsource
    rw [sideFinished, Bool.and_eq_true] at hsource
    exact ⟨hfinishedq _ hsource.1, hfinishedq _ hsource.2⟩
  unfold noteCompletion
  change ClosesDrained (if q.sideFinished .inbound && q.sideFinished .outbound then _ else _)
  split_ifs with hboth hin hout
  · rw [Bool.and_eq_true] at hboth
    have hall : ∀ source, q.Drained source := by
      intro source
      cases source with
      | inbound => exact hdrained _ hboth.1
      | outbound => exact hdrained _ hboth.2
    exact closesDrained_startClosing hq (fun side _ => hall _) fun _ => hall
  · refine closesDrained_startClosing hq (fun side hside => ?_) fun hno => by cases hno
    rw [List.mem_singleton.mp hside]
    exact hdrained _ hin
  · refine closesDrained_startClosing hq (fun side hside => ?_) fun hno => by cases hno
    rw [List.mem_singleton.mp hside]
    exact hdrained _ hout
  · exact hq

/-! ### Tasks that have ended -/

theorem isGone_data {source : Side} :
    p.isGone (.data source) = true ↔ p.copying source = .gone := by
  simp only [isGone]
  cases p.copying source <;> simp

theorem isGone_requests {source : Side} :
    p.isGone (.requests source) = true ↔ p.forwarding source = .gone := by
  simp only [isGone]
  cases p.forwarding source <;> simp

theorem report?_data {source : Side} {result : Except RelayError Unit}
    (h : p.report? (.data source) = some result) : p.copying source = .reporting result := by
  simp only [report?] at h
  split at h
  · next hstate =>
    cases h
    exact hstate
  · cases h

theorem report?_requests {source : Side} {result : Except RelayError Unit}
    (h : p.report? (.requests source) = some result) :
    p.forwarding source = .reporting result := by
  simp only [report?] at h
  split at h
  · next hstate =>
    cases h
    exact hstate
  · cases h

theorem isGone_setCopying {source : Side} {task : PipeTask} (h : p.isGone task = true)
    (hsource : p.copying source ≠ .gone) (state : Copying) :
    (p.setCopying source state).isGone task = true := by
  cases task with
  | data side =>
    have hne : side ≠ source := fun heq => hsource (heq ▸ isGone_data.mp h)
    rw [isGone_data] at h ⊢
    exact (if_neg hne).trans h
  | requests side => exact h

theorem isGone_setForwarding {source : Side} {task : PipeTask} (h : p.isGone task = true)
    (hsource : p.forwarding source ≠ .gone) (state : Forwarding) :
    (p.setForwarding source state).isGone task = true := by
  cases task with
  | data side => exact h
  | requests side =>
    have hne : side ≠ source := fun heq => hsource (heq ▸ isGone_requests.mp h)
    rw [isGone_requests] at h ⊢
    exact (if_neg hne).trans h

theorem isGone_endTask_self (p : Pipe) (task : PipeTask) : (p.endTask task).isGone task = true := by
  cases task with
  | data side => exact isGone_data.mpr (if_pos rfl)
  | requests side => exact isGone_requests.mpr (if_pos rfl)

theorem isGone_endTask {task : PipeTask} (h : p.isGone task = true) (other : PipeTask) :
    (p.endTask other).isGone task = true := by
  by_cases heq : task = other
  · rw [heq]
    exact isGone_endTask_self p other
  · cases other with
    | data side =>
      cases task with
      | data side' =>
        have hne : side' ≠ side := fun hside => heq (hside ▸ rfl)
        exact isGone_data.mpr ((if_neg hne).trans (isGone_data.mp h))
      | requests side' => exact h
    | requests side =>
      cases task with
      | data side' => exact h
      | requests side' =>
        have hne : side' ≠ side := fun hside => heq (hside ▸ rfl)
        exact isGone_requests.mpr ((if_neg hne).trans (isGone_requests.mp h))

theorem isGone_foldl_endTask {task : PipeTask} (tasks : List PipeTask) :
    ∀ {p : Pipe}, p.isGone task = true → (tasks.foldl endTask p).isGone task = true := by
  induction tasks with
  | nil => exact id
  | cons other tasks ih => exact fun h => ih (isGone_endTask h other)

/-- A task that has ended stays so. -/
theorem isGone_of_step (h : Step p action p') {task : PipeTask} (hgone : p.isGone task = true) :
    p'.isGone task = true := by
  cases h with
  | readChunk hstate | readEnd hstate | readError hstate | recorded hstate | wrote hstate
  | writeError hstate | halfClosed hstate =>
    refine isGone_setCopying hgone ?_ _
    rw [hstate]
    intro hno
    cases hno
  | took hstate | tookEnd hstate | recordedCommand hstate | sent hstate | sendError hstate
  | replied hstate | replyError hstate =>
    refine isGone_setForwarding hgone ?_ _
    rw [hstate]
    intro hno
    cases hno
  | reports | reportsError | dies => exact isGone_endTask hgone _
  | @seesError e rest =>
    obtain ⟨closed, control, heq⟩ :=
      (tasks.foldl endTask { p with errors := rest }).startClosing_eq [.outbound, .inbound]
        (some (.error e))
    rw [conclude, heq]
    exact isGone_foldl_endTask tasks hgone
  | @seesCompletion other rest =>
    obtain ⟨closed, control, heq⟩ := noteCompletion_eq { p with completions := rest } other
    rw [heq]
    exact hgone
  | seesNothing =>
    obtain ⟨closed, control, heq⟩ := p.startClosing_eq [.outbound, .inbound]
      (some (.error (.task "relay tasks exited unexpectedly")))
    rw [conclude, heq]
    exact hgone
  | @closed side todo result =>
    obtain ⟨closed, control, heq⟩ := p.startClosing_eq todo result
    rw [heq]
    exact hgone

/-- To stop all tasks changes nothing else. -/
theorem stopAll_eq (p : Pipe) :
    ∃ copying forwarding, tasks.foldl endTask p = { p with copying, forwarding } :=
  ⟨_, _, rfl⟩

theorem isGone_stopAll (p : Pipe) (task : PipeTask) :
    (tasks.foldl endTask p).isGone task = true := by
  cases task with
  | data side | requests side => cases side <;> rfl

/-! ### Tasks that do nothing -/

/-- A task is where it was. -/
def Unmoved (p p' : Pipe) : PipeTask → Prop
  | .data source => p'.copying source = p.copying source
  | .requests source => p'.forwarding source = p.forwarding source

theorem unmoved_of_eq (hcopying : p'.copying = p.copying) (hforwarding : p'.forwarding = p.forwarding)
    (task : PipeTask) : Unmoved p p' task := by
  cases task with
  | data source => exact congrFun hcopying source
  | requests source => exact congrFun hforwarding source

theorem unmoved_setCopying {source : Side} {task : PipeTask} (hne : some (.data source) ≠ some task)
    (state : Copying) : Unmoved p (p.setCopying source state) task := by
  cases task with
  | data side =>
    have hside : side ≠ source := fun heq => hne (heq ▸ rfl)
    exact if_neg hside
  | requests side => rfl

theorem unmoved_setForwarding {source : Side} {task : PipeTask}
    (hne : some (.requests source) ≠ some task) (state : Forwarding) :
    Unmoved p (p.setForwarding source state) task := by
  cases task with
  | data side => rfl
  | requests side =>
    have hside : side ≠ source := fun heq => hne (heq ▸ rfl)
    exact if_neg hside

theorem unmoved_endTask (p : Pipe) (other task : PipeTask) :
    Unmoved p (p.endTask other) task ∨ (p.endTask other).isGone task = true := by
  by_cases heq : some other = some task
  · cases heq
    exact .inr (isGone_endTask_self p other)
  · cases other with
    | data source => exact .inl (unmoved_setCopying heq _)
    | requests source => exact .inl (unmoved_setForwarding heq _)

/-- A step that is not a task's own leaves the task where it is, or ends it. -/
theorem unmoved_of_step (h : Step p action p') {task : PipeTask}
    (hother : action.worker? ≠ some task) : Unmoved p p' task ∨ p'.isGone task = true := by
  cases h with
  | readChunk | readEnd | readError | recorded | wrote | writeError | halfClosed =>
    exact .inl (unmoved_setCopying hother _)
  | took | tookEnd | recordedCommand | sent | sendError | replied | replyError =>
    exact .inl (unmoved_setForwarding hother _)
  | reports | reportsError | dies => exact unmoved_endTask p _ task
  | @seesError e rest =>
    obtain ⟨closed, control, heq⟩ :=
      (tasks.foldl endTask { p with errors := rest }).startClosing_eq [.outbound, .inbound]
        (some (.error e))
    rw [conclude, heq]
    exact .inr (isGone_stopAll _ task)
  | @seesCompletion other rest =>
    obtain ⟨closed, control, heq⟩ := noteCompletion_eq { p with completions := rest } other
    rw [heq]
    exact .inl (unmoved_of_eq rfl rfl task)
  | seesNothing =>
    obtain ⟨closed, control, heq⟩ := p.startClosing_eq [.outbound, .inbound]
      (some (.error (.task "relay tasks exited unexpectedly")))
    rw [conclude, heq]
    exact .inl (unmoved_of_eq rfl rfl task)
  | @closed side todo result =>
    obtain ⟨closed, control, heq⟩ := p.startClosing_eq todo result
    rw [heq]
    exact .inl (unmoved_of_eq rfl rfl task)

/-! ### What one step adds -/

section

variable {source : Side} {actions : List PipeAction}

theorem filterMap_snoc {α β : Type} (f : α → Option β) (as : List α) (a : α) :
    (as ++ [a]).filterMap f = as.filterMap f ++ (f a).toList := by
  rw [List.filterMap_append]
  rcases h : f a with _ | b
  · rw [List.filterMap_cons_none h]
    rfl
  · rw [List.filterMap_cons_some h]
    rfl

/-- The task copying from a side, after a step that is not its own. -/
theorem copied_frame (hread : action.reading? source = none)
    (hwrite : action.writing? source = none) (hstate : p'.copying source = p.copying source)
    (h : CopiedSoFar (readings source actions) (writings source actions) (p.copying source)) :
    CopiedSoFar (readings source (actions ++ [action])) (writings source (actions ++ [action]))
      (p'.copying source) := by
  unfold readings writings at h ⊢
  rw [filterMap_snoc, filterMap_snoc, hread, hwrite, hstate, Option.toList_none, List.append_nil,
    List.append_nil]
  exact h

/-- The task copying from a side, after a step of its own. -/
theorem copied_setCopying (read write : Option (Option Chunk)) {state : Copying}
    (hread : action.reading? source = read) (hwrite : action.writing? source = write)
    (h : CopiedSoFar (readings source actions ++ read.toList)
      (writings source actions ++ write.toList) state) :
    CopiedSoFar (readings source (actions ++ [action])) (writings source (actions ++ [action]))
      ((p.setCopying source state).copying source) := by
  have hstate : (p.setCopying source state).copying source = state := if_pos rfl
  unfold readings writings at h ⊢
  rw [filterMap_snoc, filterMap_snoc, hread, hwrite, hstate]
  exact h

theorem copied_of_step (hstep : Step p action p') (hok : action.fails = false)
    (herrors : p.errors = []) (hreports : ∀ task e, p.report? task ≠ some (.error e)) (source : Side)
    (h : CopiedSoFar (readings source actions) (writings source actions) (p.copying source)) :
    CopiedSoFar (readings source (actions ++ [action])) (writings source (actions ++ [action]))
      (p'.copying source) := by
  cases hstep with
  | @readChunk side chunk hstate =>
    by_cases heq : side = source
    · subst heq
      rw [hstate] at h
      obtain ⟨chunks, hread, hwrite⟩ := h
      refine copied_setCopying (some (some chunk)) none (if_pos rfl) rfl ?_
      rw [hread, hwrite, Option.toList_none, List.append_nil, Option.toList_some]
      unfold afterRead
      split <;> exact ⟨chunks, rfl, rfl⟩
    · exact copied_frame (if_neg heq) rfl (if_neg fun h => heq h.symm) h
  | @readEnd side hstate =>
    by_cases heq : side = source
    · subst heq
      rw [hstate] at h
      obtain ⟨chunks, hread, hwrite⟩ := h
      refine copied_setCopying (some none) none (if_pos rfl) rfl ?_
      rw [hread, hwrite, Option.toList_none, List.append_nil, Option.toList_some]
      exact ⟨chunks, rfl, rfl⟩
    · exact copied_frame (if_neg heq) rfl (if_neg fun h => heq h.symm) h
  | @recorded side chunk hstate =>
    by_cases heq : side = source
    · subst heq
      rw [hstate] at h
      refine copied_setCopying none none rfl rfl ?_
      rw [Option.toList_none, List.append_nil, List.append_nil]
      exact h
    · exact copied_frame rfl rfl (if_neg fun h => heq h.symm) h
  | @wrote side chunk hstate =>
    by_cases heq : side = source
    · subst heq
      rw [hstate] at h
      obtain ⟨chunks, hread, hwrite⟩ := h
      refine copied_setCopying none (some (some chunk)) rfl (if_pos rfl)
        ⟨chunks ++ [chunk], ?_, ?_⟩
      · rw [hread, Option.toList_none, List.append_nil, List.map_append]
        rfl
      · rw [hwrite, Option.toList_some, List.map_append]
        rfl
    · exact copied_frame rfl (if_neg heq) (if_neg fun h => heq h.symm) h
  | @halfClosed side result hstate =>
    by_cases heq : side = source
    · subst heq
      rw [hstate] at h
      obtain ⟨chunks, hread, hwrite⟩ := h
      rcases result with e | ⟨⟩
      · cases hok
      refine copied_setCopying none (some none) rfl (if_pos rfl) ⟨rfl, chunks, ?_, ?_⟩
      · rw [hread, Option.toList_none, List.append_nil]
      · rw [hwrite, Option.toList_some]
    · refine copied_frame rfl ?_ (if_neg fun h => heq h.symm) h
      rcases result with e | ⟨⟩
      · rfl
      · exact if_neg heq
  | readError | writeError | sendError | replyError | dies => cases hok
  | took | tookEnd | recordedCommand | sent | replied => exact copied_frame rfl rfl rfl h
  | @reports task hreport =>
    cases task with
    | data side =>
      by_cases heq : side = source
      · subst heq
        rw [report?_data hreport] at h
        refine copied_setCopying none none rfl rfl ?_
        rw [Option.toList_none, List.append_nil, List.append_nil]
        exact h.2
      · exact copied_frame rfl rfl (if_neg fun h => heq h.symm) h
    | requests side => exact copied_frame rfl rfl rfl h
  | @reportsError task e hreport => exact absurd hreport (hreports task e)
  | seesError _ hsome =>
    rw [herrors] at hsome
    cases hsome
  | @seesCompletion task rest =>
    obtain ⟨closed, control, heq⟩ := noteCompletion_eq { p with completions := rest } task
    exact copied_frame rfl rfl (by rw [heq]) h
  | seesNothing =>
    obtain ⟨closed, control, heq⟩ := p.startClosing_eq [.outbound, .inbound]
      (some (.error (.task "relay tasks exited unexpectedly")))
    exact copied_frame rfl rfl (by rw [conclude, heq]) h
  | @closed side todo result =>
    obtain ⟨closed, control, heq⟩ := p.startClosing_eq todo result
    exact copied_frame rfl rfl (by rw [heq]) h

theorem forwarded_frame (htake : action.taking? source = none)
    (hsend : action.sending? source = none) (hstate : p'.forwarding source = p.forwarding source)
    (h : ForwardedSoFar (takings source actions) (sendings source actions)
      (p.forwarding source)) :
    ForwardedSoFar (takings source (actions ++ [action])) (sendings source (actions ++ [action]))
      (p'.forwarding source) := by
  unfold takings sendings at h ⊢
  rw [filterMap_snoc, filterMap_snoc, htake, hsend, hstate, Option.toList_none, Option.toList_none,
    List.append_nil, List.append_nil]
  exact h

theorem forwarded_setForwarding (take : Option (Option Incoming)) (send : Option Incoming)
    {state : Forwarding} (htake : action.taking? source = take)
    (hsend : action.sending? source = send)
    (h : ForwardedSoFar (takings source actions ++ take.toList)
      (sendings source actions ++ send.toList) state) :
    ForwardedSoFar (takings source (actions ++ [action])) (sendings source (actions ++ [action]))
      ((p.setForwarding source state).forwarding source) := by
  have hstate : (p.setForwarding source state).forwarding source = state := if_pos rfl
  unfold takings sendings at h ⊢
  rw [filterMap_snoc, filterMap_snoc, htake, hsend, hstate]
  exact h

theorem forwarded_of_step (hstep : Step p action p') (hok : action.fails = false)
    (herrors : p.errors = []) (hreports : ∀ task e, p.report? task ≠ some (.error e)) (source : Side)
    (h : ForwardedSoFar (takings source actions) (sendings source actions)
      (p.forwarding source)) :
    ForwardedSoFar (takings source (actions ++ [action])) (sendings source (actions ++ [action]))
      (p'.forwarding source) := by
  cases hstep with
  | readChunk | readEnd | recorded | wrote | halfClosed => exact forwarded_frame rfl rfl rfl h
  | readError | writeError | sendError | replyError | dies => cases hok
  | @took side request hstate =>
    by_cases heq : side = source
    · subst heq
      rw [hstate] at h
      have htaken : takings side actions = (sendings side actions).map some := h
      refine forwarded_setForwarding (some (some request)) none (if_pos rfl) rfl ?_
      rw [htaken, Option.toList_none, List.append_nil, Option.toList_some]
      unfold afterTake
      split
      · split <;> rfl
      · rfl
    · exact forwarded_frame (if_neg heq) rfl (if_neg fun h => heq h.symm) h
  | @tookEnd side hstate =>
    by_cases heq : side = source
    · subst heq
      rw [hstate] at h
      have htaken : takings side actions = (sendings side actions).map some := h
      refine forwarded_setForwarding (some none) none (if_pos rfl) rfl ⟨rfl, ?_⟩
      rw [htaken, Option.toList_none, List.append_nil, Option.toList_some]
    · exact forwarded_frame (if_neg heq) rfl (if_neg fun h => heq h.symm) h
  | @recordedCommand request command hstate =>
    by_cases heq : Side.inbound = source
    · subst heq
      rw [hstate] at h
      refine forwarded_setForwarding none none rfl rfl ?_
      rw [Option.toList_none, Option.toList_none, List.append_nil, List.append_nil]
      exact h
    · exact forwarded_frame rfl rfl (if_neg fun h => heq h.symm) h
  | @sent side request accepted hstate =>
    by_cases heq : side = source
    · subst heq
      rw [hstate] at h
      have htaken : takings side actions = (sendings side actions).map some ++ [some request] := h
      refine forwarded_setForwarding none (some request) rfl (if_pos rfl) ?_
      have hall : takings side actions = (sendings side actions ++ [request]).map some := by
        rw [htaken, List.map_append]
        rfl
      rw [Option.toList_none, List.append_nil, Option.toList_some]
      split <;> exact hall
    · exact forwarded_frame rfl (if_neg heq) (if_neg fun h => heq h.symm) h
  | @replied side accepted hstate =>
    by_cases heq : side = source
    · subst heq
      rw [hstate] at h
      refine forwarded_setForwarding none none rfl rfl ?_
      rw [Option.toList_none, Option.toList_none, List.append_nil, List.append_nil]
      exact h
    · exact forwarded_frame rfl rfl (if_neg fun h => heq h.symm) h
  | @reports task hreport =>
    cases task with
    | data side => exact forwarded_frame rfl rfl rfl h
    | requests side =>
      by_cases heq : side = source
      · subst heq
        rw [report?_requests hreport] at h
        refine forwarded_setForwarding none none rfl rfl ?_
        rw [Option.toList_none, Option.toList_none, List.append_nil, List.append_nil]
        exact h.2
      · exact forwarded_frame rfl rfl (if_neg fun h => heq h.symm) h
  | @reportsError task e hreport => exact absurd hreport (hreports task e)
  | seesError _ hsome =>
    rw [herrors] at hsome
    cases hsome
  | @seesCompletion task rest =>
    obtain ⟨closed, control, heq⟩ := noteCompletion_eq { p with completions := rest } task
    exact forwarded_frame rfl rfl (by rw [heq]) h
  | seesNothing =>
    obtain ⟨closed, control, heq⟩ := p.startClosing_eq [.outbound, .inbound]
      (some (.error (.task "relay tasks exited unexpectedly")))
    exact forwarded_frame rfl rfl (by rw [conclude, heq]) h
  | @closed side todo result =>
    obtain ⟨closed, control, heq⟩ := p.startClosing_eq todo result
    exact forwarded_frame rfl rfl (by rw [heq]) h

end

/-! ### What the control loop goes by -/

/-- Whatever is reported, or has been seen, is of a task that has ended, and no side is closed too
early. -/
structure Orderly (p : Pipe) : Prop where
  completions : ∀ task ∈ p.completions, p.isGone task = true
  finished : ∀ task, p.finished task = true → p.isGone task = true
  closes : ClosesDrained p

theorem Orderly.fresh (recording : PipeRecording) : Orderly { recording } where
  completions _ h := by cases h
  finished _ h := by cases h
  closes := by
    constructor
    · intro side h
      cases h
    · intro todo result h
      cases h
    · rintro (⟨todo, result, h⟩ | ⟨result, h⟩) <;> cases h

theorem drained_of_step (h : Step p action p') {source : Side} (hdrained : p.Drained source) :
    p'.Drained source :=
  ⟨isGone_of_step h hdrained.1, isGone_of_step h hdrained.2⟩

/-- A step of a task leaves the control loop where it was. -/
theorem closesDrained_of_eq (h : ClosesDrained p) (hstep : Step p action p')
    (hclosed : p'.closed = p.closed) (hcontrol : p'.control = p.control) : ClosesDrained p' := by
  constructor
  · intro side hside
    rw [hclosed] at hside
    exact drained_of_step hstep (h.closed side hside)
  · intro todo result htodo side hside
    rw [hcontrol] at htodo
    exact drained_of_step hstep (h.closing todo result htodo side hside)
  · intro hending source
    unfold IsEnding at hending
    rw [hcontrol] at hending
    exact drained_of_step hstep (h.ending hending source)

theorem mem_tasks (task : PipeTask) : task ∈ tasks := by
  cases task with
  | data side | requests side => cases side <;> decide

theorem drained_of_gone (h : ∀ task ∈ tasks, p.isGone task = true) (source : Side) :
    p.Drained source :=
  ⟨h _ (mem_tasks _), h _ (mem_tasks _)⟩

theorem Orderly.closes_of_step (h : Orderly p) (hstep : Step p action p') : ClosesDrained p' := by
  have hall := hstep
  cases hstep with
  | readChunk | readEnd | readError | recorded | wrote | writeError | halfClosed | took | tookEnd
  | recordedCommand | sent | sendError | replied | replyError =>
    exact closesDrained_of_eq h.closes hall rfl rfl
  | @reports task | @reportsError task | @dies task =>
    cases task <;> exact closesDrained_of_eq h.closes hall rfl rfl
  | @seesError e rest hcontrol =>
    -- Every side is drained, since all tasks are stopped.
    have hdrained : ∀ source, (tasks.foldl endTask { p with errors := rest }).Drained source :=
      drained_of_gone fun task _ => isGone_stopAll _ task
    exact closesDrained_startClosing
      ⟨fun side _ => hdrained _, fun todo result _ side _ => hdrained _, fun _ => hdrained⟩
      (fun side _ => hdrained _) fun _ => hdrained
  | @seesCompletion task rest _ hcompletions =>
    have hmem : task ∈ p.completions := hcompletions ▸ List.mem_cons_self
    have hpopped : ClosesDrained { p with completions := rest } :=
      ⟨h.closes.closed, h.closes.closing, h.closes.ending⟩
    exact closesDrained_noteCompletion hpopped (h.completions task hmem) h.finished
  | seesNothing _ _ _ hgone =>
    exact closesDrained_startClosing h.closes (fun side _ => drained_of_gone hgone _)
      fun _ => drained_of_gone hgone
  | @closed side todo result hcontrol =>
    refine closesDrained_startClosing h.closes
      (fun next hnext => h.closes.closing _ _ hcontrol next (List.mem_cons_of_mem _ hnext))
      fun hsome => h.closes.ending (.inl ?_)
    obtain ⟨result, rfl⟩ := Option.isSome_iff_exists.mp hsome
    exact ⟨_, _, hcontrol⟩

/-- Whatever is newly reported, or newly seen, is of a task that has ended. -/
theorem Orderly.reported_of_step (h : Orderly p) (hstep : Step p action p') :
    (∀ task ∈ p'.completions, task ∈ p.completions ∨ p'.isGone task = true) ∧
      ∀ task, p'.finished task = true → p.finished task = true ∨ p.isGone task = true := by
  have hsame : ∀ {q : Pipe}, q.completions = p.completions → q.finished = p.finished →
      (∀ task ∈ q.completions, task ∈ p.completions ∨ q.isGone task = true) ∧
        ∀ task, q.finished task = true → p.finished task = true ∨ p.isGone task = true := by
    intro q hcompletions hfinished
    exact ⟨fun task hmem => .inl (hcompletions ▸ hmem), fun task htask => .inl (hfinished ▸ htask)⟩
  cases hstep with
  | readChunk | readEnd | readError | recorded | wrote | writeError | halfClosed | took | tookEnd
  | recordedCommand | sent | sendError | replied | replyError => exact hsame rfl rfl
  | @dies task | @reportsError task => cases task <;> exact hsame rfl rfl
  | @reports task =>
    refine ⟨fun other hmem => ?_, fun other hother => .inl ?_⟩
    · rcases List.mem_append.mp hmem with hmem | hmem
      · exact .inl hmem
      · rw [List.mem_singleton.mp hmem]
        exact .inr (isGone_endTask_self p task)
    · cases task <;> exact hother
  | @seesError e rest =>
    obtain ⟨closed, control, heq⟩ := (tasks.foldl endTask { p with errors := rest }).startClosing_eq
      [.outbound, .inbound] (some (.error e))
    rw [conclude, heq]
    exact hsame rfl rfl
  | @seesCompletion task rest _ hcompletions =>
    obtain ⟨closed, control, heq⟩ := noteCompletion_eq { p with completions := rest } task
    rw [heq]
    refine ⟨fun other hmem => .inl ?_, fun other hother => ?_⟩
    · rw [hcompletions]
      exact List.mem_cons_of_mem _ hmem
    · change (if other = task then true else p.finished other) = true at hother
      split_ifs at hother with hsame
      · rw [hsame]
        exact .inr (h.completions task (hcompletions ▸ List.mem_cons_self))
      · exact .inl hother
  | seesNothing =>
    obtain ⟨closed, control, heq⟩ := p.startClosing_eq [.outbound, .inbound]
      (some (.error (.task "relay tasks exited unexpectedly")))
    rw [conclude, heq]
    exact hsame rfl rfl
  | @closed side todo result =>
    obtain ⟨closed, control, heq⟩ := p.startClosing_eq todo result
    rw [heq]
    exact hsame rfl rfl

theorem Orderly.step (h : Orderly p) (hstep : Step p action p') : Orderly p' := by
  obtain ⟨hcompletions, hfinished⟩ := h.reported_of_step hstep
  refine ⟨fun task hmem => ?_, fun task htask => ?_, h.closes_of_step hstep⟩
  · rcases hcompletions task hmem with hmem | hgone
    · exact isGone_of_step hstep (h.completions task hmem)
    · exact hgone
  · rcases hfinished task htask with htask | hgone
    · exact isGone_of_step hstep (h.finished task htask)
    · exact isGone_of_step hstep hgone

/-! ### The invariant -/

/-- A pipe without failures, after these steps. -/
structure Sound (p : Pipe) (actions : List PipeAction) : Prop extends Orderly p where
  copied : ∀ source, CopiedSoFar (readings source actions) (writings source actions)
    (p.copying source)
  forwarded : ∀ source, ForwardedSoFar (takings source actions) (sendings source actions)
    (p.forwarding source)
  errors : p.errors = []

theorem Sound.fresh (recording : PipeRecording) : Sound { recording } [] where
  toOrderly := .fresh recording
  copied _ := ⟨[], rfl, rfl⟩
  forwarded _ := rfl
  errors := rfl

theorem Sound.report?_ne {actions : List PipeAction} (h : Sound p actions) (task : PipeTask)
    (e : RelayError) : p.report? task ≠ some (.error e) := by
  intro hreport
  cases task with
  | data side =>
    have hcopied := h.copied side
    rw [report?_data hreport] at hcopied
    cases hcopied.1
  | requests side =>
    have hforwarded := h.forwarded side
    rw [report?_requests hreport] at hforwarded
    cases hforwarded.1

/-- No error comes up. -/
theorem Sound.errors_of_step {actions : List PipeAction} (h : Sound p actions)
    (hstep : Step p action p') : p'.errors = [] := by
  cases hstep with
  | @reports task | @dies task => cases task <;> exact h.errors
  | @reportsError task e hreport => exact absurd hreport (h.report?_ne task e)
  | seesError _ hsome =>
    rw [h.errors] at hsome
    cases hsome
  | @seesCompletion task rest =>
    obtain ⟨closed, control, heq⟩ := noteCompletion_eq { p with completions := rest } task
    rw [heq]
    exact h.errors
  | seesNothing =>
    obtain ⟨closed, control, heq⟩ := p.startClosing_eq [.outbound, .inbound]
      (some (.error (.task "relay tasks exited unexpectedly")))
    rw [conclude, heq]
    exact h.errors
  | @closed side todo result =>
    obtain ⟨closed, control, heq⟩ := p.startClosing_eq todo result
    rw [heq]
    exact h.errors
  | _ => exact h.errors

theorem Sound.step {actions : List PipeAction} (h : Sound p actions) (hstep : Step p action p')
    (hok : action.fails = false) : Sound p' (actions ++ [action]) where
  toOrderly := h.toOrderly.step hstep
  copied source := copied_of_step hstep hok h.errors h.report?_ne source (h.copied source)
  forwarded source := forwarded_of_step hstep hok h.errors h.report?_ne source (h.forwarded source)
  errors := h.errors_of_step hstep

/-- All steps of a run without failures keep the invariant. -/
theorem sound_of_run? {recording : PipeRecording} {actions : List PipeAction} :
    ∀ {p : Pipe}, Pipe.run? { recording } actions = some p →
      (∀ action ∈ actions, action.fails = false) → Sound p actions := by
  induction actions using List.reverseRecOn with
  | nil =>
    intro p hrun _
    cases hrun
    exact .fresh recording
  | append_singleton actions action ih =>
    intro p hrun hok
    obtain ⟨p₁, hbefore, hstep⟩ := run?_snoc hrun
    refine (ih hbefore fun a ha => hok a (List.mem_append_left _ ha)).step (step_of_step? hstep) ?_
    exact hok action (List.mem_append_right _ (List.mem_singleton_self action))

/-! ### When a side is closed -/

theorem Sound.complete {actions : List PipeAction} (h : Sound p actions) {side : Side}
    (hclosed : p.closed side = true) : Complete side actions := by
  obtain ⟨hdata, hrequests⟩ := h.closes.closed side hclosed
  have hcopied := h.copied side.other
  rw [isGone_data.mp hdata] at hcopied
  have hforwarded := h.forwarded side.other
  rw [isGone_requests.mp hrequests] at hforwarded
  obtain ⟨chunks, hread, hwrite⟩ := hcopied
  exact ⟨chunks, sendings side.other actions, hread, hwrite, hforwarded, rfl⟩

/-- The step with which the closing of a side begins passes nothing on. -/
theorem projections_of_closing (h : Step p action p') {side : Side} (hopen : p.closed side = false)
    (hclosed : p'.closed side = true) (source : Side) :
    action.reading? source = none ∧ action.writing? source = none ∧
      action.taking? source = none ∧ action.sending? source = none := by
  have hsame : p'.closed ≠ p.closed := by
    intro heq
    rw [heq, hopen] at hclosed
    cases hclosed
  cases h with
  | readChunk | readEnd | readError | recorded | wrote | writeError | halfClosed | took | tookEnd
  | recordedCommand | sent | sendError | replied | replyError => exact absurd rfl hsame
  | @reports task | @reportsError task | @dies task => cases task <;> exact absurd rfl hsame
  | seesError | seesCompletion | seesNothing | closed => exact ⟨rfl, rfl, rfl, rfl⟩

theorem complete_of_snoc {actions : List PipeAction} {side : Side}
    (h : Complete side (actions ++ [action])) (hnone : ∀ source, action.reading? source = none ∧
      action.writing? source = none ∧ action.taking? source = none ∧ action.sending? source = none) :
    Complete side actions := by
  obtain ⟨hread, hwrite, htake, hsend⟩ := hnone side.other
  unfold Complete readings writings takings sendings at h ⊢
  rw [filterMap_snoc, filterMap_snoc, filterMap_snoc, filterMap_snoc, hread, hwrite, htake, hsend,
    Option.toList_none, Option.toList_none, Option.toList_none, List.append_nil, List.append_nil,
    List.append_nil, List.append_nil] at h
  exact h

/-- If no task fails, then when the pipe begins to close a side, that side has been told everything
that comes from the other one, and it is told nothing more from then on. -/
theorem complete_of_closing {recording : PipeRecording} {actions : List PipeAction}
    (hrun : Pipe.run? { recording } actions = some p)
    (hok : ∀ action ∈ actions, action.fails = false) (side : Side) :
    (∀ before action after p₁ p₂, actions = before ++ action :: after →
      Pipe.run? { recording } before = some p₁ → p₁.step? action = some p₂ →
      p₁.closed side = false → p₂.closed side = true → Complete side before) ∧
    (p.closed side = true → Complete side actions) := by
  refine ⟨?_, fun hclosed => (sound_of_run? hrun hok).complete hclosed⟩
  rintro before action after p₁ p₂ rfl hbefore hstep hopen hclosed
  have hstep' := step_of_step? hstep
  have hsound := sound_of_run? hbefore fun a ha => hok a (List.mem_append_left _ ha)
  have hnext := hsound.step hstep' (hok action (List.mem_append_right _ List.mem_cons_self))
  exact complete_of_snoc (hnext.complete hclosed)
    (projections_of_closing hstep' hopen hclosed)

end Pipe

end Gatehouse.Relay

import Gatehouse.Relay.Pipe
import Mathlib.Tactic.Common

/-!
# The steps of a pipe, one by one

`Pipe.step_of_step?`: whatever step a pipe takes, it is one of those of `Pipe.Step`, which say of each
action in which state it can happen and which state it leads to. What is proved about all steps of a
pipe goes by these cases and never by the functions that carry the steps out.
-/

namespace Gatehouse.Relay.Pipe

/-- The steps of a pipe. -/
inductive Step (p : Pipe) : PipeAction → Pipe → Prop where
  | readChunk {source chunk} : p.copying source = .reading →
      Step p (.read source (.ok (some chunk))) (p.setCopying source (p.afterRead source chunk))
  | readEnd {source} : p.copying source = .reading →
      Step p (.read source (.ok none)) (p.setCopying source .halfClosing)
  | readError {source e} : p.copying source = .reading →
      Step p (.read source (.error e)) (p.setCopying source (.reporting (.error e)))
  | recorded {source chunk} : p.copying source = .recording chunk →
      Step p (.recorded source chunk) (p.setCopying source (.writing chunk))
  | wrote {source chunk} : p.copying source = .writing chunk →
      Step p (.wrote source chunk (.ok ())) (p.setCopying source .reading)
  | writeError {source chunk e} : p.copying source = .writing chunk →
      Step p (.wrote source chunk (.error e)) (p.setCopying source (.reporting (.error e)))
  | halfClosed {source result} : p.copying source = .halfClosing →
      Step p (.halfClosed source result) (p.setCopying source (.reporting result))
  | took {source request} : p.forwarding source = .waiting →
      Step p (.took source (some request)) (p.setForwarding source (p.afterTake source request))
  | tookEnd {source} : p.forwarding source = .waiting →
      Step p (.took source none) (p.setForwarding source (.reporting (.ok ())))
  | recordedCommand {request command} : p.forwarding .inbound = .recording request →
      request.request = .exec command →
      Step p (.recordedCommand command) (p.setForwarding .inbound (.sending request))
  | sent {source request accepted} : p.forwarding source = .sending request →
      Step p (.sent source request (.ok accepted))
        (p.setForwarding source (if request.wantReply then .replying accepted else .waiting))
  | sendError {source request e} : p.forwarding source = .sending request →
      Step p (.sent source request (.error e)) (p.setForwarding source (.reporting (.error e)))
  | replied {source accepted} : p.forwarding source = .replying accepted →
      Step p (.replied source accepted (.ok ())) (p.setForwarding source .waiting)
  | replyError {source accepted e} : p.forwarding source = .replying accepted →
      Step p (.replied source accepted (.error e)) (p.setForwarding source (.reporting (.error e)))
  | reports {task} : p.report? task = some (.ok ()) →
      Step p (.reports task) { p.endTask task with completions := p.completions ++ [task] }
  | reportsError {task e} : p.report? task = some (.error e) →
      Step p (.reports task) { p.endTask task with errors := p.errors ++ [e] }
  | dies {task} : p.isGone task = false → Step p (.dies task) (p.endTask task)
  | seesError {e rest} : p.control = .waiting → p.errors = e :: rest →
      Step p .seesError ((tasks.foldl endTask { p with errors := rest }).conclude (.error e))
  | seesCompletion {task rest} : p.control = .waiting → p.completions = task :: rest →
      Step p .seesCompletion ({ p with completions := rest }.noteCompletion task)
  | seesNothing : p.control = .waiting → p.errors = [] → p.completions = [] →
      (∀ task ∈ tasks, p.isGone task = true) →
      Step p .seesNothing (p.conclude (.error (.task "relay tasks exited unexpectedly")))
  | closed {side todo result} : p.control = .closing (side :: todo) result →
      Step p (.closed side) (p.startClosing todo result)

variable {p p' : Pipe} {action : PipeAction}

theorem step_of_copyStep? (h : p.copyStep? action = some p') : Step p action p' := by
  cases action with
  | read source outcome =>
    simp only [copyStep?] at h
    split at h
    · next hstate =>
      cases h
      rcases outcome with e | _ | chunk
      · exact .readError hstate
      · exact .readEnd hstate
      · exact .readChunk hstate
    · cases h
  | recorded source chunk =>
    simp only [copyStep?] at h
    split at h
    · next held hstate =>
      split_ifs at h with heq
      subst heq
      cases h
      exact .recorded hstate
    · cases h
  | wrote source chunk outcome =>
    simp only [copyStep?] at h
    split at h
    · next held hstate =>
      split_ifs at h with heq
      subst heq
      cases h
      rcases outcome with e | ⟨⟩
      · exact .writeError hstate
      · exact .wrote hstate
    · cases h
  | halfClosed source outcome =>
    simp only [copyStep?] at h
    split at h
    · next hstate =>
      cases h
      exact .halfClosed hstate
    · cases h
  | _ => cases h

theorem step_of_forwardStep? (h : p.forwardStep? action = some p') : Step p action p' := by
  cases action with
  | took source request =>
    simp only [forwardStep?] at h
    split at h
    · next hstate =>
      cases h
      rcases request with _ | request
      · exact .tookEnd hstate
      · exact .took hstate
    · cases h
  | recordedCommand command =>
    simp only [forwardStep?] at h
    split at h
    · next held hstate =>
      split_ifs at h with heq
      cases h
      exact .recordedCommand hstate heq
    · cases h
  | sent source request outcome =>
    simp only [forwardStep?] at h
    split at h
    · next held hstate =>
      by_cases heq : request = held
      · subst heq
        rw [if_pos rfl] at h
        cases h
        rcases outcome with e | accepted
        · exact .sendError hstate
        · exact .sent hstate
      · rw [if_neg heq] at h
        cases h
    · cases h
  | replied source accepted outcome =>
    simp only [forwardStep?] at h
    split at h
    · next held hstate =>
      split_ifs at h with heq
      subst heq
      cases h
      rcases outcome with e | ⟨⟩
      · exact .replyError hstate
      · exact .replied hstate
    · cases h
  | _ => cases h

theorem step_of_reportStep? (h : p.reportStep? action = some p') : Step p action p' := by
  cases action with
  | reports task =>
    simp only [reportStep?] at h
    split at h
    · next hreport =>
      cases h
      exact .reports hreport
    · next e hreport =>
      cases h
      exact .reportsError hreport
    · cases h
  | dies task =>
    simp only [reportStep?] at h
    split_ifs at h with hgone
    cases h
    exact .dies (Bool.eq_false_iff.mpr hgone)
  | _ => cases h

theorem step_of_controlStep? (h : p.controlStep? action = some p') : Step p action p' := by
  cases action with
  | seesError =>
    simp only [controlStep?] at h
    split at h
    · next e rest hcontrol herrors =>
      cases h
      exact .seesError hcontrol herrors
    · cases h
  | seesCompletion =>
    simp only [controlStep?] at h
    split at h
    · next task rest hcontrol hcompletions =>
      cases h
      exact .seesCompletion hcontrol hcompletions
    · cases h
  | seesNothing =>
    simp only [controlStep?] at h
    split at h
    · next hcontrol herrors hcompletions =>
      split_ifs at h with hgone
      cases h
      exact .seesNothing hcontrol herrors hcompletions (List.all_eq_true.mp hgone)
    · cases h
  | closed side =>
    simp only [controlStep?] at h
    split at h
    · next next todo result hcontrol =>
      split_ifs at h with heq
      cases h
      exact .closed (heq ▸ hcontrol)
    · cases h
  | _ => cases h

/-- There are no other steps. -/
theorem step_of_step? (h : p.step? action = some p') : Step p action p' := by
  simp only [step?, Option.orElse_eq_orElse, Option.orElse_eq_or, Option.or_eq_some_iff] at h
  rcases h with h | ⟨-, h | ⟨-, h | ⟨-, h⟩⟩⟩
  · exact step_of_copyStep? h
  · exact step_of_forwardStep? h
  · exact step_of_reportStep? h
  · exact step_of_controlStep? h

/-! ### Runs -/

theorem run?_append (p : Pipe) (before after : List PipeAction) :
    p.run? (before ++ after) = (p.run? before).bind fun p => p.run? after := by
  induction before generalizing p with
  | nil => rfl
  | cons action before ih =>
    rw [List.cons_append, run?, run?]
    rcases p.step? action with _ | p₁
    · rfl
    · exact ih p₁

theorem run?_snoc {p p' : Pipe} {actions : List PipeAction} {action : PipeAction}
    (h : p.run? (actions ++ [action]) = some p') :
    ∃ p₁, p.run? actions = some p₁ ∧ p₁.step? action = some p' := by
  rw [run?_append] at h
  rcases hbefore : p.run? actions with _ | p₁
  · rw [hbefore] at h
    cases h
  · rw [hbefore, Option.bind_some, run?] at h
    rcases hstep : p₁.step? action with _ | p₂
    · rw [hstep] at h
      cases h
    · rw [hstep] at h
      cases h
      exact ⟨p₁, rfl, hstep⟩

end Gatehouse.Relay.Pipe

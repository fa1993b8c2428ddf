import Gatehouse.Proofs.Text.Lossy
import Gatehouse.Rehearsal.Hook

/-!
# What the access hook decides

`Hook.decides_as_printed`: a hook decides by what it prints, and by nothing else. The rule that a failing
hook leaves the decision as it is (`HookRun.Follows`) is kept by every run but one that ends with a
status other than 0 and has printed the other action; `failing_hook_overrides` is such a run.

Proof. A run decides exactly for the action whose word it prints (`decision?_eq_some_iff`), and the bytes
that stand for a word are known (`Text.trim_ofUtf8Lossy_eq_iff`). The exit status is in none of this.
-/

namespace Gatehouse.Access

open Text (isBlankText utf8)

namespace HookRun

/-- The command was started, and has ended with status 0. -/
def Succeeds (run : HookRun) : Prop :=
  ∃ printed, run = .finished 0 printed

/-- The command has come to an end, and its output, read lossily and trimmed, is the word of an
action. -/
def Prints (run : HookRun) (action : Action) : Prop :=
  ∃ status printed, run = .finished status printed ∧
    Text.trim (Text.ofUtf8Lossy printed) = action.word

/-- The rule for hooks: one that succeeds and prints an action decides for it, and in every other case
the decision stands. -/
def Follows (run : HookRun) (resolved decided : Action) : Prop :=
  run.Succeeds ∧ run.Prints decided ∨
    ¬ (run.Succeeds ∧ ∃ action, run.Prints action) ∧ decided = resolved

variable {run : HookRun} {action resolved : Action}

theorem decision?_eq_some_iff : run.decision? = some action ↔ run.Prints action := by
  rcases run with _ | ⟨status, printed⟩
  · constructor
    · intro h
      cases h
    · rintro ⟨status, printed, hrun, -⟩
      cases hrun
  · have hprints : Prints (.finished status printed) action ↔
        Text.trim (Text.ofUtf8Lossy printed) = action.word := by
      constructor
      · rintro ⟨status', printed', hrun, hword⟩
        cases hrun
        exact hword
      · intro hword
        exact ⟨status, printed, rfl, hword⟩
    rw [hprints, decision?]
    split
    · next hword => cases action <;> simp [hword, Action.word]
    · next hword => cases action <;> simp [hword, Action.word]
    · next hallow hdeny =>
      cases action with
      | allow => exact iff_of_false nofun hallow
      | deny => exact iff_of_false nofun hdeny

/-- The bytes that are printed for an action. -/
theorem prints_iff : run.Prints action ↔ ∃ status before after, isBlankText before = true ∧
    isBlankText after = true ∧ run = .finished status (utf8 (before ++ action.word ++ after)) := by
  have hword {printed : Bytes} : Text.trim (Text.ofUtf8Lossy printed) = action.word ↔
      ∃ before after, isBlankText before = true ∧ isBlankText after = true ∧
        printed = utf8 (before ++ action.word ++ after) :=
    Text.trim_ofUtf8Lossy_eq_iff (by cases action <;> decide)
      (by cases action <;> simp [Action.word, Text.isBlank]) (by cases action <;> decide)
  constructor
  · rintro ⟨status, printed, rfl, htrim⟩
    obtain ⟨before, after, hbefore, hafter, rfl⟩ := hword.mp htrim
    exact ⟨status, before, after, hbefore, hafter, rfl⟩
  · rintro ⟨status, before, after, hbefore, hafter, rfl⟩
    exact ⟨status, _, rfl, hword.mpr ⟨before, after, hbefore, hafter, rfl⟩⟩

theorem decided_cases (run : HookRun) (action : Action) :
    run.Prints (run.decision?.getD action) ∨
      (¬ ∃ other, run.Prints other) ∧ run.decision?.getD action = action := by
  rcases hdecision : run.decision? with _ | other
  · refine .inr ⟨?_, rfl⟩
    rintro ⟨other, hprints⟩
    rw [decision?_eq_some_iff.mpr hprints] at hdecision
    cases hdecision
  · exact .inl (decision?_eq_some_iff.mp hdecision)

/-- Only a run that fails and prints the other action does not follow the rule. -/
theorem not_follows_iff {decided : Action}
    (h : run.Prints decided ∨ (¬ ∃ other, run.Prints other) ∧ decided = resolved) :
    ¬ run.Follows resolved decided ↔ ∃ status printed, run = .finished status printed ∧
      status ≠ 0 ∧ run.Prints decided ∧ decided ≠ resolved := by
  constructor
  · intro hnot
    have hprints : run.Prints decided := by
      refine h.resolve_right ?_
      rintro ⟨hnone, hsame⟩
      exact hnot (.inr ⟨fun hboth => hnone hboth.2, hsame⟩)
    have hfails : ¬ run.Succeeds := fun hsucceeds => hnot (.inl ⟨hsucceeds, hprints⟩)
    have ⟨status, printed, hrun, _⟩ := hprints
    refine ⟨status, printed, hrun, ?_, hprints, ?_⟩
    · rintro rfl
      exact hfails ⟨printed, hrun⟩
    · intro hsame
      exact hnot (.inr ⟨fun hboth => hfails hboth.1, hsame⟩)
  · rintro ⟨status, printed, rfl, hstatus, -, hother⟩ (⟨⟨printed', hrun⟩, -⟩ | ⟨-, hsame⟩)
    · cases hrun
      exact hstatus rfl
    · exact hother hsame

end HookRun

/-- A hook is run once, with the decision, the user and the host. It decides for the action whose word
it prints, with nothing but white space around it; a hook that prints neither word leaves the decision
as it is. So the rule is kept, except by a run that ends with a status other than 0 and has printed the
action that had not been decided for. -/
theorem Hook.decides_as_printed (hook : Hook) (earlier : List HookCall) (action : Action) (user : User)
    (host : Host) :
    let call := HookCall.of action user host
    let run := hook.run earlier call
    let (decided, calls) := (hook.consult action user host).run earlier
    calls = earlier ++ [call] ∧
      (run.Prints decided ∨ (¬ ∃ other, run.Prints other) ∧ decided = action) ∧
      (∀ word, run.Prints word ↔ ∃ status before after, isBlankText before = true ∧
        isBlankText after = true ∧ run = .finished status (utf8 (before ++ word.word ++ after))) ∧
      (¬ run.Follows action decided ↔ ∃ status printed, run = .finished status printed ∧
        status ≠ 0 ∧ run.Prints decided ∧ decided ≠ action) := by
  intro call run
  have hcases := run.decided_cases action
  exact ⟨rfl, hcases, fun _ => HookRun.prints_iff, HookRun.not_follows_iff hcases⟩

/-- A hook that prints `allow` and ends with status 1 lets a user in whom the rules have denied
access. -/
theorem failing_hook_overrides :
    let hook := Rehearsal.printingHook 1 [utf8 "allow"]
    let ann : User := { id := 1, name := "alice", email := "alice@example.com" }
    let db : Host := { id := 2, name := "db", addr := "db:22", user := "root" }
    ((hook.consult .deny ann db).run []).1 = .allow ∧
      ¬ (hook.run [] (HookCall.of .deny ann db)).Follows .deny
        ((hook.consult .deny ann db).run []).1 := by
  intro hook ann db
  have hprints : (hook.run [] (HookCall.of .deny ann db)).Prints .allow :=
    HookRun.prints_iff.mpr ⟨1, "", "", rfl, rfl, rfl⟩
  have hdecided : ((hook.consult .deny ann db).run []).1 = .allow := by
    change (hook.run [] (HookCall.of .deny ann db)).decision?.getD .deny = .allow
    rw [HookRun.decision?_eq_some_iff.mpr hprints]
    rfl
  rw [hdecided]
  refine ⟨rfl, (HookRun.not_follows_iff (.inl hprints)).mpr ?_⟩
  exact ⟨1, utf8 "allow", rfl, by decide, hprints, by decide⟩

end Gatehouse.Access

/-!
# Histories

What has happened, as a list with the oldest first: what holds of each thing with those before it
(`Throughout`), and what has been started and not stopped since (`Since`).
-/

namespace Gatehouse

variable {α : Type}

/-- Each thing that has happened stands in a relation to those before it. -/
def Throughout (P : List α → α → Prop) (events : List α) : Prop :=
  ∀ before event after, events = before ++ event :: after → P before event

/-- Something has happened that starts it, and after that nothing that stops it. -/
def Since (start stop : α → Prop) (events : List α) : Prop :=
  ∃ earlier event later, events = earlier ++ event :: later ∧ start event ∧ ∀ e ∈ later, ¬ stop e

/-- A history that ends in an event has a place for each event before the last one, or at its end. -/
theorem concat_eq_append_cons {events before after : List α} {last event : α} :
    events ++ [last] = before ++ event :: after ↔
      (events = before ∧ last = event ∧ after = []) ∨
        ∃ rest, after = rest ++ [last] ∧ events = before ++ event :: rest := by
  constructor
  · intro h
    rcases List.eq_nil_or_concat after with rfl | ⟨rest, e, rfl⟩
    · obtain ⟨hbefore, hlast⟩ := List.append_inj' h rfl
      exact .inl ⟨hbefore, List.head_eq_of_cons_eq hlast, rfl⟩
    · rw [List.concat_eq_append, ← List.cons_append, ← List.append_assoc] at h
      obtain ⟨hbefore, hlast⟩ := List.append_inj' h rfl
      refine .inr ⟨rest, ?_, hbefore⟩
      rw [List.concat_eq_append, hlast]
  · rintro (⟨rfl, rfl, rfl⟩ | ⟨rest, rfl, rfl⟩)
    · rfl
    · rw [List.append_assoc, List.cons_append]

namespace Throughout

variable {P : List α → α → Prop} {events : List α} {event : α}

theorem nil : Throughout P [] := by
  intro before event after h
  simp at h

theorem concat (h : Throughout P events) (hevent : P events event) : Throughout P (events ++ [event]) := by
  intro before e after heq
  rcases concat_eq_append_cons.mp heq with ⟨rfl, rfl, -⟩ | ⟨rest, -, rfl⟩
  · exact hevent
  · exact h before e rest rfl

theorem of_append {earlier later : List α} (h : Throughout P (earlier ++ later)) : Throughout P earlier := by
  rintro before event after rfl
  exact h before event (after ++ later) (by rw [List.append_assoc, List.cons_append])

/-- What is among later things has happened at some point after the earlier ones. -/
theorem of_mem {earlier later : List α} (h : Throughout P (earlier ++ later)) (hmem : event ∈ later) :
    ∃ between, P (earlier ++ between) event := by
  obtain ⟨between, rest, rfl⟩ := List.append_of_mem hmem
  exact ⟨between, h (earlier ++ between) event rest (by rw [List.append_assoc])⟩

end Throughout

namespace Since

variable {start stop : α → Prop} {events : List α} {event : α}

theorem not_nil : ¬ Since start stop [] := by
  rintro ⟨earlier, event, later, h, -⟩
  simp at h

theorem concat_iff :
    Since start stop (events ++ [event]) ↔ start event ∨ Since start stop events ∧ ¬ stop event := by
  constructor
  · rintro ⟨earlier, e, later, heq, hstart, hlater⟩
    rcases concat_eq_append_cons.mp heq with ⟨-, rfl, -⟩ | ⟨rest, rfl, rfl⟩
    · exact .inl hstart
    · exact .inr ⟨⟨earlier, e, rest, rfl, hstart, fun e' he' => hlater e' (List.mem_append_left _ he')⟩,
        hlater event (List.mem_append_right _ List.mem_cons_self)⟩
  · rintro (hstart | ⟨⟨earlier, e, later, rfl, hstart, hlater⟩, hstop⟩)
    · exact ⟨events, event, [], rfl, hstart, nofun⟩
    · refine ⟨earlier, e, later ++ [event], by simp, hstart, fun e' he' => ?_⟩
      rcases List.mem_append.mp he' with hold | hnew
      · exact hlater e' hold
      · rwa [List.mem_singleton.mp hnew]

/-- What has been stopped must have been started again. -/
theorem started_again {before between : List α} (h : Since start stop (before ++ event :: between))
    (hstart : ¬ start event) (hstop : stop event) : ∃ e ∈ between, start e := by
  obtain ⟨earlier, e, later, heq, hstarts, hlater⟩ := h
  rcases List.append_eq_append_iff.mp heq with ⟨rest, rfl, hrest⟩ | ⟨rest, rfl, hrest⟩
  · rcases rest with _ | ⟨first, rest⟩
    · cases hrest
      exact absurd hstarts hstart
    · cases hrest
      exact ⟨e, by simp, hstarts⟩
  · rcases rest with _ | ⟨first, rest⟩
    · cases hrest
      exact absurd hstarts hstart
    · cases hrest
      exact absurd hstop (hlater event (by simp))

/-- What has started it may be seen in the light of what had happened before. -/
theorem imp {P : List α → α → Prop} {start' stop' : α → Prop} (h : Since start stop events)
    (hall : Throughout P events) (hstart : ∀ before event, P before event → start event → start' event)
    (hstop : ∀ event, stop' event → stop event) : Since start' stop' events := by
  obtain ⟨earlier, event, later, rfl, hstarts, hlater⟩ := h
  exact ⟨earlier, event, later, rfl, hstart earlier event (hall earlier event later rfl) hstarts,
    fun e he hstops => hlater e he (hstop e hstops)⟩

/-- What holds of a history whose entries are told by their events holds of the entries. -/
theorem of_map {β : Type} {f : β → α} {entries : List β} (h : Since start stop (entries.map f)) :
    Since (fun entry => start (f entry)) (fun entry => stop (f entry)) entries := by
  obtain ⟨earlier, event, later, heq, hstart, hlater⟩ := h
  obtain ⟨before, rest, rfl, -, hrest⟩ := List.map_eq_append_iff.mp heq
  obtain ⟨entry, after, rfl, rfl, rfl⟩ := List.map_eq_cons_iff.mp hrest
  exact ⟨before, entry, after, rfl, hstart, fun e he => hlater (f e) (List.mem_map_of_mem he)⟩

end Since

end Gatehouse

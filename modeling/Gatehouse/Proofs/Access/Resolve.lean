import Gatehouse.Access.Action
import Mathlib.Data.List.Basic
import Mathlib.Data.List.Induction

/-!
# Which rule decides

`resolve_cases`: `resolve` denies if no rule is shared, and otherwise it goes by the shared rule of the
least weight, and of the least id among those of this weight. A rule is shared if some user group has
its id; the entry that counts for an id is the last one on the host side (`Counts`).

Proof. `lastById` keeps its list in ascending order of ids, whatever is put in, and what it keeps is
what counts (`mem_lastById`, from the end of the list backwards). In a list in this order the first rule
of the least weight is the one of the least id.
-/

namespace Gatehouse.Access

/-- The rule is the last one with its id in the list. -/
def Counts (acls : List Acl) (a : Acl) : Prop :=
  ∃ before after, acls = before ++ a :: after ∧ ∀ b ∈ after, b.id ≠ a.id

/-- The order in which rules decide: by weight, then by id. -/
def Precedes (a b : Acl) : Prop :=
  a.weight < b.weight ∨ a.weight = b.weight ∧ a.id ≤ b.id

/-- The rules come in strictly ascending order of ids. -/
def Ascending (acls : List Acl) : Prop :=
  acls.Pairwise fun a b => a.id < b.id

/-! ### The last rule of each id -/

theorem Counts.mem {acls : List Acl} {a : Acl} (h : Counts acls a) : a ∈ acls := by
  obtain ⟨before, after, rfl, -⟩ := h
  exact List.mem_append_right _ List.mem_cons_self

theorem counts_snoc {acls : List Acl} {a x : Acl} :
    Counts (acls ++ [x]) a ↔ a = x ∨ Counts acls a ∧ a.id ≠ x.id := by
  constructor
  · rintro ⟨before, after, heq, hafter⟩
    rcases List.eq_nil_or_concat' after with rfl | ⟨after, y, rfl⟩
    · obtain ⟨-, htail⟩ := List.append_inj' heq rfl
      cases htail
      exact .inl rfl
    · rw [← List.cons_append, ← List.append_assoc] at heq
      obtain ⟨rfl, htail⟩ := List.append_inj' heq rfl
      cases htail
      refine .inr ⟨⟨before, after, rfl, fun b hb => hafter b (List.mem_append_left _ hb)⟩, ?_⟩
      exact (hafter x (List.mem_append_right _ (List.mem_singleton_self x))).symm
  · rintro (rfl | ⟨⟨before, after, rfl, hafter⟩, hne⟩)
    · exact ⟨acls, [], rfl, fun b hb => by cases hb⟩
    · refine ⟨before, after ++ [x], by rw [List.append_assoc, List.cons_append], ?_⟩
      intro b hb
      rcases List.mem_append.mp hb with hb | hb
      · exact hafter b hb
      · rw [List.mem_singleton.mp hb]
        exact hne.symm

/-- Where rules of one id are the same rule, all of them count. -/
theorem counts_of_mem {acls : List Acl} {a : Acl} (h : ∀ b ∈ acls, b.id = a.id → b = a)
    (ha : a ∈ acls) : Counts acls a := by
  induction acls using List.reverseRecOn with
  | nil => cases ha
  | append_singleton acls x ih =>
    rw [counts_snoc]
    by_cases hid : x.id = a.id
    · exact .inl (h x (List.mem_append_right _ (List.mem_singleton_self x)) hid).symm
    · refine .inr ⟨ih (fun b hb => h b (List.mem_append_left _ hb)) ?_, fun heq => hid heq.symm⟩
      rcases List.mem_append.mp ha with ha | ha
      · exact ha
      · exact absurd (congrArg Acl.id (List.mem_singleton.mp ha).symm) hid

theorem mem_insert {acls : List Acl} (h : Ascending acls) {a x : Acl} :
    a ∈ lastById.insert acls x ↔ a = x ∨ a ∈ acls ∧ a.id ≠ x.id := by
  induction acls with
  | nil => simp [lastById.insert]
  | cons y ys ih =>
    obtain ⟨hy, hys⟩ := List.pairwise_cons.mp h
    rw [lastById.insert]
    by_cases hlt : x.id < y.id
    · rw [if_pos hlt]
      have hne : ∀ b ∈ y :: ys, b.id ≠ x.id := by
        intro b hb heq
        rcases List.mem_cons.mp hb with rfl | hb
        · exact UInt64.lt_irrefl _ (heq ▸ hlt)
        · exact UInt64.lt_irrefl _ (heq ▸ UInt64.lt_trans hlt (hy b hb))
      rw [List.mem_cons]
      exact or_congr_right ⟨fun ha => ⟨ha, hne a ha⟩, And.left⟩
    rw [if_neg hlt]
    by_cases heq : x.id = y.id
    · rw [if_pos heq, List.mem_cons, List.mem_cons]
      refine or_congr_right ⟨fun ha => ⟨.inr ha, ?_⟩, ?_⟩
      · intro hid
        exact UInt64.lt_irrefl _ (heq ▸ hid ▸ hy a ha)
      · rintro ⟨rfl | ha, hne⟩
        · exact absurd heq.symm hne
        · exact ha
    · rw [if_neg heq, List.mem_cons, ih hys, List.mem_cons]
      constructor
      · rintro (rfl | rfl | ⟨ha, hne⟩)
        · exact .inr ⟨.inl rfl, fun h => heq h.symm⟩
        · exact .inl rfl
        · exact .inr ⟨.inr ha, hne⟩
      · rintro (rfl | ⟨rfl | ha, hne⟩)
        · exact .inr (.inl rfl)
        · exact .inl rfl
        · exact .inr (.inr ⟨ha, hne⟩)

theorem insert_ascending {acls : List Acl} (h : Ascending acls) (x : Acl) :
    Ascending (lastById.insert acls x) := by
  induction acls with
  | nil => exact List.pairwise_singleton _ _
  | cons y ys ih =>
    obtain ⟨hy, hys⟩ := List.pairwise_cons.mp h
    rw [lastById.insert]
    by_cases hlt : x.id < y.id
    · rw [if_pos hlt]
      refine List.pairwise_cons.mpr ⟨fun b hb => ?_, h⟩
      rcases List.mem_cons.mp hb with rfl | hb
      · exact hlt
      · exact UInt64.lt_trans hlt (hy b hb)
    rw [if_neg hlt]
    by_cases heq : x.id = y.id
    · rw [if_pos heq]
      exact List.pairwise_cons.mpr ⟨fun b hb => heq ▸ hy b hb, hys⟩
    · rw [if_neg heq]
      refine List.pairwise_cons.mpr ⟨fun b hb => ?_, ih hys⟩
      rcases (mem_insert hys).mp hb with rfl | ⟨hb, -⟩
      · exact UInt64.lt_of_le_of_ne (UInt64.not_lt.mp hlt) fun h => heq h.symm
      · exact hy b hb

theorem lastById_snoc (acls : List Acl) (x : Acl) :
    lastById (acls ++ [x]) = lastById.insert (lastById acls) x :=
  List.foldl_concat ..

theorem lastById_ascending (acls : List Acl) : Ascending (lastById acls) := by
  induction acls using List.reverseRecOn with
  | nil => exact List.Pairwise.nil
  | append_singleton acls x ih =>
    rw [lastById_snoc]
    exact insert_ascending ih x

/-- What is kept for the ids of a list is what counts. -/
theorem mem_lastById {acls : List Acl} {a : Acl} : a ∈ lastById acls ↔ Counts acls a := by
  induction acls using List.reverseRecOn with
  | nil =>
    constructor
    · intro h
      cases h
    · intro h
      cases h.mem
  | append_singleton acls x ih =>
    rw [lastById_snoc, mem_insert (lastById_ascending acls), counts_snoc, ih]

/-! ### The lightest rule -/

theorem lightest?_eq_none {acls : List Acl} (h : lightest? acls = none) : acls = [] := by
  cases acls with
  | nil => rfl
  | cons x xs =>
    rw [lightest?] at h
    split at h
    · cases h
    · split at h <;> cases h

/-- In the order of ids, the first rule of the least weight precedes all others. -/
theorem lightest?_eq_some {acls : List Acl} (h : Ascending acls) {a : Acl}
    (ha : lightest? acls = some a) : a ∈ acls ∧ ∀ b ∈ acls, Precedes a b := by
  induction acls generalizing a with
  | nil => cases ha
  | cons x xs ih =>
    obtain ⟨hx, hxs⟩ := List.pairwise_cons.mp h
    have hself : Precedes x x := .inr ⟨rfl, UInt64.le_refl _⟩
    rw [lightest?] at ha
    rcases hrest : lightest? xs with _ | other
    · rw [hrest] at ha
      cases ha
      rw [lightest?_eq_none hrest]
      exact ⟨List.mem_singleton_self _, fun b hb => List.mem_singleton.mp hb ▸ hself⟩
    · rw [hrest] at ha
      obtain ⟨hmem, hleast⟩ := ih hxs hrest
      by_cases hlt : other.weight < x.weight
      · simp only [if_pos hlt, Option.some.injEq] at ha
        subst ha
        refine ⟨List.mem_cons_of_mem _ hmem, fun b hb => ?_⟩
        rcases List.mem_cons.mp hb with rfl | hb
        · exact .inl hlt
        · exact hleast b hb
      · simp only [if_neg hlt, Option.some.injEq] at ha
        subst ha
        refine ⟨List.mem_cons_self, fun b hb => ?_⟩
        rcases List.mem_cons.mp hb with rfl | hb
        · exact hself
        · have hle : x.weight ≤ other.weight := UInt32.not_lt.mp hlt
          rcases hleast b hb with hother | ⟨hother, -⟩
          · exact .inl (UInt32.lt_of_le_of_lt hle hother)
          · rw [hother] at hle
            rcases UInt32.lt_or_eq_of_le hle with hless | heq
            · exact .inl hless
            · exact .inr ⟨heq, UInt64.le_of_lt (hx b hb)⟩

/-! ### The decision -/

theorem mem_shared {userAcls hostAcls : List Acl} {a : Acl} :
    a ∈ shared userAcls hostAcls ↔
      Counts (hostAcls.filter fun acl => userAcls.any fun other => other.id = acl.id) a :=
  mem_lastById

/-- Where rules of one id are the same rule, a rule is shared if it is on both sides. -/
theorem mem_shared_of_consistent {userAcls hostAcls : List Acl}
    (h : ∀ a ∈ userAcls ++ hostAcls, ∀ b ∈ userAcls ++ hostAcls, a.id = b.id → a = b) {a : Acl} :
    a ∈ shared userAcls hostAcls ↔ a ∈ userAcls ∧ a ∈ hostAcls := by
  have hmem : ∀ b, b ∈ hostAcls.filter (fun acl => userAcls.any fun other => other.id = acl.id) ↔
      b ∈ userAcls ∧ b ∈ hostAcls := by
    intro b
    rw [List.mem_filter, List.any_eq_true]
    constructor
    · rintro ⟨hb, other, hother, hid⟩
      have heq := h other (List.mem_append_left _ hother) b (List.mem_append_right _ hb)
        (of_decide_eq_true hid)
      exact ⟨heq ▸ hother, hb⟩
    · rintro ⟨huser, hhost⟩
      exact ⟨hhost, b, huser, decide_eq_true rfl⟩
  rw [mem_shared, ← hmem a]
  refine ⟨Counts.mem, fun ha => counts_of_mem (fun b hb hid => ?_) ha⟩
  exact h b (List.mem_append_left _ ((hmem b).mp hb).1) a
    (List.mem_append_left _ ((hmem a).mp ha).1) hid

/-- The decision is a denial if no rule is shared, and what the first of the shared rules says
otherwise. -/
theorem resolve_cases (userGroups hostGroups : List GroupAcls) :
    let rules := shared (userGroups.flatMap GroupAcls.acls) (hostGroups.flatMap GroupAcls.acls)
    rules = [] ∧ resolve userGroups hostGroups = .ok .deny ∨
      ∃ a ∈ rules, (∀ b ∈ rules, Precedes a b) ∧
        resolve userGroups hostGroups = Action.parse a.action := by
  intro rules
  rcases hlightest : lightest? rules with _ | a
  · refine .inl ⟨lightest?_eq_none hlightest, ?_⟩
    rw [resolve, hlightest]
  · obtain ⟨hmem, hleast⟩ := lightest?_eq_some (lastById_ascending _) hlightest
    refine .inr ⟨a, hmem, hleast, ?_⟩
    rw [resolve, hlightest]

end Gatehouse.Access

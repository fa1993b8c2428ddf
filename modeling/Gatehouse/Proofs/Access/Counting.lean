import Gatehouse.Proofs.Access.Resolve

/-!
# Resolving any lists of groups

`resolve_by_counting_rules`: an id is shared if a group on each side carries it, the rule that counts for
it is its last one over the host groups, and of these rules the one that comes first, by weight and then
by id, decides. Copies of a rule may differ. If they do not, nothing depends on the order of groups and
of rules, on how often they are there, or on which side is which.

Proof. Whether `shared` keeps a rule is a matter of its id, so filtering does not change which rule of an
id is the last one (`counts_filter`). Two rules that both come first are of one id, and only one rule of
an id counts (`counts_unique`), so there is only one outcome (`Outcome.eq`). If copies agree, the rules
that count are those that both sides carry (`counting_iff_of_consistent`).
-/

namespace Gatehouse.Access

/-- One of the groups carries the rule. -/
def Carries (groups : List GroupAcls) (a : Acl) : Prop :=
  ∃ g ∈ groups, a ∈ g.acls

/-- Some user group and some host group carry rules with the id. -/
def SharedId (userGroups hostGroups : List GroupAcls) (id : Id) : Prop :=
  (∃ a, Carries userGroups a ∧ a.id = id) ∧ ∃ a, Carries hostGroups a ∧ a.id = id

/-- The rule counts for a shared id. -/
def Counting (userGroups hostGroups : List GroupAcls) (a : Acl) : Prop :=
  SharedId userGroups hostGroups a.id ∧ Counts (hostGroups.flatMap GroupAcls.acls) a

/-- The rule comes first of those that count. -/
def First (counting : Acl → Prop) (a : Acl) : Prop :=
  counting a ∧ ∀ b, counting b → Precedes a b

/-- What the rules that count come to. -/
inductive Outcome (counting : Acl → Prop) : Except InvalidAction Action → Prop where
  | unshared : (∀ a, ¬ counting a) → Outcome counting (.ok .deny)
  | allow {a} : First counting a → a.action = "allow" → Outcome counting (.ok .allow)
  | deny {a} : First counting a → a.action = "deny" → Outcome counting (.ok .deny)
  | invalid {a} : First counting a → a.action ≠ "allow" → a.action ≠ "deny" →
      Outcome counting (.error ⟨a.action⟩)

/-- Rules of one id are the same rule, wherever they are carried. -/
def Consistent (userGroups hostGroups : List GroupAcls) : Prop :=
  ∀ a b, Carries userGroups a ∨ Carries hostGroups a → Carries userGroups b ∨ Carries hostGroups b →
    a.id = b.id → a = b

/-- Groups and the rules of groups are put into another order, repeated, and no longer repeated. -/
inductive Rearranged : List GroupAcls → List GroupAcls → Prop where
  | permute {gs gs'} : gs.Perm gs' → Rearranged gs gs'
  | repeatGroup (g gs) : Rearranged (g :: gs) (g :: g :: gs)
  | permuteRules {g acls} (gs) : g.acls.Perm acls → Rearranged (g :: gs) ({ g with acls } :: gs)
  | repeatRule {g a acls} (gs) : g.acls = a :: acls →
      Rearranged (g :: gs) ({ g with acls := a :: a :: acls } :: gs)
  | symm {gs gs'} : Rearranged gs gs' → Rearranged gs' gs
  | trans {gs gs' gs''} : Rearranged gs gs' → Rearranged gs' gs'' → Rearranged gs gs''

variable {userGroups hostGroups userGroups' hostGroups' : List GroupAcls}

/-! ### The last rule of an id -/

theorem carries_iff_mem {groups : List GroupAcls} {a : Acl} :
    Carries groups a ↔ a ∈ groups.flatMap GroupAcls.acls :=
  List.mem_flatMap.symm

theorem counts_filter {p : Acl → Bool} (hp : ∀ a b, a.id = b.id → p a = p b) {acls : List Acl}
    {a : Acl} : Counts (acls.filter p) a ↔ p a = true ∧ Counts acls a := by
  induction acls using List.reverseRecOn with
  | nil =>
    constructor
    · intro h
      cases h.mem
    · rintro ⟨-, h⟩
      cases h.mem
  | append_singleton acls x ih =>
    rw [List.filter_append, counts_snoc]
    cases hx : p x with
    | false =>
      rw [List.filter_cons_of_neg (by simp [hx]), List.filter_nil, List.append_nil, ih]
      constructor
      · rintro ⟨ha, h⟩
        refine ⟨ha, .inr ⟨h, fun hid => ?_⟩⟩
        rw [hp a x hid, hx] at ha
        cases ha
      · rintro ⟨ha, rfl | ⟨h, -⟩⟩
        · rw [hx] at ha
          cases ha
        · exact ⟨ha, h⟩
    | true =>
      rw [List.filter_cons_of_pos hx, List.filter_nil, counts_snoc, ih]
      constructor
      · rintro (rfl | ⟨⟨ha, h⟩, hne⟩)
        · exact ⟨hx, .inl rfl⟩
        · exact ⟨ha, .inr ⟨h, hne⟩⟩
      · rintro ⟨ha, rfl | ⟨h, hne⟩⟩
        · exact .inl rfl
        · exact .inr ⟨⟨ha, h⟩, hne⟩

theorem counts_unique {acls : List Acl} {a b : Acl} (ha : Counts acls a) (hb : Counts acls b)
    (hid : a.id = b.id) : a = b := by
  induction acls using List.reverseRecOn with
  | nil => cases ha.mem
  | append_singleton acls x ih =>
    rcases counts_snoc.mp ha with rfl | ⟨ha, hne⟩
    · rcases counts_snoc.mp hb with rfl | ⟨-, hne⟩
      · rfl
      · exact absurd hid.symm hne
    · rcases counts_snoc.mp hb with rfl | ⟨hb, -⟩
      · exact absurd hid hne
      · exact ih ha hb

theorem exists_counts {acls : List Acl} {x : Acl} (h : x ∈ acls) : ∃ a, Counts acls a ∧ a.id = x.id := by
  induction acls using List.reverseRecOn with
  | nil => cases h
  | append_singleton acls y ih =>
    by_cases hid : y.id = x.id
    · exact ⟨y, counts_snoc.mpr (.inl rfl), hid⟩
    · have hmem : x ∈ acls := by
        rcases List.mem_append.mp h with h | h
        · exact h
        · exact absurd (congrArg Acl.id (List.mem_singleton.mp h).symm) hid
      obtain ⟨a, ha, haid⟩ := ih hmem
      exact ⟨a, counts_snoc.mpr (.inr ⟨ha, fun h => hid (h.symm.trans haid)⟩), haid⟩

/-! ### The rules that count -/

theorem mem_shared_iff_counting {a : Acl} :
    a ∈ shared (userGroups.flatMap GroupAcls.acls) (hostGroups.flatMap GroupAcls.acls) ↔
      Counting userGroups hostGroups a := by
  rw [mem_shared, counts_filter (fun a b hid => by rw [hid])]
  simp only [List.any_eq_true, decide_eq_true_eq, ← carries_iff_mem]
  constructor
  · rintro ⟨hid, ha⟩
    exact ⟨⟨hid, a, carries_iff_mem.mpr ha.mem, rfl⟩, ha⟩
  · rintro ⟨⟨hid, -⟩, ha⟩
    exact ⟨hid, ha⟩

theorem sharedId_iff_exists_counting {id : Id} :
    SharedId userGroups hostGroups id ↔ ∃ a, Counting userGroups hostGroups a ∧ a.id = id := by
  constructor
  · intro h
    obtain ⟨x, hx, hxid⟩ := h.2
    obtain ⟨a, ha, hid⟩ := exists_counts (carries_iff_mem.mp hx)
    rw [hxid] at hid
    exact ⟨a, ⟨hid ▸ h, ha⟩, hid⟩
  · rintro ⟨a, ⟨h, -⟩, rfl⟩
    exact h

theorem Precedes.id_eq {a b : Acl} (h : Precedes a b) (h' : Precedes b a) : a.id = b.id := by
  simp only [Precedes, UInt32.lt_iff_toNat_lt, ← UInt32.toNat_inj, UInt64.le_iff_toNat_le] at h h'
  apply UInt64.toNat_inj.mp
  omega

theorem First.eq {a b : Acl} (ha : First (Counting userGroups hostGroups) a)
    (hb : First (Counting userGroups hostGroups) b) : a = b :=
  counts_unique ha.1.2 hb.1.2 ((ha.2 b hb.1).id_eq (hb.2 a ha.1))

theorem Outcome.eq {result result' : Except InvalidAction Action}
    (h : Outcome (Counting userGroups hostGroups) result)
    (h' : Outcome (Counting userGroups hostGroups) result') : result = result' := by
  have hparse : ∀ {a r}, First (Counting userGroups hostGroups) a →
      Outcome (Counting userGroups hostGroups) r → r = Action.parse a.action := by
    intro a r ha hr
    cases hr with
    | unshared hnone => exact absurd ha.1 (hnone a)
    | allow hb hallow => rw [ha.eq hb, hallow]; rfl
    | deny hb hdeny => rw [ha.eq hb, hdeny]; rfl
    | invalid hb hallow hdeny => rw [ha.eq hb, Action.parse, if_neg hallow, if_neg hdeny]
  cases h with
  | unshared hnone =>
    cases h' with
    | unshared => rfl
    | allow hb | deny hb | invalid hb => exact absurd hb.1 (hnone _)
  | allow ha hallow => rw [hparse ha h', hallow]; rfl
  | deny ha hdeny => rw [hparse ha h', hdeny]; rfl
  | invalid ha hallow hdeny => rw [hparse ha h', Action.parse, if_neg hallow, if_neg hdeny]

theorem resolve_outcome (userGroups hostGroups : List GroupAcls) :
    Outcome (Counting userGroups hostGroups) (resolve userGroups hostGroups) := by
  rcases resolve_cases userGroups hostGroups with ⟨hnone, hdeny⟩ | ⟨a, ha, hfirst, hresolve⟩
  · rw [hdeny]
    refine .unshared fun a ha => ?_
    rw [← mem_shared_iff_counting, hnone] at ha
    cases ha
  · have hfirst' : First (Counting userGroups hostGroups) a :=
      ⟨mem_shared_iff_counting.mp ha, fun b hb => hfirst b (mem_shared_iff_counting.mpr hb)⟩
    rw [hresolve, Action.parse]
    split_ifs with hallow hdeny
    · exact .allow hfirst' hallow
    · exact .deny hfirst' hdeny
    · exact .invalid hfirst' hallow hdeny

/-- The decision depends only on which rules count. -/
theorem resolve_congr
    (h : ∀ a, Counting userGroups' hostGroups' a ↔ Counting userGroups hostGroups a) :
    resolve userGroups' hostGroups' = resolve userGroups hostGroups := by
  have hsame : Counting userGroups' hostGroups' = Counting userGroups hostGroups :=
    funext fun a => propext (h a)
  have houtcome := resolve_outcome userGroups' hostGroups'
  rw [hsame] at houtcome
  exact houtcome.eq (resolve_outcome userGroups hostGroups)

/-! ### Copies that agree -/

theorem counting_iff_of_consistent (h : Consistent userGroups hostGroups) (a : Acl) :
    Counting userGroups hostGroups a ↔ Carries userGroups a ∧ Carries hostGroups a := by
  constructor
  · rintro ⟨⟨⟨b, hb, hid⟩, -⟩, ha⟩
    have hhost : Carries hostGroups a := carries_iff_mem.mpr ha.mem
    exact ⟨h b a (.inl hb) (.inr hhost) hid ▸ hb, hhost⟩
  · rintro ⟨huser, hhost⟩
    refine ⟨⟨⟨a, huser, rfl⟩, a, hhost, rfl⟩, counts_of_mem (fun b hb hid => ?_) (carries_iff_mem.mp hhost)⟩
    exact h b a (.inr (carries_iff_mem.mpr hb)) (.inr hhost) hid

theorem Consistent.swap (h : Consistent userGroups hostGroups) : Consistent hostGroups userGroups :=
  fun a b ha hb => h a b ha.symm hb.symm

theorem Rearranged.carries_iff {gs gs' : List GroupAcls} (h : Rearranged gs gs') (a : Acl) :
    Carries gs a ↔ Carries gs' a := by
  induction h with
  | permute hperm => simp only [Carries, hperm.mem_iff]
  | repeatGroup g gs => simp [Carries]
  | permuteRules gs hperm => simp [Carries, hperm.mem_iff]
  | repeatRule gs hacls => simp [Carries, hacls]
  | symm _ ih => exact ih.symm
  | trans _ _ ih ih' => exact ih.trans ih'

theorem resolve_rearranged (h : Consistent userGroups hostGroups)
    (huser : Rearranged userGroups userGroups') (hhost : Rearranged hostGroups hostGroups') :
    resolve userGroups' hostGroups' = resolve userGroups hostGroups := by
  have h' : Consistent userGroups' hostGroups' := by
    intro a b ha hb
    rw [← huser.carries_iff, ← hhost.carries_iff] at ha hb
    exact h a b ha hb
  apply resolve_congr
  intro a
  rw [counting_iff_of_consistent h', counting_iff_of_consistent h, huser.carries_iff, hhost.carries_iff]

theorem resolve_swap (h : Consistent userGroups hostGroups) :
    resolve hostGroups userGroups = resolve userGroups hostGroups := by
  apply resolve_congr
  intro a
  rw [counting_iff_of_consistent h.swap, counting_iff_of_consistent h, and_comm]

/-- The ids that both sides carry are shared; the last rule of each over the host groups counts, and the
first of those decides. If copies of rules agree, the sides can be exchanged, and groups and rules
rearranged. -/
theorem resolve_by_counting_rules (userGroups hostGroups : List GroupAcls) :
    (∀ a, a ∈ shared (userGroups.flatMap GroupAcls.acls) (hostGroups.flatMap GroupAcls.acls) ↔
      Counting userGroups hostGroups a) ∧
    (∀ id, SharedId userGroups hostGroups id ↔ ∃ a, Counting userGroups hostGroups a ∧ a.id = id) ∧
    (∀ result, resolve userGroups hostGroups = result ↔
      Outcome (Counting userGroups hostGroups) result) ∧
    (Consistent userGroups hostGroups →
      resolve hostGroups userGroups = resolve userGroups hostGroups ∧
      ∀ userGroups' hostGroups', Rearranged userGroups userGroups' → Rearranged hostGroups hostGroups' →
        resolve userGroups' hostGroups' = resolve userGroups hostGroups) := by
  refine ⟨fun a => mem_shared_iff_counting, fun id => sharedId_iff_exists_counting, fun result => ?_,
    fun h => ⟨resolve_swap h, fun _ _ huser hhost => resolve_rearranged h huser hhost⟩⟩
  constructor
  · rintro rfl
    exact resolve_outcome userGroups hostGroups
  · intro h
    exact (resolve_outcome userGroups hostGroups).eq h

/-- A group with these rules, each an id, an action and a weight. -/
def groupOf (id : Id) (rules : List (Id × String × UInt32)) : GroupAcls where
  group := { id, name := "" }
  acls := rules.map fun (id, action, weight) => { id, action, weight }

/-- Of two copies of rule 9 the later one counts, and rule 4 comes before it with the same weight. -/
example : resolve [groupOf 1 [(9, "allow", 7), (4, "deny", 7)]]
    [groupOf 2 [(9, "deny", 1), (4, "never", 7)], groupOf 3 [(9, "allow", 7)]] = .error ⟨"never"⟩ := by
  decide

/-- Two rules of one weight, with the host groups and their rules in another order and repeated. -/
theorem resolve_by_counting_rules_tie :
    let userGroups := [groupOf 1 [(9, "allow", 7), (4, "deny", 7)]]
    let hostGroups := [groupOf 2 [(9, "allow", 7)], groupOf 6 [(4, "deny", 7)]]
    let hostGroups' := [groupOf 6 [(4, "deny", 7), (4, "deny", 7)], groupOf 2 [(9, "allow", 7)],
      groupOf 2 [(9, "allow", 7)]]
    Consistent userGroups hostGroups ∧ Rearranged hostGroups hostGroups' ∧
      resolve userGroups hostGroups = .ok .deny ∧ resolve hostGroups userGroups = .ok .deny ∧
      resolve userGroups hostGroups' = .ok .deny := by
  intro userGroups hostGroups hostGroups'
  have hsame : Consistent userGroups hostGroups := by
    intro a b ha hb hid
    simp only [userGroups, hostGroups, Carries, groupOf, List.map_cons, List.map_nil, List.mem_cons,
      List.not_mem_nil, or_false, exists_eq_or_imp, exists_eq_left] at ha hb
    rcases ha with (rfl | rfl) | rfl | rfl <;> rcases hb with (rfl | rfl) | rfl | rfl <;>
      first | rfl | exact absurd hid (by decide)
  have hrearranged : Rearranged hostGroups hostGroups' := by
    have hswap : Rearranged hostGroups [groupOf 6 [(4, "deny", 7)], groupOf 2 [(9, "allow", 7)]] :=
      .permute (List.Perm.swap _ _ _)
    have hrule := Rearranged.repeatRule (g := groupOf 6 [(4, "deny", 7)])
      [groupOf 2 [(9, "allow", 7)]] rfl
    have hgroup := Rearranged.repeatGroup (groupOf 2 [(9, "allow", 7)])
      [groupOf 6 [(4, "deny", 7), (4, "deny", 7)]]
    refine (hswap.trans hrule).trans (.trans (.permute (List.Perm.swap _ _ _)) (hgroup.trans ?_))
    exact .permute (@List.perm_append_comm _ [_, _] [_])
  have hdeny : resolve userGroups hostGroups = .ok .deny := by decide
  obtain ⟨-, -, -, hagree⟩ := resolve_by_counting_rules userGroups hostGroups
  obtain ⟨hexchange, hany⟩ := hagree hsame
  refine ⟨hsame, hrearranged, hdeny, hexchange.trans hdeny, ?_⟩
  exact (hany _ _ (.permute (List.Perm.refl _)) hrearranged).trans hdeny

end Gatehouse.Access

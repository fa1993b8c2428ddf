import Gatehouse.Key.Public
import Gatehouse.Proofs.Store.Journal
import Gatehouse.Proofs.Store.Ordered
import Gatehouse.Proofs.Text.Base64
import Gatehouse.Proofs.Text.ReadBack

/-!
# Which key a text stands for

Users' keys are looked up by the first two words of their lines. `keys_told_apart`: keys with the same blob
have the same text, and keys with the same text have the same blob as long as the names of their algorithms
are single words. So a look-up finds the row with the least identifier among those for the presented key,
and never a row for another one. The names of SSH's own algorithms are single words (`hasOneWordName_of_own`),
and so are those in lines (`named_of_ofLine?`). A domain may also define an algorithm whose name has white
space in it. Then the text is the first two words of that name, and the blob is not part of it
(`several_words_collide`).

Proof. White space splits a line in the same places wherever the words come from
(`words_append_blank`). So the words of a line are those of the name, the digits of the blob, and those of
the comment (`words_line`), and both the name and the digits are read back from their written forms.
-/

namespace Gatehouse

/-! ### White space around a text -/

theorem Text.trimChars_between {before cs after : List Char} (hbefore : ∀ c ∈ before, isBlank c = true)
    (hafter : ∀ c ∈ after, isBlank c = true) (hne : cs ≠ []) (hhead : ∀ c ∈ cs.head?, isBlank c = false)
    (hlast : ∀ c ∈ cs.getLast?, isBlank c = false) : trimChars (before ++ cs ++ after) = cs := by
  have hstart : trimStart (before ++ cs ++ after) = cs ++ after := by
    obtain ⟨c, rest, rfl⟩ := List.exists_cons_of_ne_nil hne
    rw [List.append_assoc, trimStart, List.dropWhile_append_of_pos hbefore, List.cons_append]
    exact trimStart_cons (hhead c rfl) _
  have hend : trimStart (cs ++ after).reverse = cs.reverse := by
    rw [List.reverse_append, trimStart, List.dropWhile_append_of_pos fun c hc =>
      hafter c (List.mem_reverse.mp hc)]
    refine trimStart_of_head fun c hc => hlast c ?_
    rwa [List.head?_reverse] at hc
  rw [trimChars, hstart, hend, List.reverse_reverse]

namespace Key.PublicKey

open Text (isBlank)

/-! ### Words -/

/-- No white space is in the characters. -/
def Solid (w : List Char) : Prop :=
  ∀ c ∈ w, isBlank c = false

theorem words_eq (cs : List Char) : words cs = (cs.splitOnP isBlank).filter fun word => !word.isEmpty := by
  refine congrArg (List.filter fun word : List Char => !word.isEmpty) ?_
  induction cs with
  | nil => exact List.splitOnP_nil.symm
  | cons c cs ih =>
    rw [List.foldr_cons, ih, List.splitOnP_cons_eq_if_modifyHead]
    obtain ⟨word, more, hsplit⟩ := List.exists_cons_of_ne_nil (List.splitOnP_ne_nil isBlank cs)
    rw [hsplit, List.modifyHead_cons]

/-- White space separates the words on its two sides. -/
theorem words_append_blank {b : Char} (hb : isBlank b = true) (cs rest : List Char) :
    words (cs ++ b :: rest) = words cs ++ words rest := by
  rw [words_eq, List.splitOnP_append_cons cs rest hb, List.filter_append, ← words_eq, ← words_eq]

theorem words_of_solid {w : List Char} (hne : w ≠ []) (h : Solid w) : words w = [w] := by
  rw [words_eq, List.splitOnP_eq_singleton h, List.filter_singleton, List.isEmpty_eq_false_iff.mpr hne]
  rfl

/-- The words of a text that does not start with white space, of which the first starts the text. -/
theorem exists_words_cons {c : Char} (h : isBlank c = false) (cs : List Char) :
    ∃ word more, words (c :: cs) = (c :: word) :: more := by
  obtain ⟨word, more, hsplit⟩ := List.exists_cons_of_ne_nil (List.splitOnP_ne_nil isBlank cs)
  refine ⟨word, more.filter fun word => !word.isEmpty, ?_⟩
  rw [words_eq, List.splitOnP_cons_eq_if_modifyHead, if_neg (ne_true_of_eq_false h), hsplit,
    List.modifyHead_cons]
  rfl

theorem words_cons_blank {c : Char} (h : isBlank c = true) (cs : List Char) : words (c :: cs) = words cs :=
  words_append_blank h [] cs

theorem solid_of_mem_splitOnP {cs : List Char} : ∀ w ∈ cs.splitOnP isBlank, Solid w := by
  induction cs with
  | nil =>
    intro w hw
    rw [List.splitOnP_nil, List.mem_singleton] at hw
    exact hw ▸ fun c hc => absurd hc List.not_mem_nil
  | cons c cs ih =>
    intro w hw
    obtain ⟨word, more, hsplit⟩ := List.exists_cons_of_ne_nil (List.splitOnP_ne_nil isBlank cs)
    rw [List.splitOnP_cons_eq_if_modifyHead, hsplit, List.modifyHead_cons] at hw
    rw [hsplit] at ih
    split_ifs at hw with hc
    · rcases List.mem_cons.mp hw with rfl | hmem
      · exact fun d hd => absurd hd List.not_mem_nil
      · exact ih w hmem
    · rcases List.mem_cons.mp hw with rfl | hmem
      · exact List.forall_mem_cons.mpr ⟨eq_false_of_ne_true hc, ih word List.mem_cons_self⟩
      · exact ih w (List.mem_cons_of_mem word hmem)

theorem word_of_mem {cs w : List Char} (h : w ∈ words cs) : w ≠ [] ∧ Solid w := by
  rw [words_eq, List.mem_filter, Bool.not_eq_true', List.isEmpty_eq_false_iff] at h
  exact ⟨h.2, solid_of_mem_splitOnP w h.1⟩

/-- A text that is not all white space has a word. -/
theorem words_ne_nil {cs : List Char} (h : ¬ ∀ c ∈ cs, isBlank c = true) : words cs ≠ [] := by
  induction cs with
  | nil => exact absurd (fun c hc => absurd hc List.not_mem_nil) h
  | cons c cs ih =>
    cases hc : isBlank c with
    | true =>
      rw [words_cons_blank hc]
      exact ih fun hall => h (List.forall_mem_cons.mpr ⟨hc, hall⟩)
    | false =>
      obtain ⟨word, more, hwords⟩ := exists_words_cons hc cs
      rw [hwords]
      exact List.cons_ne_nil _ _

/-! ### Lines -/

variable {k k' : PublicKey}

/-- The digits of the blob. -/
def digits (k : PublicKey) : List Char :=
  Base64.encodeChars k.blob

theorem solid_digits (k : PublicKey) : Solid k.digits :=
  Base64.isBlank_of_mem_encodeChars

theorem blob_eq_of_digits (h : k.digits = k'.digits) : k.blob = k'.blob := by
  have hread := congrArg Base64.decodeChars? h
  rw [digits, digits, Base64.decodeChars?_encodeChars, Base64.decodeChars?_encodeChars] at hread
  exact Option.some.inj hread

/-- A blob starts with the name of the algorithm, which its length is written before. -/
theorem blob_eq (k : PublicKey) : k.blob = Bytes.bigEndian 4 (Text.utf8 k.algorithm).length ++
    (Text.utf8 k.algorithm ++ k.material.fields.flatMap Wire.write) := by
  rw [blob, Material.blob, List.flatMap_cons, Wire.write, List.append_assoc]
  rfl

theorem digits_ne_nil (k : PublicKey) : k.digits ≠ [] := by
  intro hnil
  have hread := Base64.decodeChars?_encodeChars k.blob
  rw [← digits, hnil] at hread
  have hblob : k.blob = [] := (Option.some.inj hread).symm
  rw [blob_eq, List.append_eq_nil_iff] at hblob
  have hlength := Bytes.length_bigEndian 4 (Text.utf8 k.algorithm).length
  rw [hblob.1] at hlength
  cases hlength

/-- The words of a line: the name of the algorithm, the digits of the blob, and the comment. -/
theorem words_line (k : PublicKey) :
    words k.line.toList = words k.algorithm.toList ++ k.digits :: words k.comment.toList := by
  have hspace : isBlank ' ' = true := by decide
  have hdigits : words k.digits = [k.digits] := words_of_solid k.digits_ne_nil k.solid_digits
  have hencode : (Base64.encode k.blob).toList = k.digits := String.toList_ofList
  rw [line, String.toList_append, String.toList_append, String.toList_append, hencode]
  have hname : k.algorithm.toList ++ " ".toList ++ k.digits = k.algorithm.toList ++ ' ' :: k.digits :=
    List.append_assoc ..
  rw [hname]
  split_ifs with hcomment
  · rw [hcomment, String.toList_empty, List.append_nil, words_append_blank hspace, hdigits]
    rfl
  · rw [String.toList_append, List.append_assoc, List.cons_append, words_append_blank hspace]
    refine congrArg (words k.algorithm.toList ++ ·) ?_
    exact (words_append_blank hspace _ _).trans (congrArg (· ++ words k.comment.toList) hdigits)

/-- The text for a key is its line's first two words, which the name of the algorithm comes first in. -/
theorem authorizedKey_eq (k : PublicKey) : k.authorizedKey = " ".intercalate
    (((words k.algorithm.toList ++ k.digits :: words k.comment.toList).take 2).map String.ofList) := by
  rw [authorizedKey, words_line]

/-! ### Two words -/

section TwoWords

variable {w w' : List Char}

/-- Two words with a space between them. -/
def pair (w w' : List Char) : String :=
  String.ofList w ++ " " ++ String.ofList w'

theorem toList_pair (w w' : List Char) : (pair w w').toList = w ++ ' ' :: w' := by
  rw [pair, String.toList_append, String.toList_append, String.toList_ofList, List.append_assoc]
  exact congrArg (w ++ ' ' :: ·) String.toList_ofList

theorem words_pair (hne : w ≠ []) (hw : Solid w) (hne' : w' ≠ []) (hw' : Solid w') :
    words (pair w w').toList = [w, w'] := by
  rw [toList_pair, words_append_blank (by decide), words_of_solid hne hw, words_of_solid hne' hw']
  rfl

/-- White space around the words does not count. -/
theorem trim_pair {before after : String} (hbefore : Text.isBlankText before = true)
    (hafter : Text.isBlankText after = true) (hne : w ≠ []) (hw : Solid w) (hne' : w' ≠ []) (hw' : Solid w') :
    Text.trim (before ++ pair w w' ++ after) = pair w w' := by
  have hends : Text.trimChars (before.toList ++ (pair w w').toList ++ after.toList) = (pair w w').toList := by
    refine Text.trimChars_between (List.all_eq_true.mp hbefore) (List.all_eq_true.mp hafter) ?_ ?_ ?_
    · rw [toList_pair]
      exact List.append_ne_nil_of_left_ne_nil hne _
    · intro c hc
      rw [toList_pair, List.head?_append_of_ne_nil _ hne] at hc
      exact hw c (List.mem_of_mem_head? hc)
    · intro c hc
      rw [toList_pair, ← List.singleton_append, ← List.append_assoc,
        List.getLast?_append_of_ne_nil _ hne'] at hc
      exact hw' c (List.mem_of_getLast? hc)
  rw [Text.trim, String.toList_append, String.toList_append, hends, String.ofList_toList]

end TwoWords

theorem authorizedKey_of_one_word {w : List Char} (h : words k.algorithm.toList = [w]) :
    k.authorizedKey = pair w k.digits := by
  rw [authorizedKey_eq, h]
  rfl

/-- If the name alone has two words, the blob is not part of the text. -/
theorem several_words_collide {first second : List Char} {more : List (List Char)}
    (h : words k.algorithm.toList = first :: second :: more) : k.authorizedKey = pair first second := by
  rw [authorizedKey_eq, h]
  rfl

/-! ### Names of algorithms -/

/-- The name of the algorithm is a single word. -/
def HasOneWordName (k : PublicKey) : Prop :=
  (words k.algorithm.toList).length = 1

instance (k : PublicKey) : Decidable k.HasOneWordName :=
  inferInstanceAs (Decidable (_ = _))

/-- If some domain defines the algorithm, its name has the form of such names, and is short enough for
a blob to say how long it is. -/
def WellNamed (k : PublicKey) : Prop :=
  ∀ name body, k.material = .foreign name body →
    Material.isForeign name = true ∧ (Text.utf8 name).length < 0x1_0000_0000

/-- The names of SSH's own algorithms. -/
def ownNames : List String :=
  ["ssh-dss", "ssh-rsa", "ecdsa-sha2-nistp256", "ecdsa-sha2-nistp384", "ecdsa-sha2-nistp521", "ssh-ed25519",
    "sk-ecdsa-sha2-nistp256@openssh.com", "sk-ssh-ed25519@openssh.com"]

theorem own_or_foreign (k : PublicKey) :
    k.algorithm ∈ ownNames ∨ ∃ body, k.material = .foreign k.algorithm body := by
  unfold algorithm
  cases k.material with
  | foreign name body => exact .inr ⟨body, rfl⟩
  | ecdsa curve point => cases curve <;> exact .inl (by simp [ownNames, Material.algorithm, curveName])
  | _ => exact .inl (by simp [ownNames, Material.algorithm])

theorem solid_of_own {name : String} (h : name ∈ ownNames) : name.toList ≠ [] ∧ Solid name.toList ∧
    (Text.utf8 name).length < 0x1_0000_0000 := by
  have hall : ∀ name ∈ ownNames, name.toList ≠ [] ∧ name.toList.all (fun c => !isBlank c) = true ∧
      (Text.utf8 name).length < 0x1_0000_0000 := by decide
  obtain ⟨hne, hsolid, hlength⟩ := hall name h
  exact ⟨hne, fun c hc => Bool.not_eq_true' _ ▸ List.all_eq_true.mp hsolid c hc, hlength⟩

/-- The keys of SSH's own algorithms are named by single words. -/
theorem hasOneWordName_of_own (h : k.algorithm ∈ ownNames) : k.HasOneWordName := by
  obtain ⟨hne, hsolid, -⟩ := solid_of_own h
  rw [HasOneWordName, words_of_solid hne hsolid]
  rfl

theorem WellNamed.length_lt (h : k.WellNamed) : (Text.utf8 k.algorithm).length < 0x1_0000_0000 := by
  rcases k.own_or_foreign with hown | ⟨body, hm⟩
  · exact (solid_of_own hown).2.2
  · exact (h _ body hm).2

theorem sign_mem_of_isForeign {name : String} (h : Material.isForeign name = true) : '@' ∈ name.toList := by
  by_contra hnot
  have hall : name.toList.takeWhile (· ≠ '@') = name.toList :=
    List.takeWhile_eq_self_iff.mpr fun c hc => decide_eq_true fun heq => hnot (heq ▸ hc)
  have hafter : name.toList.drop (name.toList.length + 1) = [] :=
    List.drop_eq_nil_of_le (Nat.le_succ _)
  unfold Material.isForeign at h
  dsimp only at h
  rw [hall, hafter] at h
  simp at h

/-- Such a name has a word, for there is a sign in it that is no white space. -/
theorem WellNamed.words_ne_nil (h : k.WellNamed) : words k.algorithm.toList ≠ [] := by
  rcases k.own_or_foreign with hown | ⟨body, hm⟩
  · obtain ⟨hne, hsolid, -⟩ := solid_of_own hown
    rw [words_of_solid hne hsolid]
    exact List.cons_ne_nil _ _
  · have hsign := sign_mem_of_isForeign (h _ body hm).1
    have hblank : isBlank '@' ≠ true := by decide
    exact PublicKey.words_ne_nil fun hall => hblank (hall '@' hsign)

/-- The name is read back from the front of a blob. -/
theorem algorithm_eq_of_blob (h : k.WellNamed) (h' : k'.WellNamed) (hblob : k.blob = k'.blob) :
    k.algorithm = k'.algorithm := by
  rw [blob_eq, blob_eq] at hblob
  obtain ⟨hlead, hrest⟩ := List.append_inj hblob (by rw [Bytes.length_bigEndian, Bytes.length_bigEndian])
  have hlength : (Text.utf8 k.algorithm).length = (Text.utf8 k'.algorithm).length := by
    have hread := congrArg Bytes.ofBigEndian hlead
    rwa [Bytes.ofBigEndian_bigEndian, Bytes.ofBigEndian_bigEndian, Nat.mod_eq_of_lt h.length_lt,
      Nat.mod_eq_of_lt h'.length_lt] at hread
  exact Text.utf8_injective (List.append_inj_left hrest hlength)

/-! ### Texts and blobs -/

theorem exists_pair (h : k.WellNamed) : ∃ w w', w ≠ [] ∧ Solid w ∧ w' ≠ [] ∧ Solid w' ∧
    k.authorizedKey = pair w w' := by
  obtain ⟨first, rest, hwords⟩ := List.exists_cons_of_ne_nil h.words_ne_nil
  have hword : ∀ w ∈ first :: rest, w ≠ [] ∧ Solid w := fun w hw => word_of_mem (hwords ▸ hw)
  obtain ⟨hne, hfirst⟩ := hword first List.mem_cons_self
  cases rest with
  | nil =>
    exact ⟨first, k.digits, hne, hfirst, k.digits_ne_nil, k.solid_digits, authorizedKey_of_one_word hwords⟩
  | cons second more =>
    obtain ⟨hne', hsecond⟩ := hword second (List.mem_cons_of_mem _ List.mem_cons_self)
    exact ⟨first, second, hne, hfirst, hne', hsecond, several_words_collide hwords⟩

/-- White space around a key's text does not count. -/
theorem trim_authorizedKey (h : k.WellNamed) {before after : String}
    (hbefore : Text.isBlankText before = true) (hafter : Text.isBlankText after = true) :
    Text.trim (before ++ k.authorizedKey ++ after) = k.authorizedKey := by
  obtain ⟨w, w', hne, hw, hne', hw', htext⟩ := exists_pair h
  rw [htext, trim_pair hbefore hafter hne hw hne' hw']

theorem authorizedKey_eq_of_blob (h : k.WellNamed) (h' : k'.WellNamed) (hblob : k.blob = k'.blob) :
    k.authorizedKey = k'.authorizedKey := by
  have hname := algorithm_eq_of_blob h h' hblob
  obtain ⟨first, rest, hwords⟩ := List.exists_cons_of_ne_nil h.words_ne_nil
  have hwords' : words k'.algorithm.toList = first :: rest := hname ▸ hwords
  cases rest with
  | nil => rw [authorizedKey_of_one_word hwords, authorizedKey_of_one_word hwords', digits, digits, hblob]
  | cons second more => rw [several_words_collide hwords, several_words_collide hwords']

/-- The digits of the blob are the second word of the text. -/
theorem words_authorizedKey (h : k.HasOneWordName) : ∃ w, words k.authorizedKey.toList = [w, k.digits] := by
  obtain ⟨w, hw⟩ := List.length_eq_one_iff.mp h
  obtain ⟨hne, hsolid⟩ := word_of_mem (hw ▸ List.mem_singleton_self w)
  refine ⟨w, ?_⟩
  rw [authorizedKey_of_one_word hw]
  exact words_pair hne hsolid k.digits_ne_nil k.solid_digits

theorem blob_eq_of_authorizedKey (h : k.HasOneWordName) (h' : k'.HasOneWordName)
    (htext : k.authorizedKey = k'.authorizedKey) : k.blob = k'.blob := by
  obtain ⟨w, hw⟩ := words_authorizedKey h
  obtain ⟨w', hw'⟩ := words_authorizedKey h'
  rw [htext, hw', List.cons.injEq, List.cons.injEq] at hw
  exact (blob_eq_of_digits hw.2.1).symm

/-! ### Keys that are read -/

/-- Whatever a reader gives has a property. -/
def Gives {α : Type} (read : Wire.Reader α) (P : α → Prop) : Prop :=
  ∀ bytes a rest, read bytes = some (a, rest) → P a

section Gives

variable {α β : Type} {P : β → Prop}

theorem gives_pure {b : β} (h : P b) : Gives (pure b) P := by
  intro bytes a rest heq
  cases heq
  exact h

theorem gives_bind {Q : α → Prop} {read : Wire.Reader α} {next : α → Wire.Reader β} (hread : Gives read Q)
    (hnext : ∀ a, Q a → Gives (next a) P) : Gives (read >>= next) P := by
  intro bytes b rest heq
  obtain ⟨⟨a, left⟩, ha, hb⟩ := Option.bind_eq_some_iff.mp heq
  exact hnext a (hread bytes a left ha) left b rest hb

theorem gives_true (read : Wire.Reader α) : Gives read fun _ => True :=
  fun _ _ _ _ => trivial

theorem gives_then {read : Wire.Reader α} {next : α → Wire.Reader β} (hnext : ∀ a, Gives (next a) P) :
    Gives (read >>= next) P :=
  gives_bind (gives_true read) fun a _ => hnext a

end Gives

theorem gives_name : Gives Wire.name fun name => Text.utf8Size name ≤ Wire.nameLimit := by
  refine gives_then fun name => ?_
  split_ifs with hsize
  · exact gives_pure hsize
  · exact nofun

/-- Only a well-formed name is that of an algorithm that some domain defines. -/
theorem gives_body (name : String) : Gives (Material.body name) fun m =>
    ∀ other body, m = .foreign other body → other = name ∧ Material.isForeign name = true := by
  unfold Material.body
  split
  case h_11 =>
    split_ifs with hforeign
    · refine gives_then fun body => gives_pure fun other body' heq => ?_
      cases heq
      exact ⟨rfl, hforeign⟩
    · exact nofun
  all_goals
    repeat refine gives_then fun _ => ?_
    exact gives_pure nofun

/-- A key that is read from a blob is well named. -/
theorem wellNamed_of_read {bytes : Bytes} (h : Wire.whole? Material.read bytes = some k.material) :
    k.WellNamed := by
  intro name body hm
  have hread : Gives Material.read fun m => ∀ other body, m = .foreign other body →
      Material.isForeign other = true ∧ Text.utf8Size other ≤ Wire.nameLimit := by
    refine gives_bind gives_name fun name hsize bytes m rest heq other body hother => ?_
    obtain ⟨rfl, hforeign⟩ := gives_body name bytes m rest heq other body hother
    exact ⟨hforeign, hsize⟩
  unfold Wire.whole? at h
  split at h
  case h_1 m heq =>
    cases h
    obtain ⟨hforeign, hsize⟩ := hread bytes _ _ heq name body hm
    exact ⟨hforeign, Nat.lt_of_le_of_lt hsize (by decide)⟩
  case h_2 => cases h

theorem isBlank_of_isWordChar {c : Char} (h : isWordChar c = true) : isBlank c = false := by
  have hbetween {low high : Char} (h : low.val ≤ c.val ∧ c.val ≤ high.val) :
      low.toNat ≤ c.toNat ∧ c.toNat ≤ high.toNat :=
    h.imp UInt32.le_iff_toNat_le.mp UInt32.le_iff_toNat_le.mp
  have halphanum (h : c.isAlphanum = true) : 48 ≤ c.toNat ∧ c.toNat ≤ 122 := by
    rcases (Bool.or_eq_true _ _).mp h with h | h
    · rcases (Bool.or_eq_true _ _).mp h with h | h
      · obtain ⟨hlow, hhigh⟩ := @hbetween 'A' 'Z' (of_decide_eq_true h)
        exact ⟨Nat.le_trans (by decide) hlow, Nat.le_trans hhigh (by decide)⟩
      · obtain ⟨hlow, hhigh⟩ := @hbetween 'a' 'z'
          (((Bool.and_eq_true _ _).mp h).imp of_decide_eq_true of_decide_eq_true)
        exact ⟨Nat.le_trans (by decide) hlow, Nat.le_trans hhigh (by decide)⟩
    · obtain ⟨hlow, hhigh⟩ := Char.isDigit_iff_toNat.mp h
      exact ⟨hlow, Nat.le_trans hhigh (by decide)⟩
  simp only [isWordChar, Bool.or_eq_true, decide_eq_true_eq] at h
  rcases h with (((((h | rfl) | rfl) | rfl) | rfl) | rfl) | rfl
  · have hrange := halphanum h
    simp only [isBlank, Bool.or_eq_false_iff, Bool.and_eq_false_iff, decide_eq_false_iff_not,
      beq_eq_false_iff_ne]
    omega
  all_goals rfl

theorem solid_of_word? {cs word rest : List Char} (h : word? cs = some (word, rest)) : Solid word := by
  have hword : word = cs.takeWhile isWordChar := by
    unfold word? at h
    dsimp only at h
    split at h <;> cases h <;> rfl
  intro c hc
  exact isBlank_of_isWordChar (List.mem_takeWhile_imp (hword ▸ hc))

/-- A line has the name of the algorithm as its first word. -/
theorem named_of_ofLine? {text : String} (h : ofLine? text = some k) : k.WellNamed ∧ k.HasOneWordName := by
  unfold ofLine? at h
  dsimp only at h
  obtain ⟨⟨name, cs⟩, hname, h⟩ := Option.bind_eq_some_iff.mp h
  obtain ⟨⟨digits, comment⟩, -, h⟩ := Option.bind_eq_some_iff.mp h
  dsimp only at h
  split_ifs at h with hempty
  obtain ⟨bytes, -, h⟩ := Option.bind_eq_some_iff.mp h
  obtain ⟨material, hread, h⟩ := Option.bind_eq_some_iff.mp h
  split_ifs at h with hsame
  cases h
  refine ⟨wellNamed_of_read hread, ?_⟩
  have hne : name ≠ [] := fun hnil => hempty (.inl (hnil ▸ rfl))
  have halgorithm : material.algorithm.toList = name := by rw [hsame.1, String.toList_ofList]
  rw [HasOneWordName, algorithm, halgorithm, words_of_solid hne (solid_of_word? hname)]
  rfl

end Key.PublicKey

/-! ### Looking keys up -/

namespace Store

open Key (PublicKey)

/-- Each row for a user's key holds the text of the key that belongs to the row, maybe with white space
around it. -/
def HoldsKeys (s : Store) (keyOf : Id → PublicKey) : Prop :=
  ∀ row ∈ s.rows .userKeys, ∃ u : UserKey, decode row.2 = .ok u ∧ ∃ before after : String,
    Text.isBlankText before = true ∧ Text.isBlankText after = true ∧
      u.authorizedKey = before ++ (keyOf row.1).authorizedKey ++ after

/-- The row is the first one for the key. -/
def IsFirstFor (s : Store) (keyOf : Id → PublicKey) (k : PublicKey) (row : Id × Bytes) : Prop :=
  row ∈ s.rows .userKeys ∧ (keyOf row.1).blob = k.blob ∧
    ∀ other ∈ s.rows .userKeys, other.1 < row.1 → (keyOf other.1).blob ≠ k.blob

variable {s : Store} {keyOf : Id → PublicKey} {k : PublicKey}

/-- What a look-up asks of a row's record is whether the row's key is the presented one. -/
theorem HoldsKeys.asks (h : s.HoldsKeys keyOf) (hk : k.WellNamed) (hone : k.HasOneWordName)
    {row : Id × Bytes} (hrow : row ∈ s.rows .userKeys) (hrowKey : (keyOf row.1).WellNamed)
    (hrowOne : (keyOf row.1).HasOneWordName) {u : UserKey} (hu : decode row.2 = .ok u) :
    (Text.trim u.authorizedKey == Text.trim k.authorizedKey) = true ↔ (keyOf row.1).blob = k.blob := by
  obtain ⟨u', hu', before, after, hbefore, hafter, htext⟩ := h row hrow
  rw [hu] at hu'
  obtain rfl := Except.ok.inj hu'
  have hwanted : Text.trim k.authorizedKey = k.authorizedKey := by
    have htrim := @Key.PublicKey.trim_authorizedKey k hk "" "" rfl rfl
    rwa [String.empty_append, String.append_empty] at htrim
  rw [beq_iff_eq, htext, Key.PublicKey.trim_authorizedKey hrowKey hbefore hafter, hwanted]
  exact ⟨Key.PublicKey.blob_eq_of_authorizedKey hrowOne hone, Key.PublicKey.authorizedKey_eq_of_blob hrowKey hk⟩

/-- The look-up finds the first row for the key, or there is none. -/
theorem HoldsKeys.userKey (h : s.HoldsKeys keyOf) (hordered : s.Ordered)
    (hrows : ∀ row ∈ s.rows .userKeys, (keyOf row.1).WellNamed ∧ (keyOf row.1).HasOneWordName)
    (hk : k.WellNamed) (hone : k.HasOneWordName) :
    (∃ row u, s.IsFirstFor keyOf k row ∧ decode row.2 = .ok u ∧
        s.userKey k.authorizedKey = .ok (some u)) ∨
      ((∀ row ∈ s.rows .userKeys, (keyOf row.1).blob ≠ k.blob) ∧ s.userKey k.authorizedKey = .ok none) := by
  have hasks (row) (hrow : row ∈ s.rows .userKeys) (u : UserKey) (hu : decode row.2 = .ok u) :=
    h.asks hk hone hrow (hrows row hrow).1 (hrows row hrow).2 hu
  have hfound := findIn_eq_ok (fun row hrow => let ⟨u, hu, _⟩ := h row hrow; ⟨u, hu⟩)
    fun u : UserKey => Text.trim u.authorizedKey == Text.trim k.authorizedKey
  generalize List.find? _ _ = found at hfound
  cases found with
  | none =>
    refine .inr ⟨fun row hrow heq => ?_, hfound⟩
    obtain ⟨u, hu, -⟩ := h row hrow
    have hno := findIn_eq_none hfound row hrow u hu
    exact absurd ((hasks row hrow u hu).mpr heq) (ne_true_of_eq_false hno)
  | some u =>
    obtain ⟨before, row, after, hsplit, hu, hyes, hbefore⟩ := findIn_eq_some_iff.mp hfound
    have hrow : row ∈ s.rows .userKeys := hsplit ▸ List.mem_append_right _ List.mem_cons_self
    refine .inl ⟨row, u, ⟨hrow, (hasks row hrow u hu).mp hyes, fun other hother hlt heq => ?_⟩, hu, hfound⟩
    have hfront := (Rows.Ascending.mem_before_iff (hsplit ▸ hordered .userKeys)).mpr ⟨hsplit ▸ hother, hlt⟩
    obtain ⟨b, hb, hno⟩ := hbefore other hfront
    exact absurd ((hasks other hother b hb).mpr heq) (ne_true_of_eq_false hno)

end Store

namespace Key.PublicKey

/-- What the text for a key tells of the key, whatever the comments are. -/
theorem keys_told_apart {k k' : PublicKey} (hk : k.WellNamed) (hk' : k'.WellNamed) :
    -- The text depends on the blob alone.
    (k.blob = k'.blob → k.authorizedKey = k'.authorizedKey) ∧
    -- It tells keys apart whose algorithms are named by single words.
    (k.HasOneWordName → k'.HasOneWordName → (k.authorizedKey = k'.authorizedKey ↔ k.blob = k'.blob)) ∧
    -- Of a longer name it has the first two words, and nothing of the blob.
    (∀ (first second : List Char) (more : List (List Char)),
      words k.algorithm.toList = first :: second :: more →
      k.authorizedKey = String.ofList first ++ " " ++ String.ofList second) ∧
    -- A look-up finds the first row for the presented key, and no row for another one.
    (∀ (s : Store) (keyOf : Id → PublicKey), s.Ordered → s.HoldsKeys keyOf →
      (∀ row ∈ s.rows .userKeys, (keyOf row.1).WellNamed ∧ (keyOf row.1).HasOneWordName) →
      k.HasOneWordName →
      (∃ row u, s.IsFirstFor keyOf k row ∧ Store.decode row.2 = .ok u ∧
          s.userKey k.authorizedKey = .ok (some u)) ∨
        ((∀ row ∈ s.rows .userKeys, (keyOf row.1).blob ≠ k.blob) ∧
          s.userKey k.authorizedKey = .ok none)) :=
  ⟨authorizedKey_eq_of_blob hk hk',
    fun hone hone' => ⟨blob_eq_of_authorizedKey hone hone', authorizedKey_eq_of_blob hk hk'⟩,
    fun _ _ _ => several_words_collide,
    fun _ _ hordered hholds hrows hone => hholds.userKey hordered hrows hk hone⟩

/-- A key whose algorithm a domain defines. -/
def domainKey (algorithm : String) (body : Bytes) (comment : String) : PublicKey where
  material := .foreign algorithm body
  comment := comment

/-- A record that links a key to a user. White space is around the key's text. -/
def linkTo (id : Id) (k : PublicKey) : UserKey where
  id := id
  userId := 1
  authorizedKey := " " ++ k.authorizedKey ++ "\n"
  keyBlob := k.blob
  createdAt := .epoch

/-- A store of records that link keys to users. -/
def linking (links : List UserKey) : Store where
  rows
    | .userKeys => links.map fun link => (link.id, MessagePack.encode link)
    | _ => []

/-- The second and the third row are for the same key, and a look-up of that key finds the second. -/
theorem keys_told_apart_three_rows :
    let keyOf (id : Id) := if id = 1 then ofEd25519 [7] else domainKey "a@b" [1] "laptop"
    let s := linking [linkTo 1 (keyOf 1), linkTo 2 (keyOf 2), linkTo 3 (keyOf 3)]
    let k := domainKey "a@b" [1] "phone \t tablet"
    k.WellNamed ∧ (keyOf 2).WellNamed ∧ k.HasOneWordName ∧ (keyOf 2).HasOneWordName ∧
      (k.authorizedKey = (keyOf 2).authorizedKey ↔ k.blob = (keyOf 2).blob) ∧
      (domainKey "a b@c" [1] "").authorizedKey = "a b@c" ∧ s.Ordered ∧ s.HoldsKeys keyOf ∧
      ((∃ row u, s.IsFirstFor keyOf k row ∧ Store.decode row.2 = .ok u ∧
          s.userKey k.authorizedKey = .ok (some u)) ∨
        ((∀ row ∈ s.rows .userKeys, (keyOf row.1).blob ≠ k.blob) ∧
          s.userKey k.authorizedKey = .ok none)) ∧
      s.userKey k.authorizedKey = .ok (some (linkTo 2 (keyOf 2))) := by
  intro keyOf s k
  have hforeign {algorithm : String} {body : Bytes} {comment : String}
      (hform : Material.isForeign algorithm = true ∧ (Text.utf8 algorithm).length < 0x1_0000_0000) :
      (domainKey algorithm body comment).WellNamed := by
    intro name body hm
    cases hm
    exact hform
  have hnamed : k.WellNamed := hforeign (by decide)
  have hrow : (keyOf 2).WellNamed := hforeign (by decide)
  have hspaced : (domainKey "a b@c" [1] "").WellNamed := hforeign (by decide)
  have hown : (keyOf 1).WellNamed := nofun
  have hone : k.HasOneWordName := by decide
  have hordered : s.Ordered := by
    intro t
    cases t <;> decide
  have hholds : s.HoldsKeys keyOf := by
    refine List.forall_mem_cons.mpr ⟨⟨linkTo 1 (keyOf 1), by decide +kernel, " ", "\n", rfl, rfl, rfl⟩, ?_⟩
    refine List.forall_mem_cons.mpr ⟨⟨linkTo 2 (keyOf 2), by decide +kernel, " ", "\n", rfl, rfl, rfl⟩, ?_⟩
    exact List.forall_mem_singleton.mpr ⟨linkTo 3 (keyOf 3), by decide +kernel, " ", "\n", rfl, rfl, rfl⟩
  have hrows : ∀ row ∈ s.rows .userKeys, (keyOf row.1).WellNamed ∧ (keyOf row.1).HasOneWordName := by
    refine List.forall_mem_cons.mpr ⟨⟨hown, by decide⟩, ?_⟩
    exact List.forall_mem_cons.mpr ⟨⟨hrow, by decide⟩, List.forall_mem_singleton.mpr ⟨hrow, by decide⟩⟩
  obtain ⟨-, htold, -, hlookup⟩ := keys_told_apart hnamed hrow
  obtain ⟨-, -, hcut, -⟩ := keys_told_apart hspaced hrow
  exact ⟨hnamed, hrow, hone, by decide, htold hone (by decide),
    hcut ['a'] ['b', '@', 'c'] [] (by decide), hordered, hholds,
    hlookup s keyOf hordered hholds hrows hone, by decide +kernel⟩

/-- Two keys of one algorithm whose name has white space in it, each of which is read back from its blob.
Their texts are the same, and a look-up of the second finds the row of the first. -/
theorem keys_confused :
    let k := domainKey "a b@c" [1] ""
    let k' := domainKey "a b@c" [2] ""
    Wire.whole? Material.read k.blob = some k.material ∧ Wire.whole? Material.read k'.blob = some k'.material ∧
      k.blob ≠ k'.blob ∧ k.authorizedKey = k'.authorizedKey ∧
      (linking [linkTo 1 k]).userKey k'.authorizedKey = .ok (some (linkTo 1 k)) := by
  decide +kernel

end Key.PublicKey

end Gatehouse

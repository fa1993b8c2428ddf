import Gatehouse.Config
import Gatehouse.Proofs.Json.Members
import Gatehouse.Proofs.Text.ReadBack

/-!
# Configuration files

`configuration_is_loaded`: a valid configuration is loaded from its text, from any arrangement of its members
without defaults and with strange members, and whatever is loaded is valid.

Proof. The members of the file make an unambiguous schema, so an arrangement of a configuration's row is read
as that row (`Json.document_arranged`). What the checks of a loaded configuration say is said once, in
`validate_eq_ok_iff`.
-/

namespace Gatehouse

/-- Nothing is left of a text without its white space just if there is nothing else in it. -/
theorem Text.trim_eq_empty_iff {s : String} : trim s = "" ↔ isBlankText s = true := by
  have hstart : ∀ cs, trimStart cs = [] ↔ ∀ c ∈ cs, isBlank c = true := fun cs => List.dropWhile_eq_nil_iff
  have hchars : trim s = "" ↔ trimChars s.toList = [] := by
    rw [trim, ← String.toList_inj, String.toList_ofList]
    rfl
  rw [hchars, trimChars, List.reverse_eq_nil_iff, hstart, isBlankText, List.all_eq_true]
  constructor
  · intro h
    refine (hstart _).mp ?_
    rcases hrest : trimStart s.toList with _ | ⟨c, cs⟩
    · rfl
    · have hblank : isBlank c = true := h c (by simp [hrest])
      have hhead := List.head?_dropWhile_not isBlank s.toList
      rw [← trimStart.eq_def, hrest] at hhead
      exact absurd hblank (Bool.eq_false_iff.mp hhead)
  · intro h c hc
    rw [(hstart _).mpr h] at hc
    cases hc

namespace Config

theorem unambiguous_fields (dataDirectory : String) : Unambiguous (fields dataDirectory) := by
  have hkinds : (fields dataDirectory).map Field.kind =
      [.text, .text, .text, .word64, .optional .text, .text, .word64, .word64] := rfl
  have hnames : (fields dataDirectory).map Field.name = ["bind_address", "db_path", "aes_key",
      "idle_timeout_secs", "acl_check_cmd", "logs_location", "dial_timeout_secs", "max_hops"] := rfl
  refine ⟨fun f hf => ?_, hnames ▸ by decide⟩
  have hall : ∀ k ∈ (fields dataDirectory).map Field.kind, k.Unambiguous := hkinds ▸ by decide
  exact hall _ (List.mem_map_of_mem hf)

/-- What it takes to be valid. -/
theorem validate_eq_ok_iff {c : Config} : c.validate = .ok () ↔
    Text.trim c.bindAddress ≠ "" ∧ (Text.utf8 c.aesKey).length ∈ [0, 16, 24, 32] ∧ 1 ≤ c.maxHops := by
  have hsize : (Text.utf8 c.aesKey).length = Text.utf8Size c.aesKey := rfl
  have hhops : 1 ≤ c.maxHops ↔ c.maxHops ≠ 0 := by
    rw [Ne, ← UInt64.toNat_inj, UInt64.le_iff_toNat_le]
    exact Nat.one_le_iff_ne_zero
  rw [Ne, Text.trim_eq_empty_iff, hsize, hhops, validate]
  by_cases hblank : Text.isBlankText c.bindAddress = true
  · simp [hblank]
  · by_cases hkey : Text.utf8Size c.aesKey ∈ [0, 16, 24, 32]
    · by_cases hzero : c.maxHops = 0
      · rw [if_neg hblank, if_neg (not_not.mpr hkey), if_pos hzero]
        exact ⟨nofun, fun h => absurd hzero h.2.2⟩
      · rw [if_neg hblank, if_neg (not_not.mpr hkey), if_neg hzero]
        exact ⟨fun _ => ⟨hblank, hkey, hzero⟩, fun _ => rfl⟩
    · rw [if_neg hblank, if_pos hkey]
      exact ⟨nofun, fun h => absurd h.2.1 hkey⟩

/-- Only what is valid is loaded. -/
theorem validate_of_load {dataDirectory : String} {file : Except OsError Bytes} {c : Config}
    (h : load dataDirectory file = .ok c) : c.validate = .ok () := by
  simp only [load, bind, Except.bind] at h
  split at h
  · split at h
    · cases h
    · next hvalid =>
      cases h
      exact hvalid
  · cases h
  · split at h
    · cases h
    · split at h
      · cases h
      · split at h
        · cases h
        · next hvalid =>
          cases h
          exact hvalid

theorem load_of_parse {dataDirectory source : String} {c : Config} (hparse : parse dataDirectory source = .ok c)
    (hvalid : c.validate = .ok ()) : load dataDirectory (.ok (Text.utf8 source)) = .ok c := by
  simp only [load, Text.ofUtf8?_utf8, hparse, hvalid, bind, Except.bind]

theorem render_eq (dataDirectory : String) (c : Config) :
    c.render = String.ofList (Json.writeRow (fields dataDirectory) (c.toRow dataDirectory)) := rfl

/-- A valid configuration is loaded from its text, from any arrangement of its members that leaves out nothing
but defaults and adds nothing but strange names with scalar values. What is loaded, whatever is in the file, has
an address to listen on that is not blank, a key of 0, 16, 24 or 32 bytes, and room for a host. -/
theorem configuration_is_loaded (dataDirectory : String) :
    (∀ c : Config, c.validate = .ok () →
      load dataDirectory (.ok (Text.utf8 c.render)) = .ok c ∧
      ∀ omitted ms, Json.Arranged (fields dataDirectory) (c.toRow dataDirectory) omitted ms →
        load dataDirectory (.ok (Text.utf8 (String.ofList (Json.objectForm ms)))) = .ok c) ∧
    ∀ (file : Except OsError Bytes) (c : Config), load dataDirectory file = .ok c →
      Text.trim c.bindAddress ≠ "" ∧ (Text.utf8 c.aesKey).length ∈ [0, 16, 24, 32] ∧ 1 ≤ c.maxHops := by
  have harranged : ∀ (c : Config) omitted ms, c.validate = .ok () →
      Json.Arranged (fields dataDirectory) (c.toRow dataDirectory) omitted ms →
        load dataDirectory (.ok (Text.utf8 (String.ofList (Json.objectForm ms)))) = .ok c := by
    intro c omitted ms hvalid h
    refine load_of_parse ?_ hvalid
    rw [parse, String.toList_ofList, Json.document_arranged (unambiguous_fields dataDirectory) h]
    rfl
  refine ⟨fun c hvalid => ⟨?_, fun omitted ms => harranged c omitted ms hvalid⟩,
    fun file c h => validate_eq_ok_iff.mp (validate_of_load h)⟩
  rw [render_eq dataDirectory, Json.writeRow_eq]
  exact harranged c _ _ hvalid (Json.arranged_forms _ _)

/-- A configuration with a quote and a line break in its texts, the greatest number, and two defaults. -/
def hooked : Config where
  bindAddress := "[::1]:2222"
  dbPath := "/srv/\"bastion\".redb"
  aesKey := "0123456789abcdef"
  idleTimeoutSecs := 18446744073709551615
  aclCheckCmd := some "acl-check\n"
  logsLocation := "./log"
  dialTimeoutSecs := 30
  maxHops := 1

/-- The members of that configuration from the last to the first without the two defaults, with a text in
front and a number and null between them. -/
def hookedMembers : List (String × List Char) :=
  let kept := (Json.forms (fields "/data") (hooked.toRow "/data")).filter fun m =>
    m.1 ∉ ["logs_location", "dial_timeout_secs"]
  ("comment", Json.writeText "a \\ b") :: kept.reverse.take 3 ++
    ("rank", ['-', '1', '.', '5', 'e', '+', '1', '0']) :: ("retired", ['n', 'u', 'l', 'l']) :: kept.reverse.drop 3

theorem configuration_is_loaded_rearranged :
    hooked.validate = .ok () ∧
    load "/data" (.ok (Text.utf8 hooked.render)) = .ok hooked ∧
    Json.Arranged (fields "/data") (hooked.toRow "/data") ["logs_location", "dial_timeout_secs"] hookedMembers ∧
    load "/data" (.ok (Text.utf8 (String.ofList (Json.objectForm hookedMembers)))) = .ok hooked ∧
    Text.trim hooked.bindAddress ≠ "" ∧ (Text.utf8 hooked.aesKey).length ∈ [0, 16, 24, 32] ∧
    1 ≤ hooked.maxHops := by
  have hvalid : hooked.validate = .ok () := by decide +kernel
  have hone : Json.Digits ['1'] := ⟨nofun, List.all_eq_true.mp rfl⟩
  have hten : Json.Digits ['1', '0'] := ⟨nofun, List.all_eq_true.mp rfl⟩
  have hnumber : Json.Scalar ['-', '1', '.', '5', 'e', '+', '1', '0'] :=
    .number (by decide : ['-'] ∈ [[], ['-']]) (.digits (by decide : '1' ≠ '0') hone)
      (.some (⟨nofun, List.all_eq_true.mp rfl⟩ : Json.Digits ['5'])) (.some (.inl rfl) (by decide : ['+'] ∈ _) hten)
  have harranged : Json.Arranged (fields "/data") (hooked.toRow "/data")
      ["logs_location", "dial_timeout_secs"] hookedMembers := by
    refine ⟨fun name hname => ?_, [("comment", Json.writeText "a \\ b"),
      ("rank", ['-', '1', '.', '5', 'e', '+', '1', '0']), ("retired", ['n', 'u', 'l', 'l'])], fun m hm => ?_,
      by decide +kernel⟩
    · simp only [List.mem_cons, List.not_mem_nil, or_false] at hname
      rcases hname with rfl | rfl
      · exact .inr (.inr (.inr (.inr (.inr (.inl ⟨rfl, rfl⟩)))))
      · exact .inr (.inr (.inr (.inr (.inr (.inr (.inl ⟨rfl, rfl⟩))))))
    · simp only [List.mem_cons, List.not_mem_nil, or_false] at hm
      rcases hm with rfl | rfl | rfl
      · exact ⟨by decide, .text "a \\ b"⟩
      · exact ⟨by decide, hnumber⟩
      · exact ⟨by decide, .null⟩
  obtain ⟨hload, honly⟩ := configuration_is_loaded "/data"
  obtain ⟨hown, hother⟩ := hload hooked hvalid
  exact ⟨hvalid, hown, harranged, hother _ _ harranged, honly _ _ hown⟩

end Config

end Gatehouse

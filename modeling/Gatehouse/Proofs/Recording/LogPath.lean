import Gatehouse.Bastion.Handler
import Gatehouse.Proofs.Files.Path
import Gatehouse.Proofs.Time.ReadBack
import Gatehouse.Recording.LogPath

/-!
# Every session has a log of its own

`log_paths_distinct`: the path of a log is the common directory with one component more, whatever the name
of the user is, and two logs of that directory have the same path only if they are of the same session.

Proof. No part of the name has a slash in it, and dashes keep it from being a dot or two
(`isEntryName_logName`), so that joining it adds one component. The session is read from the right end,
where neither the user's name nor the channel type reaches: what comes after the year has a fixed length, the
year is the digits in front of that, and the next digits to the left, past a sign if the year has one, are
those of the session (`sessionDigits_logName`).
-/

namespace Gatehouse.Recording

open Text (isDigit decimal padded)
open Time (Instant)

/-! ### What a name is made of -/

/-- A year is its digits, with a sign in front if it is out of the common range. -/
theorem exists_yearText (year : Int) : ∃ sign n, Time.Rfc3339.yearText year = sign ++ padded 4 n ∧
    ∀ c ∈ sign, c = '-' ∨ c = '+' := by
  unfold Time.Rfc3339.yearText
  split_ifs
  · exact ⟨[], year.toNat, rfl, nofun⟩
  · exact ⟨['-'], year.natAbs, rfl, fun c hc => .inl (List.mem_singleton.mp hc)⟩
  · exact ⟨['+'], year.natAbs, rfl, fun c hc => .inr (List.mem_singleton.mp hc)⟩

/-- What is written after the year has a fixed length. -/
theorem exists_writeSeconds (t : Instant) : ∃ rest : List Char,
    (Time.Rfc3339.writeSeconds t).toList = Time.Rfc3339.yearText t.date.year ++ rest ∧ rest.length = 16 ∧
      ∀ c ∈ rest, isDigit c = true ∨ c ∈ ['-', '+', 'T', ':', 'Z'] := by
  obtain ⟨rest, htext, hlength, hrest⟩ := Time.Rfc3339.exists_secondsText t
  refine ⟨rest ++ ['Z'], ?_, ?_, fun c hc => ?_⟩
  · rw [Time.Rfc3339.writeSeconds, String.toList_ofList, htext, List.append_assoc]
  · rw [List.length_append, hlength]
    rfl
  · rcases List.mem_append.mp hc with hc | hc
    · refine (hrest c hc).imp_right fun hc => ?_
      exact (by decide : ['-', 'T', ':'] ⊆ ['-', '+', 'T', ':', 'Z']) hc
    · rw [List.mem_singleton.mp hc]
      exact .inr (by decide)

theorem toList_logName (user channelType : String) (session : Id) (t : Instant) :
    (logName user channelType session t).toList =
      (safeName user).toList ++ '-' :: (channelType.toList ++ '-' :: (decimal session.toNat ++
        '-' :: (Time.Rfc3339.writeSeconds t).toList)) := by
  simp [logName]

theorem mem_safeName {user : String} {c : Char} (h : c ∈ (safeName user).toList) : c ≠ '/' ∧ c ≠ '\\' := by
  rw [safeName, String.toList_ofList, List.mem_map] at h
  obtain ⟨before, -, rfl⟩ := h
  split_ifs with hslash
  · decide
  · simpa using hslash

theorem mem_writeSeconds {t : Instant} {c : Char} (h : c ∈ (Time.Rfc3339.writeSeconds t).toList) :
    isDigit c = true ∨ c ∈ ['-', '+', 'T', ':', 'Z'] := by
  obtain ⟨rest, htext, -, hrest⟩ := exists_writeSeconds t
  obtain ⟨sign, n, hyear, hsign⟩ := exists_yearText t.date.year
  rw [htext, hyear, List.mem_append, List.mem_append] at h
  rcases h with (hc | hc) | hc
  · rcases hsign c hc with rfl | rfl <;> simp
  · exact .inl (Text.isDigit_of_mem_padded hc)
  · exact hrest c hc

/-- No slash of either kind is in the name of a log. -/
theorem mem_logName {user channelType : String} {session : Id} {t : Instant} {c : Char}
    (htype : ∀ c ∈ channelType.toList, c ≠ '/' ∧ c ≠ '\\')
    (h : c ∈ (logName user channelType session t).toList) : c ≠ '/' ∧ c ≠ '\\' := by
  have hdigit (h : isDigit c = true) : c ≠ '/' ∧ c ≠ '\\' := by
    constructor
    all_goals
      rintro rfl
      exact absurd h (by decide)
  rw [toList_logName] at h
  simp only [List.mem_append, List.mem_cons] at h
  rcases h with hc | rfl | hc | rfl | hc | rfl | hc
  · exact mem_safeName hc
  · decide
  · exact htype c hc
  · decide
  · exact hdigit (Text.isDigit_of_mem_decimal hc)
  · decide
  · rcases mem_writeSeconds hc with hc | hc
    · exact hdigit hc
    · simp only [List.mem_cons, List.not_mem_nil, or_false] at hc
      rcases hc with rfl | rfl | rfl | rfl | rfl <;> decide

theorem isEntryName_logName {user channelType : String} {session : Id} {t : Instant}
    (htype : ∀ c ∈ channelType.toList, c ≠ '/' ∧ c ≠ '\\') :
    Files.IsEntryName (logName user channelType session t) := by
  have hdash : '-' ∈ (logName user channelType session t).toList := by
    rw [toList_logName]
    exact List.mem_append_right _ List.mem_cons_self
  refine ⟨fun hslash => (mem_logName htype hslash).1 rfl, ?_, ?_, ?_⟩
  all_goals
    intro heq
    rw [heq] at hdash
    exact absurd hdash (by decide)

/-! ### Reading the session from the right -/

/-- The digits of the session, last one first. -/
def sessionDigits (name : List Char) : List Char :=
  (((name.reverse.drop 16).dropWhile isDigit).dropWhile fun c => !isDigit c).takeWhile isDigit

/-- Behind some digits, and what separates them from the next ones, are the next ones. -/
theorem digits_after_gap {year gap digits back : List Char} (hyear : ∀ c ∈ year, isDigit c = true)
    (hgap : ∀ c ∈ gap, isDigit c = false) (hgap' : gap ≠ []) (hdigits : ∀ c ∈ digits, isDigit c = true)
    (hdigits' : digits ≠ []) (hback : ∀ c ∈ back.head?, isDigit c = false) :
    (((year ++ (gap ++ (digits ++ back))).dropWhile isDigit).dropWhile fun c => !isDigit c).takeWhile
      isDigit = digits := by
  obtain ⟨g, gap, rfl⟩ := List.exists_cons_of_ne_nil hgap'
  obtain ⟨d, digits, rfl⟩ := List.exists_cons_of_ne_nil hdigits'
  have hg : isDigit g = false := hgap g List.mem_cons_self
  have hd : isDigit d = true := hdigits d List.mem_cons_self
  rw [List.dropWhile_append_of_pos hyear, List.cons_append, List.dropWhile_cons_of_neg (by simp [hg]),
    ← List.cons_append, List.dropWhile_append_of_pos (by simpa using hgap), List.cons_append,
    List.dropWhile_cons_of_neg (by simp [hd]), ← List.cons_append]
  exact Time.Rfc3339.takeWhile_isDigit_append hdigits hback

theorem sessionDigits_logName (user channelType : String) (session : Id) (t : Instant) :
    sessionDigits (logName user channelType session t).toList = (decimal session.toNat).reverse := by
  obtain ⟨rest, htext, hlength, -⟩ := exists_writeSeconds t
  obtain ⟨sign, n, hyear, hsign⟩ := exists_yearText t.date.year
  have hreverse : (logName user channelType session t).toList.reverse =
      rest.reverse ++ ((padded 4 n).reverse ++ ((sign.reverse ++ ['-']) ++ ((decimal session.toNat).reverse ++
        '-' :: (channelType.toList.reverse ++ '-' :: (safeName user).toList.reverse)))) := by
    rw [toList_logName, htext, hyear]
    simp
  rw [sessionDigits, hreverse, List.drop_left' (by rw [List.length_reverse, hlength])]
  apply digits_after_gap
  case hyear =>
    exact fun c hc => Text.isDigit_of_mem_padded (List.mem_reverse.mp hc)
  case hgap =>
    intro c hc
    rcases List.mem_append.mp hc with hc | hc
    · rcases hsign c (List.mem_reverse.mp hc) with rfl | rfl <;> rfl
    · rw [List.mem_singleton.mp hc]
      rfl
  case hgap' => simp
  case hdigits =>
    exact fun c hc => Text.isDigit_of_mem_decimal (List.mem_reverse.mp hc)
  case hdigits' => exact List.reverse_ne_nil_iff.mpr Nat.toDigits_ne_nil
  case hback =>
    intro c hc
    cases hc
    rfl

/-- Names of the same text are names of the same session. -/
theorem session_eq_of_logName_eq {user user' channelType channelType' : String} {session session' : Id}
    {t t' : Instant} (h : logName user channelType session t = logName user' channelType' session' t') :
    session = session' := by
  have hdigits := congrArg (fun name => (sessionDigits (String.toList name)).reverse) h
  rw [sessionDigits_logName, sessionDigits_logName, List.reverse_reverse, List.reverse_reverse] at hdigits
  have hvalue {n : Nat} : Nat.ofDigitChars 10 (decimal n) 0 = n := Nat.ofDigitChars_ten_toDigits
  rw [← UInt64.toNat_inj, ← hvalue (n := session.toNat), hdigits, hvalue]

theorem mem_kindName {kind : Bastion.ChannelKind} : ∀ c ∈ kind.logName.toList, c ≠ '/' ∧ c ≠ '\\' := by
  have hsession : ("session".toList.all fun c => c ≠ '/' ∧ c ≠ '\\') = true := by decide
  have hforward : ("direct-tcpip".toList.all fun c => c ≠ '/' ∧ c ≠ '\\') = true := by decide
  simp only [List.all_eq_true, decide_eq_true_eq] at hsession hforward
  cases kind with
  | session => exact hsession
  | forward => exact hforward

/-- The path of a session's log is the directory of the logs with one component more, which is the name of
an entry of that directory, and the logs of two sessions never have the same path. -/
theorem log_paths_distinct (root : String) :
    (∀ user (kind : Bastion.ChannelKind) session t,
      let name := logName user kind.logName session t
      let path := logPath root user kind.logName session t
      path = Files.join root name ∧
        Files.IsEntryName name ∧ '\\' ∉ name.toList ∧
        (Files.Path.mk name).isAbsolute = false ∧
        (Files.Path.mk path).isAbsolute = (Files.Path.mk root).isAbsolute ∧
        (Files.Path.mk path).components = (Files.Path.mk root).components ++ [name]) ∧
    ∀ user user' (kind kind' : Bastion.ChannelKind) session session' t t',
      (Files.Path.mk (logPath root user kind.logName session t)).components =
          (Files.Path.mk (logPath root user' kind'.logName session' t')).components →
        session = session' := by
  constructor
  · intro user kind session t name path
    have hentry : Files.IsEntryName name := isEntryName_logName mem_kindName
    exact ⟨rfl, hentry, fun hslash => (mem_logName mem_kindName hslash).2 rfl, hentry.isRelative,
      Files.isAbsolute_join hentry, Files.components_join hentry⟩
  · intro user user' kind kind' session session' t t' h
    rw [logPath, logPath, Files.components_join (isEntryName_logName mem_kindName),
      Files.components_join (isEntryName_logName mem_kindName), List.append_cancel_left_eq,
      List.cons.injEq] at h
    exact session_eq_of_logName_eq h.1

/-- Slashes of either kind give the same name, but then the session is the same, too. A user's name that ends
like the name of a log does not lead to the log of another session. -/
theorem log_paths_distinct_forged :
    let path user session :=
      Files.Path.mk (logPath "logs" user Bastion.ChannelKind.session.logName session .epoch)
    (path "../eve" 7).components = ["logs", ".._eve-session-7-1970-01-01T00:00:00Z"] ∧
      (path "../eve" 7).components = (path "..\\eve" 7).components ∧ (7 : Id) = 7 ∧
      (path "eve-session-1-1970-01-01T00:00:00Z" 12).components ≠ (path "eve" 1).components := by
  intro path
  obtain ⟨hcontained, hdistinct⟩ := log_paths_distinct "logs"
  have hsame : (path "../eve" 7).components = (path "..\\eve" 7).components := by
    have hsafe : safeName "../eve" = safeName "..\\eve" := by decide +kernel
    simp only [path, logPath, logName, hsafe]
  refine ⟨?_, hsame, hdistinct _ _ .session .session 7 7 .epoch .epoch hsame, fun heq => ?_⟩
  · refine (hcontained "../eve" .session 7 .epoch).2.2.2.2.2.trans ?_
    decide +kernel
  · exact absurd (hdistinct _ _ .session .session 12 1 .epoch .epoch heq) (by decide)

end Gatehouse.Recording

import RaidStatus.Proofs.Report.Consistency
import RaidStatus.Proofs.Report.FileContents
import RaidStatus.Proofs.Report.Refusal
import RaidStatus.Proofs.Text.Utf8

/-!
# The bytes of a report

Every byte sequence is read as a report, and no byte of it is lost.  The words
of its logical lines are its bytes but for those of the blanks
(`encode_flatten_fileWords`), and what a status quotes of a report is a part of
one of these words (`ArrayStatus.IsQuoted`).  So each name in a status, each
level, version and health comes back as bytes of the report.
-/

namespace RaidStatus

/-! ## What a status quotes -/

namespace ArrayStatus

/-- Names, levels, versions and healths are words or parts of words. -/
structure IsQuoted (words : List Text) (status : ArrayStatus) : Prop where
  name_mem : status.name ∈ words
  level_mem : ∀ level ∈ status.level, level ∈ words
  version_mem : ∀ version ∈ status.version, version ∈ words
  /-- A health is a word between brackets, of which the second one may be
  missing. -/
  exists_health : ∀ health ∈ status.health, ∃ word ∈ words,
    word = .char '[' :: health ∨ word = .char '[' :: (health ++ [.char ']'])
  /-- A disk is named by a word in front of a bracket. -/
  exists_member : ∀ member ∈ status.members, ∃ word ∈ words,
    member ++ [.char '['] <+: word

/-- All texts of a status. -/
def texts (status : ArrayStatus) : List Text :=
  status.name :: (status.level.toList ++ status.version.toList ++
    status.health.toList ++ status.members)

variable {words : List Text} {status : ArrayStatus}

theorem IsQuoted.mono (h : status.IsQuoted words) {more : List Text}
    (hsubset : words ⊆ more) : status.IsQuoted more where
  name_mem := hsubset h.name_mem
  level_mem := fun level hlevel => hsubset (h.level_mem level hlevel)
  version_mem := fun version hversion =>
    hsubset (h.version_mem version hversion)
  exists_health := by
    intro health hhealth
    obtain ⟨word, hword, heq⟩ := h.exists_health health hhealth
    exact ⟨word, hsubset hword, heq⟩
  exists_member := by
    intro member hmember
    obtain ⟨word, hword, hbegins⟩ := h.exists_member member hmember
    exact ⟨word, hsubset hword, hbegins⟩

/-- Each text of a status is a part of some word. -/
theorem IsQuoted.exists_isInfix (h : status.IsQuoted words) {text : Text}
    (htext : text ∈ status.texts) : ∃ word ∈ words, text <:+: word := by
  simp only [texts, List.mem_cons, List.mem_append,
    Option.mem_toList] at htext
  rcases htext with rfl | ((hlevel | hversion) | hhealth) | hmember
  · exact ⟨_, h.name_mem, List.infix_refl _⟩
  · exact ⟨_, h.level_mem text hlevel, List.infix_refl _⟩
  · exact ⟨_, h.version_mem text hversion, List.infix_refl _⟩
  · obtain ⟨word, hword, rfl | rfl⟩ := h.exists_health text hhealth
    · exact ⟨_, hword, (List.suffix_cons _ _).isInfix⟩
    · exact ⟨_, hword, ⟨[.char '['], [.char ']'], by simp⟩⟩
  · obtain ⟨word, hword, hbegins⟩ := h.exists_member text hmember
    exact ⟨word, hword, (List.prefix_append text _).trans hbegins |>.isInfix⟩

end ArrayStatus

namespace Scan

variable {seen : List Text} {known : List Text} {scan next : Scan}
  {word : Text}

/-- What one more word adds to the status is a part of that word. -/
theorem Transition.isQuoted (hnext : Transition known scan word next)
    (h : scan.status.IsQuoted seen) (hword : word ∈ seen) :
    next.status.IsQuoted seen := by
  cases hnext with
  | closed | active | inactive | bitmap | blocks | super => exact { h with }
  | version =>
    refine { h with version_mem := ?_ }
    rintro _ ⟨rfl⟩
    exact hword
  | level =>
    refine { h with level_mem := ?_ }
    rintro _ ⟨rfl⟩
    exact hword
  | member =>
    unfold noteMember
    cases hdisk : disk? word with
    | none => exact h
    | some disk =>
      refine { h with exists_member := ?_ }
      intro member hmember
      rcases List.mem_append.mp hmember with hmember | hmember
      · exact h.exists_member member hmember
      · rw [List.mem_singleton.mp hmember]
        exact ⟨word, hword, (of_disk? hdisk).2⟩
  | detail status hreached hnote =>
    cases ArrayStatus.detailChange_of_noteDetail hnote with
    | count | assigned | announced | percentage | ignored =>
      exact { h with }
    | health health hnone hhealth =>
      refine { h with exists_health := ?_ }
      rintro _ ⟨rfl⟩
      exact ⟨word, hword, (Detail.of_health? hhealth).2⟩

end Scan

/-- A line is quoted from its own words. -/
theorem ArrayStatus.isQuoted_of_read {known : List Text} {name : Text}
    {details : List Text} {reading : Reading}
    (hread : read known name details = .ok reading) :
    reading.status.IsQuoted (name :: details) := by
  obtain ⟨final, hrun, hreading⟩ := bind_eq_ok_iff.mp hread
  cases hreading
  apply Scan.run_induction (P := fun seen scan => scan.status.IsQuoted seen)
    _ [name] _ hrun
  · intro seen scan word next h hnext
    exact hnext.isQuoted (h.mono (List.subset_append_left seen [word]))
      (by simp)
  · constructor <;> simp

namespace Report

/-! ## Words and bytes -/

/-- The words of a file, in the order of its lines. -/
def fileWords (bytes : List UInt8) : List Text :=
  (LogicalLine.ofText (Text.Utf8.decode bytes).normalizeEndings).flatMap
    LogicalLine.words

theorem fileWords_eq (bytes : List UInt8) :
    fileWords bytes = (Text.Utf8.decode bytes).words := by
  rw [fileWords, LogicalLine.flatMap_words_ofText,
    Text.words_normalizeEndings]

/-- The words of a file have all its bytes but those of the blanks. -/
theorem encode_flatten_fileWords (bytes : List UInt8) :
    Text.Utf8.encode (fileWords bytes).flatten =
      Text.Utf8.encode
        ((Text.Utf8.decode bytes).filter fun s => !s.isBlank) := by
  rw [fileWords_eq, Text.flatten_words]

theorem encode_isInfix_of_mem_fileWords {bytes : List UInt8} {word : Text}
    (hword : word ∈ fileWords bytes) : Text.Utf8.encode word <:+: bytes := by
  rw [fileWords_eq] at hword
  have hpart := Text.Utf8.encode_isInfix (Text.isInfix_of_mem_words hword)
  rwa [Text.Utf8.encode_decode] at hpart

/-- The arrays of a file quote its words. -/
theorem isQuoted_of_readFile {order : ArrayOrder} {bytes : List UInt8}
    {arrays : List ArrayStatus}
    (hread : (readFile order bytes).outcome = .ok arrays) {array : ArrayStatus}
    (harray : array ∈ arrays) : array.IsQuoted (fileWords bytes) := by
  obtain ⟨line, hline, reading, hreading, rfl⟩ :=
    exists_reading_of_mem hread harray
  apply (ArrayStatus.isQuoted_of_read hreading).mono
  intro word hword
  exact List.mem_flatMap.mpr ⟨line, (List.mem_filter.mp hline).1, hword⟩

/-- Every byte sequence can be read, and nothing of it is lost.  Its text is
the one it is read as, and gives the bytes back; its words give back all bytes
but those of the blanks.  A reading that is not made to fail gives arrays that
quote the bytes of the file, or is refused for a long number. -/
theorem bytes_are_kept (bytes : List UInt8) :
    (∀ text, Text.Utf8.Reads bytes text ↔ Text.Utf8.decode bytes = text) ∧
    Text.Utf8.encode (Text.Utf8.decode bytes) = bytes ∧
    Text.Utf8.encode (fileWords bytes).flatten =
      Text.Utf8.encode
        ((Text.Utf8.decode bytes).filter fun s => !s.isBlank) ∧
    ∀ (session : Session) (hold : Bool) (order : ArrayOrder) (id : Nat),
      session.source? hold = some id → session.fs.contents id = bytes →
        (∃ arrays,
          (session.read hold order none).2.outcome = .ok (some arrays) ∧
          ∀ array ∈ arrays, array.IsQuoted (fileWords bytes) ∧
            ∀ text ∈ array.texts, Text.Utf8.encode text <:+: bytes) ∨
        ∃ error,
          (session.read hold order none).2.outcome =
            .error (.tooLong error) ∧
          Numeral.maxDigits < error.digits := by
  refine ⟨fun _ => Text.Utf8.reads_iff, Text.Utf8.encode_decode bytes,
    encode_flatten_fileWords bytes, ?_⟩
  rintro session hold order id hsource rfl
  have houtcome :=
    (Session.isReadingOf_of_source? hsource order).outcome_eq
  cases hread : (readFile order (session.fs.contents id)).outcome with
  | ok arrays =>
    rw [hread] at houtcome
    refine Or.inl ⟨arrays, houtcome, fun array harray => ?_⟩
    have hquoted := isQuoted_of_readFile hread harray
    refine ⟨hquoted, fun text htext => ?_⟩
    obtain ⟨word, hword, hpart⟩ := hquoted.exists_isInfix htext
    exact (Text.Utf8.encode_isInfix hpart).trans
      (encode_isInfix_of_mem_fileWords hword)
  | error error =>
    rw [hread] at houtcome
    obtain ⟨front, hlong⟩ := exists_longRun_of_readFile hread
    exact Or.inr ⟨error, houtcome, hlong.lt_digits⟩

/-- The bytes of a line whose level is no valid text. -/
def brokenLevel : List UInt8 :=
  Text.Utf8.encode (Text.ofString "md0 : active ") ++ [0xe2, 0x82]

/-- A session with that line. -/
def brokenSession : Session :=
  Session.initial.run [.write brokenLevel]

theorem brokenLevel_kept :
    ∃ arrays,
      (brokenSession.read true .partsLast none).2.outcome =
        .ok (some arrays) ∧
      (∃ array ∈ arrays, array.level = some [.byte 0xe2, .byte 0x82]) ∧
      ∀ array ∈ arrays, array.IsQuoted (fileWords brokenLevel) ∧
        ∀ text ∈ array.texts, Text.Utf8.encode text <:+: brokenLevel := by
  obtain ⟨-, -, -, hsession⟩ := bytes_are_kept brokenLevel
  have hread : (brokenSession.read true .partsLast none).2.outcome =
      .ok (some _) := rfl
  rcases hsession brokenSession true .partsLast 0 rfl rfl with
    ⟨arrays, harrays, hquoted⟩ | ⟨error, herror, -⟩
  · refine ⟨arrays, harrays, ?_, hquoted⟩
    rw [hread] at harrays
    cases harrays
    exact ⟨_, List.mem_singleton_self _, rfl⟩
  · rw [hread] at herror
    cases herror

end Report
end RaidStatus

import RaidStatus.Proofs.Lookup.Answer
import RaidStatus.Proofs.Report.Order
import RaidStatus.Proofs.Scan.Refusal
import RaidStatus.Proofs.Watch.HeldFile

/-!
# Which reports are refused

A report is refused for the first of its lines that is refused
(`IsRefusedByLine`), and a line is refused for a number with too many digits in
one of its words; behind the disks this is the first word that is refused
(`IsRefusedByWord`).  A text without such a number is read, whatever else it
holds, and so is a file with it (`IsShort`).

The rules together hold of every text (`text_obeys_refusal_rules`).
-/

namespace RaidStatus

/-! ## Lines -/

namespace ArrayStatus

theorem readWords_words (known : List Text) (line : LogicalLine) :
    readWords known line.words =
      (read known line.name line.details).mapError .tooLong := rfl

theorem readWords_words_eq_error_iff (known : List Text)
    (line : LogicalLine) (error : Numeral.TooLong) :
    readWords known line.words = .error (.tooLong error) ↔
      read known line.name line.details = .error error := by
  rw [readWords_words]
  cases read known line.name line.details <;> simp [Except.mapError]

/-- A line is refused whatever the arrays before it are. -/
theorem ofLine_eq_error_iff (known : List Text) {line : LogicalLine}
    {error : Numeral.TooLong} :
    ofLine line = .error error ↔
      readWords known line.words = .error (.tooLong error) := by
  unfold ofLine
  rw [← read_status known, map_eq_error_iff, readWords_words_eq_error_iff]

theorem exists_ofLine_eq_ok_iff (known : List Text) {line : LogicalLine} :
    (∃ status, ofLine line = .ok status) ↔
      ∃ reading, readWords known line.words = .ok reading := by
  unfold ofLine
  rw [← read_status known, readWords_words]
  cases read known line.name line.details <;>
    simp [Except.map, Except.mapError]

/-- The only error of a line of a report is a long number. -/
theorem eq_tooLong_of_readWords {known : List Text} {line : LogicalLine}
    {error : LineError} (hread : readWords known line.words = .error error) :
    ∃ tooLong, error = .tooLong tooLong ∧
      read known line.name line.details = .error tooLong := by
  rw [readWords_words] at hread
  cases hline : read known line.name line.details with
  | error tooLong =>
    rw [hline] at hread
    cases hread
    exact ⟨tooLong, rfl, rfl⟩
  | ok reading =>
    rw [hline] at hread
    cases hread

/-- The anchor of a line is the position of an array. -/
theorem anchor_lt_length {known : List Text} {name : Text}
    {details : List Text} {reading : Reading}
    (hread : read known name details = .ok reading) :
    ∀ position ∈ reading.anchor, position < known.length := by
  intro position hposition
  rw [read_anchor hread, Option.mem_def] at hposition
  exact (List.findIdx?_eq_some_iff_getElem.mp hposition).1

end ArrayStatus

namespace Report

/-! ## Reports -/

theorem read_outcome_eq_error_iff {order : ArrayOrder} {text : Text}
    {error : Numeral.TooLong} :
    (read order text).outcome = .error error ↔
      IsFirstError ArrayStatus.ofLine (arrayLines text) error := by
  rw [← mapM_eq_error_iff, read_outcome, map_eq_error_iff]
  change listing text = .error error ↔ statuses text = .error error
  cases hlines : statuses text with
  | error e => simp [listing_eq_error hlines]
  | ok lines =>
    obtain ⟨entries, hentries, -⟩ := exists_listing hlines
    rw [hentries]
    simp

/-- How a report is refused, whatever arrays its lines are read behind. -/
structure IsRefusedByLine (known : LogicalLine → List Text)
    (order : ArrayOrder) (text : Text) : Prop where
  /-- The error is that of the first line that is refused. -/
  first_iff : ∀ error, (read order text).outcome = .error error ↔
    IsFirstError
      (fun line => ArrayStatus.readWords (known line) line.words)
      (arrayLines text) (.tooLong error)
  exists_line_iff : (∃ error, (read order text).outcome = .error error) ↔
    ∃ line ∈ arrayLines text, ∃ error,
      ArrayStatus.readWords (known line) line.words = .error error
  /-- A line is refused for the length of a number. -/
  exists_number : ∀ line ∈ arrayLines text, ∀ error,
    ArrayStatus.readWords (known line) line.words = .error error →
      ∃ tooLong, error = .tooLong tooLong ∧
        ∃ word ∈ line.words, ∃ front, NumberFront front ∧
          LongRun word front tooLong

theorem isRefusedByLine (known : LogicalLine → List Text)
    (order : ArrayOrder) (text : Text) :
    IsRefusedByLine known order text where
  first_iff := by
    intro error
    rw [read_outcome_eq_error_iff]
    constructor
    · intro hfirst
      apply hfirst.imp
      · exact fun line status hline =>
          (ArrayStatus.exists_ofLine_eq_ok_iff (known line)).mp ⟨status, hline⟩
      · exact fun line => (ArrayStatus.ofLine_eq_error_iff (known line)).mp
    · intro hfirst
      apply hfirst.imp
      · exact fun line reading hline =>
          (ArrayStatus.exists_ofLine_eq_ok_iff (known line)).mpr
            ⟨reading, hline⟩
      · exact fun line => (ArrayStatus.ofLine_eq_error_iff (known line)).mpr
  exists_line_iff := by
    simp only [read_outcome_eq_error_iff, exists_isFirstError_iff]
    constructor
    · rintro ⟨line, hline, error, herror⟩
      exact ⟨line, hline, _,
        (ArrayStatus.ofLine_eq_error_iff (known line)).mp herror⟩
    · rintro ⟨line, hline, error, herror⟩
      obtain ⟨tooLong, rfl, -⟩ := ArrayStatus.eq_tooLong_of_readWords herror
      exact ⟨line, hline, tooLong,
        (ArrayStatus.ofLine_eq_error_iff (known line)).mpr herror⟩
  exists_number := by
    intro line hline error herror
    obtain ⟨tooLong, rfl, hread⟩ :=
      ArrayStatus.eq_tooLong_of_readWords herror
    have hsolid : ∀ word ∈ line.details, ∀ s ∈ word, s.isBlank = false := by
      intro word hword
      have hmem : word ∈ text.words :=
        LogicalLine.mem_words_of_mem_ofText (List.mem_filter.mp hline).1
          (List.mem_cons_of_mem _ hword)
      exact (Text.isWord_of_mem_words hmem).solid
    obtain ⟨word, hword, front, hfront, hlong⟩ :=
      ArrayStatus.exists_longRun_of_read_eq_error hread hsolid
    exact ⟨tooLong, rfl, word, List.mem_cons_of_mem _ hword, front, hfront,
      hlong⟩

/-! ## Texts without long numbers -/

/-- A report that is refused has a long number. -/
theorem exists_long_word {order : ArrayOrder} {text : Text}
    {error : Numeral.TooLong}
    (hread : (read order text).outcome = .error error) :
    ∃ word ∈ text.words, ∃ front, LongRun word front error := by
  have hrefused := isRefusedByLine (fun _ => []) order text
  obtain ⟨before, line, behind, hlines, -, hline⟩ :=
    (hrefused.first_iff error).mp hread
  have hmem : line ∈ arrayLines text := by simp [hlines]
  obtain ⟨_, heq, word, hword, front, -, hlong⟩ :=
    hrefused.exists_number line hmem _ hline
  cases heq
  have hlogical := (List.mem_filter.mp hmem).1
  exact ⟨word, LogicalLine.mem_words_of_mem_ofText hlogical hword, front,
    hlong⟩

theorem exists_longRun_of_readFile {order : ArrayOrder}
    {bytes : List UInt8} {error : Numeral.TooLong}
    (hread : (readFile order bytes).outcome = .error error) :
    ∃ front, LongRun (Text.Utf8.decode bytes) front error := by
  obtain ⟨word, hword, front, hlong⟩ := exists_long_word hread
  rw [Text.words_normalizeEndings] at hword
  exact hlong.of_mem_words hword

/-- No number of the text is too long. -/
def IsShort (text : Text) : Prop :=
  ∀ run : DigitRun text, run.digits.length ≤ Numeral.maxDigits

theorem IsShort.not_longRun {text front : Text} (h : IsShort text)
    {error : Numeral.TooLong} : ¬ LongRun text front error := by
  rintro ⟨run, -, hlong, -⟩
  exact absurd (h run) (Nat.not_le.mpr hlong)

/-- Short texts have short numbers. -/
theorem isShort_of_length_le {text : Text}
    (hlength : text.length ≤ Numeral.maxDigits) : IsShort text := by
  intro run
  have hsplit := congrArg List.length run.text_eq
  simp only [List.length_append] at hsplit
  omega

theorem IsShort.exists_read {text : Text} (h : IsShort text)
    (order : ArrayOrder) :
    ∃ arrays, (read order text).outcome = .ok arrays := by
  cases hread : (read order text).outcome with
  | ok arrays => exact ⟨arrays, rfl⟩
  | error error =>
    obtain ⟨word, hword, front, hlong⟩ := exists_long_word hread
    obtain ⟨_, hlong⟩ := hlong.of_mem_words hword
    exact absurd hlong h.not_longRun

theorem IsShort.exists_readFile {bytes : List UInt8}
    (h : IsShort (Text.Utf8.decode bytes)) (order : ArrayOrder) :
    ∃ arrays, (readFile order bytes).outcome = .ok arrays := by
  cases hread : (readFile order bytes).outcome with
  | ok arrays => exact ⟨arrays, rfl⟩
  | error error =>
    obtain ⟨front, hlong⟩ := exists_longRun_of_readFile hread
    exact absurd hlong h.not_longRun

/-- A reading of a file with such a text does not fail. -/
theorem IsShort.exists_session_read {session : Session} {hold : Bool}
    {id : Nat} (hsource : session.source? hold = some id)
    (h : IsShort (Text.Utf8.decode (session.fs.contents id)))
    (order : ArrayOrder) (failingMark : Option Nat) :
    ∃ arrays, (session.read hold order failingMark).2.outcome =
      .ok arrays := by
  have hcase := session.readCase_read hold order failingMark
  generalize (session.read hold order failingMark).1 = after at hcase
  generalize (session.read hold order failingMark).2 = answer at hcase ⊢
  cases hcase with
  | unreadable | unmarked | taken | read => exact ⟨_, rfl⟩
  | refused other error hother hreport =>
    rw [hsource, Option.some.injEq] at hother
    subst hother
    obtain ⟨arrays, harrays⟩ := h.exists_readFile order
    rw [harrays] at hreport
    cases hreport

/-- Whatever is asked about a file with such a text at the path does not
fail. -/
theorem IsShort.exists_result {session : Session} {bytes : List UInt8}
    (hfile : session.fs.current? = some bytes)
    (h : IsShort (Text.Utf8.decode bytes)) {action : Action}
    (hpath : action.readsPath = true) :
    ∃ result, (session.perform action).2.outcome = .ok result := by
  obtain ⟨arrays, harrays⟩ := h.exists_readFile .partsLast
  cases action with
  | read hold order failingMark =>
    cases hold with
    | true => cases hpath
    | false =>
      rw [Session.current?_eq, Option.map_eq_some_iff] at hfile
      obtain ⟨id, hid, rfl⟩ := hfile
      rw [← Session.source?_false] at hid
      obtain ⟨answer, hread⟩ := h.exists_session_read hid order failingMark
      refine ⟨.arrays answer, ?_⟩
      simp only [Session.perform, Noted.map_outcome, hread]
      rfl
  | isKnown name =>
    have hknown := Lookup.arraysOf_outcome_of_readFile harrays
    simp only [Session.perform, hfile, Lookup.isKnown,
      Noted.bind_of_ok hknown]
    exact ⟨_, rfl⟩
  | holderOf disk =>
    simp only [Session.perform, hfile, Lookup.holderOf,
      Lookup.ask_of_readFile harrays, Lookup.takeFirst_eq]
    exact ⟨_, rfl⟩
  | subarrayOf subarray container =>
    simp only [Session.perform, hfile, Lookup.subarrayOf,
      Lookup.ask_of_readFile harrays, Lookup.takeFirst_eq]
    exact ⟨_, rfl⟩
  | _ => cases hpath

/-! ## The words behind the disks -/

/-- How a line is refused for the words behind some others. -/
structure IsRefusedByWord (known line words : List Text) : Prop where
  /-- The error is that of the first word that is refused. -/
  first_iff : ∀ error,
    ArrayStatus.readWords known (line ++ words) = .error (.tooLong error) ↔
      IsFirstRefusal words error
  exists_word_iff :
    (∃ error, ArrayStatus.readWords known (line ++ words) = .error error) ↔
      ∃ earlier word behind error, words = earlier ++ word :: behind ∧
        IsRefused earlier word error

/-- Behind the disks, as long as no progress is known and up to the next
keyword, a line is refused for its words. -/
theorem isRefusedByWord {known : List Text} {name : Text}
    {front words : List Text} {scan : Scan}
    (hfront : Scan.EndsDisks known name front scan)
    (hwords : ∀ word ∈ words, word ∉ ArrayLine.keywords) :
    IsRefusedByWord known (name :: front) words := by
  have hline (error : Numeral.TooLong) :
      ArrayStatus.readWords known (name :: front ++ words) =
          .error (.tooLong error) ↔
        words.foldlM ArrayStatus.noteDetail scan.status = .error error := by
    rw [← ArrayStatus.read_append_eq_error_iff hfront hwords]
    exact ArrayStatus.readWords_words_eq_error_iff known
      ⟨name, front ++ words⟩ error
  constructor
  · intro error
    rw [hline, ArrayStatus.foldlM_noteDetail_eq_error_iff hfront.progress_eq]
  · rw [← ArrayStatus.exists_foldlM_noteDetail_eq_error_iff
      hfront.progress_eq]
    constructor
    · rintro ⟨error, herror⟩
      have hread : ArrayStatus.readWords known
          (LogicalLine.words ⟨name, front ++ words⟩) = .error error := herror
      obtain ⟨tooLong, rfl, -⟩ := ArrayStatus.eq_tooLong_of_readWords hread
      exact ⟨tooLong, (hline tooLong).mp herror⟩
    · rintro ⟨tooLong, herror⟩
      exact ⟨_, (hline tooLong).mpr herror⟩

/-! ## Every refusal -/

/-- When the reading of a text fails, and that of a line behind some arrays. -/
structure RefusalRules (known : List Text) (text : Text) : Prop where
  /-- A text without long numbers is read. -/
  read_of_isShort : IsShort text → ∀ order,
    ∃ arrays, (read order text).outcome = .ok arrays
  /-- A session reads every file with such a text. -/
  session_read_of_isShort : IsShort text →
    ∀ (session : Session) (hold : Bool) (id : Nat),
      session.source? hold = some id →
      Text.Utf8.decode (session.fs.contents id) = text →
        ∀ order failingMark, ∃ arrays,
          (session.read hold order failingMark).2.outcome = .ok arrays
  /-- Whatever is asked about a file with such a text is answered. -/
  perform_of_isShort : IsShort text →
    ∀ (session : Session) (bytes : List UInt8) (action : Action),
      session.fs.current? = some bytes → Text.Utf8.decode bytes = text →
      action.readsPath = true →
        ∃ result, (session.perform action).2.outcome = .ok result
  /-- The anchor of a line is the position of some array. -/
  anchor_lt_length : ∀ name details reading,
    ArrayStatus.read known name details = .ok reading →
      ∀ position ∈ reading.anchor, position < known.length
  /-- The report is refused for the first of its lines that is refused,
  whatever arrays these are read behind. -/
  refused_by_line : ∀ order, ∀ knownAt : LogicalLine → List Text,
    IsRefusedByLine knownAt order text
  /-- A line is refused for the first word that is refused, behind the disks
  and up to the next keyword, if no progress is known before. -/
  refused_by_word : ∀ name front scan words,
    Scan.EndsDisks known name front scan →
      (∀ word ∈ words, word ∉ ArrayLine.keywords) →
        IsRefusedByWord known (name :: front) words

/-- Reports are refused for numbers that are too long, and for nothing else:
every text and every line obeys the rules. -/
theorem text_obeys_refusal_rules (known : List Text) (text : Text) :
    RefusalRules known text where
  read_of_isShort := fun hshort order => hshort.exists_read order
  session_read_of_isShort := by
    rintro hshort session hold id hsource rfl order failingMark
    exact hshort.exists_session_read hsource order failingMark
  perform_of_isShort := by
    rintro hshort session bytes action hfile rfl hpath
    exact hshort.exists_result hfile hpath
  anchor_lt_length := fun _ _ _ => ArrayStatus.anchor_lt_length
  refused_by_line := fun order knownAt => isRefusedByLine knownAt order text
  refused_by_word := fun _ _ _ _ => isRefusedByWord

/-- A number of disks with one digit more than a number may have. -/
def longCount : Text :=
  .char '[' :: List.replicate (Numeral.maxDigits + 1) (.char '0')

/-- A line that is refused. -/
def longLine : LogicalLine :=
  ⟨"md0", [":", "inactive", "1", "blocks", longCount]⟩

/-- The report of that line, with a space between its words. -/
def longReport : Text :=
  LogicalLine.render
    [(⟨fun _ => ⟨.inline _ Text.isBlank_space Text.space_ne_lineFeed, []⟩,
      [], 0⟩, longLine)]

/-- A session with a short report. -/
def shortSession : Session :=
  Session.initial.run [.write [0x6d, 0x64, 0x30]]

theorem longRun_longCount :
    LongRun longCount [.char '['] ⟨Numeral.maxDigits + 1⟩ := by
  refine ⟨⟨[.char '['], List.replicate (Numeral.maxDigits + 1) (.char '0'),
    [], ?_, ?_, by decide, by simp⟩, rfl, ?_, ?_⟩
  · rw [List.append_nil]
    rfl
  · intro s hs
    rw [List.eq_of_mem_replicate hs]
    rfl
  · simp
  · simp

theorem arrayLines_longReport : arrayLines longReport = [longLine] := by
  have hcount : longCount.IsWord := by
    apply Text.isWord_cons (by decide)
    intro s hs
    rw [List.eq_of_mem_replicate hs]
    rfl
  have hwords : ∀ word ∈ longLine.words, word.IsWord := by
    simp only [longLine, LogicalLine.words, List.forall_mem_cons]
    refine ⟨⟨?_, ?_⟩, ⟨?_, ?_⟩, ⟨?_, ?_⟩, ⟨?_, ?_⟩, ⟨?_, ?_⟩, hcount,
      by simp⟩ <;> decide
  unfold arrayLines longReport
  rw [LogicalLine.ofText_render (by simpa using hwords)]
  rfl

theorem longReport_refused :
    (∃ arrays, (read .partsFirst "md0").outcome = .ok arrays) ∧
    (∃ arrays, (shortSession.read true .partsLast none).2.outcome =
      .ok arrays) ∧
    (∃ result, (shortSession.perform (.holderOf "sda")).2.outcome =
      .ok result) ∧
    (∃ reading, ArrayStatus.read ["md0"] "md1" ["inactive", "md0[0]"] =
      .ok reading ∧ 0 ∈ reading.anchor ∧ 0 < ["md0"].length) ∧
    ArrayStatus.readWords [] longLine.words =
      .error (.tooLong ⟨Numeral.maxDigits + 1⟩) ∧
    (read .partsLast longReport).outcome =
      .error ⟨Numeral.maxDigits + 1⟩ ∧
    ∃ word ∈ longLine.words, ∃ front, NumberFront front ∧
      LongRun word front ⟨Numeral.maxDigits + 1⟩ := by
  have hshort : IsShort "md0" := isShort_of_length_le (by decide)
  have hrules := text_obeys_refusal_rules ["md0"] "md0"
  have hlongRules := text_obeys_refusal_rules [] longReport
  have hdecode : Text.Utf8.decode [0x6d, 0x64, 0x30] =
      Text.ofString "md0" := rfl
  have hpart : ArrayStatus.read ["md0"] "md1" ["inactive", "md0[0]"] =
      .ok _ := rfl
  have hdisks : Scan.EndsDisks [] "md0" [":", "inactive", "1", "blocks"]
      { status := { name := "md0", activity := .inactive } } :=
    ⟨⟨[":", "inactive", "1"], _, rfl, rfl, rfl, rfl⟩, rfl, rfl⟩
  have hkeyword : ∀ word ∈ [longCount], word ∉ ArrayLine.keywords := by
    intro word hword
    rw [List.mem_singleton.mp hword]
    exact Text.notMem_keywords (by decide) _
  have hlong : ArrayStatus.readWords [] longLine.words =
      .error (.tooLong ⟨Numeral.maxDigits + 1⟩) :=
    ((hlongRules.refused_by_word _ _ _ [longCount] hdisks hkeyword).first_iff
      _).mpr ⟨[], longCount, [], rfl, .count longRun_longCount, by simp⟩
  have hmem : longLine ∈ arrayLines longReport := by
    simp [arrayLines_longReport]
  have hrefused := hlongRules.refused_by_line .partsLast fun _ => []
  refine ⟨hrules.read_of_isShort hshort _,
    hrules.session_read_of_isShort hshort shortSession true 0 rfl hdecode _ _,
    hrules.perform_of_isShort hshort shortSession _ (.holderOf "sda") rfl
      hdecode rfl,
    ⟨_, hpart, rfl, hrules.anchor_lt_length _ _ _ hpart 0 rfl⟩,
    hlong, ?_, ?_⟩
  · refine (hrefused.first_iff _).mpr ⟨[], longLine, [], ?_, by simp, hlong⟩
    exact arrayLines_longReport
  · obtain ⟨_, heq, word, hword, front, hfront, hrun⟩ :=
      hrefused.exists_number longLine hmem _ hlong
    cases heq
    exact ⟨word, hword, front, hfront, hrun⟩

end Report
end RaidStatus

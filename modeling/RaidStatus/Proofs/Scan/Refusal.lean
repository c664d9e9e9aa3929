import RaidStatus.Proofs.ArrayLine.Reading
import RaidStatus.Proofs.Scan.Detail
import RaidStatus.Proofs.Text.DigitRun

/-!
# Which words are refused

Reading a line fails for one reason only: a word behind the disks has a number
with too many digits.  The number of disks counts whenever it is given, but a
percentage counts only as long as no progress is known.  So whether a long
percentage is refused depends on the words before it, and on nothing about them
but whether one of them sets the progress (`IsRefused`).

Behind the disks, and up to the next keyword, the reading fails exactly if some
word is refused, and the error is that of the first such word
(`ArrayStatus.foldlM_noteDetail_eq_error_iff`).
-/

namespace RaidStatus

/-! ## Words that set the progress -/

/-- The word sets the progress, if none is known yet. -/
inductive SetsProgress (word : Text) : Prop
  | assigned (hbegins : Text.ofString "re" <+: word)
      (hends : Text.ofString "%" <:+ word) (hequals : .char '=' ∈ word)
  | waiting
      (hhead : word.head? = some (.char 'r') ∨ word.head? = some (.char 'c'))
      (hends : Text.ofString "=DELAYED" <:+ word ∨
        Text.ofString "=PENDING" <:+ word ∨ Text.ofString "=REMOTE" <:+ word)
  | percentage (hword : word.IsPercentage)

/-- What stands in front of the percentage in a word that has one. -/
inductive PercentFront (word : Text) : Text → Prop
  | assigned {before lead : Text} (hbegins : Text.ofString "re" <+: word)
      (hends : Text.ofString "%" <:+ word) (hbefore : .char '=' ∉ before)
      (hlead : Numeral.IsLead lead) :
    PercentFront word (before ++ .char '=' :: lead)
  | percentage (hword : word.IsPercentage) : PercentFront word []

/-- A number in the word is refused, behind some words that have been read
while no progress was known before them. -/
inductive IsRefused (earlier : List Text) (word : Text)
    (error : Numeral.TooLong) : Prop
  | count (hlong : LongRun word [.char '['] error)
  | percent (hfirst : ∀ other ∈ earlier, ¬ SetsProgress other) {front : Text}
      (hfront : PercentFront word front) (hlong : LongRun word front error)

theorem setsProgress_iff {word : Text} :
    SetsProgress word ↔
      Detail.assigned? word ≠ none ∨
        Detail.isAnnouncement word = true ∧ Progress.ofWord? word ≠ none ∨
        Detail.isPercentage word = true := by
  rw [Ne, Detail.assigned?_eq_none_iff, not_not, Detail.isAnnouncement_iff,
    Ne, Progress.ofWord?_eq_none_iff, not_not, Detail.isPercentage_iff]
  constructor
  · rintro (⟨hbegins, hends, hequals⟩ | ⟨hhead, hends⟩ | hword)
    · exact Or.inl ⟨hbegins, hends, hequals⟩
    · exact Or.inr (Or.inl ⟨hhead, hends⟩)
    · exact Or.inr (Or.inr hword)
  · rintro (⟨hbegins, hends, hequals⟩ | ⟨hhead, hends⟩ | hword)
    · exact .assigned hbegins hends hequals
    · exact .waiting hhead hends
    · exact .percentage hword

theorem SetsProgress.head_ne {word : Text} (h : SetsProgress word) :
    word.head? ≠ some (.char '[') := by
  intro hbracket
  cases h with
  | assigned hbegins =>
    obtain ⟨rest, rfl⟩ := hbegins
    cases hbracket
  | waiting hhead =>
    rw [hbracket] at hhead
    simp at hhead
  | percentage hword =>
    obtain ⟨digit, hdigit, hisDigit⟩ := hword.exists_digit
    rw [hbracket] at hdigit
    cases hdigit
    cases hisDigit

theorem PercentFront.setsProgress {word front : Text}
    (h : PercentFront word front) {error : Numeral.TooLong}
    (hlong : LongRun word front error) : SetsProgress word := by
  cases h with
  | assigned hbegins hends =>
    obtain ⟨digit, rest, hword, -, -⟩ := hlong.exists_digit
    exact .assigned hbegins hends (by simp [hword])
  | percentage hword => exact .percentage hword

namespace ArrayStatus

variable {status next : ArrayStatus} {word : Text}

/-- The progress becomes known with the first word that sets it. -/
theorem DetailChange.progress_eq_none_iff
    (h : DetailChange status word next) :
    next.progress = none ↔
      status.progress = none ∧ ¬ SetsProgress word := by
  cases h with
  | count number count hnumber =>
    obtain ⟨rfl, -⟩ := Detail.diskCount?_eq_some_iff.mp hnumber
    have hnot : ¬ SetsProgress (.char '[' :: number) :=
      fun hsets => hsets.head_ne rfl
    simp [hnot]
  | health health hnone hhealth =>
    have hhead := Detail.head_eq_of_health? hhealth
    have hnot : ¬ SetsProgress word := fun hsets => hsets.head_ne hhead
    simp [hnot]
  | assigned number done hnone hnumber =>
    have hsets : SetsProgress word :=
      setsProgress_iff.mpr (Or.inl (by simp [hnumber]))
    simp [hsets]
  | announced hnone hassigned hword =>
    simp [setsProgress_iff, hnone, hassigned, hword,
      Detail.isPercentage_eq_false hword]
  | percentage done hnone hword =>
    have hsets : SetsProgress word :=
      setsProgress_iff.mpr (Or.inr (Or.inr hword))
    simp [hsets]
  | ignored hcount hhealth hprogress =>
    by_cases hnone : status.progress = none
    · obtain ⟨hassigned, hannounces, hpercentage⟩ := hprogress hnone
      simp [setsProgress_iff, hnone, hassigned, hannounces, hpercentage]
    · simp [hnone]

/-! ## Which words fail -/

/-- The number of disks is refused exactly if it has too many digits. -/
theorem leading_diskCount?_eq_error_iff {number : Text}
    (hnumber : Detail.diskCount? word = some number)
    {error : Numeral.TooLong} :
    Numeral.leading number = .error error ↔
      LongRun word [.char '['] error := by
  obtain ⟨rfl, digit, rest, rfl, hdigit⟩ :=
    Detail.diskCount?_eq_some_iff.mp hnumber
  rw [Numeral.leading_cons_eq_error_iff hdigit]
  have hrun : LongRun ([.char '['] ++ digit :: rest) ([.char '['] ++ [])
      error ↔ LongRun (digit :: rest) [] error :=
    LongRun.append_iff (by decide)
  exact hrun.symm

/-- An assigned percentage is refused exactly if it has too many digits. -/
theorem leading_assigned?_eq_error_iff {number : Text}
    (hnumber : Detail.assigned? word = some number)
    {error : Numeral.TooLong} :
    Numeral.leading number = .error error ↔
      ∃ front, PercentFront word front ∧ LongRun word front error := by
  obtain ⟨⟨hbegins, hends⟩, before, hword, hbefore⟩ :=
    Detail.assigned?_eq_some_iff.mp hnumber
  have hsplit : word = (before ++ [.char '=']) ++ number := by
    rw [hword, List.append_assoc, List.singleton_append]
  have hequals : ∀ s ∈ (before ++ [Symbol.char '=']).getLast?,
      s.isDigit = false := by
    simp [Symbol.isDigit]
  rw [Numeral.leading_eq_error_iff]
  constructor
  · rintro ⟨lead, hlead, hlong⟩
    refine ⟨_, .assigned hbegins hends hbefore hlead, ?_⟩
    rw [← LongRun.append_iff hequals, ← hsplit, List.append_assoc,
      List.singleton_append] at hlong
    exact hlong
  · rintro ⟨front, hfront, hlong⟩
    cases hfront with
    | @assigned other lead _ _ hother hlead =>
      refine ⟨lead, hlead, ?_⟩
      -- the first sign of equality stands in one place only
      obtain ⟨digit, rest, hrest, -, -⟩ := hlong.exists_digit
      rw [List.append_assoc, List.cons_append] at hrest
      have hsame := (Text.cut?_eq_some_iff.mpr ⟨hrest, hother⟩).symm.trans
        (Text.cut?_eq_some_iff.mpr ⟨hword, hbefore⟩)
      cases hsame
      rw [← LongRun.append_iff hequals, ← hsplit, List.append_assoc,
        List.singleton_append]
      exact hlong
    | percentage hpercentage =>
      obtain ⟨digit, hdigit, hisDigit⟩ := hpercentage.exists_digit
      obtain ⟨rest, rfl⟩ := hbegins
      cases hdigit
      cases hisDigit

/-- A word without an assigned percentage has none but itself. -/
theorem exists_percentFront_iff (hnone : Detail.assigned? word = none)
    {error : Numeral.TooLong} :
    (∃ front, PercentFront word front ∧ LongRun word front error) ↔
      Detail.isPercentage word = true ∧ LongRun word [] error := by
  rw [Detail.assigned?_eq_none_iff] at hnone
  rw [Detail.isPercentage_iff]
  constructor
  · rintro ⟨front, hfront, hlong⟩
    cases hfront with
    | assigned hbegins hends =>
      obtain ⟨digit, rest, hword, -, -⟩ := hlong.exists_digit
      exact absurd ⟨hbegins, hends, by simp [hword]⟩ hnone
    | percentage hpercentage => exact ⟨hpercentage, hlong⟩
  · rintro ⟨hpercentage, hlong⟩
    exact ⟨[], .percentage hpercentage, hlong⟩

theorem noteProgress_eq_error_iff {error : Numeral.TooLong} :
    status.noteProgress word = .error error ↔
      ∃ front, PercentFront word front ∧ LongRun word front error := by
  unfold noteProgress
  split
  · next number hnumber =>
    rw [bind_eq_error_iff, leading_assigned?_eq_error_iff hnumber]
    simp [pure, Except.pure]
  · next hnone =>
    rw [exists_percentFront_iff hnone]
    split_ifs with hannounces hpercentage
    · simp [Detail.isPercentage_eq_false hannounces, pure, Except.pure]
    · obtain ⟨digit, hhead, hdigit⟩ :=
        (Detail.isPercentage_iff.mp hpercentage).exists_digit
      obtain ⟨rest, rfl⟩ := List.head?_eq_some_iff.mp hhead
      rw [bind_eq_error_iff, Numeral.leading_cons_eq_error_iff hdigit]
      simp [hpercentage, pure, Except.pure]
    · simp [hpercentage, pure, Except.pure]

/-- A long number stands behind a bracket, or is a percentage while no progress
is known. -/
theorem noteDetail_eq_error_iff {error : Numeral.TooLong} :
    status.noteDetail word = .error error ↔
      LongRun word [.char '['] error ∨
        status.progress = none ∧
          ∃ front, PercentFront word front ∧ LongRun word front error := by
  have hbracket (hhead : word.head? = some (.char '[')) :
      ¬ ∃ front, PercentFront word front ∧ LongRun word front error := by
    rintro ⟨front, hfront, hlong⟩
    exact (hfront.setsProgress hlong).head_ne hhead
  unfold noteDetail
  split
  · next number hnumber =>
    obtain ⟨hword, -⟩ := Detail.diskCount?_eq_some_iff.mp hnumber
    rw [bind_eq_error_iff, leading_diskCount?_eq_error_iff hnumber]
    simp [hbracket (by rw [hword]; rfl), pure, Except.pure]
  · next hnone =>
    have hcount : ¬ LongRun word [.char '['] error := by
      intro hlong
      obtain ⟨digit, rest, hword, hdigit, -⟩ := hlong.exists_digit
      have hnumber := Detail.diskCount?_eq_some_iff.mpr
        ⟨hword, digit, rest, rfl, hdigit⟩
      rw [hnone] at hnumber
      cases hnumber
    split
    · next health _ hhealth =>
      have hhead := Detail.head_eq_of_health? hhealth
      simp [hcount, hbracket hhead, pure, Except.pure]
    · by_cases hprogress : status.progress = none
      · simp [hprogress, hcount, noteProgress_eq_error_iff]
      · simp [hprogress, hcount, pure, Except.pure]

/-! ## Words behind the disks -/

/-- The progress is unknown as long as no word sets it. -/
theorem foldlM_noteDetail_progress {words : List Text}
    (hread : words.foldlM noteDetail status = .ok next) :
    next.progress = none ↔
      status.progress = none ∧ ∀ word ∈ words, ¬ SetsProgress word := by
  induction words generalizing status with
  | nil =>
    cases hread
    simp
  | cons word words ih =>
    rw [List.foldlM_cons] at hread
    obtain ⟨noted, hnote, hrest⟩ := bind_eq_ok_iff.mp hread
    rw [ih hrest, (detailChange_of_noteDetail hnote).progress_eq_none_iff,
      List.forall_mem_cons, and_assoc]

/-- A word behind others is refused, or read. -/
theorem noteDetail_eq_error_iff_isRefused {earlier : List Text}
    (hnone : status.progress = none)
    (hread : earlier.foldlM noteDetail status = .ok next)
    {error : Numeral.TooLong} :
    next.noteDetail word = .error error ↔ IsRefused earlier word error := by
  rw [noteDetail_eq_error_iff, foldlM_noteDetail_progress hread]
  constructor
  · rintro (hlong | ⟨⟨-, hfirst⟩, front, hfront, hlong⟩)
    · exact .count hlong
    · exact .percent hfirst hfront hlong
  · rintro (hlong | ⟨hfirst, hfront, hlong⟩)
    · exact Or.inl hlong
    · exact Or.inr ⟨⟨hnone, hfirst⟩, _, hfront, hlong⟩

/-- The words cannot all be read exactly if one of them is refused. -/
theorem exists_foldlM_noteDetail_eq_error_iff
    (hnone : status.progress = none) {words : List Text} :
    (∃ error, words.foldlM noteDetail status = .error error) ↔
      ∃ front word back error, words = front ++ word :: back ∧
        IsRefused front word error := by
  constructor
  · rintro ⟨error, herror⟩
    obtain ⟨front, word, back, last, rfl, hfront, hword⟩ :=
      foldlM_eq_error_iff.mp herror
    exact ⟨front, word, back, error, rfl,
      (noteDetail_eq_error_iff_isRefused hnone hfront).mp hword⟩
  · rintro ⟨front, word, back, error, rfl, hrefused⟩
    cases hfront : front.foldlM noteDetail status with
    | error other =>
      refine ⟨other, ?_⟩
      rw [List.foldlM_append, hfront]
      rfl
    | ok last =>
      exact ⟨error, foldlM_eq_error_iff.mpr ⟨front, word, back, last, rfl,
        hfront, (noteDetail_eq_error_iff_isRefused hnone hfront).mpr
          hrefused⟩⟩

end ArrayStatus

/-- The error is that of the first word that is refused. -/
def IsFirstRefusal (words : List Text) (error : Numeral.TooLong) : Prop :=
  ∃ front word back, words = front ++ word :: back ∧
    IsRefused front word error ∧
    ∀ earlier other between, front = earlier ++ other :: between →
      ∀ otherError, ¬ IsRefused earlier other otherError

namespace ArrayStatus

theorem foldlM_noteDetail_eq_error_iff {status : ArrayStatus}
    (hnone : status.progress = none) {words : List Text}
    {error : Numeral.TooLong} :
    words.foldlM noteDetail status = .error error ↔
      IsFirstRefusal words error := by
  rw [foldlM_eq_error_iff]
  constructor
  · rintro ⟨front, word, back, last, rfl, hfront, hword⟩
    refine ⟨front, word, back, rfl,
      (noteDetail_eq_error_iff_isRefused hnone hfront).mp hword, ?_⟩
    intro earlier other between hsplit otherError hrefused
    obtain ⟨error, herror⟩ :=
      (exists_foldlM_noteDetail_eq_error_iff hnone).mpr
        ⟨earlier, other, between, otherError, hsplit, hrefused⟩
    rw [hfront] at herror
    cases herror
  · rintro ⟨front, word, back, rfl, hrefused, hearlier⟩
    cases hfront : front.foldlM noteDetail status with
    | error other =>
      obtain ⟨earlier, word, between, otherError, hsplit, hother⟩ :=
        (exists_foldlM_noteDetail_eq_error_iff hnone).mp ⟨other, hfront⟩
      exact absurd hother (hearlier _ _ _ hsplit _)
    | ok last =>
      exact ⟨front, word, back, last, rfl, hfront,
        (noteDetail_eq_error_iff_isRefused hnone hfront).mpr hrefused⟩

end ArrayStatus

namespace Scan

/-- Behind the disks, words that are no keywords are read one by one. -/
theorem run_details {status : ArrayStatus}
    (hlevel : status.awaitsLevel = false) {words : List Text}
    (hwords : ∀ word ∈ words, word ∉ ArrayLine.keywords)
    (known : List Text) (anchor : Option Nat) :
    run known ⟨status, anchor, .details⟩ words =
      (words.foldlM ArrayStatus.noteDetail status).map fun noted =>
        ⟨noted, anchor, .details⟩ := by
  induction words generalizing status with
  | nil => rfl
  | cons word words ih =>
    rw [List.forall_mem_cons] at hwords
    rw [run_cons, step_details (Or.inl hlevel) hwords.1, List.foldlM_cons]
    cases hnote : status.noteDetail word with
    | error e => rfl
    | ok noted =>
      have hnoted : noted.awaitsLevel = false := by
        obtain ⟨health, count, operation, progress, rfl⟩ :=
          ArrayStatus.noteDetail_frame hnote
        exact hlevel
      exact ih hnoted hwords.2

/-- The last of the words behind the name is the size.  It ends the disks,
since no level is awaited any more. -/
def ClosesDisks (known : List Text) (name : Text) (front : List Text) :
    Prop :=
  ∃ earlier disks, front = earlier ++ [Text.ofString "blocks"] ∧
    run known { status := { name := name } } earlier = .ok disks ∧
    disks.reached = .members ∧ disks.status.awaitsLevel = false

/-- The words behind the name, up to the size that ends the disks.  They are
read to this state, and nothing is known of the progress there. -/
structure EndsDisks (known : List Text) (name : Text) (front : List Text)
    (scan : Scan) : Prop where
  closes : ClosesDisks known name front
  run_eq : run known { status := { name := name } } front = .ok scan
  progress_eq : scan.status.progress = none

section Disks

variable {known : List Text} {name : Text} {front words : List Text}
  {scan : Scan}

/-- The details come behind the disks. -/
theorem ClosesDisks.exists_run (h : ClosesDisks known name front) :
    ∃ status anchor, status.awaitsLevel = false ∧
      run known { status := { name := name } } front =
        .ok ⟨status, anchor, .details⟩ := by
  obtain ⟨earlier, disks, rfl, hearlier, hmembers, hlevel⟩ := h
  have hkeyword : Text.ofString "blocks" ≠ "active" ∧
      Text.ofString "blocks" ≠ "inactive" ∧
      Text.ofString "blocks" ≠ "bitmap:" := by decide
  have hblocks : step known disks (Text.ofString "blocks") =
      .ok ⟨disks.status, disks.anchor, .details⟩ := by
    simp [step, hmembers, hkeyword, hlevel, pure, Except.pure]
  refine ⟨disks.status, disks.anchor, hlevel, ?_⟩
  rw [run_append_of_ok hearlier, run_cons_of_ok hblocks, run_nil]

/-- Behind the disks, the details are read word by word. -/
theorem EndsDisks.run_append (h : EndsDisks known name front scan)
    (hwords : ∀ word ∈ words, word ∉ ArrayLine.keywords) :
    run known { status := { name := name } } (front ++ words) =
      (words.foldlM ArrayStatus.noteDetail scan.status).map fun noted =>
        ⟨noted, scan.anchor, .details⟩ := by
  obtain ⟨status, anchor, hlevel, hrun⟩ := h.closes.exists_run
  obtain rfl : ⟨status, anchor, .details⟩ = scan :=
    Except.ok.inj (hrun.symm.trans h.run_eq)
  rw [run_append_of_ok hrun, run_details hlevel hwords]

end Disks

/-- A step fails only if a detail does. -/
theorem noteDetail_of_step_eq_error {known : List Text} {scan : Scan}
    {word : Text} {error : Numeral.TooLong}
    (hstep : step known scan word = .error error) :
    scan.status.noteDetail word = .error error := by
  obtain ⟨status, anchor, reached⟩ := scan
  cases reached with
  | closed | version => cases hstep
  | members =>
    simp only [step, reduceIte] at hstep
    split_ifs at hstep <;> cases hstep
  | details =>
    simp only [step, reduceCtorEq, reduceIte] at hstep
    split_ifs at hstep
    · cases hstep
    · cases hstep
    · cases hstep
    · cases hstep
    · cases hstep
    · simpa [bind_eq_error_iff, pure, Except.pure] using hstep

end Scan

/-! ## Lines -/

/-- What stands in front of a number in a word. -/
inductive NumberFront : Text → Prop
  | head : NumberFront []
  | bracket : NumberFront [.char '[']
  | assigned {before sign : Text} (hbefore : .char '=' ∉ before)
      (hsign : sign ∈ Numeral.signs) :
    NumberFront (before ++ .char '=' :: sign)

/-- In a word without blanks, a percentage stands at the front, or behind the
first sign of equality and a sign. -/
theorem PercentFront.numberFront {word front : Text}
    (h : PercentFront word front) (hsolid : ∀ s ∈ word, s.isBlank = false)
    {error : Numeral.TooLong} (hlong : LongRun word front error) :
    NumberFront front := by
  cases h with
  | assigned _ _ hbefore hlead =>
    obtain ⟨blanks, sign, hsign, rfl, hblanks⟩ := hlead
    have hnil : blanks = [] := by
      rw [List.eq_nil_iff_forall_not_mem]
      intro s hs
      obtain ⟨digit, rest, hword, -, -⟩ := hlong.exists_digit
      have hblank := hsolid s (by rw [hword]; simp [hs])
      rw [hblanks s hs] at hblank
      cases hblank
    rw [hnil]
    exact .assigned hbefore hsign
  | percentage => exact .head

namespace ArrayStatus

variable {known : List Text} {name : Text} {details : List Text}
  {error : Numeral.TooLong}

theorem read_eq_error_iff :
    read known name details = .error error ↔
      Scan.run known { status := { name := name } } details =
        .error error := by
  unfold read
  simp [bind_eq_error_iff, pure, Except.pure]

/-- A line is refused for a number in one of its words. -/
theorem exists_longRun_of_read_eq_error
    (hread : read known name details = .error error)
    (hsolid : ∀ word ∈ details, ∀ s ∈ word, s.isBlank = false) :
    ∃ word ∈ details, ∃ front, NumberFront front ∧
      LongRun word front error := by
  rw [read_eq_error_iff] at hread
  obtain ⟨earlier, word, behind, last, rfl, -, hstep⟩ :=
    foldlM_eq_error_iff.mp hread
  have hword : word ∈ earlier ++ word :: behind := by simp
  refine ⟨word, hword, ?_⟩
  rcases noteDetail_eq_error_iff.mp (Scan.noteDetail_of_step_eq_error hstep)
    with hlong | ⟨-, front, hfront, hlong⟩
  · exact ⟨_, .bracket, hlong⟩
  · exact ⟨front, hfront.numberFront (hsolid word hword) hlong, hlong⟩

/-- Behind the size of an array of which no progress is known, the words up to
the next keyword decide whether the line is refused. -/
theorem read_append_eq_error_iff {front words : List Text} {scan : Scan}
    (hfront : Scan.EndsDisks known name front scan)
    (hwords : ∀ word ∈ words, word ∉ ArrayLine.keywords) :
    read known name (front ++ words) = .error error ↔
      words.foldlM noteDetail scan.status = .error error := by
  rw [read_eq_error_iff, hfront.run_append hwords, map_eq_error_iff]

theorem read_append_of_foldlM {front words : List Text} {scan : Scan}
    {noted : ArrayStatus} (hfront : Scan.EndsDisks known name front scan)
    (hwords : ∀ word ∈ words, word ∉ ArrayLine.keywords)
    (hread : words.foldlM noteDetail scan.status = .ok noted) :
    read known name (front ++ words) = .ok ⟨noted, scan.anchor⟩ := by
  rw [read, hfront.run_append hwords, hread]
  rfl

end ArrayStatus
end RaidStatus

import RaidStatus.Proofs.ArrayLine.Details
import RaidStatus.Proofs.Scan.ClosedForm
import RaidStatus.Proofs.Scan.Unknown

/-!
# The spellings of a running operation

An operation and its percentage may be put down in three words, in two, or in
one (`Spelling`).  Behind the disks of an array of which no progress is known,
each of them names the operation, and they say the same about the array in
everything but the progress (`ArrayStatus.read_spelling`).

The percentage is taken from a word of its own, or from a word that assigns it
and begins with `re`.  So the three words give it, the two words do not, and
the one word gives it for every operation but a check.
-/

namespace RaidStatus

/-- How the sign of equality stands between an operation and its percentage. -/
inductive Spelling where
  /-- As a word of its own. -/
  | spaced
  /-- In front of the percentage. -/
  | attached
  /-- Without blanks. -/
  | joined

namespace Spelling

open ArrayLine

def words (operation : Operation) (percentage : Percentage) :
    Spelling → List Text
  | spaced => [operation.keyword, Text.ofString "=", percentage.word]
  | attached => [operation.keyword, .char '=' :: percentage.word]
  | joined => [operation.keyword ++ .char '=' :: percentage.word]

end Spelling

/-! ## The words -/

namespace ArrayLine

theorem Percentage.isDigit_of_mem_none :
    ∀ digits ∈ (none : Option Text), ∀ s ∈ digits, s.isDigit = true := by
  simp

/-- The percentage of a whole number. -/
def Percentage.ofNat (n : Nat) : Percentage where
  whole := n
  fraction := none
  isDigit_fraction := isDigit_of_mem_none

/-- A percentage with a sign of equality in front of it is no percentage. -/
theorem Percentage.equals_isUnknown (percentage : Percentage) :
    Text.IsUnknown (.char '=' :: percentage.word) where
  bracket_notMem := by
    have hword : Symbol.char '[' ∉ percentage.word :=
      percentage.notMem_word rfl ⟨by decide, by decide⟩
    simp [hword]
  notMem_keywords := by
    have hheads : ∀ keyword ∈ Scan.keywords,
        keyword.head? ≠ some (.char '=') := by decide
    exact fun hmem => hheads _ hmem rfl
  operation := Text.not_keyword_prefix (by decide) _
  progress := by
    rintro (⟨⟨more, heq⟩, -, -⟩ | ⟨hhead, -⟩ | hword)
    · cases heq
    · simp at hhead
    · obtain ⟨digit, hdigit, hisDigit⟩ := hword.exists_digit
      cases hdigit
      cases hisDigit

/-- A check is announced, but its percentage is not taken. -/
theorem Announcement.noteProgress_joined_check (percentage : Percentage)
    (status : ArrayStatus) :
    status.noteProgress
        (Operation.check.keyword ++ .char '=' :: percentage.word) =
      .ok { status with operation := some .check, progress := none } := by
  have hassigned : Detail.assigned?
      (Operation.check.keyword ++ .char '=' :: percentage.word) = none := by
    unfold Detail.assigned?
    rw [if_neg]
    rintro ⟨⟨more, heq⟩, -⟩
    cases heq
  unfold ArrayStatus.noteProgress
  rw [hassigned, ofWord?_keyword_append,
    Progress.ofWord?_eq_none_of_suffix (percentage.suffix_assigned _)]
  rfl

end ArrayLine

/-! ## The spellings -/

namespace ArrayStatus

open ArrayLine

variable {status : ArrayStatus} {operation : Operation}
  {percentage : Percentage}

theorem foldlM_cons_of_ok {next : ArrayStatus} {word : Text}
    (hword : status.noteDetail word = .ok next) (words : List Text) :
    (word :: words).foldlM noteDetail status =
      words.foldlM noteDetail next := by
  rw [List.foldlM_cons, hword]
  rfl

/-- The operation is announced, and the percentage is that of the operation. -/
theorem foldlM_spaced (hprogress : status.progress = none)
    (hdigits : (Numeral.ofNat percentage.whole).length ≤ Numeral.maxDigits) :
    (Spelling.spaced.words operation percentage).foldlM noteDetail status =
      .ok { status with
        operation := some operation
        progress := some (.percent percentage.whole) } := by
  have hpercentage :
      ({ status with operation := some operation } : ArrayStatus).noteDetail
        percentage.word =
      .ok { status with
        operation := some operation
        progress := some (.percent percentage.whole) } := by
    rw [← Numeral.orRefuse_of_le hdigits]
    exact percentage.noteDetail_word hprogress rfl
  rw [Spelling.words,
    foldlM_cons_of_ok (Announcement.noteDetail_operation operation hprogress),
    foldlM_cons_of_ok (equals_isRemark.noteDetail_eq _),
    foldlM_cons_of_ok hpercentage]
  rfl

/-- The operation is announced, and the other word is unknown. -/
theorem foldlM_attached (hprogress : status.progress = none) :
    (Spelling.attached.words operation percentage).foldlM noteDetail status =
      .ok { status with operation := some operation } := by
  rw [Spelling.words,
    foldlM_cons_of_ok (Announcement.noteDetail_operation operation hprogress),
    foldlM_cons_of_ok (percentage.equals_isUnknown.noteDetail_eq _)]
  rfl

theorem foldlM_joined (hprogress : status.progress = none)
    (hdigits : (Numeral.ofNat percentage.whole).length ≤ Numeral.maxDigits) :
    (Spelling.joined.words operation percentage).foldlM noteDetail status =
      .ok { status with
        operation := some operation
        progress := if operation = .check then none
          else some (.percent percentage.whole) } := by
  have hword : status.noteDetail
      (operation.keyword ++ .char '=' :: percentage.word) =
      .ok { status with
        operation := some operation
        progress := if operation = .check then none
          else some (.percent percentage.whole) } := by
    rw [Announcement.noteDetail_keyword operation _ hprogress]
    by_cases hcheck : operation = .check
    · rw [if_pos hcheck, hcheck]
      exact Announcement.noteProgress_joined_check percentage status
    · rw [if_neg hcheck,
        Announcement.noteProgress_joined hcheck percentage status,
        Numeral.orRefuse_of_le hdigits]
  rw [Spelling.words, foldlM_cons_of_ok hword]
  rfl

/-- No word of a spelling is a keyword. -/
theorem notMem_keywords_of_mem_words {spelling : Spelling} {word : Text}
    (hword : word ∈ spelling.words operation percentage) :
    word ∉ keywords := by
  have hkeyword := Announcement.notMem_keywords operation []
  rw [List.append_nil] at hkeyword
  cases spelling with
  | spaced =>
    simp only [Spelling.words, List.mem_cons, List.not_mem_nil, or_false]
      at hword
    rcases hword with rfl | rfl | rfl
    · exact hkeyword
    · exact equals_isRemark.keyword
    · exact percentage.notMem_keywords
  | attached =>
    simp only [Spelling.words, List.mem_cons, List.not_mem_nil, or_false]
      at hword
    rcases hword with rfl | rfl
    · exact hkeyword
    · exact Text.notMem_keywords (by decide) _
  | joined =>
    rw [List.mem_singleton.mp hword]
    exact Announcement.notMem_keywords operation _

/-- All spellings name the operation, and change nothing else about the array
but the progress.  The percentage is known from the spaced spelling of every
operation and from the joined one of every operation but a check.  It is not
known from the attached spelling. -/
theorem read_spelling {known : List Text} {name : Text} {front : List Text}
    {scan : Scan} (hfront : Scan.EndsDisks known name front scan)
    (operation : Operation) (percentage : Percentage)
    (hdigits : (Numeral.ofNat percentage.whole).length ≤ Numeral.maxDigits)
    (spelling : Spelling) :
    ∃ progress,
      read known name (front ++ spelling.words operation percentage) =
        .ok ⟨{ scan.status with
          operation := some operation
          progress := progress }, scan.anchor⟩ ∧
      (spelling = .spaced →
        progress = some (.percent percentage.whole)) ∧
      (spelling = .attached → progress = none) ∧
      (spelling = .joined →
        progress = if operation = .check then none
          else some (.percent percentage.whole)) := by
  have hwords : ∀ word ∈ spelling.words operation percentage,
      word ∉ keywords := fun _ => notMem_keywords_of_mem_words
  have hprogress := hfront.progress_eq
  cases spelling with
  | spaced =>
    exact ⟨_, read_append_of_foldlM hfront hwords
      (foldlM_spaced hprogress hdigits), fun _ => rfl, by simp, by simp⟩
  | attached =>
    exact ⟨_, read_append_of_foldlM hfront hwords (foldlM_attached hprogress),
      by simp, fun _ => hprogress, by simp⟩
  | joined =>
    exact ⟨_, read_append_of_foldlM hfront hwords
      (foldlM_joined hprogress hdigits), by simp, by simp, fun _ => rfl⟩

/-- The words up to the size of the array, read. -/
def sizedScan : Scan where
  status :=
    { name := "md0", activity := .active, level := some "raid1",
      members := ["sdb", "sda"] }

theorem sizedWords_endsDisks :
    Scan.EndsDisks [] "md0" sizedWords sizedScan where
  closes := sizedWords_closesDisks
  run_eq := rfl
  progress_eq := rfl

/-- The joined spelling of a reshape gives the percentage. -/
theorem joinedReshape_read :
    Scan.EndsDisks [] "md0" sizedWords sizedScan ∧
    (Numeral.ofNat 5).length ≤ Numeral.maxDigits ∧
    read [] "md0" (sizedWords ++ (["reshape=5%"] : List Text)) =
      .ok ⟨{ sizedScan.status with
        operation := some .reshape
        progress := some (.percent 5) }, none⟩ := by
  have hdigits : (Numeral.ofNat 5).length ≤ Numeral.maxDigits := by decide
  obtain ⟨progress, hread, -, -, hjoined⟩ := read_spelling sizedWords_endsDisks
    .reshape (Percentage.ofNat 5) hdigits .joined
  rw [hjoined rfl] at hread
  exact ⟨sizedWords_endsDisks, hdigits, hread⟩

/-- The spellings do not all agree: the joined spelling of a check is not read
like the spaced one, and neither is the attached one of a resynchronization. -/
theorem joined_ne_spaced_check :
    Scan.EndsDisks [] "md0" sizedWords sizedScan ∧
    (Numeral.ofNat 5).length ≤ Numeral.maxDigits ∧
    read [] "md0" (sizedWords ++ (["check=5%"] : List Text)) ≠
      read [] "md0" (sizedWords ++ (["check", "=", "5%"] : List Text)) ∧
    read [] "md0" (sizedWords ++ (["resync", "=5%"] : List Text)) ≠
      read [] "md0" (sizedWords ++ (["resync", "=", "5%"] : List Text)) :=
  ⟨sizedWords_endsDisks, by decide, by decide, by decide⟩

end ArrayStatus
end RaidStatus

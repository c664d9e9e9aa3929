import RaidStatus.Proofs.ArrayLine.Reading

/-!
# Reading the details of an array line

Behind the disks of an array line stand its version, the numbers and the
health of its disks, and the background operation.  Each of these is read by
itself, and a number with too many digits ends the reading with its refusal.
-/

namespace RaidStatus

namespace ArrayLine

/-- A detail that is left out sets nothing. -/
theorem run_nil_of_eq {status next : ArrayStatus} (hsame : next = status) :
    Scan.run [] { status := status } [] = .ok { status := next } := by
  rw [hsame]
  rfl

theorem run_version (line : ArrayLine) {status : ArrayStatus}
    (hlevel : status.awaitsLevel = false) (hversion : status.version = none) :
    Scan.run [] { status := status } line.versionWords =
      .ok
        { status :=
            { status with version := line.version.map Word.text } } := by
  unfold versionWords
  cases line.version with
  | none =>
    have hsame : { status with version := none } = status := by
      rw [← hversion]
    exact run_nil_of_eq hsame
  | some version =>
    dsimp only
    rw [Scan.run_cons_of_ok (Scan.step_super hlevel [] none),
      Scan.run_cons_of_ok (Scan.step_version [] status none version.text)]
    rfl

theorem run_counts (counts : Option Counts) {status : ArrayStatus}
    (hlevel : status.awaitsLevel = false) (hcount : status.diskCount = 0) :
    Scan.run [] { status := status } (counts.map Counts.word).toList =
      Numeral.orRefuse
        (counts.bind fun counts => Numeral.refusal? counts.total)
        { status :=
            { status with
              diskCount := ((counts.map Counts.total).getD 0 : Nat) } } := by
  cases counts with
  | none =>
    have hsame : { status with diskCount := 0 } = status := by rw [← hcount]
    exact run_nil_of_eq hsame
  | some counts =>
    have hkeyword : counts.word ∉ keywords :=
      Text.notMem_keywords (by decide) _
    have hdisks : Detail.diskCount? counts.word =
        some (Numeral.ofNat counts.total ++
          .char '/' :: (Numeral.ofNat counts.working ++ [.char ']'])) := by
      obtain ⟨digit, rest, htotal, hdigit⟩ :=
        Numeral.exists_ofNat_eq_cons counts.total
      rw [Counts.word, htotal]
      simp [Detail.diskCount?, hdigit]
    have hnumber : Numeral.leading (Numeral.ofNat counts.total ++
        .char '/' :: (Numeral.ofNat counts.working ++ [.char ']'])) =
          Numeral.orRefuse (Numeral.refusal? counts.total)
            (counts.total : Int) := by
      apply Numeral.leading_ofNat_append
      intro s hs
      cases hs
      rfl
    rw [Option.map_some, Option.toList_some, Option.bind_some, Scan.run_cons,
      Scan.step_details (Or.inl hlevel) hkeyword]
    unfold ArrayStatus.noteDetail
    rw [hdisks]
    dsimp only
    rw [hnumber]
    cases Numeral.refusal? counts.total <;> rfl

theorem run_health (health : Option Health) {status : ArrayStatus}
    (hlevel : status.awaitsLevel = false) (hhealth : status.health = none) :
    Scan.run [] { status := status } (health.map Health.word).toList =
      .ok
        { status := { status with health := health.map Health.text } } := by
  cases health with
  | none =>
    have hsame : { status with health := none } = status := by
      rw [← hhealth]
    exact run_nil_of_eq hsame
  | some health =>
    have hkeyword : health.word ∉ keywords :=
      Text.notMem_keywords (by decide) _
    have hdisks : Detail.diskCount? health.word = none := by
      rw [Health.word, Health.text]
      cases health.first <;> rfl
    have hread : Detail.health? health.word = some health.text := by
      have hfirst : health.first.symbol = .char 'U' ∨
          health.first.symbol = .char '_' := by
        cases health.first <;> decide
      have hlast : (health.text ++ [Symbol.char ']']).getLast? =
          some (.char ']') :=
        List.getLast?_concat
      change (if health.first.symbol = .char 'U' ∨
          health.first.symbol = .char '_' then
        some (if (health.text ++ [Symbol.char ']']).getLast? =
            some (.char ']')
          then (health.text ++ [Symbol.char ']']).dropLast
          else health.text ++ [Symbol.char ']'])
        else none) = some health.text
      rw [if_pos hfirst, if_pos hlast, List.dropLast_concat]
    rw [Option.map_some, Option.toList_some, Scan.run_cons,
      Scan.step_details (Or.inl hlevel) hkeyword]
    unfold ArrayStatus.noteDetail
    rw [hdisks, hhealth, hread]
    rfl

theorem run_bar (bar : Option Bar) {status : ArrayStatus}
    (hlevel : status.awaitsLevel = false) :
    Scan.run [] { status := status } (bar.map Bar.word).toList =
      .ok { status := status } := by
  apply run_remarks (Or.inl hlevel)
  intro word hword
  obtain ⟨bar, -, rfl⟩ := Option.map_eq_some_iff.mp
    (Option.mem_toList.mp hword)
  exact bar.isRemark

/-! ## The background operation -/

namespace Percentage

variable (percentage : Percentage)

theorem exists_word_eq_cons :
    ∃ digit rest, percentage.word = digit :: rest ∧
      digit.isDigit = true := by
  obtain ⟨digit, rest, hwhole, hdigit⟩ :=
    Numeral.exists_ofNat_eq_cons percentage.whole
  refine ⟨digit, rest ++ (percentage.decimals ++ [.char '%']), ?_, hdigit⟩
  rw [word, hwhole, List.cons_append]

theorem mem_word {s : Symbol} (hs : s ∈ percentage.word) :
    s.isDigit = true ∨ s = .char '.' ∨ s = .char '%' := by
  rw [word, List.mem_append, List.mem_append, List.mem_singleton] at hs
  rcases hs with hs | hs | hs
  · exact Or.inl (Numeral.isDigit_of_mem_ofNat hs)
  · unfold decimals at hs
    split at hs
    · cases hs
    · next digits hdigits =>
      rcases List.mem_cons.mp hs with hs | hs
      · exact Or.inr (Or.inl hs)
      · exact Or.inl (percentage.isDigit_fraction digits hdigits s hs)
  · exact Or.inr (Or.inr hs)

theorem notMem_word {s : Symbol} (hdigit : s.isDigit = false)
    (hs : s ≠ .char '.' ∧ s ≠ .char '%') : s ∉ percentage.word := by
  intro hmem
  rcases percentage.mem_word hmem with hmem | hmem | hmem
  · rw [hdigit] at hmem
    cases hmem
  · exact hs.1 hmem
  · exact hs.2 hmem

theorem leading_word :
    Numeral.leading percentage.word =
      Numeral.orRefuse (Numeral.refusal? percentage.whole)
        (percentage.whole : Int) := by
  apply Numeral.leading_ofNat_append
  intro s hs
  unfold decimals at hs
  split at hs <;> cases hs <;> rfl

theorem suffix_word : Text.ofString "%" <:+ percentage.word := by
  rw [word, ← List.append_assoc]
  exact List.suffix_append _ _

/-- A word that assigns a percentage ends like one. -/
theorem suffix_assigned (front : Text) :
    Text.ofString "%" <:+ front ++ .char '=' :: percentage.word :=
  (percentage.suffix_word.trans (List.suffix_cons ..)).trans
    (List.suffix_append ..)

theorem isPercentage_word : Detail.isPercentage percentage.word = true := by
  have hlast : percentage.word.getLast? = some (.char '%') := by
    rw [word, ← List.append_assoc]
    exact List.getLast?_concat
  have hline : Symbol.char '\n' ∉ percentage.word :=
    percentage.notMem_word rfl ⟨by decide, by decide⟩
  obtain ⟨digit, rest, hword, hdigit⟩ := percentage.exists_word_eq_cons
  have hhead : percentage.word.head?.any Symbol.isDigit = true := by
    rw [hword]
    exact hdigit
  simp only [Detail.isPercentage, hhead, hlast, List.contains_eq_mem, hline,
    decide_true, decide_false, Bool.not_false, Bool.and_self]

/-- A percentage by itself is that of the operation that has been
announced. -/
theorem noteDetail_word {status : ArrayStatus} {operation : Operation}
    (hprogress : status.progress = none)
    (hoperation : status.operation = some operation) :
    status.noteDetail percentage.word =
      Numeral.orRefuse (Numeral.refusal? percentage.whole)
        { status with progress := some (.percent percentage.whole) } := by
  have hpercentage := percentage.isPercentage_word
  have hleading := percentage.leading_word
  obtain ⟨digit, rest, hword, hdigit⟩ := percentage.exists_word_eq_cons
  have hr : digit ≠ .char 'r' := Symbol.ne_of_isDigit hdigit rfl
  have hc : digit ≠ .char 'c' := Symbol.ne_of_isDigit hdigit rfl
  have hassigned : Detail.assigned? percentage.word = none := by
    unfold Detail.assigned?
    rw [if_neg]
    rintro ⟨⟨more, heq⟩, -⟩
    rw [hword] at heq
    cases heq
    cases hdigit
  have hannouncement : Detail.isAnnouncement percentage.word = false := by
    rw [hword]
    simp [Detail.isAnnouncement, hr, hc]
  have hhead : percentage.word.head? ≠ some (.char '[') := by
    rw [hword]
    rintro ⟨⟩
    cases hdigit
  rw [ArrayStatus.noteDetail_of_head_ne hhead, hprogress]
  change status.noteProgress percentage.word = _
  unfold ArrayStatus.noteProgress
  have hkeep : some (status.operation.getD .recovery) = status.operation := by
    rw [hoperation]
    rfl
  rw [hassigned, hannouncement, hpercentage, hleading, hkeep]
  cases Numeral.refusal? percentage.whole <;> rfl

theorem notMem_keywords : percentage.word ∉ keywords := by
  obtain ⟨digit, rest, hword, hdigit⟩ := percentage.exists_word_eq_cons
  rw [hword]
  apply Text.notMem_keywords
  intro hmem
  have hnone : ∀ s ∈ Text.keywordHeads, s.isDigit = false := by decide
  rw [hnone digit hmem] at hdigit
  cases hdigit

theorem step_word (status : ArrayStatus) {operation : Operation}
    (hlevel : status.awaitsLevel = false) (hprogress : status.progress = none)
    (hoperation : status.operation = some operation) :
    Scan.step [] { status := status } percentage.word =
      Numeral.orRefuse (Numeral.refusal? percentage.whole)
        { status :=
            { status with
              progress := some (.percent percentage.whole) } } := by
  rw [Scan.step_details (Or.inl hlevel) percentage.notMem_keywords,
    percentage.noteDetail_word hprogress hoperation]
  cases Numeral.refusal? percentage.whole <;> rfl

end Percentage

namespace Announcement

theorem notMem_keywords (operation : Operation) (rest : Text) :
    operation.keyword ++ rest ∉ keywords := by
  cases operation <;> exact Text.notMem_keywords (by decide) _

/-- A word that begins with an operation is read for its progress. -/
theorem noteDetail_keyword (operation : Operation) (rest : Text)
    {status : ArrayStatus} (hprogress : status.progress = none) :
    status.noteDetail (operation.keyword ++ rest) =
      status.noteProgress (operation.keyword ++ rest) := by
  have hhead : (operation.keyword ++ rest).head? ≠ some (.char '[') := by
    cases operation <;> rintro ⟨⟩
  rw [ArrayStatus.noteDetail_of_head_ne hhead, hprogress]
  rfl

theorem ofWord?_keyword_append (operation : Operation) (rest : Text) :
    Operation.ofWord? (operation.keyword ++ rest) = some operation := by
  cases operation <;> rfl

theorem noteProgress_keyword (operation : Operation)
    (status : ArrayStatus) :
    status.noteProgress operation.keyword =
      .ok { status with operation := operation, progress := none } := by
  cases operation <;> rfl

/-- An operation by itself is announced. -/
theorem noteDetail_operation (operation : Operation) {status : ArrayStatus}
    (hprogress : status.progress = none) :
    status.noteDetail operation.keyword =
      .ok { status with operation := some operation } := by
  have hdetail := noteDetail_keyword operation [] hprogress
  rw [List.append_nil] at hdetail
  rw [hdetail, noteProgress_keyword, ← hprogress]

theorem noteProgress_waiting (operation : Operation) (obstacle : Obstacle)
    (status : ArrayStatus) :
    status.noteProgress
        (operation.keyword ++ .char '=' :: obstacle.keyword) =
      .ok
        { status with
          operation := operation
          progress := obstacle.progress } := by
  cases operation <;> cases obstacle <;> rfl

theorem noteProgress_joined {operation : Operation}
    (hoperation : operation ≠ .check) (percentage : Percentage)
    (status : ArrayStatus) :
    status.noteProgress
        (operation.keyword ++ .char '=' :: percentage.word) =
      Numeral.orRefuse (Numeral.refusal? percentage.whole)
        { status with
          operation := operation
          progress := some (.percent percentage.whole) } := by
  have hbegins : Text.ofString "re" <+:
      operation.keyword ++ .char '=' :: percentage.word := by
    apply List.IsPrefix.trans _ (List.prefix_append operation.keyword _)
    cases operation with
    | check => exact absurd rfl hoperation
    | resync | recovery | reshape => decide
  have hsuffix := percentage.suffix_assigned operation.keyword
  have hcut : Text.cut? (.char '=')
      (operation.keyword ++ .char '=' :: percentage.word) =
        some (operation.keyword, percentage.word) := by
    rw [Text.cut?_eq_some_iff]
    refine ⟨rfl, ?_⟩
    cases operation <;> decide
  have hassigned : Detail.assigned?
      (operation.keyword ++ .char '=' :: percentage.word) =
        some percentage.word := by
    rw [Detail.assigned?, if_pos ⟨hbegins, hsuffix⟩, hcut]
    rfl
  unfold ArrayStatus.noteProgress
  rw [hassigned, ofWord?_keyword_append]
  dsimp only
  rw [percentage.leading_word]
  cases Numeral.refusal? percentage.whole <;> rfl

end Announcement

/-- What is announced of the background operation is read, if nothing is known
about it. -/
theorem run_announcement (line : ArrayLine) {status : ArrayStatus}
    (hlevel : status.awaitsLevel = false)
    (hoperation : status.operation = none)
    (hprogress : status.progress = none) :
    Scan.run [] { status := status } line.announcementWords =
      Numeral.orRefuse (line.announcement.bind Announcement.refusal?)
        { status :=
            { status with
              operation := line.announcement.map Announcement.operation
              progress := line.announcement.map Announcement.progress } } := by
  unfold announcementWords
  cases line.announcement with
  | none =>
    have hsame : { status with operation := none, progress := none } =
        status := by
      rw [← hoperation, ← hprogress]
    exact run_nil_of_eq hsame
  | some announcement =>
    cases announcement with
    | spaced operation percentage =>
      have hannounced : Scan.step [] { status := status } operation.keyword =
          .ok { status := { status with operation := operation } } := by
        have hkeyword := Announcement.notMem_keywords operation []
        rw [List.append_nil] at hkeyword
        rw [Scan.step_details (Or.inl hlevel) hkeyword,
          Announcement.noteDetail_operation operation hprogress]
        rfl
      have hequals := equals_isRemark.step_eq
        { status with operation := some operation } (Or.inl hlevel) [] none
      have hpercentage := percentage.step_word
        { status with operation := some operation } hlevel hprogress rfl
      dsimp only [Announcement.words]
      rw [Scan.run_cons_of_ok hannounced, Scan.run_cons_of_ok hequals,
        Scan.run_cons, hpercentage, Option.bind_some]
      change _ = Numeral.orRefuse (Numeral.refusal? percentage.whole) _
      cases Numeral.refusal? percentage.whole <;> rfl
    | joined operation hoperation percentage =>
      have hkeyword := Announcement.notMem_keywords operation
        (.char '=' :: percentage.word)
      dsimp only [Announcement.words]
      rw [Scan.run_cons, Scan.step_details (Or.inl hlevel) hkeyword,
        Announcement.noteDetail_keyword _ _ hprogress,
        Announcement.noteProgress_joined hoperation, Option.bind_some]
      change _ = Numeral.orRefuse (Numeral.refusal? percentage.whole) _
      cases Numeral.refusal? percentage.whole <;> rfl
    | waiting operation obstacle =>
      have hkeyword := Announcement.notMem_keywords operation
        (.char '=' :: obstacle.keyword)
      dsimp only [Announcement.words]
      rw [Scan.run_cons, Scan.step_details (Or.inl hlevel) hkeyword,
        Announcement.noteDetail_keyword _ _ hprogress,
        Announcement.noteProgress_waiting]
      rfl

end ArrayLine
end RaidStatus

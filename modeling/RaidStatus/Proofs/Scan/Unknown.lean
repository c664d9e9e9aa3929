import RaidStatus.Proofs.Scan.Fields

/-!
# Words without a meaning

A line may hold words that mean nothing to a reader, and such a word is passed
over wherever it stands: the line is read as if the word were not there, with
the same status, the same anchor and the same error.

A word can be passed over in every line only if it can mean nothing in any
section of a line.  These are the unknown words (`Text.IsUnknown`), which are
described by their symbols.  The main statement is that the two are the same
(`Text.isUnknown_iff_isPassedOver`).
-/

namespace RaidStatus

/-- The words that have a meaning of their own in some section of a line. -/
def Scan.keywords : List Text :=
  ["active", "inactive", "bitmap:", "blocks", "super"]

theorem Scan.mem_keywords_of_mem_details :
    ∀ word ∈ ArrayLine.keywords, word ∈ keywords := by
  decide

theorem Scan.mem_keywords_of_mem_members :
    ∀ word ∈ memberKeywords, word ∈ keywords := by
  decide

/-- A word that can mean nothing, whatever section of a line it stands in. -/
structure Text.IsUnknown (word : Text) : Prop where
  /-- It is no disk, no number of disks, and no health. -/
  bracket_notMem : .char '[' ∉ word
  notMem_keywords : word ∉ Scan.keywords
  /-- It announces no operation. -/
  operation : ∀ operation : Operation, ¬ operation.keyword <+: word
  /-- It neither is nor assigns a percentage, and no operation waits. -/
  progress : ¬ SetsProgress word

/-- A line says the same with the word and without it, wherever it stands
behind the name.  This is not asked where any word would be the version, which
is behind `super`, nor where it would be the level, unless the word begins with
a parenthesis. -/
def Text.IsPassedOver (word : Text) : Prop :=
  ∀ (known front back : List Text), front ≠ [] →
    front.getLast? ≠ some (Text.ofString "super") →
    (word.head? = some (.char '(') ∨
      ∀ reading, ArrayStatus.readWords known front = .ok reading →
        reading.status.awaitsLevel = false) →
    ArrayStatus.readWords known (front ++ word :: back) =
      ArrayStatus.readWords known (front ++ back)

/-! ## Unknown words are passed over -/

namespace Text.IsUnknown

variable {word : Text}

theorem head_ne (hword : word.IsUnknown) : word.head? ≠ some (.char '[') :=
  fun hhead => hword.bracket_notMem (List.mem_of_mem_head? hhead)

/-- An unknown word gives no detail. -/
theorem noteDetail_eq (hword : word.IsUnknown) (status : ArrayStatus) :
    status.noteDetail word = .ok status := by
  have hprogress := hword.progress
  rw [setsProgress_iff] at hprogress
  push Not at hprogress
  obtain ⟨hassigned, hwaiting, hpercentage⟩ := hprogress
  apply ArrayStatus.noteDetail_eq_self
  · rw [Option.eq_none_iff_forall_ne_some]
    intro number hnumber
    exact hword.head_ne (Detail.head_eq_of_beginsCount
      (Detail.beginsCount_of_diskCount? hnumber))
  · rw [Option.eq_none_iff_forall_ne_some]
    intro health hhealth
    exact hword.head_ne (Detail.head_eq_of_health? hhealth)
  · exact hassigned
  · exact Operation.ofWord?_eq_none_iff.mpr hword.operation
  · exact hwaiting
  · exact Bool.eq_false_iff.mpr hpercentage

/-- An unknown word changes nothing in any section. -/
theorem step_eq (hword : word.IsUnknown) {scan : Scan}
    (hversion : scan.reached ≠ .version)
    (hlevel : scan.status.awaitsLevel = false ∨
      word.head? = some (.char '(')) (known : List Text) :
    Scan.step known scan word = .ok scan := by
  have hkeyword := hword.notMem_keywords
  obtain ⟨status, anchor, reached⟩ := scan
  cases reached with
  | closed => rfl
  | version => exact absurd rfl hversion
  | details =>
    have hdetail : word ∉ ArrayLine.keywords :=
      fun hmem => hkeyword (Scan.mem_keywords_of_mem_details word hmem)
    rw [Scan.step_details hlevel hdetail, hword.noteDetail_eq]
    rfl
  | members =>
    have hmember : word ∉ Scan.memberKeywords :=
      fun hmem => hkeyword (Scan.mem_keywords_of_mem_members word hmem)
    have hdisk : Scan.disk? word = none := by
      rw [Scan.disk?, Text.cut?_eq_none_iff.mpr hword.bracket_notMem]
      rfl
    rw [Scan.step_members rfl hlevel hmember, Scan.noteMember, hdisk]

theorem isPassedOver (hword : word.IsUnknown) : word.IsPassedOver := by
  intro known front back hfront hsuper hlevel
  obtain ⟨name, details, rfl⟩ := List.exists_cons_of_ne_nil hfront
  have hruns : Scan.run known { status := { name := name } }
        (details ++ word :: back) =
      Scan.run known { status := { name := name } } (details ++ back) := by
    rw [Scan.run_append, Scan.run_append]
    cases hrun : Scan.run known { status := { name := name } } details with
    | error error => rfl
    | ok scan =>
      have hversion : scan.reached ≠ .version := by
        apply Scan.reached_ne_version_of_run _ _ hrun
        · simp
        · intro hlast
          exact hsuper (by rw [List.getLast?_cons, hlast]; rfl)
      have hawaits : scan.status.awaitsLevel = false ∨
          word.head? = some (.char '(') :=
        hlevel.symm.imp_left fun h => h scan.reading
          (ArrayStatus.readWords_cons_eq_ok_iff.mpr ⟨scan, hrun, rfl⟩)
      exact Scan.run_cons_of_ok (hword.step_eq hversion hawaits known) back
  simp only [List.cons_append, ArrayStatus.readWords, ArrayStatus.read, hruns]

end Text.IsUnknown

/-! ## No other words are -/

/-- An operation that is announced is known, if no progress has been known. -/
theorem ArrayStatus.DetailChange.operation_ne_none
    {status next : ArrayStatus} {word : Text} {operation : Operation}
    (h : DetailChange status word next) (hnone : status.progress = none)
    (hword : operation.keyword <+: word) : next.operation ≠ none := by
  have hannounces := Detail.isAnnouncement_of_keyword hword
  have hbracket : word.head? ≠ some (.char '[') :=
    Detail.head_ne_of_progress (Or.inr (Or.inl hannounces))
  cases h with
  | count number count hnumber =>
    exact absurd (Detail.head_eq_of_beginsCount
      (Detail.beginsCount_of_diskCount? hnumber)) hbracket
  | health health _ hhealth =>
    exact absurd (Detail.head_eq_of_health? hhealth) hbracket
  | assigned | percentage => simp
  | announced => simp [Operation.ofWord?_eq_some_iff.mpr hword]
  | ignored _ _ hprogress =>
    rw [hannounces] at hprogress
    cases (hprogress hnone).2.1

namespace Text.IsPassedOver

variable {word : Text}

/-- At the end of a line, the word is read and leaves what has been read. -/
theorem exists_step (h : word.IsPassedOver) {known details : List Text}
    {name : Text} {scan : Scan}
    (hrun : Scan.run known { status := { name := name } } details = .ok scan)
    (hsuper : (name :: details).getLast? ≠ some (Text.ofString "super"))
    (hlevel : scan.status.awaitsLevel = false) :
    ∃ next, Scan.step known scan word = .ok next ∧
      next.reading = scan.reading := by
  have hread : ArrayStatus.readWords known (name :: details) =
      .ok scan.reading :=
    ArrayStatus.readWords_cons_eq_ok_iff.mpr ⟨scan, hrun, rfl⟩
  have hsame := h known (name :: details) [] (List.cons_ne_nil _ _) hsuper
    (Or.inr fun reading hreading => by
      rw [hread] at hreading
      cases hreading
      exact hlevel)
  rw [List.append_nil, hread, List.cons_append,
    ArrayStatus.readWords_cons_eq_ok_iff] at hsame
  obtain ⟨next, hnext, hreading⟩ := hsame
  rw [Scan.run_append_of_ok hrun, Scan.run_singleton] at hnext
  exact ⟨next, hnext, hreading⟩

/-- Among the disks, a word with a bracket would be one. -/
theorem bracket_notMem (h : word.IsPassedOver) : .char '[' ∉ word := by
  intro hbracket
  have hrun : Scan.run [] { status := { name := "md0" } } ["inactive"] =
      .ok ⟨{ name := "md0", activity := .inactive }, none, .members⟩ := rfl
  obtain ⟨next, hstep, hreading⟩ := h.exists_step hrun (by decide) rfl
  have hkeyword : word ∉ Scan.memberKeywords := by
    have hnone : ∀ keyword ∈ Scan.memberKeywords, .char '[' ∉ keyword := by
      decide
    exact fun hmem => hnone word hmem hbracket
  rw [Scan.step_members rfl (Or.inl rfl) hkeyword] at hstep
  cases hdisk : Scan.disk? word with
  | none =>
    rw [Scan.disk?, Option.map_eq_none_iff, Text.cut?_eq_none_iff] at hdisk
    exact hdisk hbracket
  | some disk =>
    cases hstep
    have hmembers := congrArg (·.status.members) hreading
    simp [Scan.noteMember, hdisk, Scan.reading] at hmembers

/-- Every keyword means something in some place. -/
theorem notMem_keywords (h : word.IsPassedOver) :
    word ∉ Scan.keywords := by
  have hname : ∀ back : List Text,
      ArrayStatus.readWords [] ("md0" :: word :: back) =
        ArrayStatus.readWords [] ("md0" :: back) :=
    fun back => h [] ["md0"] back (by decide) (by decide)
      (Or.inr fun reading hreading => by cases hreading; rfl)
  have hdisks : ∀ back : List Text,
      ArrayStatus.readWords [] ("md0" :: "inactive" :: word :: back) =
        ArrayStatus.readWords [] ("md0" :: "inactive" :: back) :=
    fun back => h [] ["md0", "inactive"] back (by decide) (by decide)
      (Or.inr fun reading hreading => by cases hreading; rfl)
  simp only [Scan.keywords, List.mem_cons, List.not_mem_nil, or_false]
  rintro (rfl | rfl | rfl | rfl | rfl)
  · exact absurd (hname []) (by decide)
  · exact absurd (hname []) (by decide)
  · exact absurd (hname ["active"]) (by decide)
  · exact absurd (hdisks ["sda["]) (by decide)
  · exact absurd (hname ["1.2"]) (by decide)

/-- Behind the name, a word that is no keyword is read as a detail. -/
theorem noteDetail_eq (h : word.IsPassedOver) :
    ({ name := "md0" } : ArrayStatus).noteDetail word =
      .ok { name := "md0" } := by
  have hrun : Scan.run [] { status := { name := "md0" } } [] =
      .ok ⟨{ name := "md0" }, none, .details⟩ := rfl
  obtain ⟨next, hstep, hreading⟩ := h.exists_step hrun (by decide) rfl
  have hkeyword : word ∉ ArrayLine.keywords := fun hmem =>
    h.notMem_keywords (Scan.mem_keywords_of_mem_details word hmem)
  rw [Scan.step_details (Or.inl rfl) hkeyword] at hstep
  cases hnote : ({ name := "md0" } : ArrayStatus).noteDetail word with
  | error error =>
    rw [hnote] at hstep
    cases hstep
  | ok noted =>
    rw [hnote] at hstep
    cases hstep
    have hstatus : noted = { name := "md0" } :=
      congrArg Reading.status hreading
    rw [hstatus]

theorem isUnknown (h : word.IsPassedOver) : word.IsUnknown := by
  have hchange := ArrayStatus.detailChange_of_noteDetail h.noteDetail_eq
  exact {
    bracket_notMem := h.bracket_notMem
    notMem_keywords := h.notMem_keywords
    operation := fun _ hkeyword => hchange.operation_ne_none rfl hkeyword rfl
    progress := (hchange.progress_eq_none_iff.mp rfl).2 }

end Text.IsPassedOver

/-- The words that are passed over wherever they stand are the unknown ones. -/
theorem Text.isUnknown_iff_isPassedOver {word : Text} :
    word.IsUnknown ↔ word.IsPassedOver :=
  ⟨IsUnknown.isPassedOver, IsPassedOver.isUnknown⟩

end RaidStatus

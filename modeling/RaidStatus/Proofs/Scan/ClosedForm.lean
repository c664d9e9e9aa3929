import RaidStatus.Proofs.Scan.Fields

/-!
# The details of a line in closed form

A version is no detail, whatever it looks like: it is taken out of the words
behind the disks together with the `super` in front of it
(`Scan.withoutVersions`), and the words that are left are read as details
(`Scan.exists_foldlM_of_run`).  This is possible since no detail depends on the
version (`ArrayStatus.noteDetail_version`).

So what these words say is known in closed form, if none of them begins another
part of the line (`ArrayStatus.read_append_closedForm`).
-/

namespace RaidStatus

namespace ArrayStatus

theorem noteProgress_version (status : ArrayStatus) (version : Option Text)
    (word : Text) :
    noteProgress { status with version := version } word =
      (status.noteProgress word).map fun noted =>
        { noted with version := version } := by
  unfold noteProgress
  split
  · next number _ => cases Numeral.leading number <;> rfl
  · split_ifs
    · rfl
    · cases Numeral.leading word <;> rfl
    · rfl

/-- No detail depends on the version, or changes it. -/
theorem noteDetail_version (status : ArrayStatus) (version : Option Text)
    (word : Text) :
    noteDetail { status with version := version } word =
      (status.noteDetail word).map fun noted =>
        { noted with version := version } := by
  unfold noteDetail
  split
  · next number _ => cases Numeral.leading number <;> rfl
  · dsimp only
    split
    · rfl
    · split_ifs
      · exact noteProgress_version status version word
      · rfl

theorem foldlM_noteDetail_version (words : List Text) (status : ArrayStatus)
    (version : Option Text) :
    words.foldlM noteDetail { status with version := version } =
      (words.foldlM noteDetail status).map fun noted =>
        { noted with version := version } := by
  induction words generalizing status with
  | nil => rfl
  | cons word words ih =>
    rw [List.foldlM_cons, List.foldlM_cons, noteDetail_version]
    cases hnote : status.noteDetail word with
    | error e => rfl
    | ok noted => exact ih noted

end ArrayStatus

namespace Scan

/-- The words that are read as details: those that are left when each `super` is
taken out together with the word behind it. -/
def withoutVersions : List Text → List Text
  | [] => []
  | [word] => if word = "super" then [] else [word]
  | word :: next :: rest =>
    if word = "super" then withoutVersions rest
    else word :: withoutVersions (next :: rest)

/-- The words behind each `super`. -/
def versions : List Text → List Text
  | [] => []
  | [_] => []
  | word :: next :: rest =>
    if word = "super" then next :: versions rest else versions (next :: rest)

/-- A word that is kept is read as a detail before the words behind it. -/
theorem exists_noteDetail_of_run {known : List Text} {status : ArrayStatus}
    {anchor : Option Nat} {final : Scan} {word : Text} {words : List Text}
    (hlevel : status.awaitsLevel = false)
    (hword : word ∉ ArrayLine.keywords)
    (hrun : run known ⟨status, anchor, .details⟩ (word :: words) =
      .ok final) :
    ∃ noted, status.noteDetail word = .ok noted ∧
      noted.awaitsLevel = false ∧ noted.version = status.version ∧
      run known ⟨noted, anchor, .details⟩ words = .ok final := by
  rw [run_cons, step_details (Or.inl hlevel) hword] at hrun
  cases hnote : status.noteDetail word with
  | error e =>
    rw [hnote] at hrun
    cases hrun
  | ok noted =>
    rw [hnote] at hrun
    obtain ⟨_, _, _, _, rfl⟩ := ArrayStatus.noteDetail_frame hnote
    exact ⟨_, rfl, hlevel, rfl, hrun⟩

/-- What is read behind the disks are the words that are left without the
versions, of which the last one counts. -/
theorem exists_foldlM_of_run {known : List Text} {status : ArrayStatus}
    {anchor : Option Nat} {final : Scan} {words : List Text}
    (hlevel : status.awaitsLevel = false)
    (hwords : ∀ word ∈ withoutVersions words,
      word ≠ "active" ∧ word ≠ "inactive" ∧ word ≠ "bitmap:")
    (hrun : run known ⟨status, anchor, .details⟩ words = .ok final) :
    ∃ noted, (withoutVersions words).foldlM ArrayStatus.noteDetail status =
        .ok noted ∧
      final.status =
        { noted with
          version := (versions words).getLast?.or status.version } ∧
      final.anchor = anchor := by
  induction words using withoutVersions.induct generalizing status with
  | case1 =>
    cases hrun
    exact ⟨status, rfl, rfl, rfl⟩
  | case2 =>
    rw [run_cons_of_ok (step_super hlevel known anchor)] at hrun
    cases hrun
    exact ⟨status, rfl, rfl, rfl⟩
  | case3 word hsuper =>
    rw [withoutVersions, if_neg hsuper] at hwords ⊢
    have hword := hwords word (List.mem_singleton_self word)
    obtain ⟨noted, hnote, -, hversion, hrest⟩ :=
      exists_noteDetail_of_run hlevel (by simp [ArrayLine.keywords, *]) hrun
    cases hrest
    refine ⟨noted, ?_, ?_, rfl⟩
    · rw [List.foldlM_cons, hnote]
      rfl
    · rw [versions, List.getLast?_nil, Option.none_or, ← hversion]
  | case4 next rest ih =>
    rw [run_cons_of_ok (step_super hlevel known anchor),
      run_cons_of_ok (step_version known status anchor next)] at hrun
    rw [withoutVersions, if_pos rfl] at hwords ⊢
    have hnext : { status with version := some next }.awaitsLevel = false :=
      hlevel
    obtain ⟨_, hread, hstatus, hanchor⟩ := ih hnext hwords hrun
    rw [ArrayStatus.foldlM_noteDetail_version] at hread
    cases hfold : (withoutVersions rest).foldlM ArrayStatus.noteDetail status
      with
    | error e =>
      rw [hfold] at hread
      cases hread
    | ok noted =>
      rw [hfold] at hread
      cases hread
      refine ⟨noted, rfl, ?_, hanchor⟩
      rw [hstatus, versions, if_pos rfl, List.getLast?_cons, Option.or_some,
        Option.some_or]
  | case5 word next rest hsuper ih =>
    rw [withoutVersions, if_neg hsuper] at hwords ⊢
    rw [List.forall_mem_cons] at hwords
    obtain ⟨hword, hrest⟩ := hwords
    obtain ⟨first, hnote, hfirst, hversion, hrun⟩ :=
      exists_noteDetail_of_run hlevel (by simp [ArrayLine.keywords, *]) hrun
    obtain ⟨noted, hread, hstatus, hanchor⟩ := ih hfirst hrest hrun
    refine ⟨noted, ?_, ?_, hanchor⟩
    · rw [List.foldlM_cons, hnote]
      exact hread
    · rw [hstatus, versions, if_neg hsuper, hversion]

end Scan

namespace ArrayStatus

/-- What the words behind the disks of an array say, in closed form.  They leave
its anchor, name, activity, level and disks as they are, and the last version
among them counts.  The other fields are what the words without the versions
come to, one field independently of the other. -/
theorem read_append_closedForm {known : List Text} {name : Text}
    {front words : List Text} {reading : Reading}
    (hfront : Scan.ClosesDisks known name front)
    (hwords : ∀ word ∈ Scan.withoutVersions words,
      word ≠ "active" ∧ word ≠ "inactive" ∧ word ≠ "bitmap:")
    (hread : read known name (front ++ words) = .ok reading) :
    ∃ before, read known name front = .ok before ∧
      reading.anchor = before.anchor ∧
      reading.status.name = before.status.name ∧
      reading.status.activity = before.status.activity ∧
      reading.status.level = before.status.level ∧
      reading.status.members = before.status.members ∧
      reading.status.version =
        (Scan.versions words).getLast?.or before.status.version ∧
      ReadsDetails (Scan.withoutVersions words) before.status
        reading.status := by
  obtain ⟨status, anchor, hlevel, hrun⟩ := hfront.exists_run
  have hbefore : read known name front = .ok ⟨status, anchor⟩ := by
    rw [read, hrun]
    rfl
  rw [read, Scan.run_append_of_ok hrun, bind_eq_ok_iff] at hread
  obtain ⟨final, hfinal, hreading⟩ := hread
  cases hreading
  obtain ⟨noted, hfold, hstatus, hanchor⟩ :=
    Scan.exists_foldlM_of_run hlevel hwords hfinal
  have hdetails := readsDetails_of_foldlM hfold
  obtain ⟨_, _, _, _, rfl⟩ := foldlM_noteDetail_frame hfold
  refine ⟨⟨status, anchor⟩, hbefore, hanchor, ?_⟩
  rw [hstatus]
  exact ⟨rfl, rfl, rfl, rfl, rfl, hdetails.count, hdetails.health,
    hdetails.progress_of_known, hdetails.progress_of_unknown⟩

/-- The words of a line up to the size of its array. -/
def sizedWords : List Text :=
  [":", "active", "raid1", "sdb[1]", "sda[0]", "8", "blocks"]

theorem sizedWords_closesDisks : Scan.ClosesDisks [] "md0" sizedWords :=
  ⟨[":", "active", "raid1", "sdb[1]", "sda[0]", "8"], _, rfl, rfl, rfl, rfl⟩

/-- Details of every kind, with versions between them. -/
def interleavedWords : List Text :=
  ["[3/1]", "super", "active", "resync", "[2/1]", "[U_]", "super", "1.2", "5%",
    "[__]", "check=PENDING", "super"]

def interleavedReading : Reading where
  status :=
    { name := "md0", activity := .active, level := some "raid1",
      health := some "U_", diskCount := 2, members := ["sdb", "sda"],
      version := some "1.2", operation := some .resync,
      progress := some (.percent 5) }
  anchor := none

/-- The last number of disks and the last version count, the first health and
the first progress, and the version that looks like a keyword is none. -/
theorem interleavedWords_closedForm :
    read [] "md0" (sizedWords ++ interleavedWords) = .ok interleavedReading ∧
    ∃ before, read [] "md0" sizedWords = .ok before ∧
      interleavedReading.status.members = before.status.members ∧
      ReadsDetails
        ["[3/1]", "resync", "[2/1]", "[U_]", "5%", "[__]", "check=PENDING"]
        before.status interleavedReading.status := by
  have hread : read [] "md0" (sizedWords ++ interleavedWords) =
      .ok interleavedReading := rfl
  obtain ⟨before, hbefore, -, -, -, -, hmembers, -, hdetails⟩ :=
    read_append_closedForm sizedWords_closesDisks (by decide) hread
  exact ⟨hread, before, hbefore, hmembers, hdetails⟩

end ArrayStatus
end RaidStatus

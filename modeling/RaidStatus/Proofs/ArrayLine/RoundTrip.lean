import RaidStatus.Proofs.ArrayLine.Details
import RaidStatus.Proofs.Report.Order

/-!
# Array lines are read as they were written

Reading the words of an array line gives the status of the line
(`ofLine_logical`).  A report of array lines, however they are laid out, has
therefore one status for each line, and these are the statuses of the lines
(`read_render`).
-/

namespace RaidStatus
namespace ArrayLine

/-! ## The whole line -/

theorem run_remarkWords (line : ArrayLine) (place : Fin 6)
    (status : ArrayStatus) (hlevel : status.awaitsLevel = false) :
    Scan.run [] { status := status } (line.remarkWords place) =
      .ok { status := status } := by
  apply run_remarks (Or.inl hlevel)
  intro word hword
  obtain ⟨remark, -, rfl⟩ := List.mem_map.mp hword
  exact remark.isRemark

/-- Nothing behind the word that announces the bitmap is read. -/
theorem run_bitmap (line : ArrayLine) (status : ArrayStatus) :
    ∃ reached, Scan.run [] { status := status } line.bitmapWords =
      .ok { status := status, reached := reached } := by
  unfold bitmapWords
  cases line.bitmap with
  | none => exact ⟨.details, rfl⟩
  | some words =>
    refine ⟨.closed, ?_⟩
    have hclosed : Scan.step [] { status := status }
        (Text.ofString "bitmap:") =
          .ok { status := status, reached := .closed } := rfl
    dsimp only
    rw [Scan.run_cons_of_ok hclosed]
    exact Scan.run_of_closed rfl _

/-! The status grows from piece to piece. -/

def statusOfState (line : ArrayLine) : ArrayStatus where
  name := line.name.text
  activity := line.state.activity
  level := line.state.level?

def statusOfDevices (line : ArrayLine) : ArrayStatus :=
  { line.statusOfState with members := line.devices.map (·.name.text) }

def statusOfVersion (line : ArrayLine) : ArrayStatus :=
  { line.statusOfDevices with version := line.version.map Word.text }

def statusOfCounts (line : ArrayLine) : ArrayStatus :=
  { line.statusOfVersion with
    diskCount := ((line.counts.map Counts.total).getD 0 : Nat) }

def statusOfHealth (line : ArrayLine) : ArrayStatus :=
  { line.statusOfCounts with health := line.health.map Health.text }

theorem awaitsLevel_statusOfState (line : ArrayLine) :
    line.statusOfState.awaitsLevel = false := by
  unfold statusOfState
  cases line.state <;> rfl

/-- The words in front of the details set what is not a detail. -/
theorem run_front (line : ArrayLine) (back : List Text) :
    Scan.run [] { status := { name := line.name.text } }
        (Text.ofString ":" :: (line.state.words ++
          (line.devices.map Device.word ++
            (Numeral.ofNat line.blocks :: Text.ofString "blocks" ::
              back)))) =
      Scan.run [] { status := line.statusOfDevices } back := by
  have hlevel := line.awaitsLevel_statusOfState
  have hstate : Scan.run [] { status := { name := line.name.text } }
      (Text.ofString ":" :: line.state.words) =
        .ok { status := line.statusOfState, reached := .members } :=
    run_state line.state [] line.name.text
  have hdevices : Scan.run []
      { status := line.statusOfState, reached := .members }
      (line.devices.map Device.word) =
        .ok { status := line.statusOfDevices, reached := .members } :=
    run_devices line.devices line.statusOfState hlevel
  have hblocks : Scan.run []
      { status := line.statusOfDevices, reached := .members }
      [Numeral.ofNat line.blocks, Text.ofString "blocks"] =
        .ok { status := line.statusOfDevices } :=
    run_blocks line.blocks hlevel
  change Scan.run [] _ ((Text.ofString ":" :: line.state.words) ++
    (line.devices.map Device.word ++
      ([Numeral.ofNat line.blocks, Text.ofString "blocks"] ++ back))) = _
  rw [Scan.run_append_of_ok hstate, Scan.run_append_of_ok hdevices,
    Scan.run_append_of_ok hblocks]

/-- The words behind the disks set the details. -/
theorem run_detailWords (line : ArrayLine) :
    ∃ reached,
      Scan.run [] { status := line.statusOfDevices } line.detailWords =
        Numeral.orRefuse line.refusal?
          { status := line.status, reached := reached } := by
  have hlevel := line.awaitsLevel_statusOfState
  have hversion : Scan.run [] { status := line.statusOfDevices }
      line.versionWords = .ok { status := line.statusOfVersion } :=
    line.run_version hlevel rfl
  have hcounts : Scan.run [] { status := line.statusOfVersion }
      (line.counts.map Counts.word).toList =
        Numeral.orRefuse
          (line.counts.bind fun counts => Numeral.refusal? counts.total)
          { status := line.statusOfCounts } :=
    run_counts line.counts hlevel rfl
  have hhealth : Scan.run [] { status := line.statusOfCounts }
      (line.health.map Health.word).toList =
        .ok { status := line.statusOfHealth } :=
    run_health line.health hlevel rfl
  have hbar : Scan.run [] { status := line.statusOfHealth }
      (line.bar.map Bar.word).toList =
        .ok { status := line.statusOfHealth } :=
    run_bar line.bar hlevel
  have hannouncement : Scan.run [] { status := line.statusOfHealth }
      line.announcementWords =
        Numeral.orRefuse (line.announcement.bind Announcement.refusal?)
          { status := line.status } :=
    line.run_announcement hlevel rfl rfl
  obtain ⟨reached, hbitmap⟩ := line.run_bitmap line.status
  refine ⟨reached, ?_⟩
  unfold detailWords refusal?
  rw [Scan.run_append_of_ok
      (line.run_remarkWords 0 line.statusOfDevices hlevel),
    Scan.run_append_of_ok hversion,
    Scan.run_append_of_ok (line.run_remarkWords 1 line.statusOfVersion hlevel),
    Scan.run_append, hcounts]
  -- a number that is refused ends the reading, whatever follows
  cases line.counts.bind fun counts => Numeral.refusal? counts.total with
  | some error => rfl
  | none =>
    change Scan.run [] { status := line.statusOfCounts } _ = _
    rw [Scan.run_append_of_ok
        (line.run_remarkWords 2 line.statusOfCounts hlevel),
      Scan.run_append_of_ok hhealth,
      Scan.run_append_of_ok (line.run_remarkWords 3 line.statusOfHealth hlevel),
      Scan.run_append_of_ok hbar,
      Scan.run_append_of_ok (line.run_remarkWords 4 line.statusOfHealth hlevel),
      Scan.run_append, hannouncement, Option.none_or]
    cases line.announcement.bind Announcement.refusal? with
    | some error => rfl
    | none =>
      change Scan.run [] { status := line.status } _ = _
      rw [Scan.run_append_of_ok (line.run_remarkWords 5 line.status hlevel)]
      exact hbitmap

/-- The words of a line are read as its status, unless one of its numbers is
refused. -/
theorem ofLine_logical (line : ArrayLine) :
    ArrayStatus.ofLine line.logical =
      Numeral.orRefuse line.refusal? line.status := by
  obtain ⟨reached, hdetails⟩ := line.run_detailWords
  have hrun : Scan.run [] { status := { name := line.name.text } }
      line.logical.details =
        Numeral.orRefuse line.refusal?
          { status := line.status, reached := reached } :=
    (line.run_front line.detailWords).trans hdetails
  unfold ArrayStatus.ofLine ArrayStatus.read
  change ((Scan.run [] { status := { name := line.name.text } }
    line.logical.details >>= fun scan =>
      pure ⟨scan.status, scan.anchor⟩) : Except _ Reading).map _ = _
  rw [hrun]
  cases line.refusal? <;> rfl

/-! ## The words of a line are words -/

theorem Device.isWord_word (device : Device) : device.word.IsWord := by
  apply device.name.isWord.append
  intro s hs
  rw [List.mem_cons, List.mem_append, List.mem_cons] at hs
  rcases hs with rfl | hs | rfl | hs
  · decide
  · exact device.index_solid s hs
  · decide
  · exact device.flags_solid s hs

theorem Counts.isWord_word (counts : Counts) : counts.word.IsWord := by
  apply Text.isWord_cons (by decide)
  intro s hs
  rw [List.mem_append, List.mem_cons, List.mem_append,
    List.mem_singleton] at hs
  rcases hs with hs | rfl | hs | rfl
  · exact Numeral.solid_ofNat hs
  · decide
  · exact Numeral.solid_ofNat hs
  · decide

theorem Health.isWord_word (health : Health) : health.word.IsWord := by
  have hdisk : ∀ disk : Disk, disk.symbol.isBlank = false := by
    intro disk
    cases disk <;> decide
  apply Text.isWord_cons (by decide)
  intro s hs
  rw [List.mem_append, Health.text, List.mem_cons, List.mem_map,
    List.mem_singleton] at hs
  rcases hs with (rfl | ⟨disk, -, rfl⟩) | rfl
  · exact hdisk health.first
  · exact hdisk disk
  · decide

theorem Percentage.isWord_word (percentage : Percentage) :
    percentage.word.IsWord := by
  obtain ⟨digit, rest, hword, -⟩ := percentage.exists_word_eq_cons
  refine ⟨by simp [hword], ?_⟩
  intro s hs
  rcases percentage.mem_word hs with hs | rfl | rfl
  · exact Symbol.isBlank_of_isDigit hs
  · decide
  · decide

theorem Announcement.isWord_of_mem_words (announcement : Announcement)
    {word : Text} (hword : word ∈ announcement.words) : word.IsWord := by
  have hkeyword : ∀ operation : Operation, operation.keyword.IsWord := by
    intro operation
    cases operation <;> exact ⟨by decide, by decide⟩
  have hassigned : ∀ (operation : Operation) {rest : Text},
      rest.IsWord →
        Text.IsWord (operation.keyword ++ .char '=' :: rest) := by
    intro operation rest hrest
    exact (hkeyword operation).append
      (Text.isWord_cons (by decide) hrest.solid).solid
  cases announcement with
  | spaced operation percentage =>
    simp only [words, List.mem_cons, List.not_mem_nil, or_false] at hword
    rcases hword with rfl | rfl | rfl
    · exact hkeyword operation
    · exact equals_isRemark.isWord
    · exact percentage.isWord_word
  | joined operation hoperation percentage =>
    rw [words, List.mem_singleton] at hword
    rw [hword]
    exact hassigned operation percentage.isWord_word
  | waiting operation obstacle =>
    rw [words, List.mem_singleton] at hword
    rw [hword]
    apply hassigned
    cases obstacle <;> exact ⟨by decide, by decide⟩

theorem State.isWord_of_mem_words (state : State) {word : Text}
    (hword : word ∈ state.words) : word.IsWord := by
  cases state with
  | inactive =>
    rw [words, List.mem_singleton] at hword
    rw [hword]
    exact ⟨by decide, by decide⟩
  | active markers level =>
    rw [words, List.mem_cons, List.mem_append, List.mem_map,
      List.mem_singleton] at hword
    rcases hword with rfl | ⟨marker, -, rfl⟩ | rfl
    · exact ⟨by decide, by decide⟩
    · exact marker.isWord
    · exact level.isWord

theorem isWord_of_mem_detailWords (line : ArrayLine) {word : Text}
    (hword : word ∈ line.detailWords) : word.IsWord := by
  have hremark : ∀ place, word ∈ line.remarkWords place →
      word.IsWord := by
    intro place hmem
    obtain ⟨remark, -, rfl⟩ := List.mem_map.mp hmem
    exact remark.isRemark.isWord
  simp only [detailWords, List.mem_append, Option.mem_toList,
    Option.map_eq_some_iff] at hword
  rcases hword with h | h | h | ⟨counts, -, rfl⟩ | h | ⟨health, -, rfl⟩ |
    h | ⟨bar, -, rfl⟩ | h | h | h | h
  · exact hremark 0 h
  · unfold versionWords at h
    split at h
    · cases h
    · next version _ =>
      simp only [List.mem_cons, List.not_mem_nil, or_false] at h
      rcases h with rfl | rfl
      · exact ⟨by decide, by decide⟩
      · exact version.isWord
  · exact hremark 1 h
  · exact counts.isWord_word
  · exact hremark 2 h
  · exact health.isWord_word
  · exact hremark 3 h
  · exact bar.isRemark.isWord
  · exact hremark 4 h
  · unfold announcementWords at h
    split at h
    · cases h
    · next announcement _ => exact announcement.isWord_of_mem_words h
  · exact hremark 5 h
  · unfold bitmapWords at h
    split at h
    · cases h
    · rcases List.mem_cons.mp h with rfl | h
      · exact ⟨by decide, by decide⟩
      · obtain ⟨bitmap, -, rfl⟩ := List.mem_map.mp h
        exact bitmap.isWord

theorem isWord_of_mem_words (line : ArrayLine) {word : Text}
    (hword : word ∈ line.logical.words) : word.IsWord := by
  simp only [LogicalLine.words, logical, List.mem_cons, List.mem_append,
    List.mem_map] at hword
  rcases hword with rfl | rfl | h | ⟨device, -, rfl⟩ | rfl | rfl | h
  · exact line.name.isWord
  · exact colon_isRemark.isWord
  · exact line.state.isWord_of_mem_words h
  · exact device.isWord_word
  · exact ⟨Numeral.ofNat_ne_nil _, fun _ => Numeral.solid_ofNat⟩
  · exact ⟨by decide, by decide⟩
  · exact line.isWord_of_mem_detailWords h

/-! ## Reports -/

/-- The text of a report of array lines, each with a layout of its own. -/
def render (lines : List (Layout × ArrayLine)) : Text :=
  LogicalLine.render (lines.map fun line => (line.1, line.2.logical))

theorem arrayLines_render (lines : List (Layout × ArrayLine)) :
    Report.arrayLines (render lines) = lines.map (·.2.logical) := by
  have htext : LogicalLine.ofText (render lines) =
      lines.map (·.2.logical) := by
    unfold render
    rw [LogicalLine.ofText_render, List.map_map]
    · rfl
    · intro line hline word hword
      obtain ⟨entry, -, rfl⟩ := List.mem_map.mp hline
      exact entry.2.isWord_of_mem_words hword
  unfold Report.arrayLines
  rw [htext, List.filter_eq_self]
  intro line hline
  obtain ⟨entry, -, rfl⟩ := List.mem_map.mp hline
  have hname : Report.isArrayName entry.2.logical.name = true :=
    entry.2.isArrayName_name
  have hheader : entry.2.logical.name ∉ Report.headers := by
    intro hmem
    rw [Report.not_isArrayName_of_mem_headers hmem] at hname
    cases hname
  simp [Report.isArrayLine, hname, hheader]

theorem statuses_render (lines : List (Layout × ArrayLine)) :
    Report.statuses (render lines) =
      Numeral.orRefuse (lines.findSome? (·.2.refusal?))
        (lines.map (·.2.status)) := by
  unfold Report.statuses
  rw [arrayLines_render]
  induction lines with
  | nil => rfl
  | cons line lines ih =>
    rw [List.map_cons, List.mapM_cons, ofLine_logical, ih,
      List.findSome?_cons]
    cases line.2.refusal? with
    | some error => rfl
    | none => cases lines.findSome? (·.2.refusal?) <;> rfl

/-- A report of array lines is read as the statuses of these lines, one for
each, however the lines are laid out.  The only exception is a report with a
number that has too many digits to be read: the first such number is
reported. -/
theorem read_render (order : ArrayOrder) (lines : List (Layout × ArrayLine)) :
    match lines.findSome? (·.2.refusal?) with
    | some error =>
      (Report.read order (render lines)).outcome = .error error
    | none =>
      ∃ arrays, (Report.read order (render lines)).outcome = .ok arrays ∧
        arrays.Perm (lines.map (·.2.status)) := by
  have hstatuses := statuses_render lines
  cases hrefusal : lines.findSome? (·.2.refusal?) with
  | some error =>
    rw [hrefusal] at hstatuses
    dsimp only
    rw [Report.read_outcome, Report.listing_eq_error hstatuses]
    rfl
  | none =>
    rw [hrefusal] at hstatuses
    obtain ⟨entries, hentries, hlisting⟩ := Report.exists_listing hstatuses
    dsimp only
    rw [Report.read_outcome, hentries]
    refine ⟨_, rfl, ?_⟩
    cases order with
    | partsLast => exact hlisting.map_snd_perm
    | partsFirst =>
      exact (List.reverse_perm _).trans hlisting.map_snd_perm

/-- A mirror that misses one of its disks. -/
def mirror : ArrayLine where
  name := ⟨"md1", by decide, by decide⟩
  isArrayName_name := by decide
  state := .active [] ⟨⟨"raid1", by decide, by decide⟩, by decide, by decide⟩
  devices :=
    [⟨⟨"sda1", by decide, by decide⟩, by decide, "0", by decide, "(F)",
      by decide⟩]
  blocks := 1024
  version := some ⟨"1.2", by decide, by decide⟩
  counts := some ⟨2, 1⟩
  health := some ⟨.missing, [.working]⟩
  bar := none
  announcement := some (.waiting .recovery .delayed)
  bitmap := none
  remarks := fun _ => []

/-- Its line is wrapped in front of the size. -/
def mirrorLayout : Layout where
  gap n :=
    if n = 4 then ⟨.wrap (.char ' ') (by decide), []⟩
    else ⟨.inline (.char ' ') (by decide) (by decide), []⟩
  trailing := []
  emptyLines := 1

example : render [(mirrorLayout, mirror)] =
    Text.ofString ("md1 : active raid1 sda1[0](F)\n" ++
      " 1024 blocks super 1.2 [2/1] [_U] recovery=DELAYED\n") := by
  rfl

end ArrayLine
end RaidStatus

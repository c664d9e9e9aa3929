import RaidStatus.Proofs.Scan.Transition

/-!
# Reading on

Whatever follows the words that have been read, what they say about the array
is not taken back.  `Reading.GrowsTo` says this of each field by itself: the
level, the health and the progress are kept as they are, the disks can only
become more, and the anchor can only come to stand earlier.  The activity, the
version and the operation may be replaced, but not forgotten.

It is proved of one word by cases on the transitions
(`Scan.Transition.growsTo`), and of a line that is cut anywhere by induction on
the words behind the cut (`ArrayStatus.readWords_growsTo`).
-/

namespace RaidStatus

/-- The reading after some more words. -/
structure Reading.GrowsTo (before after : Reading) : Prop where
  name_eq : after.status.name = before.status.name
  activity_ne : before.status.activity ≠ .unknown →
    after.status.activity ≠ .unknown
  level_eq : before.status.level ≠ none →
    after.status.level = before.status.level
  health_eq : before.status.health ≠ none →
    after.status.health = before.status.health
  members_prefix : before.status.members <+: after.status.members
  version_ne : before.status.version ≠ none → after.status.version ≠ none
  operation_ne : before.status.operation ≠ none →
    after.status.operation ≠ none
  progress_eq : before.status.progress ≠ none →
    after.status.progress = before.status.progress ∧
      after.status.operation = before.status.operation
  anchor_le : ∀ position ∈ before.anchor,
    ∃ earlier ∈ after.anchor, earlier ≤ position

namespace Reading.GrowsTo

variable {first second third : Reading}

theorem refl (reading : Reading) : reading.GrowsTo reading where
  name_eq := rfl
  activity_ne := id
  level_eq _ := rfl
  health_eq _ := rfl
  members_prefix := List.prefix_rfl
  version_ne := id
  operation_ne := id
  progress_eq _ := ⟨rfl, rfl⟩
  anchor_le position hposition := ⟨position, hposition, Nat.le_refl position⟩

theorem trans (h : first.GrowsTo second) (h' : second.GrowsTo third) :
    first.GrowsTo third where
  name_eq := h'.name_eq.trans h.name_eq
  activity_ne hne := h'.activity_ne (h.activity_ne hne)
  level_eq hne := by
    have hsecond := h.level_eq hne
    exact (h'.level_eq (by rwa [hsecond])).trans hsecond
  health_eq hne := by
    have hsecond := h.health_eq hne
    exact (h'.health_eq (by rwa [hsecond])).trans hsecond
  members_prefix := h.members_prefix.trans h'.members_prefix
  version_ne hne := h'.version_ne (h.version_ne hne)
  operation_ne hne := h'.operation_ne (h.operation_ne hne)
  progress_eq hne := by
    obtain ⟨hprogress, hoperation⟩ := h.progress_eq hne
    obtain ⟨hprogress', hoperation'⟩ := h'.progress_eq (by rwa [hprogress])
    exact ⟨hprogress'.trans hprogress, hoperation'.trans hoperation⟩
  anchor_le position hposition := by
    obtain ⟨middle, hmiddle, hle⟩ := h.anchor_le position hposition
    obtain ⟨earlier, hearlier, hle'⟩ := h'.anchor_le middle hmiddle
    exact ⟨earlier, hearlier, Nat.le_trans hle' hle⟩

end Reading.GrowsTo

/-! ## One word -/

/-- A word behind the disks takes nothing back. -/
theorem ArrayStatus.DetailChange.growsTo {status next : ArrayStatus}
    {word : Text} (h : DetailChange status word next) (anchor : Option Nat) :
    Reading.GrowsTo ⟨status, anchor⟩ ⟨next, anchor⟩ := by
  have hsame := Reading.GrowsTo.refl ⟨status, anchor⟩
  cases h with
  | ignored => exact hsame
  -- the numbers of disks are not compared
  | count => exact { hsame with }
  | health health hnone =>
    exact { hsame with health_eq := fun hne => absurd hnone hne }
  | assigned number done hnone | percentage done hnone =>
    exact { hsame with
      operation_ne := fun _ => by simp
      progress_eq := fun hne => absurd hnone hne }
  | announced hnone =>
    exact { hsame with
      operation_ne := fun hne => by simp [hne]
      progress_eq := fun hne => absurd hnone hne }

namespace Scan

/-- The anchor is only lowered. -/
theorem lowerAnchor_le (known : List Text) {anchor : Option Nat}
    {position : Nat} (hposition : position ∈ anchor) (disk : Text) :
    ∃ earlier ∈ lowerAnchor known anchor disk, earlier ≤ position := by
  rw [Option.mem_def] at hposition
  rw [hposition, lowerAnchor_eq]
  cases known.findIdx? (· = disk) with
  | none => exact ⟨position, rfl, Nat.le_refl position⟩
  | some found => exact ⟨min found position, rfl, Nat.min_le_right _ _⟩

/-- One more disk. -/
theorem noteMember_growsTo (known : List Text) (scan : Scan) (word : Text) :
    scan.reading.GrowsTo (scan.noteMember known word).reading := by
  have hsame := Reading.GrowsTo.refl scan.reading
  unfold noteMember
  cases disk? word with
  | none => exact hsame
  | some disk =>
    refine { hsame with
      members_prefix := List.prefix_append _ _
      anchor_le := fun position hposition => ?_ }
    dsimp only [reading]
    split
    · exact lowerAnchor_le known hposition disk
    · exact hsame.anchor_le position hposition

/-- One more word takes nothing back. -/
theorem Transition.growsTo {known : List Text} {scan next : Scan}
    {word : Text} (h : Transition known scan word next) :
    scan.reading.GrowsTo next.reading := by
  have hsame := Reading.GrowsTo.refl scan.reading
  cases h with
  | closed | bitmap | blocks | super => exact hsame
  | version => exact { hsame with version_ne := fun _ => by simp [reading] }
  | active | inactive =>
    exact { hsame with activity_ne := fun _ => by simp [reading] }
  | level hawaits =>
    have hnone : scan.status.level = none := by
      simp only [ArrayStatus.awaitsLevel, Bool.and_eq_true,
        Option.isNone_iff_eq_none] at hawaits
      exact hawaits.2
    exact { hsame with level_eq := fun hne => absurd hnone hne }
  | member => exact noteMember_growsTo known scan word
  | detail status _ hnote =>
    exact (ArrayStatus.detailChange_of_noteDetail hnote).growsTo scan.anchor

/-! ## Many words -/

theorem run_growsTo {known : List Text} {scan final : Scan}
    {words : List Text} (hrun : run known scan words = .ok final) :
    scan.reading.GrowsTo final.reading :=
  run_induction (P := fun _ last => scan.reading.GrowsTo last.reading)
    (fun _ _ _ _ hscan hnext => hscan.trans hnext.growsTo)
    [] (Reading.GrowsTo.refl scan.reading) hrun

end Scan

namespace ArrayStatus

/-- A line that can be read can be read up to any word behind the name, and
what has been said until then is not taken back. -/
theorem readWords_growsTo {known front back : List Text} {reading : Reading}
    (hfront : front ≠ [])
    (hread : readWords known (front ++ back) = .ok reading) :
    ∃ before, readWords known front = .ok before ∧
      before.GrowsTo reading := by
  obtain ⟨name, details, rfl⟩ := List.exists_cons_of_ne_nil hfront
  rw [List.cons_append, readWords_cons_eq_ok_iff] at hread
  obtain ⟨final, hrun, rfl⟩ := hread
  rw [Scan.run_append, bind_eq_ok_iff] at hrun
  obtain ⟨scan, hdetails, hback⟩ := hrun
  exact ⟨scan.reading, readWords_cons_eq_ok_iff.mpr ⟨scan, hdetails, rfl⟩,
    Scan.run_growsTo hback⟩

/-- The words of a line up to a `super` whose version is missing. -/
def cutWords : List Text :=
  ["md2", ":", "active", "raid0", "sda[0]", "md1[1]", "8", "blocks", "[2/1]",
    "[U_]", "resync", "super"]

/-- What follows is a version, and more of everything else. -/
def moreWords : List Text :=
  ["active", "[3/3]", "[UUU]", "5%", "check=7%", "inactive", "md0[2]",
    "active", "raid1"]

def wholeReading : Reading where
  status :=
    { name := "md2", activity := .active, level := some "raid0",
      health := some "U_", diskCount := 3, members := ["sda", "md1", "md0"],
      version := some "active", operation := some .resync,
      progress := some (.percent 5) }
  anchor := some 0

/-- The level, the health and the first disks are kept, while the number of
disks is replaced, and the anchor moves from the second known array to the
first one. -/
theorem cutWords_growsTo :
    readWords ["md0", "md1"] (cutWords ++ moreWords) = .ok wholeReading ∧
    ∃ before, readWords ["md0", "md1"] cutWords = .ok before ∧
      before.anchor = some 1 ∧ before.status.diskCount = 2 ∧
      before.GrowsTo wholeReading := by
  have hread : readWords ["md0", "md1"] (cutWords ++ moreWords) =
      .ok wholeReading := rfl
  obtain ⟨before, hbefore, hgrows⟩ := readWords_growsTo (by decide) hread
  refine ⟨hread, before, hbefore, ?_, ?_, hgrows⟩ <;>
  · cases hbefore
    rfl

end ArrayStatus
end RaidStatus

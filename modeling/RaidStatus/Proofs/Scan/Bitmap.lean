import Mathlib.Data.List.Forall2
import RaidStatus.Proofs.Scan.Transition
import RaidStatus.Report

/-!
# Behind the bitmap

The bitmap of an array is described by words that look like a number of disks
or like a health.  The word `bitmap:` in front of them ends the line in every
section, unless it is awaited as the version of the metadata.

Where it is not awaited so, a line with the word is read like the words in front
of it, with the same error if they cannot be read
(`ArrayStatus.readWords_append_bitmap`).  Where it is, the line can go on in a
way that is read otherwise, so there is no other exception
(`ArrayStatus.read_append_bitmap_iff`).  Reports that differ only behind the
word are read alike (`Report.read_eq_of_agree`).
-/

namespace RaidStatus

namespace Scan

/-- The word ends the line in every section, where it is not the version. -/
theorem step_bitmap {scan : Scan} (hversion : scan.reached ≠ .version)
    (known : List Text) :
    step known scan "bitmap:" = .ok { scan with reached := .closed } := by
  have hactive : Text.ofString "bitmap:" ≠ "active" := by decide
  have hinactive : Text.ofString "bitmap:" ≠ "inactive" := by decide
  obtain ⟨status, anchor, reached⟩ := scan
  cases reached with
  | closed => rfl
  | version => exact absurd rfl hversion
  | details | members =>
    simp only [step, if_neg hactive, if_neg hinactive, if_true]
    rfl

/-- Nothing of what follows is read. -/
theorem run_bitmap_cons {scan : Scan} (hversion : scan.reached ≠ .version)
    (known back : List Text) :
    run known scan (Text.ofString "bitmap:" :: back) =
      .ok { scan with reached := .closed } := by
  rw [run_cons_of_ok (step_bitmap hversion known)]
  exact run_of_closed rfl back

/-- The words behind the name of a line end where a version follows. -/
def AwaitsVersion (known : List Text) (name : Text) (details : List Text) :
    Prop :=
  ∃ scan, run known { status := { name := name } } details = .ok scan ∧
    scan.reached = .version

/-- Only `super` is followed by a version. -/
theorem AwaitsVersion.getLast?_eq {known : List Text} {name : Text}
    {details : List Text} (h : AwaitsVersion known name details) :
    details.getLast? = some (Text.ofString "super") := by
  obtain ⟨scan, hrun, hversion⟩ := h
  exact Decidable.byContradiction fun hlast =>
    reached_ne_version_of_run (by simp) hlast hrun hversion

end Scan

namespace ArrayStatus

variable {known : List Text} {name : Text} {details : List Text}

/-- A line is read up to the word. -/
theorem read_append_bitmap (h : ¬ Scan.AwaitsVersion known name details)
    (back : List Text) :
    read known name (details ++ Text.ofString "bitmap:" :: back) =
      read known name details := by
  unfold read
  rw [Scan.run_append]
  cases hrun : Scan.run known { status := { name := name } } details with
  | error error => rfl
  | ok scan =>
    have hversion : scan.reached ≠ .version := fun hversion =>
      h ⟨scan, hrun, hversion⟩
    change Scan.run known scan (Text.ofString "bitmap:" :: back) >>= _ = _
    rw [Scan.run_bitmap_cons hversion]
    rfl

/-- If the word is taken as the version, the line can go on with more disks. -/
theorem exists_read_append_bitmap_ne
    (h : Scan.AwaitsVersion known name details) :
    ∃ back, read known name (details ++ Text.ofString "bitmap:" :: back) ≠
      read known name details := by
  obtain ⟨⟨status, anchor, _⟩, hrun, rfl⟩ := h
  have hread : read known name details = .ok ⟨status, anchor⟩ := by
    rw [read, hrun]
    rfl
  -- behind the version, `inactive` opens the disks and the bracket names one
  have hmore : Scan.run known ⟨status, anchor, .version⟩
      ["bitmap:", "inactive", "["] =
      .ok
        { status :=
            { status with
              version := some (Text.ofString "bitmap:")
              activity := .inactive
              members := status.members ++ [[]] }
          anchor := anchor
          reached := .members } := rfl
  refine ⟨["inactive", "["], ?_⟩
  rw [hread, read, Scan.run_append_of_ok hrun, hmore]
  intro heq
  injection heq with heq
  have hmembers : status.members ++ [[]] = status.members :=
    congrArg (·.status.members) heq
  simp at hmembers

/-- The word ends every line, with all that follows, exactly if no version is
awaited. -/
theorem read_append_bitmap_iff :
    (∀ back, read known name (details ++ Text.ofString "bitmap:" :: back) =
      read known name details) ↔ ¬ Scan.AwaitsVersion known name details := by
  constructor
  · intro hends hawaits
    obtain ⟨back, hne⟩ := exists_read_append_bitmap_ne hawaits
    exact hne (hends back)
  · exact read_append_bitmap

/-- A line whose word `bitmap:` does not stand behind `super` is read like the
words in front of the word, whatever follows it: it says the same about its
array, or it cannot be read for the same reason. -/
theorem readWords_append_bitmap {front : List Text} (hfront : front ≠ [])
    (hlast : front.getLast? ≠ some (Text.ofString "super"))
    (back : List Text) :
    readWords known (front ++ Text.ofString "bitmap:" :: back) =
      readWords known front := by
  obtain ⟨name, details, rfl⟩ := List.exists_cons_of_ne_nil hfront
  have hawaits : ¬ Scan.AwaitsVersion known name details := by
    intro hawaits
    apply hlast
    rw [List.getLast?_cons, hawaits.getLast?_eq]
    rfl
  rw [List.cons_append, readWords, readWords, read_append_bitmap hawaits]

/-- The words of a line up to its disks. -/
def openWords : List Text :=
  ["md2", ":", "active", "raid1", "sda[0]"]

/-- A bitmap that looks like another disk, a number of disks and a health. -/
def bitmapWords : List Text :=
  ["md1[1]", "blocks", "super", "1.2", "[3/2]", "[UU_]", "resync=PENDING"]

/-- Behind `bitmap:` these words say nothing, although without it they would be
about the array. -/
theorem openWords_append_bitmap :
    openWords ≠ [] ∧ openWords.getLast? ≠ some (Text.ofString "super") ∧
    readWords ["md1"] (openWords ++ Text.ofString "bitmap:" :: bitmapWords) =
      readWords ["md1"] openWords ∧
    readWords ["md1"] (openWords ++ bitmapWords) ≠
      readWords ["md1"] openWords :=
  ⟨by decide, by decide,
    readWords_append_bitmap (by decide) (by decide) bitmapWords, by decide⟩

end ArrayStatus

/-! ## Reports -/

/-- Two lines differ at most behind a word `bitmap:` that ends them. -/
inductive LogicalLine.Agree : LogicalLine → LogicalLine → Prop
  | refl (line : LogicalLine) : Agree line line
  | bitmap (name : Text) (front back other : List Text)
      (hlast : front.getLast? ≠ some (Text.ofString "super")) :
    Agree ⟨name, front ++ Text.ofString "bitmap:" :: back⟩
      ⟨name, front ++ Text.ofString "bitmap:" :: other⟩

namespace Report

/-- Lines that agree have the same part in a report. -/
theorem readLine_eq_of_agree {line other : LogicalLine}
    (hagree : line.Agree other) (arrays : List ArrayStatus) :
    readLine arrays line = readLine arrays other := by
  cases hagree with
  | refl => rfl
  | bitmap name front back other hlast =>
    have hawaits : ¬ Scan.AwaitsVersion (arrays.map (·.name)) name front :=
      fun hawaits => hlast hawaits.getLast?_eq
    simp only [readLine, ArrayStatus.read_append_bitmap hawaits]

theorem foldlM_readLine_eq_of_agree {lines others : List LogicalLine}
    (hagree : List.Forall₂ LogicalLine.Agree lines others)
    (arrays : List ArrayStatus) :
    lines.foldlM readLine arrays = others.foldlM readLine arrays := by
  induction hagree generalizing arrays with
  | nil => rfl
  | cons hline _ ih =>
    simp only [List.foldlM_cons, readLine_eq_of_agree hline, ih]

/-- What stands behind `bitmap:` has no part in a report: not in its arrays, not
in their order, not in its error, and not in the notices. -/
theorem read_eq_of_agree {text other : Text}
    (hagree : List.Forall₂ LogicalLine.Agree (LogicalLine.ofText text)
      (LogicalLine.ofText other)) (order : ArrayOrder) :
    read order text = read order other := by
  rw [read, read, foldlM_readLine_eq_of_agree hagree]

end Report
end RaidStatus

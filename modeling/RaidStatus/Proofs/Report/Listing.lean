import Mathlib.Data.List.InsertIdx
import RaidStatus.Proofs.Scan.Anchor
import RaidStatus.Report

/-!
# Where the lines of a report end up

Arrays of a report may be equal, so its list of arrays does not tell which of
them came from which line.  A *listing* keeps the number of the line with each
array, counting the lines that are about arrays.  Listings are made by the same
insertions as the list of arrays: one line adds to the listing what it adds to
the list (`readLine_outcome_of_isArrayLine`), or nothing to both if it is not
about an array.  So forgetting the numbers gives the list (`read_outcome`), with
the same error if a line cannot be read.
-/

namespace RaidStatus

/-- The status that a line gives to its array. -/
def ArrayStatus.ofLine (line : LogicalLine) :
    Except Numeral.TooLong ArrayStatus :=
  (ArrayStatus.read [] line.name line.details).map Reading.status

namespace Report

/-- The line is about an array, and not about the report itself. -/
def isArrayLine (line : LogicalLine) : Bool :=
  !headers.contains line.name && isArrayName line.name

/-- The lines of a text that are about arrays. -/
def arrayLines (text : Text) : List LogicalLine :=
  (LogicalLine.ofText text).filter isArrayLine

/-- The statuses of the arrays of a text, in the order of their lines. -/
def statuses (text : Text) : Except Numeral.TooLong (List ArrayStatus) :=
  (arrayLines text).mapM ArrayStatus.ofLine

/-- The listing with the array of the next line. -/
def addLine (listing : List (Nat × ArrayStatus)) (line : LogicalLine) :
    Except Numeral.TooLong (List (Nat × ArrayStatus)) :=
  (ArrayStatus.read (listing.map (·.2.name)) line.name line.details).map
    fun reading =>
      insertAt reading.anchor (listing.length, reading.status) listing

/-- The arrays of a text with the numbers of their lines. -/
def listing (text : Text) :
    Except Numeral.TooLong (List (Nat × ArrayStatus)) :=
  (arrayLines text).foldlM addLine []

/-! ## A listing without its numbers is the list of arrays -/

theorem map_insertAt {α β : Type} (f : α → β) (position : Option Nat)
    (item : α) (items : List α) :
    (insertAt position item items).map f =
      insertAt position (f item) (items.map f) := by
  cases position with
  | none => simp [insertAt]
  | some position => exact List.map_insertIdx f items position item

theorem readLine_outcome_of_not_isArrayLine {line : LogicalLine}
    (hline : isArrayLine line = false) (arrays : List ArrayStatus) :
    (readLine arrays line).outcome = .ok arrays := by
  unfold readLine
  by_cases hheader : line.name ∈ headers
  · simp [hheader]
  · have hname : isArrayName line.name = false := by
      simpa [isArrayLine, hheader] using hline
    simp [hheader, hname]

theorem readLine_outcome_of_isArrayLine {line : LogicalLine}
    (hline : isArrayLine line = true) (listing : List (Nat × ArrayStatus)) :
    (readLine (listing.map Prod.snd) line).outcome =
      (addLine listing line).map (List.map Prod.snd) := by
  rw [isArrayLine, Bool.and_eq_true, Bool.not_eq_true',
    List.contains_eq_mem, decide_eq_false_iff_not] at hline
  unfold readLine addLine
  rw [if_neg hline.1, if_pos hline.2, List.map_map, Function.comp_def]
  cases ArrayStatus.read (listing.map (·.2.name)) line.name line.details with
  | error e => rfl
  | ok reading => simp [Except.map, place, map_insertAt]

theorem foldlM_readLine_outcome (lines : List LogicalLine)
    (listing : List (Nat × ArrayStatus)) :
    (lines.foldlM readLine (listing.map Prod.snd)).outcome =
      ((lines.filter isArrayLine).foldlM addLine listing).map
        (List.map Prod.snd) := by
  induction lines generalizing listing with
  | nil => rfl
  | cons line lines ih =>
    rw [List.foldlM_cons, Noted.bind_outcome]
    by_cases hline : isArrayLine line = true
    · rw [readLine_outcome_of_isArrayLine hline,
        List.filter_cons_of_pos hline, List.foldlM_cons]
      cases addLine listing line with
      | error e => rfl
      | ok next => exact ih next
    · rw [List.filter_cons_of_neg hline]
      rw [Bool.not_eq_true] at hline
      rw [readLine_outcome_of_not_isArrayLine hline]
      exact ih listing

/-- The arrays of a text are those of its listing. -/
theorem read_outcome (order : ArrayOrder) (text : Text) :
    (read order text).outcome =
      (listing text).map fun entries =>
        order.arrange (entries.map Prod.snd) := by
  have hfold := foldlM_readLine_outcome (LogicalLine.ofText text) []
  unfold read listing arrayLines
  rw [Noted.map_outcome, ← List.map_nil (f := Prod.snd), hfold]
  cases ((LogicalLine.ofText text).filter isArrayLine).foldlM addLine [] <;>
    rfl

end Report
end RaidStatus

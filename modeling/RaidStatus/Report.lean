import RaidStatus.LogicalLine
import RaidStatus.Notice
import RaidStatus.Text.Utf8
import RaidStatus.ArrayStatus.Scan

/-!
# Reading a report

A report is a text whose logical lines are about arrays, about the report
itself, or about something that is of no interest here.  The statuses of its
arrays form a list.  An array that is built from arrays of earlier lines is
put in front of the first of them, so it comes before all its parts that were
reported before it.  Any other array is put at the end.

A number that is too long makes the whole report unreadable; the notices of
the lines before it remain.
-/

namespace RaidStatus

/-- The order of the arrays of a report. -/
inductive ArrayOrder where
  /-- Arrays come before their parts, as they have to be stopped. -/
  | partsLast
  /-- Arrays come behind their parts, as they have to be started. -/
  | partsFirst
  deriving DecidableEq, Repr

/-- The list in the given order, from a list in which arrays come first. -/
def ArrayOrder.arrange : ArrayOrder → List ArrayStatus → List ArrayStatus
  | partsLast, arrays => arrays
  | partsFirst, arrays => arrays.reverse

namespace Report

/-- The first words of the lines that are about the report itself. -/
def headers : List Text :=
  ["Personalities", "read_ahead", "unused"]

/-- An array is called `md` and a digit or an underscore, and possibly more,
up to thirty-one symbols. -/
def isArrayName (name : Text) : Bool :=
  match Text.after? "md" name with
  | some (s :: _) =>
    name.length < 32 && (s.isDigit || s = .char '_')
  | _ => false

/-- The list with one more item, in front of the one at a position, or at its
end. -/
def insertAt {α : Type} (position : Option Nat) (item : α)
    (items : List α) : List α :=
  match position with
  | some position => items.insertIdx position item
  | none => items ++ [item]

/-- The list with one more array, in front of its first part. -/
def place (arrays : List ArrayStatus) (reading : Reading) :
    List ArrayStatus :=
  insertAt reading.anchor reading.status arrays

/-- The notices about an array that has been read. -/
def placementNotices (arrays : List ArrayStatus) (reading : Reading) :
    List Notice :=
  .parsed reading.status.name ::
    (reading.anchor.bind (arrays[·]?)).toList.map fun part =>
      .inserted reading.status.name part.name

/-- The arrays after one more logical line. -/
def readLine (arrays : List ArrayStatus) (line : LogicalLine) :
    Noted Numeral.TooLong (List ArrayStatus) :=
  if line.name ∈ headers then pure arrays
  else if isArrayName line.name then
    match ArrayStatus.read (arrays.map (·.name)) line.name line.details with
    | .ok reading =>
      ⟨placementNotices arrays reading, .ok (place arrays reading)⟩
    | .error error => ⟨[], .error error⟩
  else ⟨[.skipped line.name], .ok arrays⟩

def read (order : ArrayOrder) (text : Text) :
    Noted Numeral.TooLong (List ArrayStatus) :=
  order.arrange <$> (LogicalLine.ofText text).foldlM readLine []

def readFile (order : ArrayOrder) (bytes : List UInt8) :
    Noted Numeral.TooLong (List ArrayStatus) :=
  read order (Text.Utf8.decode bytes).normalizeEndings

theorem isArrayName_iff {name : Text} :
    isArrayName name = true ↔
      ∃ s rest, name = Text.ofString "md" ++ s :: rest ∧ name.length < 32 ∧
        (s.isDigit = true ∨ s = .char '_') := by
  unfold isArrayName
  constructor
  · intro hname
    split at hname
    · next s rest hafter =>
      rw [Text.after?_eq_some_iff] at hafter
      exact ⟨s, rest, hafter, by simpa using hname⟩
    · simp at hname
  · rintro ⟨s, rest, hafter, hlength, hs⟩
    rw [← Text.after?_eq_some_iff] at hafter
    simpa [hafter] using ⟨hlength, hs⟩

/-- No line about the report itself is about an array. -/
theorem not_isArrayName_of_mem_headers {name : Text}
    (hname : name ∈ headers) : isArrayName name = false := by
  simp only [headers, List.mem_cons, List.not_mem_nil, or_false] at hname
  rcases hname with rfl | rfl | rfl <;> decide

end Report
end RaidStatus

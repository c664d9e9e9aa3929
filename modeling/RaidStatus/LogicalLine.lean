import RaidStatus.Text.Words
import RaidStatus.Text.LineEnding

/-!
# Logical lines

A report wraps what it says about one array over several physical lines.  A
physical line that begins with a space or a tabulator continues the logical
line that is open; any other physical line, an empty one too, ends it and
opens the next.  A logical line holds at least one word, so physical lines
without words open none.

The view of logical lines is the list of their words: over a whole text these
are the words of the text, in order (`flatMap_words_ofText`).
-/

namespace RaidStatus

/-- The words of a logical line, of which there is at least one. -/
structure LogicalLine where
  /-- The first word, which says what the line is about. -/
  name : Text
  details : List Text
  deriving DecidableEq, Repr

namespace LogicalLine

def words (line : LogicalLine) : List Text :=
  line.name :: line.details

/-- The line that consists of the given words, if there are any. -/
def ofWords? : List Text → Option LogicalLine
  | [] => none
  | name :: details => some ⟨name, details⟩

/-- The line with more words at its end. -/
def extend (line : LogicalLine) (more : List Text) : LogicalLine :=
  { line with details := line.details ++ more }

/-- Physical lines that begin so continue the open logical line. -/
def isIndented (physical : Text) : Bool :=
  physical.head? = some (.char ' ') || physical.head? = some (.char '\t')

/-- The logical lines of physical lines, behind a logical line that may be
open. -/
def fold : Option LogicalLine → List Text → List LogicalLine
  | opened, [] => opened.toList
  | none, physical :: rest => fold (ofWords? physical.words) rest
  | some line, physical :: rest =>
    if isIndented physical then fold (some (line.extend physical.words)) rest
    else line :: fold (ofWords? physical.words) rest

/-- The logical lines of a text. -/
def ofText (text : Text) : List LogicalLine :=
  fold none text.physicalLines

@[simp] theorem words_extend (line : LogicalLine) (more : List Text) :
    (line.extend more).words = line.words ++ more := rfl

theorem isIndented_iff {physical : Text} :
    isIndented physical = true ↔
      physical.head? = some (.char ' ') ∨
        physical.head? = some (.char '\t') := by
  simp [isIndented]

theorem words_ne_nil (line : LogicalLine) : line.words ≠ [] := by
  simp [words]

theorem flatMap_words_ofWords? (ws : List Text) :
    (ofWords? ws).toList.flatMap words = ws := by
  cases ws <;> simp [ofWords?, words]

/-- Folding keeps all words and their order. -/
theorem flatMap_words_fold (opened : Option LogicalLine)
    (physical : List Text) :
    (fold opened physical).flatMap words =
      opened.toList.flatMap words ++ physical.flatMap Text.words := by
  fun_induction fold opened physical with
  | case1 opened => simp
  | case2 physical rest ih => simp [ih, flatMap_words_ofWords?]
  | case3 line physical rest _ ih => simp [ih]
  | case4 line physical rest _ ih => simp [ih, flatMap_words_ofWords?]

/-- The logical lines of a text hold the words of the text, in order. -/
theorem flatMap_words_ofText (text : Text) :
    (ofText text).flatMap words = text.words := by
  simp [ofText, flatMap_words_fold, Text.flatMap_words_physicalLines]

end LogicalLine
end RaidStatus

import RaidStatus.Proofs.Text.Utf8
import RaidStatus.Proofs.Text.Words

/-!
# The lines of a file

A file may end each of its lines in a way of its own, and the last line not at
all (`FileLines`).  Reading the file turns its text into the lines with line
feeds in between, but for a line feed at the end, and that makes no logical
line more or less (`FileLines.ofText_normalizeEndings_text`).

A carriage return in front of a line feed ends one line with it, and not two.
So an empty line that a line feed ends must not stand behind a line that a
carriage return ends.
-/

namespace RaidStatus

/-- A way in which a line of a file ends. -/
inductive LineEnding where
  | feed
  | carriageReturn
  | returnAndFeed
  deriving DecidableEq, Repr

def LineEnding.text : LineEnding → Text
  | feed => [Text.lineFeed]
  | carriageReturn => [Text.carriageReturn]
  | returnAndFeed => [Text.carriageReturn, Text.lineFeed]

/-- The characters of a line, none of which ends a line. -/
structure PlainLine where
  string : String
  lineFeed_notMem : Text.lineFeed ∉ Text.ofString string
  carriageReturn_notMem : Text.carriageReturn ∉ Text.ofString string

def PlainLine.text (line : PlainLine) : Text :=
  Text.ofString line.string

namespace FileLines

/-- The text of a line that may be missing. -/
def lastText : Option PlainLine → Text
  | none => []
  | some line => line.text

/-- The text of lines with their endings, and of a line without one. -/
def textOf (last : Option PlainLine) : List (PlainLine × LineEnding) → Text
  | [] => lastText last
  | (line, ending) :: more => line.text ++ (ending.text ++ textOf last more)

end FileLines

/-- The lines of a file, each with its ending. -/
structure FileLines where
  ended : List (PlainLine × LineEnding)
  /-- The line that nothing ends, if there is one. -/
  last : Option PlainLine
  /-- No line feed follows a carriage return that ends a line. -/
  separate : ∀ front line back,
    ended = front ++ (line, .carriageReturn) :: back →
      (FileLines.textOf last back).head? ≠ some Text.lineFeed

namespace FileLines

variable (file : FileLines)

def text : Text :=
  textOf file.last file.ended

def lines : List Text :=
  file.ended.map (·.1.text) ++ (file.last.map PlainLine.text).toList

/-- The lines with line feeds in between. -/
def joined : Text :=
  [Text.lineFeed].intercalate file.lines

end FileLines

namespace Text

theorem normalizeEndings_append {front : Text}
    (hfront : carriageReturn ∉ front) (text : Text) :
    normalizeEndings (front ++ text) = front ++ normalizeEndings text := by
  induction front with
  | nil => rfl
  | cons s front ih =>
    rw [List.mem_cons, not_or] at hfront
    rw [List.cons_append, normalizeEndings_cons_of_ne (Ne.symm hfront.1),
      ih hfront.2, List.cons_append]

/-- An ending becomes a line feed, unless it is a carriage return that a line
feed follows. -/
theorem normalizeEndings_ending {ending : LineEnding} {text : Text}
    (hseparate : ending = .carriageReturn → text.head? ≠ some lineFeed) :
    normalizeEndings (ending.text ++ text) =
      lineFeed :: normalizeEndings text := by
  cases ending with
  | feed => exact normalizeEndings_cons_of_ne (by decide) text
  | carriageReturn => exact normalizeEndings_return (hseparate rfl)
  | returnAndFeed => exact normalizeEndings_return_feed text

theorem flatMap_lineFeed_append (lines : List Text) (last : Text) :
    (lines.flatMap fun line => line ++ [lineFeed]) ++ last =
      [lineFeed].intercalate (lines ++ [last]) := by
  induction lines with
  | nil => simp [List.intercalate]
  | cons line lines ih =>
    obtain ⟨next, more, hmore⟩ :=
      List.exists_cons_of_ne_nil (List.append_ne_nil_of_right_ne_nil lines
        (List.cons_ne_nil last []))
    rw [List.flatMap_cons, List.append_assoc, ih, List.cons_append, hmore]
    simp [List.intercalate]

end Text

namespace LogicalLine

/-- An empty physical line at the end of a text makes no difference. -/
theorem fold_append_nil (opened : Option LogicalLine)
    (physical : List Text) :
    fold opened (physical ++ [[]]) = fold opened physical := by
  fun_induction fold opened physical with
  | case1 opened => cases opened <;> rfl
  | case2 line rest ih => exact ih
  | case3 line physical rest hindented ih =>
    rw [List.cons_append, fold, if_pos hindented, ih]
  | case4 line physical rest hindented ih =>
    rw [List.cons_append, fold, if_neg hindented, ih]

theorem ofText_append_lineFeed (text : Text) :
    ofText (text ++ [Text.lineFeed]) = ofText text := by
  rw [ofText, Text.physicalLines_append_cons]
  exact fold_append_nil none text.physicalLines

end LogicalLine

namespace FileLines

variable (file : FileLines)

theorem carriageReturn_notMem_lastText (last : Option PlainLine) :
    Text.carriageReturn ∉ lastText last := by
  cases last with
  | none => simp [lastText]
  | some line => exact line.carriageReturn_notMem

/-- Every line of a file but the last one gets a line feed. -/
theorem normalizeEndings_text :
    file.text.normalizeEndings =
      (file.ended.flatMap fun line => line.1.text ++ [Text.lineFeed]) ++
        lastText file.last := by
  obtain ⟨ended, last, hseparate⟩ := file
  change (textOf last ended).normalizeEndings = _
  induction ended with
  | nil =>
    exact Text.normalizeEndings_eq_self (carriageReturn_notMem_lastText last)
  | cons entry ended ih =>
    obtain ⟨line, ending⟩ := entry
    have hrest := ih fun front other back hended =>
      hseparate ((line, ending) :: front) other back (by rw [hended]; rfl)
    have hending : ending = .carriageReturn →
        (textOf last ended).head? ≠ some Text.lineFeed := by
      rintro rfl
      exact hseparate [] line ended rfl
    have hline : Text.carriageReturn ∉ line.text :=
      line.carriageReturn_notMem
    dsimp only at hrest ⊢
    rw [textOf, Text.normalizeEndings_append hline,
      Text.normalizeEndings_ending hending, hrest]
    simp

/-- The logical lines of a file are those of its lines, however they end. -/
theorem ofText_normalizeEndings_text :
    LogicalLine.ofText file.text.normalizeEndings =
      LogicalLine.ofText file.joined := by
  have hended := Text.flatMap_lineFeed_append (file.ended.map (·.1.text))
    (lastText file.last)
  rw [List.flatMap_map] at hended
  rw [normalizeEndings_text, hended, joined, lines]
  cases file.last with
  | some line => rfl
  | none =>
    rw [lastText, Option.map_none, Option.toList_none, List.append_nil]
    obtain hnil | ⟨front, line, hlines⟩ :=
      List.eq_nil_or_concat (file.ended.map (·.1.text))
    · rw [hnil]
      rfl
    · -- the line feed behind the last line begins no other one
      rw [List.concat_eq_append] at hlines
      rw [hlines, ← Text.flatMap_lineFeed_append, List.append_nil,
        List.flatMap_append, List.flatMap_singleton, ← List.append_assoc,
        Text.flatMap_lineFeed_append, LogicalLine.ofText_append_lineFeed]

theorem exists_char_of_mem_text {s : Symbol} (hs : s ∈ file.text) :
    ∃ c, s = .char c := by
  have hline (line : PlainLine) (hs : s ∈ line.text) : ∃ c, s = .char c := by
    obtain ⟨c, -, rfl⟩ := List.mem_map.mp hs
    exact ⟨c, rfl⟩
  obtain ⟨ended, last, hseparate⟩ := file
  change s ∈ textOf last ended at hs
  clear hseparate
  induction ended with
  | nil =>
    cases last with
    | none => cases hs
    | some line => exact hline line hs
  | cons entry ended ih =>
    obtain ⟨line, ending⟩ := entry
    rw [textOf, List.mem_append, List.mem_append] at hs
    rcases hs with hs | hs | hs
    · exact hline line hs
    · cases ending <;>
        simp only [LineEnding.text, List.mem_cons, List.not_mem_nil,
          or_false] at hs
      · exact ⟨_, hs⟩
      · exact ⟨_, hs⟩
      · rcases hs with hs | hs <;> exact ⟨_, hs⟩
    · exact ih hs

/-- The text of a file is read from its bytes. -/
theorem decode_encode_text :
    Text.Utf8.decode (Text.Utf8.encode file.text) = file.text :=
  Text.Utf8.decode_encode_of_forall_char fun _ => file.exists_char_of_mem_text

end FileLines
end RaidStatus

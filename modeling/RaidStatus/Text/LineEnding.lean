import RaidStatus.Text.Words

/-!
# Line endings

A line of a text ends at a line feed.  A file may also end its lines with a
carriage return, or with a carriage return and a line feed; reading a file
turns each of these endings into one line feed first.  A text that does not
come from a file keeps its carriage returns, which are then blanks like any
other.
-/

namespace RaidStatus
namespace Text

/-- The symbol that ends a line. -/
def lineFeed : Symbol := .char '\n'

/-- The symbol that may end a line of a file. -/
def carriageReturn : Symbol := .char '\x0d'

/-- Every line ending of a file becomes a line feed. -/
def normalizeEndings : Text → Text
  | [] => []
  | s :: text =>
    if s = carriageReturn then
      if text.head? = some lineFeed then normalizeEndings text
      else lineFeed :: normalizeEndings text
    else s :: normalizeEndings text

/-- The physical lines of a text, without their line feeds.  What follows the
last line feed is a line too, and may be empty. -/
def physicalLines (text : Text) : List Text :=
  text.splitOnP (· = lineFeed)

@[simp] theorem normalizeEndings_nil : normalizeEndings [] = [] := rfl

theorem normalizeEndings_cons_of_ne {s : Symbol} (hs : s ≠ carriageReturn)
    (text : Text) :
    normalizeEndings (s :: text) = s :: normalizeEndings text := by
  simp [normalizeEndings, hs]

/-- A carriage return and a line feed together end one line. -/
theorem normalizeEndings_return_feed (text : Text) :
    normalizeEndings (carriageReturn :: lineFeed :: text) =
      lineFeed :: normalizeEndings text := by
  simp [normalizeEndings, lineFeed, carriageReturn]

/-- A carriage return that no line feed follows ends a line by itself. -/
theorem normalizeEndings_return {text : Text}
    (hhead : text.head? ≠ some lineFeed) :
    normalizeEndings (carriageReturn :: text) =
      lineFeed :: normalizeEndings text := by
  simp [normalizeEndings, hhead]

theorem carriageReturn_notMem_normalizeEndings (text : Text) :
    carriageReturn ∉ normalizeEndings text := by
  fun_induction normalizeEndings text with
  | case1 => simp
  | case2 text _ ih => exact ih
  | case3 text _ ih => simpa [lineFeed, carriageReturn] using ih
  | case4 s text hs ih => simpa [Ne.symm hs] using ih

theorem normalizeEndings_eq_self {text : Text}
    (hnone : carriageReturn ∉ text) : normalizeEndings text = text := by
  induction text with
  | nil => rfl
  | cons s text ih =>
    simp only [List.mem_cons, not_or] at hnone
    simp [normalizeEndings, Ne.symm hnone.1, ih hnone.2]

/-- A line feed ends one physical line and begins the next. -/
theorem physicalLines_append_cons (before behind : Text) :
    physicalLines (before ++ lineFeed :: behind) =
      physicalLines before ++ physicalLines behind :=
  List.splitOnP_append_cons before behind (by simp)

/-- The end of a line is blank, so no word reaches over it. -/
theorem flatMap_words_physicalLines (text : Text) :
    (physicalLines text).flatMap words = words text := by
  have hblank : ∀ s : Symbol, decide (s = lineFeed) = true →
      s.isBlank = true := by
    intro s hs
    rw [of_decide_eq_true hs]
    decide
  rw [words, ← flatMap_splitOnP_splitOnP hblank text, List.filter_flatMap]
  rfl

end Text
end RaidStatus

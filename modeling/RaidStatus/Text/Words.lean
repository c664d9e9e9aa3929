import RaidStatus.Text.Basic

/-!
# Words

The words of a text are its longest runs of symbols that are not blank.
Blank are the characters that Unicode marks as white space or as a separator
of paragraphs, segments or blocks.  A byte that belongs to no character is
never blank.

The view of a list of words is their concatenation: it is the text without
its blanks (`flatten_words`), so splitting into words loses nothing else.
-/

namespace RaidStatus

/-- The code points of the blank characters, as closed intervals. -/
def blankRanges : List (Nat × Nat) :=
  [(0x0009, 0x000D), (0x001C, 0x0020), (0x0085, 0x0085), (0x00A0, 0x00A0),
   (0x1680, 0x1680), (0x2000, 0x200A), (0x2028, 0x2029), (0x202F, 0x202F),
   (0x205F, 0x205F), (0x3000, 0x3000)]

/-- A blank separates words. -/
def Symbol.isBlank : Symbol → Bool
  | .char c => blankRanges.any fun r => r.1 ≤ c.toNat && c.toNat ≤ r.2
  | .byte _ => false

namespace Text

/-- The nonempty pieces of a text between its blanks. -/
def words (text : Text) : List Text :=
  (text.splitOnP Symbol.isBlank).filter (! ·.isEmpty)

@[simp] theorem words_nil : words [] = [] := rfl

theorem ne_nil_of_mem_words {text word : Text} (hword : word ∈ text.words) :
    word ≠ [] := by
  intro hnil
  simp [words, hnil] at hword

/-- The words put together are the text without its blanks. -/
theorem flatten_words (text : Text) :
    text.words.flatten = text.filter (! ·.isBlank) := by
  rw [← flatten_splitOnP, words]
  exact List.flatten_filter_not_isEmpty

/-- A blank between two texts keeps their words apart. -/
theorem words_append_cons (before behind : Text) {blank : Symbol}
    (hblank : blank.isBlank = true) :
    words (before ++ blank :: behind) = words before ++ words behind := by
  simp [words, List.splitOnP_append_cons before behind hblank]

end Text
end RaidStatus

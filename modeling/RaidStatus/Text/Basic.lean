/-!
# Symbols and texts

A status report is a byte sequence that is read as UTF-8.  Not every byte
sequence is valid UTF-8, and no byte of a report may be lost, so a text is a
list of *symbols*: a symbol is a Unicode character or a single byte that is
not part of a valid character.

Besides the type this module holds the ways of taking a text apart that the
rest of the library uses: dropping a known beginning and cutting at the first
occurrence of a symbol.  Splitting at every symbol of a class is
`List.splitOnP`; what the pieces have in common with the text stands here.
-/

namespace RaidStatus

/-- A unit of text: a character, or a byte that belongs to no character. -/
inductive Symbol where
  /-- A Unicode character. -/
  | char (c : Char)
  /-- A byte that is not part of valid UTF-8. -/
  | byte (b : UInt8)
  deriving DecidableEq, Repr

/-- A text is a list of symbols; its length counts symbols. -/
abbrev Text := List Symbol

namespace Symbol

/-- The ASCII digits `0` to `9`. -/
def isDigit : Symbol → Bool
  | .char c => c.isDigit
  | .byte _ => false

end Symbol

namespace Text

/-- The text whose symbols are the characters of a string. -/
def ofString (s : String) : Text :=
  s.toList.map .char

instance : Coe String Text := ⟨ofString⟩

/-- What follows `start` in a text that begins with it. -/
def after? (start text : Text) : Option Text :=
  if start <+: text then some (text.drop start.length) else none

/-- The parts before and behind the first occurrence of a symbol, if it
occurs. -/
def cut? (mark : Symbol) : Text → Option (Text × Text)
  | [] => none
  | s :: text =>
    if s = mark then some ([], text)
    else (cut? mark text).map fun parts => (s :: parts.1, parts.2)

theorem after?_eq_some_iff {start text rest : Text} :
    after? start text = some rest ↔ text = start ++ rest := by
  rw [after?, Option.ite_none_right_eq_some, Option.some.injEq]
  constructor
  · rintro ⟨hstart, rfl⟩
    exact (List.prefix_iff_eq_append.mp hstart).symm
  · rintro rfl
    exact ⟨List.prefix_append start rest, List.drop_left⟩

theorem cut?_eq_none_iff {mark : Symbol} {text : Text} :
    cut? mark text = none ↔ mark ∉ text := by
  induction text with
  | nil => simp [cut?]
  | cons s text ih =>
    by_cases h : s = mark
    · simp [cut?, h]
    · simp [cut?, h, ih, Ne.symm h]

/-- The part before the cut is free of the symbol, and the parts and the
symbol make up the text. -/
theorem cut?_eq_some_iff {mark : Symbol} {text before behind : Text} :
    cut? mark text = some (before, behind) ↔
      text = before ++ mark :: behind ∧ mark ∉ before := by
  induction text generalizing before with
  | nil => simp [cut?]
  | cons s text ih =>
    by_cases h : s = mark
    · subst h
      cases before with
      | nil => simp [cut?, eq_comm]
      | cons b before =>
        simp only [cut?, if_true, List.cons_append, List.cons.injEq,
          List.mem_cons, not_or]
        constructor
        · intro hcut
          simp at hcut
        · rintro ⟨⟨rfl, _⟩, hne, _⟩
          exact absurd rfl hne
    · cases before with
      | nil => simp [cut?, h]
      | cons b before =>
        simp only [cut?, h, if_false, Option.map_eq_some_iff, Prod.mk.injEq,
          Prod.exists, List.cons_append, List.cons.injEq, List.mem_cons,
          not_or]
        constructor
        · rintro ⟨x, y, hcut, ⟨rfl, rfl⟩, rfl⟩
          obtain ⟨htext, hnot⟩ := ih.mp hcut
          exact ⟨⟨rfl, htext⟩, Ne.symm h, hnot⟩
        · rintro ⟨⟨rfl, htext⟩, _, hnot⟩
          exact ⟨before, behind, ih.mpr ⟨htext, hnot⟩, ⟨rfl, rfl⟩, rfl⟩

/-- The pieces put together are the text without its separating symbols. -/
theorem flatten_splitOnP (separates : Symbol → Bool) (text : Text) :
    (text.splitOnP separates).flatten = text.filter (! separates ·) := by
  induction text with
  | nil => rfl
  | cons s text ih =>
    rw [List.splitOnP_cons_eq_if_modifyHead]
    by_cases hs : separates s
    · simp [hs, ih]
    · obtain ⟨piece, pieces, hpieces⟩ :=
        List.exists_cons_of_ne_nil (List.splitOnP_ne_nil separates text)
      rw [hpieces] at ih ⊢
      simp [hs, ← ih]

/-- Splitting the pieces of a coarse split once more gives the fine split,
where every symbol that separates coarsely also separates finely. -/
theorem flatMap_splitOnP_splitOnP {coarse fine : Symbol → Bool}
    (hfine : ∀ s, coarse s = true → fine s = true) (text : Text) :
    (text.splitOnP coarse).flatMap (List.splitOnP fine) =
      text.splitOnP fine := by
  induction text with
  | nil => rfl
  | cons s text ih =>
    have hfirst := List.splitOnP_cons_eq_if_modifyHead (p := fine) s
    rw [hfirst text, List.splitOnP_cons_eq_if_modifyHead]
    by_cases hcoarse : coarse s
    · simp [hcoarse, hfine s hcoarse, ih]
    · obtain ⟨piece, pieces, hpieces⟩ :=
        List.exists_cons_of_ne_nil (List.splitOnP_ne_nil coarse text)
      rw [hpieces, List.flatMap_cons] at ih
      rw [if_neg hcoarse, hpieces, List.modifyHead_cons, List.flatMap_cons,
        hfirst piece, ← ih]
      -- the symbol stands in front of the first fine piece of the first
      -- coarse piece
      obtain ⟨next, others, hnext⟩ :=
        List.exists_cons_of_ne_nil (List.splitOnP_ne_nil fine piece)
      by_cases hs : fine s <;> simp [hs, hnext]

end Text
end RaidStatus

import RaidStatus.LogicalLine

/-!
# Laying out logical lines

The words of a logical line can be put down in many ways: any blanks may stand
between them and behind them, and the line may be wrapped at every blank as
long as the next physical line is indented.  A `Layout` is a choice of all
these blanks, and `LogicalLine.render` puts down a list of lines, each with a
layout of its own.  Folding gives the lines back (`ofText_render`).

The invariant of a laid out line is `Text.Continues`: all of its physical
lines but the first one are indented.
-/

namespace RaidStatus

/-- A nonempty text without blanks. -/
structure Text.IsWord (word : Text) : Prop where
  ne_nil : word ≠ []
  solid : ∀ s ∈ word, s.isBlank = false

/-- A line is wrapped in front of one of these. -/
def LogicalLine.indents : List Symbol :=
  [.char ' ', .char '\t']

/-- A blank inside a logical line. -/
inductive Blank where
  /-- A blank that does not end the physical line. -/
  | inline (s : Symbol) (hblank : s.isBlank = true)
    (hfeed : s ≠ Text.lineFeed)
  /-- The end of a physical line and the indentation of the next one. -/
  | wrap (indent : Symbol) (hindent : indent ∈ LogicalLine.indents)

/-- The blanks between two words, of which there is at least one. -/
structure Gap where
  first : Blank
  others : List Blank

/-- How a logical line is put down. -/
structure Layout where
  /-- The blanks in front of each word but the first one. -/
  gap : Nat → Gap
  /-- The blanks behind the last word. -/
  trailing : List Blank
  /-- How many line feeds follow, besides the one that ends the line. -/
  emptyLines : Nat

def Blank.text : Blank → Text
  | inline s _ _ => [s]
  | wrap indent _ => [Text.lineFeed, indent]

def Blank.texts (blanks : List Blank) : Text :=
  blanks.flatMap Blank.text

def Gap.text (gap : Gap) : Text :=
  gap.first.text ++ Blank.texts gap.others

/-- Words, each with its blanks in front of it. -/
def Layout.spaced (gap : Nat → Gap) (behind : Text) : List Text → Text
  | [] => behind
  | word :: words =>
    (gap 0).text ++ (word ++ spaced (fun n => gap (n + 1)) behind words)

/-- The text of one line. -/
def LogicalLine.layOut (layout : Layout) (line : LogicalLine) : Text :=
  line.name ++
    Layout.spaced layout.gap (Blank.texts layout.trailing) line.details

/-- The text of some lines, with line feeds between them.  The last line has
its line feeds as well only if its layout says so. -/
def LogicalLine.render (lines : List (Layout × LogicalLine)) : Text :=
  [Text.lineFeed].intercalate (lines.map fun line =>
    line.2.layOut line.1 ++ List.replicate line.1.emptyLines Text.lineFeed)

namespace Text

theorem isBlank_lineFeed : lineFeed.isBlank = true := by decide

theorem isBlank_space : (Symbol.char ' ').isBlank = true := by decide

theorem space_ne_lineFeed : Symbol.char ' ' ≠ lineFeed := by decide

theorem words_of_isWord {word : Text} (hword : word.IsWord) :
    words word = [word] := by
  rw [words, List.splitOnP_eq_singleton hword.solid]
  simpa using hword.ne_nil

theorem words_cons_of_isBlank {blank : Symbol}
    (hblank : blank.isBlank = true) (text : Text) :
    words (blank :: text) = words text :=
  words_append_cons [] text hblank

theorem words_append_of_isWord {word : Text} (hword : word.IsWord)
    {blank : Symbol} (hblank : blank.isBlank = true) (text : Text) :
    words (word ++ blank :: text) = word :: words (blank :: text) := by
  rw [words_append_cons word text hblank, words_of_isWord hword,
    words_cons_of_isBlank hblank]
  rfl

/-- A text that begins with a symbol that is not blank has a word. -/
theorem words_ne_nil {s : Symbol} (hs : s.isBlank = false) (text : Text) :
    words (s :: text) ≠ [] := by
  intro hnil
  have hflat := flatten_words (s :: text)
  rw [hnil, List.flatten_nil, List.filter_cons_of_pos (by simp [hs])] at hflat
  cases hflat

/-! ## Indented continuations -/

/-- All physical lines of the text but the first one are indented. -/
def Continues (text : Text) : Prop :=
  ∀ physical ∈ (physicalLines text).tail,
    LogicalLine.isIndented physical = true

theorem physicalLines_cons_of_ne {s : Symbol} (hs : s ≠ lineFeed)
    (text : Text) :
    physicalLines (s :: text) =
      (physicalLines text).modifyHead (s :: ·) := by
  simp [physicalLines, List.splitOnP_cons_eq_if_modifyHead, hs]

theorem physicalLines_lineFeed_cons (text : Text) :
    physicalLines (lineFeed :: text) = [] :: physicalLines text :=
  physicalLines_append_cons [] text

theorem continues_nil : Continues [] := by
  intro physical hphysical
  cases hphysical

theorem Continues.cons {s : Symbol} (hs : s ≠ lineFeed) {text : Text}
    (htext : Continues text) : Continues (s :: text) := by
  unfold Continues
  rw [physicalLines_cons_of_ne hs, List.tail_modifyHead]
  exact htext

theorem Continues.append {front text : Text} (hfront : lineFeed ∉ front)
    (htext : Continues text) : Continues (front ++ text) := by
  induction front with
  | nil => exact htext
  | cons s front ih =>
    rw [List.mem_cons, not_or] at hfront
    exact (ih hfront.2).cons (Ne.symm hfront.1)

theorem Continues.wrap {indent : Symbol}
    (hindent : indent ∈ LogicalLine.indents) {text : Text}
    (htext : Continues text) : Continues (lineFeed :: indent :: text) := by
  have hne : indent ≠ lineFeed := by
    rintro rfl
    revert hindent
    decide
  intro physical hphysical
  rw [physicalLines_lineFeed_cons, physicalLines_cons_of_ne hne,
    List.tail_cons] at hphysical
  cases hlines : physicalLines text with
  | nil => exact absurd hlines (List.splitOnP_ne_nil _ text)
  | cons first others =>
    rw [hlines, List.modifyHead_cons, List.mem_cons] at hphysical
    rcases hphysical with rfl | hmem
    · simpa [LogicalLine.indents, LogicalLine.isIndented] using hindent
    · apply htext
      rw [hlines]
      exact hmem

theorem IsWord.append {front back : Text} (hfront : front.IsWord)
    (hback : ∀ s ∈ back, s.isBlank = false) : IsWord (front ++ back) where
  ne_nil := List.append_ne_nil_of_left_ne_nil hfront.ne_nil back
  solid := by
    intro s hs
    rcases List.mem_append.mp hs with hs | hs
    · exact hfront.solid s hs
    · exact hback s hs

theorem isWord_cons {s : Symbol} {rest : Text} (hs : s.isBlank = false)
    (hrest : ∀ t ∈ rest, t.isBlank = false) : IsWord (s :: rest) where
  ne_nil := List.cons_ne_nil s rest
  solid := by
    intro t ht
    rcases List.mem_cons.mp ht with rfl | ht
    · exact hs
    · exact hrest t ht

theorem IsWord.lineFeed_notMem {word : Text} (hword : word.IsWord) :
    lineFeed ∉ word := by
  intro hmem
  have hsolid := hword.solid lineFeed hmem
  rw [isBlank_lineFeed] at hsolid
  cases hsolid

end Text

/-! ## The blanks of a layout -/

namespace Blank

/-- A blank begins with a blank symbol, and holds no word. -/
theorem exists_text_append (blank : Blank) (text : Text) :
    ∃ s rest, blank.text ++ text = s :: rest ∧ s.isBlank = true ∧
      Text.words (s :: rest) = Text.words text := by
  cases blank with
  | inline s hblank hfeed =>
    exact ⟨s, text, rfl, hblank, Text.words_cons_of_isBlank hblank text⟩
  | wrap indent hindent =>
    have hblank : indent.isBlank = true := by
      revert hindent
      revert indent
      decide
    refine ⟨Text.lineFeed, indent :: text, rfl, Text.isBlank_lineFeed, ?_⟩
    rw [Text.words_cons_of_isBlank Text.isBlank_lineFeed,
      Text.words_cons_of_isBlank hblank]

theorem continues_append (blank : Blank) {text : Text}
    (htext : text.Continues) : (blank.text ++ text).Continues := by
  cases blank with
  | inline s hblank hfeed => exact htext.cons hfeed
  | wrap indent hindent => exact htext.wrap hindent

theorem texts_cons (blank : Blank) (blanks : List Blank) :
    texts (blank :: blanks) = blank.text ++ texts blanks :=
  List.flatMap_cons

theorem words_texts_append (blanks : List Blank) (text : Text) :
    Text.words (texts blanks ++ text) = Text.words text := by
  induction blanks with
  | nil => rfl
  | cons blank blanks ih =>
    obtain ⟨s, rest, htext, -, hwords⟩ :=
      blank.exists_text_append (texts blanks ++ text)
    rw [texts_cons, List.append_assoc, htext, hwords, ih]

theorem continues_texts_append (blanks : List Blank) {text : Text}
    (htext : text.Continues) : (texts blanks ++ text).Continues := by
  induction blanks with
  | nil => exact htext
  | cons blank blanks ih =>
    rw [texts_cons, List.append_assoc]
    exact blank.continues_append ih

end Blank

namespace Gap

theorem exists_text_append (gap : Gap) (text : Text) :
    ∃ s rest, gap.text ++ text = s :: rest ∧ s.isBlank = true ∧
      Text.words (s :: rest) = Text.words text := by
  obtain ⟨s, rest, htext, hblank, hwords⟩ :=
    gap.first.exists_text_append (Blank.texts gap.others ++ text)
  refine ⟨s, rest, ?_, hblank, ?_⟩
  · rw [← htext, Gap.text, List.append_assoc]
  · rw [hwords, Blank.words_texts_append]

theorem continues_append (gap : Gap) {text : Text}
    (htext : text.Continues) : (gap.text ++ text).Continues := by
  rw [Gap.text, List.append_assoc]
  exact gap.first.continues_append (Blank.continues_texts_append _ htext)

end Gap

namespace Layout

theorem continues_spaced (gap : Nat → Gap) {behind : Text}
    (hbehind : behind.Continues) {words : List Text}
    (hwords : ∀ word ∈ words, word.IsWord) :
    (spaced gap behind words).Continues := by
  induction words generalizing gap with
  | nil => exact hbehind
  | cons word words ih =>
    have hrest := ih (fun n => gap (n + 1))
      (fun w hw => hwords w (List.mem_cons_of_mem _ hw))
    have hword := hwords word (List.mem_cons_self ..)
    exact (gap 0).continues_append
      (hrest.append hword.lineFeed_notMem)

/-- A word in front of more words, each with its blanks, keeps apart from
them. -/
theorem words_append_spaced {word : Text} (hword : word.IsWord)
    (gap : Nat → Gap) (blanks : List Blank) {words : List Text}
    (hwords : ∀ w ∈ words, w.IsWord) :
    (word ++ spaced gap (Blank.texts blanks) words).words =
      word :: words := by
  induction words generalizing gap word with
  | nil =>
    cases blanks with
    | nil =>
      change Text.words (word ++ []) = [word]
      rw [List.append_nil, Text.words_of_isWord hword]
    | cons blank blanks =>
      obtain ⟨s, rest, htext, hblank, hrest⟩ :=
        blank.exists_text_append (Blank.texts blanks)
      have hnone := Blank.words_texts_append blanks []
      rw [List.append_nil, Text.words_nil] at hnone
      rw [spaced, Blank.texts_cons, htext,
        Text.words_append_of_isWord hword hblank, hrest, hnone]
  | cons next words ih =>
    have hnext := hwords next (List.mem_cons_self ..)
    have hothers : ∀ w ∈ words, w.IsWord :=
      fun w hw => hwords w (List.mem_cons_of_mem _ hw)
    rw [spaced]
    obtain ⟨s, rest, htext, hblank, hrest⟩ :=
      (gap 0).exists_text_append
        (next ++ spaced (fun n => gap (n + 1)) (Blank.texts blanks) words)
    rw [htext, Text.words_append_of_isWord hword hblank, hrest,
      ih hnext (fun n => gap (n + 1)) hothers]

end Layout

/-! ## Folding gives the lines back -/

namespace LogicalLine

theorem continues_layOut (layout : Layout) {line : LogicalLine}
    (hwords : ∀ word ∈ line.words, word.IsWord) :
    (line.layOut layout).Continues := by
  have htrailing := Blank.continues_texts_append layout.trailing
    Text.continues_nil
  rw [List.append_nil] at htrailing
  have hname : line.name.IsWord := hwords _ (List.mem_cons_self ..)
  have hdetails : ∀ word ∈ line.details, word.IsWord :=
    fun word hword => hwords word (List.mem_cons_of_mem _ hword)
  exact (Layout.continues_spaced layout.gap htrailing hdetails).append
    hname.lineFeed_notMem

theorem words_layOut (layout : Layout) {line : LogicalLine}
    (hwords : ∀ word ∈ line.words, word.IsWord) :
    (line.layOut layout).words = line.words :=
  Layout.words_append_spaced (hwords _ (List.mem_cons_self ..)) _ _
    fun word hword => hwords word (List.mem_cons_of_mem _ hword)

theorem fold_of_isIndented {physical : List Text}
    (hphysical : ∀ p ∈ physical, isIndented p = true) (line : LogicalLine)
    (rest : List Text) :
    fold (some line) (physical ++ rest) =
      fold (some (line.extend (physical.flatMap Text.words))) rest := by
  induction physical generalizing line with
  | nil => simp [extend]
  | cons p physical ih =>
    have hp := hphysical p (List.mem_cons_self ..)
    rw [List.cons_append, fold, if_pos hp,
      ih fun q hq => hphysical q (List.mem_cons_of_mem _ hq)]
    simp [extend]

theorem fold_of_not_isIndented {physical : Text}
    (hphysical : isIndented physical = false) (opened : Option LogicalLine)
    (rest : List Text) :
    fold opened (physical :: rest) =
      opened.toList ++ fold (ofWords? physical.words) rest := by
  cases opened with
  | none => rfl
  | some line =>
    rw [fold, hphysical]
    rfl

/-- The physical lines of a text that begins with a word and is indented from
then on are folded into one line. -/
theorem fold_physicalLines {s : Symbol} {text : Text} {line : LogicalLine}
    (hs : s.isBlank = false) (hcontinues : Text.Continues (s :: text))
    (hwords : Text.words (s :: text) = line.words)
    (opened : Option LogicalLine) (rest : List Text) :
    fold opened (Text.physicalLines (s :: text) ++ rest) =
      opened.toList ++ fold (some line) rest := by
  have hfeed : s ≠ Text.lineFeed := by
    rintro rfl
    rw [Text.isBlank_lineFeed] at hs
    cases hs
  have hlines := Text.physicalLines_cons_of_ne hfeed text
  cases htext : text.physicalLines with
  | nil => exact absurd htext (List.splitOnP_ne_nil _ text)
  | cons first others =>
    rw [htext, List.modifyHead_cons] at hlines
    have hfirst : isIndented (s :: first) = false := by
      simp only [isIndented, List.head?_cons, Option.some.injEq,
        Bool.or_eq_false_iff, decide_eq_false_iff_not]
      constructor
      · rintro rfl
        revert hs
        decide
      · rintro rfl
        revert hs
        decide
    have hall := Text.flatMap_words_physicalLines (s :: text)
    rw [hlines, List.flatMap_cons, hwords] at hall
    have hothers : ∀ p ∈ others, isIndented p = true := by
      intro p hp
      apply hcontinues
      rw [hlines]
      exact hp
    rw [hlines, List.cons_append, fold_of_not_isIndented hfirst]
    cases hname : Text.words (s :: first) with
    | nil => exact absurd hname (Text.words_ne_nil hs first)
    | cons name more =>
      rw [hname, words, List.cons_append, List.cons.injEq] at hall
      obtain ⟨rfl, hdetails⟩ := hall
      rw [ofWords?, fold_of_isIndented hothers, extend, hdetails]

theorem fold_replicate_nil (n : Nat) (rest : List Text) :
    fold none (List.replicate n [] ++ rest) = fold none rest := by
  induction n with
  | zero => rfl
  | succ n ih =>
    rw [List.replicate_succ, List.cons_append, fold]
    exact ih

theorem physicalLines_append_replicate (text : Text) (n : Nat) :
    Text.physicalLines (text ++ List.replicate n Text.lineFeed) =
      text.physicalLines ++ List.replicate n [] := by
  induction n generalizing text with
  | zero => simp
  | succ n ih =>
    rw [List.replicate_succ, Text.physicalLines_append_cons,
      List.replicate_succ]
    congr 1
    have hnil := ih []
    rw [List.nil_append] at hnil
    rw [hnil]
    rfl

theorem physicalLines_intercalate {texts : List Text} (htexts : texts ≠ []) :
    Text.physicalLines ([Text.lineFeed].intercalate texts) =
      texts.flatMap Text.physicalLines := by
  induction texts with
  | nil => exact absurd rfl htexts
  | cons text texts ih =>
    cases texts with
    | nil => simp [List.intercalate]
    | cons next texts =>
      have hcut : [Text.lineFeed].intercalate (text :: next :: texts) =
          text ++ Text.lineFeed ::
            [Text.lineFeed].intercalate (next :: texts) := by
        simp [List.intercalate]
      rw [hcut, Text.physicalLines_append_cons, ih (by simp),
        ← List.flatMap_cons]

theorem fold_render {lines : List (Layout × LogicalLine)}
    (hwords : ∀ line ∈ lines, ∀ word ∈ line.2.words, word.IsWord)
    (opened : Option LogicalLine) :
    fold opened (lines.flatMap fun line =>
        Text.physicalLines (line.2.layOut line.1 ++
          List.replicate line.1.emptyLines Text.lineFeed)) =
      opened.toList ++ lines.map Prod.snd := by
  induction lines generalizing opened with
  | nil => simp [fold]
  | cons entry lines ih =>
    obtain ⟨layout, line⟩ := entry
    have hline : ∀ word ∈ line.words, word.IsWord :=
      hwords (layout, line) (List.mem_cons_self ..)
    have hrest := ih fun other hother =>
      hwords other (List.mem_cons_of_mem _ hother)
    have hcontinues := continues_layOut layout hline
    have hlaid := words_layOut layout hline
    have hname : line.name.IsWord := hline _ (List.mem_cons_self ..)
    obtain ⟨s, name, hsplit⟩ := List.exists_cons_of_ne_nil hname.ne_nil
    have hs : s.isBlank = false := by
      apply hname.solid
      rw [hsplit]
      exact List.mem_cons_self ..
    rw [List.flatMap_cons, physicalLines_append_replicate,
      List.append_assoc]
    dsimp only
    rw [layOut, hsplit, List.cons_append] at hcontinues hlaid ⊢
    rw [fold_physicalLines hs hcontinues hlaid]
    congr 1
    -- the line stays open until the first of the line feeds behind it
    cases layout.emptyLines with
    | zero => exact hrest (some line)
    | succ n =>
      rw [List.replicate_succ, List.cons_append, fold_of_not_isIndented rfl]
      change [line] ++ fold none _ = _
      rw [fold_replicate_nil, hrest none]
      rfl

/-- Laying out some lines and folding the text gives the lines back. -/
theorem ofText_render {lines : List (Layout × LogicalLine)}
    (hwords : ∀ line ∈ lines, ∀ word ∈ line.2.words, word.IsWord) :
    ofText (render lines) = lines.map Prod.snd := by
  cases lines with
  | nil => rfl
  | cons line lines =>
    unfold ofText render
    rw [physicalLines_intercalate (by simp), List.flatMap_map]
    exact fold_render hwords none

end LogicalLine
end RaidStatus

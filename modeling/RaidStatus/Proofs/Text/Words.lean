import RaidStatus.Proofs.LogicalLine.Layout

/-!
# Where the words of a text stand

Each word of a text is a part of it, with a blank or nothing on either side
(`Text.exists_eq_append_of_mem_words`).  So what is found in a word, such as a
run of digits, is found in the text with the same neighbours.

Turning the endings of lines into line feeds changes blanks only, and no word
(`Text.words_normalizeEndings`).
-/

namespace RaidStatus
namespace Text

/-- The first piece of a text stands at its start, and every other one behind a
separating symbol; each piece reaches up to the next of these symbols. -/
theorem eq_append_of_splitOnP_eq_cons {separates : Symbol → Bool} {text : Text}
    {first : Text} {others : List Text}
    (hsplit : text.splitOnP separates = first :: others) :
    (∃ behind, text = first ++ behind ∧
      ∀ s ∈ behind.head?, separates s = true) ∧
    ∀ piece ∈ others, ∃ before mark behind,
      text = before ++ mark :: (piece ++ behind) ∧ separates mark = true ∧
        ∀ s ∈ behind.head?, separates s = true := by
  induction text generalizing first others with
  | nil =>
    simp only [List.splitOnP_nil, List.cons.injEq] at hsplit
    obtain ⟨rfl, rfl⟩ := hsplit
    exact ⟨⟨[], rfl, by simp⟩, by simp⟩
  | cons s text ih =>
    obtain ⟨next, more, hmore⟩ :=
      List.exists_cons_of_ne_nil (List.splitOnP_ne_nil separates text)
    obtain ⟨⟨behind, htext, hbehind⟩, hothers⟩ := ih hmore
    rw [List.splitOnP_cons_eq_if_modifyHead] at hsplit
    by_cases hs : separates s = true
    · rw [if_pos hs, hmore, List.cons.injEq] at hsplit
      obtain ⟨rfl, rfl⟩ := hsplit
      refine ⟨⟨s :: text, rfl, by simpa using hs⟩, ?_⟩
      intro piece hpiece
      rcases List.mem_cons.mp hpiece with rfl | hpiece
      · exact ⟨[], s, behind, by rw [htext]; rfl, hs, hbehind⟩
      · obtain ⟨before, mark, rest, hrest, hmark, hhead⟩ :=
          hothers piece hpiece
        exact ⟨s :: before, mark, rest, by rw [hrest]; rfl, hmark, hhead⟩
    · rw [if_neg hs, hmore, List.modifyHead_cons,
        List.cons.injEq] at hsplit
      obtain ⟨rfl, rfl⟩ := hsplit
      refine ⟨⟨behind, by rw [htext]; rfl, hbehind⟩, ?_⟩
      intro piece hpiece
      obtain ⟨before, mark, rest, hrest, hmark, hhead⟩ := hothers piece hpiece
      exact ⟨s :: before, mark, rest, by rw [hrest]; rfl, hmark, hhead⟩

/-- No piece holds a separating symbol. -/
theorem not_separates_of_mem_splitOnP {separates : Symbol → Bool}
    {text piece : Text} (hpiece : piece ∈ text.splitOnP separates) {s : Symbol}
    (hs : s ∈ piece) : separates s = false := by
  have hmem : s ∈ (text.splitOnP separates).flatten :=
    List.mem_flatten_of_mem hpiece hs
  rw [flatten_splitOnP, List.mem_filter] at hmem
  simpa using hmem.2

/-- A word stands between blanks, or at an end of the text. -/
theorem exists_eq_append_of_mem_words {text word : Text}
    (hword : word ∈ words text) :
    ∃ before behind, text = before ++ (word ++ behind) ∧
      (∀ s ∈ before.getLast?, s.isBlank = true) ∧
      ∀ s ∈ behind.head?, s.isBlank = true := by
  have hpiece := (List.mem_filter.mp hword).1
  obtain ⟨first, others, hsplit⟩ :=
    List.exists_cons_of_ne_nil (List.splitOnP_ne_nil Symbol.isBlank text)
  obtain ⟨⟨behind, htext, hbehind⟩, hothers⟩ :=
    eq_append_of_splitOnP_eq_cons hsplit
  rw [hsplit, List.mem_cons] at hpiece
  rcases hpiece with rfl | hpiece
  · exact ⟨[], behind, htext, by simp, hbehind⟩
  · obtain ⟨before, mark, rest, hrest, hmark, hhead⟩ := hothers word hpiece
    exact ⟨before ++ [mark], rest, by simp [hrest], by simpa using hmark,
      hhead⟩

/-- The words of a text are words. -/
theorem isWord_of_mem_words {text word : Text} (hword : word ∈ words text) :
    word.IsWord where
  ne_nil := ne_nil_of_mem_words hword
  solid := fun _ hs =>
    not_separates_of_mem_splitOnP (List.mem_filter.mp hword).1 hs

theorem isInfix_of_mem_words {text word : Text} (hword : word ∈ words text) :
    word <:+: text := by
  obtain ⟨before, behind, htext, -, -⟩ := exists_eq_append_of_mem_words hword
  exact ⟨before, behind, by rw [htext, List.append_assoc]⟩

/-! ## Line endings are blank -/

theorem isBlank_carriageReturn : carriageReturn.isBlank = true := by decide

theorem words_append_normalizeEndings (front text : Text) :
    words (front ++ normalizeEndings text) = words (front ++ text) := by
  -- what stands in front of an ending is a text of its own, whatever ends it
  fun_induction normalizeEndings text generalizing front with
  | case1 => rfl
  | case2 text hfeed ih =>
    obtain ⟨rest, rfl⟩ := List.head?_eq_some_iff.mp hfeed
    rw [ih, words_append_cons front _ isBlank_carriageReturn,
      words_append_cons front rest isBlank_lineFeed,
      words_cons_of_isBlank isBlank_lineFeed]
  | case3 text hfeed ih =>
    have htext := ih []
    rw [List.nil_append, List.nil_append] at htext
    rw [words_append_cons front _ isBlank_lineFeed, htext,
      words_append_cons front text isBlank_carriageReturn]
  | case4 s text hs ih =>
    have htext := ih (front ++ [s])
    rwa [List.append_assoc, List.append_assoc] at htext

/-- The words of a text do not depend on how its lines end. -/
theorem words_normalizeEndings (text : Text) :
    words (normalizeEndings text) = words text :=
  words_append_normalizeEndings [] text

end Text

/-- The words of each logical line are words of the text. -/
theorem LogicalLine.mem_words_of_mem_ofText {text word : Text}
    {line : LogicalLine} (hline : line ∈ ofText text)
    (hword : word ∈ line.words) : word ∈ text.words := by
  rw [← flatMap_words_ofText]
  exact List.mem_flatMap.mpr ⟨line, hline, hword⟩

end RaidStatus

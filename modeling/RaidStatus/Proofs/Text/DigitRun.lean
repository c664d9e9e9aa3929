import RaidStatus.Proofs.FirstError
import RaidStatus.Proofs.Text.Numeral
import RaidStatus.Proofs.Text.Words

/-!
# Runs of digits

A number of a report is a run of digits that has no further digit on either
side.  A `DigitRun` of a text is such a run, together with what stands in front
of it and behind it.  A run of a word that is too long is one of every text
that has the word (`LongRun.of_mem_words`).

The number at the front of a text is read from the run behind the blanks and
the sign there, and is refused exactly if that run is too long
(`Numeral.leading_eq_error_iff`).
-/

namespace RaidStatus

/-- Digits of a text, with no digit just before and just behind them. -/
structure DigitRun (text : Text) where
  front : Text
  digits : Text
  behind : Text
  text_eq : text = front ++ (digits ++ behind)
  isDigit : ∀ s ∈ digits, s.isDigit = true
  front_last : ∀ s ∈ front.getLast?, s.isDigit = false
  behind_head : ∀ s ∈ behind.head?, s.isDigit = false

theorem Symbol.not_isDigit_of_isBlank {s : Symbol} (hs : s.isBlank = true) :
    s.isDigit = false := by
  rw [Bool.eq_false_iff]
  intro hdigit
  rw [isBlank_of_isDigit hdigit] at hs
  cases hs

namespace DigitRun

/-- Every text begins with a run, which may be empty. -/
theorem exists_at_head (text : Text) :
    ∃ run : DigitRun text,
      run.front = [] ∧ run.digits = Numeral.run text := by
  refine ⟨⟨[], Numeral.run text, text.dropWhile Symbol.isDigit,
    List.takeWhile_append_dropWhile.symm, ?_, by simp, ?_⟩, rfl, rfl⟩
  · intro s hs
    exact List.all_eq_true.mp List.all_takeWhile s hs
  · intro s hs
    have hhead := List.head?_dropWhile_not Symbol.isDigit text
    rw [Option.mem_def.mp hs] at hhead
    simpa using hhead

/-- A run stays one when more text is put around the text, if no digits are
put next to it. -/
theorem exists_of_eq_append {text part before behind : Text}
    (htext : text = before ++ (part ++ behind))
    (hbefore : ∀ s ∈ before.getLast?, s.isDigit = false)
    (hbehind : ∀ s ∈ behind.head?, s.isDigit = false)
    (run : DigitRun part) :
    ∃ wider : DigitRun text,
      wider.front = before ++ run.front ∧ wider.digits = run.digits := by
  refine ⟨⟨before ++ run.front, run.digits, run.behind ++ behind, ?_,
    run.isDigit, ?_, ?_⟩, rfl, rfl⟩
  · calc
      text = before ++ (part ++ behind) := htext
      _ = before ++ ((run.front ++ (run.digits ++ run.behind)) ++ behind) :=
        congrArg (fun part => before ++ (part ++ behind)) run.text_eq
      _ = before ++ run.front ++ (run.digits ++ (run.behind ++ behind)) := by
        simp only [List.append_assoc]
  · intro s hs
    rw [List.getLast?_append, Option.mem_def, Option.or_eq_some_iff] at hs
    rcases hs with hs | ⟨-, hs⟩
    · exact run.front_last s hs
    · exact hbefore s hs
  · intro s hs
    rw [List.head?_append, Option.mem_def, Option.or_eq_some_iff] at hs
    rcases hs with hs | ⟨-, hs⟩
    · exact run.behind_head s hs
    · exact hbehind s hs

/-- What stands in front of a run says which one it is. -/
theorem digits_eq {text rest : Text} (run : DigitRun text)
    (htext : text = run.front ++ rest) : run.digits = Numeral.run rest := by
  have hrest : run.digits ++ run.behind = rest :=
    List.append_cancel_left (run.text_eq.symm.trans htext)
  rw [← hrest, Numeral.run_append run.isDigit run.behind_head]

end DigitRun

/-- A text has a run of digits that is too long to be read, and what stands in
front of it.  The run is refused for its length. -/
def LongRun (text front : Text) (error : Numeral.TooLong) : Prop :=
  ∃ run : DigitRun text, run.front = front ∧
    Numeral.maxDigits < run.digits.length ∧ error = ⟨run.digits.length⟩

namespace LongRun

variable {text part front before behind : Text} {error : Numeral.TooLong}

theorem wider (h : LongRun part front error)
    (htext : text = before ++ (part ++ behind))
    (hbefore : ∀ s ∈ before.getLast?, s.isDigit = false)
    (hbehind : ∀ s ∈ behind.head?, s.isDigit = false) :
    LongRun text (before ++ front) error := by
  obtain ⟨run, rfl, hlong, herror⟩ := h
  obtain ⟨wider, hfront, hdigits⟩ :=
    DigitRun.exists_of_eq_append htext hbefore hbehind run
  exact ⟨wider, hfront, by rwa [hdigits], by rwa [hdigits]⟩

/-- What follows the front of a text has the runs behind that front. -/
theorem append_iff (hbefore : ∀ s ∈ before.getLast?, s.isDigit = false) :
    LongRun (before ++ part) (before ++ front) error ↔
      LongRun part front error := by
  constructor
  · rintro ⟨run, hfront, hlong, herror⟩
    refine ⟨⟨front, run.digits, run.behind, ?_, run.isDigit, ?_,
      run.behind_head⟩, rfl, hlong, herror⟩
    · have htext := run.text_eq
      rw [hfront, List.append_assoc] at htext
      exact List.append_cancel_left htext
    · intro s hs
      apply run.front_last
      rw [hfront, List.getLast?_append, Option.mem_def.mp hs]
      exact rfl
  · intro h
    have htext : before ++ part = before ++ (part ++ []) := by
      rw [List.append_nil]
    exact h.wider htext hbefore (by simp)

/-- A run of a word is a run of each text with that word. -/
theorem of_mem_words {word : Text} (h : LongRun word front error)
    (hword : word ∈ text.words) : ∃ front, LongRun text front error := by
  obtain ⟨before, behind, htext, hbefore, hbehind⟩ :=
    Text.exists_eq_append_of_mem_words hword
  exact ⟨_, h.wider htext
    (fun s hs => Symbol.not_isDigit_of_isBlank (hbefore s hs))
    (fun s hs => Symbol.not_isDigit_of_isBlank (hbehind s hs))⟩

theorem lt_digits (h : LongRun text front error) :
    Numeral.maxDigits < error.digits := by
  obtain ⟨run, -, hlong, rfl⟩ := h
  exact hlong

/-- The text goes on with a digit. -/
theorem exists_digit (h : LongRun text front error) :
    ∃ digit rest, text = front ++ digit :: rest ∧ digit.isDigit = true ∧
      Numeral.read (Numeral.run (digit :: rest)) = .error error := by
  obtain ⟨run, rfl, hlong, rfl⟩ := h
  obtain ⟨digit, more, hdigits⟩ : ∃ digit more, run.digits = digit :: more :=
    List.exists_cons_of_ne_nil (List.ne_nil_of_length_pos (by omega))
  have htext : text = run.front ++ digit :: (more ++ run.behind) := by
    rw [← List.cons_append, ← hdigits]
    exact run.text_eq
  refine ⟨digit, more ++ run.behind, htext, ?_, ?_⟩
  · exact run.isDigit digit (by rw [hdigits]; exact List.mem_cons_self ..)
  · rw [← run.digits_eq htext]
    exact Numeral.read_eq_error_iff.mpr ⟨hlong, rfl⟩

end LongRun

namespace Numeral

/-- What may stand between blanks and the digits of a number. -/
def signs : List Text :=
  [[], [.char '+'], [.char '-']]

/-- Blanks and a sign, both of which may be missing. -/
def IsLead (front : Text) : Prop :=
  ∃ blanks, ∃ sign ∈ signs, front = blanks ++ sign ∧
    ∀ s ∈ blanks, s.isBlank = true

theorem IsLead.not_isDigit {front : Text} (h : IsLead front) {s : Symbol}
    (hs : s ∈ front) : s.isDigit = false := by
  obtain ⟨blanks, sign, hsign, rfl, hblanks⟩ := h
  have hsigns : ∀ sign ∈ signs, ∀ s ∈ sign, s.isDigit = false := by decide
  rcases List.mem_append.mp hs with hs | hs
  · exact Symbol.not_isDigit_of_isBlank (hblanks s hs)
  · exact hsigns sign hsign s hs

theorem leading_minus_eq_error_iff {rest : Text} {error : TooLong} :
    leading (.char '-' :: rest) = .error error ↔
      read (run rest) = .error error := by
  change (read (run rest)).map (fun n => -(n : Int)) = .error error ↔ _
  cases read (run rest) <;>
    simp [bind, pure, Except.bind, Except.pure, Except.map]

/-- The digits of the number at the front of a text stand behind blanks and a
sign. -/
theorem exists_lead (text : Text) :
    ∃ front rest, text = front ++ rest ∧ IsLead front ∧
      ∀ error, leading text = .error error →
        read (run rest) = .error error := by
  have htext : text = text.takeWhile Symbol.isBlank ++
      text.dropWhile Symbol.isBlank := List.takeWhile_append_dropWhile.symm
  have hblanks : ∀ s ∈ text.takeWhile Symbol.isBlank, s.isBlank = true :=
    List.all_eq_true.mp List.all_takeWhile
  have hlead : ∀ sign ∈ signs,
      IsLead (text.takeWhile Symbol.isBlank ++ sign) :=
    fun sign hsign => ⟨_, sign, hsign, rfl, hblanks⟩
  unfold leading
  split
  · next rest hrest =>
    rw [hrest] at htext
    refine ⟨_, rest, ?_, hlead [.char '-'] (by decide), ?_⟩
    · rw [List.append_assoc]
      exact htext
    · exact fun error => leading_minus_eq_error_iff.mp
  · next rest hrest =>
    rw [hrest] at htext
    refine ⟨_, rest, ?_, hlead [.char '+'] (by decide),
      fun error => map_eq_error_iff.mp⟩
    rw [List.append_assoc]
    exact htext
  · refine ⟨_, _, ?_, hlead [] (by decide),
      fun error => map_eq_error_iff.mp⟩
    rw [List.append_nil]
    exact htext

/-- A number is refused if the digits behind the blanks and the sign are. -/
theorem leading_append_eq_error_iff {front : Text} (hfront : IsLead front)
    {digit : Symbol} (hdigit : digit.isDigit = true) (rest : Text)
    {error : TooLong} :
    leading (front ++ digit :: rest) = .error error ↔
      read (run (digit :: rest)) = .error error := by
  obtain ⟨blanks, sign, hsign, rfl, hblanks⟩ := hfront
  have hdrop : (blanks ++ sign ++ digit :: rest).dropWhile Symbol.isBlank =
      (sign ++ digit :: rest).dropWhile Symbol.isBlank := by
    rw [List.append_assoc, List.dropWhile_append_of_pos hblanks]
  have hleading : leading (blanks ++ sign ++ digit :: rest) =
      leading (sign ++ digit :: rest) := by
    unfold leading
    rw [hdrop]
  rw [hleading]
  simp only [signs, List.mem_cons, List.not_mem_nil, or_false] at hsign
  rcases hsign with rfl | rfl | rfl
  · rw [List.nil_append, leading_cons_of_isDigit hdigit, map_eq_error_iff]
  · exact map_eq_error_iff
  · exact leading_minus_eq_error_iff

/-- The number at the front of a text is refused exactly if it has too many
digits. -/
theorem leading_eq_error_iff {text : Text} {error : TooLong} :
    leading text = .error error ↔
      ∃ front, IsLead front ∧ LongRun text front error := by
  constructor
  · intro herror
    obtain ⟨front, rest, rfl, hfront, hrest⟩ := exists_lead text
    refine ⟨front, hfront, ?_⟩
    obtain ⟨run, hrun, hdigits⟩ := DigitRun.exists_at_head rest
    have hlong : LongRun rest [] error := by
      refine ⟨run, hrun, ?_⟩
      rw [hdigits]
      exact read_eq_error_iff.mp (hrest error herror)
    rw [← LongRun.append_iff fun s hs =>
      hfront.not_isDigit (List.mem_of_getLast? hs)] at hlong
    rwa [List.append_nil] at hlong
  · rintro ⟨front, hfront, hlong⟩
    obtain ⟨digit, rest, rfl, hdigit, hread⟩ := hlong.exists_digit
    exact (leading_append_eq_error_iff hfront hdigit rest).mpr hread

/-- Nothing stands in front of a number that begins with a digit. -/
theorem leading_cons_eq_error_iff {digit : Symbol}
    (hdigit : digit.isDigit = true) {rest : Text} {error : TooLong} :
    leading (digit :: rest) = .error error ↔
      LongRun (digit :: rest) [] error := by
  rw [leading_eq_error_iff]
  constructor
  · rintro ⟨front, hfront, hlong⟩
    cases front with
    | nil => exact hlong
    | cons s front =>
      obtain ⟨_, _, htext, -, -⟩ := hlong.exists_digit
      cases htext
      have hs := hfront.not_isDigit (List.mem_cons_self ..)
      rw [hdigit] at hs
      cases hs
  · intro hlong
    exact ⟨[], ⟨[], [], by decide, rfl, by simp⟩, hlong⟩

end Numeral
end RaidStatus

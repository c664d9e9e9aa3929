import RaidStatus.Proofs.Text.LineEnding
import RaidStatus.Proofs.Watch.HeldFile

/-!
# Reports in files

A report is the same whether its lines are read from a file, where each of them
ends in a way of its own, or from a text that has line feeds between them
(`Report.readFile_encode_text`).
-/

namespace RaidStatus

namespace Report

/-- Only the logical lines of a text matter to reading it. -/
theorem read_congr {text other : Text}
    (hlines : LogicalLine.ofText text = LogicalLine.ofText other)
    (order : ArrayOrder) : read order text = read order other := by
  unfold read
  rw [hlines]

theorem readFile_encode_text (file : FileLines) (order : ArrayOrder) :
    readFile order (Text.Utf8.encode file.text) = read order file.joined := by
  unfold readFile
  rw [file.decode_encode_text]
  exact read_congr file.ofText_normalizeEndings_text order

end Report

/-- What an action reads from a file: the arrays or the error of a report, and
the notices about its lines, which may be followed by that of a descriptor that
is held from now on. -/
structure Session.IsReadingOf
    (report : Noted Numeral.TooLong (List ArrayStatus))
    (answer : Noted SessionError (Option (List ArrayStatus))) : Prop where
  outcome_eq : answer.outcome =
    (report.outcome.map some).mapError SessionError.tooLong
  notices_eq : answer.notices = report.notices ∨
    answer.notices = report.notices ++ [.held]

namespace Session

/-- A reading that is not made to fail reads the file that it goes to. -/
theorem isReadingOf_of_source? {session : Session} {hold : Bool} {id : Nat}
    (hsource : session.source? hold = some id) (order : ArrayOrder) :
    IsReadingOf (Report.readFile order (session.fs.contents id))
      (session.read hold order none).2 where
  outcome_eq := by
    rw [read_outcome, hsource]
    rfl
  notices_eq := by
    have hcase := session.readCase_read hold order none
    generalize (session.read hold order none).1 = after at hcase
    generalize (session.read hold order none).2 = answer at hcase ⊢
    cases hcase with
    | unreadable hfails => simp [hsource] at hfails
    | unmarked _ _ _ _ hfails => cases hfails
    | refused other _ hother | read other _ _ hother =>
      rw [hsource, Option.some.injEq] at hother
      subst hother
      exact Or.inl rfl
    | taken other _ _ _ _ hother =>
      rw [hsource, Option.some.injEq] at hother
      subst hother
      exact Or.inr rfl

end Session

namespace Report

/-- It makes no difference how the lines of a file end.  The file gives the
same arrays, or the same error, and the same notices as its lines with line
feeds between them, in either order, and whichever descriptor it is read
through. -/
theorem fileLines_reads (file : FileLines) (order : ArrayOrder) :
    readFile order (Text.Utf8.encode file.text) = read order file.joined ∧
      (∀ session : Session,
        session.fs.current? = some (Text.Utf8.encode file.text) →
          (session.read false order none).2 =
            (some <$> read order file.joined).mapError .tooLong) ∧
      ∀ (session : Session) (hold : Bool) (id : Nat),
        session.source? hold = some id →
        session.fs.contents id = Text.Utf8.encode file.text →
          Session.IsReadingOf (read order file.joined)
            (session.read hold order none).2 := by
  have hfile := readFile_encode_text file order
  refine ⟨hfile, ?_, ?_⟩
  · intro session hcurrent
    rw [Session.read_false_eq, if_neg (by simp), hcurrent, Lookup.arraysOf,
      hfile]
  · intro session hold id hsource hcontents
    have hreads := Session.isReadingOf_of_source? hsource order
    rwa [hcontents, hfile] at hreads

/-- A file of three lines, each of which ends in another way. -/
def mixedLines : FileLines where
  ended :=
    [(⟨"md0 : inactive", by decide, by decide⟩, .returnAndFeed),
      (⟨" sda1[0]", by decide, by decide⟩, .carriageReturn)]
  last := some ⟨"md1 :", by decide, by decide⟩
  separate := by
    intro front line back hended
    cases front with
    | nil => cases hended
    | cons first front =>
      cases front with
      | nil =>
        cases hended
        decide
      | cons second front => simp at hended

/-- A session with that file. -/
def mixedSession : Session :=
  Session.initial.run [.write (Text.Utf8.encode mixedLines.text)]

theorem mixedLines_reads :
    readFile .partsLast (Text.Utf8.encode mixedLines.text) =
        read .partsLast mixedLines.joined ∧
      (mixedSession.read false .partsLast none).2 =
        (some <$> read .partsLast mixedLines.joined).mapError .tooLong ∧
      Session.IsReadingOf (read .partsLast mixedLines.joined)
        (mixedSession.read true .partsLast none).2 := by
  obtain ⟨hfile, hpath, hheld⟩ := fileLines_reads mixedLines .partsLast
  exact ⟨hfile, hpath mixedSession rfl, hheld mixedSession true 0 rfl rfl⟩

end Report
end RaidStatus

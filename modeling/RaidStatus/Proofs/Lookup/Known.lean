import RaidStatus.Proofs.Lookup.Answer
import RaidStatus.Proofs.Report.Consistency

/-!
# Which arrays are known

Whether an array is known is decided by the words that begin the logical lines
of the status file.  Every line that is about an array puts an array of its name
on the list, wherever it is put, and no other line does
(`Report.exists_name_eq_iff`).

So it is only the set of these words that matters, together with the name: the
rest of each line, the order of the arrays and the held descriptor do not.
-/

namespace RaidStatus
namespace Report

/-- The name begins with `md` and has up to thirty-one symbols, the third of
which is a digit or an underscore. -/
def IsArrayLike (name : Text) : Prop :=
  Text.ofString "md" <+: name ∧ 3 ≤ name.length ∧ name.length ≤ 31 ∧
    ∃ symbol ∈ name[2]?, symbol.isDigit = true ∨ symbol = .char '_'

/-- The logical lines of a file. -/
def fileLines (bytes : List UInt8) : List LogicalLine :=
  LogicalLine.ofText (Text.Utf8.decode bytes).normalizeEndings

theorem isArrayName_eq_true_iff {name : Text} :
    isArrayName name = true ↔ IsArrayLike name := by
  have hmd : (Text.ofString "md").length = 2 := rfl
  rw [isArrayName_iff]
  constructor
  · rintro ⟨symbol, rest, rfl, hlength, hsymbol⟩
    refine ⟨⟨symbol :: rest, rfl⟩, ?_, by omega, symbol, rfl, hsymbol⟩
    rw [List.length_append, List.length_cons]
    omega
  · rintro ⟨⟨rest, rfl⟩, hleast, hmost, symbol, hthird, hsymbol⟩
    cases rest with
    | nil =>
      rw [List.length_append, List.length_nil] at hleast
      omega
    | cons first rest =>
      obtain rfl : first = symbol := Option.some.inj hthird
      exact ⟨first, rest, rfl, by omega, hsymbol⟩

variable {order : ArrayOrder} {text : Text} {arrays : List ArrayStatus}

/-- A line whose name is that of an array gives an array of this name. -/
theorem exists_name_eq_of_line
    (hread : (read order text).outcome = .ok arrays) {line : LogicalLine}
    (hline : line ∈ LogicalLine.ofText text)
    (hname : isArrayName line.name = true) :
    ∃ array ∈ arrays, array.name = line.name := by
  have hheader : line.name ∉ headers := by
    intro hheader
    rw [not_isArrayName_of_mem_headers hheader] at hname
    cases hname
  have harrayLine : line ∈ arrayLines text :=
    List.mem_filter.mpr ⟨hline, isArrayLine_iff.mpr ⟨hheader, hname⟩⟩
  have hstatus : ArrayStatus.ofLine line ∈ arrays.map Except.ok :=
    (map_ok_perm_of_read hread).mem_iff.mpr (List.mem_map_of_mem harrayLine)
  obtain ⟨array, harray, hofLine⟩ := List.mem_map.mp hstatus
  exact ⟨array, harray, ofLine_name hofLine.symm⟩

/-- The names of the arrays are the words that are like names of arrays and
begin a line. -/
theorem exists_name_eq_iff (hread : (read order text).outcome = .ok arrays)
    (name : Text) :
    (∃ array ∈ arrays, array.name = name) ↔
      IsArrayLike name ∧
        ∃ line ∈ LogicalLine.ofText text, line.name = name := by
  constructor
  · rintro ⟨array, harray, rfl⟩
    obtain ⟨hname, line, hline, hlineName, -⟩ :=
      exists_line_of_mem hread harray
    exact ⟨isArrayName_eq_true_iff.mp hname, line, hline, hlineName⟩
  · rintro ⟨hname, line, hline, rfl⟩
    exact exists_name_eq_of_line hread hline
      (isArrayName_eq_true_iff.mpr hname)

end Report

namespace Session

/-- If there is a status file that can be opened, its arrays can be read. -/
def IsReadable (session : Session) : Prop :=
  ∀ bytes ∈ session.fs.current?, ∃ arrays,
    (Report.readFile .partsLast bytes).outcome = .ok arrays

/-- There is a status file, one of whose logical lines begins with a word. -/
def HasLineOf (session : Session) (name : Text) : Prop :=
  ∃ bytes ∈ session.fs.current?, ∃ line ∈ Report.fileLines bytes,
    line.name = name

variable {session : Session} {name : Text}

theorem perform_isKnown_of_none (hfile : session.fs.current? = none) :
    session.perform (.isKnown name) =
      (session, ⟨[.readFailed], .ok (.known false)⟩) := by
  simp only [perform, hfile]
  rfl

theorem perform_isKnown_of_some {bytes : List UInt8}
    {arrays : List ArrayStatus} (hfile : session.fs.current? = some bytes)
    (hread : (Report.readFile .partsLast bytes).outcome = .ok arrays) :
    session.perform (.isKnown name) =
      (session, ⟨(Report.readFile .partsLast bytes).notices,
        .ok (.known (Lookup.byName? name arrays).isSome)⟩) := by
  have harrays := Lookup.arraysOf_outcome_of_readFile hread
  simp only [perform, hfile, Lookup.isKnown, Noted.bind_of_ok harrays]
  exact Prod.ext rfl (Noted.ext (by simp [Lookup.arraysOf]) rfl)

theorem isSome_byName?_iff {arrays : List ArrayStatus} :
    (Lookup.byName? name arrays).isSome = true ↔
      ∃ array ∈ arrays, array.name = name := by
  simp [Lookup.byName?]

/-- The answer to the question whether an array is known. -/
theorem exists_known (hreadable : session.IsReadable) (name : Text) :
    ∃ notices known,
      session.perform (.isKnown name) =
        (session, ⟨notices, .ok (.known known)⟩) ∧
      (known = true ↔ Report.IsArrayLike name ∧ session.HasLineOf name) := by
  cases hfile : session.fs.current? with
  | none =>
    refine ⟨_, _, perform_isKnown_of_none hfile, ?_⟩
    simp [HasLineOf, hfile]
  | some bytes =>
    obtain ⟨arrays, hread⟩ := hreadable bytes hfile
    refine ⟨_, _, perform_isKnown_of_some hfile hread, ?_⟩
    rw [isSome_byName?_iff, Report.exists_name_eq_iff hread]
    simp [HasLineOf, hfile, Report.fileLines]

/-- An array is known if there is a status file, the name is like that of an
array, and some logical line of the file begins with it.  In whatever order
the arrays are read, they have the same names.  The session stays as it is, and
in any other session, with any other file and slot, the answer is the same if
there are lines of this name in both files or in none. -/
theorem isKnown_iff_hasLine (session : Session) (name : Text)
    (hreadable : session.IsReadable) :
    ∃ notices known,
      session.perform (.isKnown name) =
        (session, ⟨notices, .ok (.known known)⟩) ∧
      (known = true ↔ Report.IsArrayLike name ∧ session.HasLineOf name) ∧
      (∀ (bytes : List UInt8) (order : ArrayOrder) (arrays : List ArrayStatus),
        session.fs.current? = some bytes →
        (Report.readFile order bytes).outcome = .ok arrays →
          (known = true ↔ ∃ array ∈ arrays, array.name = name)) ∧
      ∀ other : Session, other.IsReadable →
        (other.HasLineOf name ↔ session.HasLineOf name) →
          ∃ notices', other.perform (.isKnown name) =
            (other, ⟨notices', .ok (.known known)⟩) := by
  obtain ⟨notices, known, hperform, hknown⟩ := exists_known hreadable name
  refine ⟨notices, known, hperform, hknown, ?_, ?_⟩
  · intro bytes order arrays hfile hread
    rw [hknown, Report.exists_name_eq_iff hread]
    simp [HasLineOf, hfile, Report.fileLines]
  · intro other hother hsame
    obtain ⟨notices', known', hperform', hknown'⟩ := exists_known hother name
    have heq : known' = known := by
      rw [Bool.eq_iff_iff, hknown', hknown, hsame]
    exact ⟨notices', heq ▸ hperform'⟩

/-- A report of one array, whose line goes on with the name of another one. -/
def wrappedLine : Text :=
  Text.ofString "md0 : active raid1 sda[0]\n md1 8 blocks\n"

/-- A session with that report. -/
def wrappedSession : Session :=
  Session.initial.run [.write (Text.Utf8.encode wrappedLine)]

theorem decode_wrappedLine :
    Text.Utf8.decode (Text.Utf8.encode wrappedLine) = wrappedLine :=
  Text.Utf8.decode_encode_ofString _

theorem current?_wrappedSession :
    wrappedSession.fs.current? = some (Text.Utf8.encode wrappedLine) := rfl

theorem isReadable_wrappedSession : wrappedSession.IsReadable := by
  intro bytes hfile
  obtain rfl := Option.some.inj (current?_wrappedSession.symm.trans hfile)
  refine ⟨
    [{ name := "md0", activity := .active, level := some "raid1",
       members := ["sda"] }], ?_⟩
  rw [Report.readFile, decode_wrappedLine]
  rfl

theorem hasLineOf_wrappedSession {name : Text} :
    wrappedSession.HasLineOf name ↔ name = "md0" := by
  have hlines : Report.fileLines (Text.Utf8.encode wrappedLine) =
      [⟨"md0", [":", "active", "raid1", "sda[0]", "md1", "8", "blocks"]⟩] := by
    rw [Report.fileLines, decode_wrappedLine]
    rfl
  simp [HasLineOf, current?_wrappedSession, hlines, eq_comm]

/-- The array is known by the beginning of its line, and not by what follows. -/
theorem wrappedSession_known :
    (∃ notices, wrappedSession.perform (.isKnown "md0") =
      (wrappedSession, ⟨notices, .ok (.known true)⟩)) ∧
    ∃ notices, wrappedSession.perform (.isKnown "md1") =
      (wrappedSession, ⟨notices, .ok (.known false)⟩) := by
  constructor
  · obtain ⟨notices, known, hperform, hknown, -⟩ :=
      isKnown_iff_hasLine wrappedSession "md0" isReadable_wrappedSession
    have htrue : known = true := hknown.mpr
      ⟨Report.isArrayName_eq_true_iff.mp (by decide),
        hasLineOf_wrappedSession.mpr rfl⟩
    exact ⟨notices, htrue ▸ hperform⟩
  · obtain ⟨notices, known, hperform, hknown, -⟩ :=
      isKnown_iff_hasLine wrappedSession "md1" isReadable_wrappedSession
    have hfalse : known = false := by
      rw [← Bool.not_eq_true, hknown, hasLineOf_wrappedSession]
      exact fun h => absurd h.2 (by decide)
    exact ⟨notices, hfalse ▸ hperform⟩

end Session
end RaidStatus

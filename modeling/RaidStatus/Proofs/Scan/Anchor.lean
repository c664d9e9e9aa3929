import Mathlib.Order.Bounds.Defs
import RaidStatus.Proofs.Scan.Transition

/-!
# The anchor of a line

The arrays that a report has described so far matter to the reading of a line
in one way only: the anchor is looked for among them.  The status that is read
is the same whatever they are (`read_status`), and the anchor is the position
of the first of them that is a part of the array (`read_anchor`), although it
is found by lowering it disk by disk.

So the anchor is the least position of a part (`readWords_anchor_isLeast`).  The
order in which the line names the disks has no influence on it.
-/

namespace RaidStatus

/-- The disks of an array hold this known array.  A disk is taken for an array
only if it is called like one. -/
def isKnownPart (members : List Text) (name : Text) : Bool :=
  decide ((Text.ofString "md") <+: name) && members.contains name

theorem isKnownPart_iff {members : List Text} {name : Text} :
    isKnownPart members name = true ↔
      Text.ofString "md" <+: name ∧ name ∈ members := by
  simp [isKnownPart]

/-- An array without disks has no parts. -/
theorem findIdx?_isKnownPart_nil (known : List Text) :
    known.findIdx? (isKnownPart []) = none := by
  rw [List.findIdx?_eq_none_iff]
  intro name _
  simp [isKnownPart]

namespace Scan

/-! ## The status is read without the known arrays -/

/-- What has been read, without the anchor. -/
def unanchored (scan : Scan) : Scan :=
  { scan with anchor := none }

theorem step_unanchored (known : List Text) (scan : Scan) (word : Text) :
    (step known scan word).map unanchored =
      (step [] scan.unanchored word).map unanchored := by
  obtain ⟨status, anchor, reached⟩ := scan
  cases reached with
  | closed => rfl
  | version => rfl
  | details =>
    simp only [step, unanchored, reduceCtorEq, reduceIte]
    split_ifs
    · rfl
    · rfl
    · rfl
    · rfl
    · rfl
    · cases status.noteDetail word <;> rfl
  | members =>
    simp only [step, unanchored, reduceIte]
    split_ifs
    · rfl
    · rfl
    · rfl
    · rfl
    · rfl
    · unfold noteMember
      cases disk? word <;> rfl

theorem run_unanchored (known : List Text) (scan : Scan)
    (words : List Text) :
    (run known scan words).map unanchored =
      (run [] scan.unanchored words).map unanchored := by
  induction words generalizing known scan with
  | nil => rfl
  | cons word words ih =>
    have hstep := step_unanchored known scan word
    rw [run_cons, run_cons]
    rcases hnext : step known scan word with e | next <;>
      rcases hplain : step [] scan.unanchored word with e' | next' <;>
      rw [hnext, hplain] at hstep
    · exact hstep
    · cases hstep
    · cases hstep
    · have hsame : next.unanchored = next'.unanchored := by
        injection hstep
      calc
        (run known next words).map unanchored
            = (run [] next.unanchored words).map unanchored := ih known next
        _ = (run [] next'.unanchored words).map unanchored := by rw [hsame]
        _ = (run [] next' words).map unanchored := (ih [] next').symm

/-! ## The anchor is the first known part -/

/-- Looking for either of two properties finds the earlier one of what each of
them finds. -/
theorem findIdx?_or {α : Type} (p q : α → Bool) (items : List α) :
    items.findIdx? (fun a => p a || q a) =
      (items.findIdx? q).merge min (items.findIdx? p) := by
  induction items with
  | nil => rfl
  | cons a items ih =>
    rw [List.findIdx?_cons, List.findIdx?_cons, List.findIdx?_cons, ih]
    cases p a <;> cases q a <;> cases items.findIdx? p <;>
      cases items.findIdx? q <;> simp

theorem lowerAnchor_findIdx? (known : List Text) (p : Text → Bool)
    (disk : Text) :
    lowerAnchor known (known.findIdx? p) disk =
      known.findIdx? (fun name => p name || decide (name = disk)) := by
  rw [lowerAnchor_eq, findIdx?_or]

/-- One more disk: the anchor becomes the first known part, if it was so
before. -/
theorem noteMember_anchor {known : List Text} {scan : Scan}
    (hanchor : scan.anchor =
      known.findIdx? (isKnownPart scan.status.members)) (word : Text) :
    (scan.noteMember known word).anchor =
      known.findIdx?
        (isKnownPart (scan.noteMember known word).status.members) := by
  unfold noteMember
  cases hdisk : disk? word with
  | none => exact hanchor
  | some disk =>
    dsimp only
    by_cases hmd : (Text.ofString "md") <+: disk
    · rw [if_pos hmd, hanchor, lowerAnchor_findIdx?]
      congr 1
      funext name
      by_cases hname : name = disk
      · simp [isKnownPart, hname, hmd]
      · simp [isKnownPart, hname]
    · rw [if_neg hmd, hanchor]
      congr 1
      funext name
      by_cases hname : name = disk
      · simp [isKnownPart, hname, hmd]
      · simp [isKnownPart, hname]

theorem Transition.anchor {known : List Text} {scan next : Scan}
    {word : Text} (hanchor : scan.anchor =
      known.findIdx? (isKnownPart scan.status.members))
    (hnext : Transition known scan word next) :
    next.anchor = known.findIdx? (isKnownPart next.status.members) := by
  cases hnext with
  | closed | version | active | inactive | bitmap | level | blocks | super =>
    exact hanchor
  | member => exact noteMember_anchor hanchor word
  | detail status _ hnote =>
    obtain ⟨health, count, operation, progress, rfl⟩ :=
      ArrayStatus.noteDetail_frame hnote
    exact hanchor

theorem run_anchor {known : List Text} {scan final : Scan}
    {words : List Text}
    (hanchor : scan.anchor =
      known.findIdx? (isKnownPart scan.status.members))
    (hrun : run known scan words = .ok final) :
    final.anchor = known.findIdx? (isKnownPart final.status.members) :=
  run_induction
    (P := fun _ scan =>
      scan.anchor = known.findIdx? (isKnownPart scan.status.members))
    (fun _ _ _ _ => Transition.anchor) [] hanchor hrun

theorem Transition.name {known : List Text} {scan next : Scan} {word : Text}
    (hnext : Transition known scan word next) :
    next.status.name = scan.status.name := by
  cases hnext with
  | closed | version | active | inactive | bitmap | level | blocks | super =>
    rfl
  | member =>
    unfold noteMember
    cases disk? word <;> rfl
  | detail status _ hnote =>
    obtain ⟨health, count, operation, progress, rfl⟩ :=
      ArrayStatus.noteDetail_frame hnote
    rfl

theorem run_name {known : List Text} {scan final : Scan}
    {words : List Text} (hrun : run known scan words = .ok final) :
    final.status.name = scan.status.name :=
  run_induction (P := fun _ other => other.status.name = scan.status.name)
    (fun _ _ _ _ hname hnext => hnext.name.trans hname) [] rfl hrun

end Scan

namespace ArrayStatus

/-- What a line says about its array does not depend on the arrays that the
report has described before. -/
theorem read_status (known : List Text) (name : Text)
    (details : List Text) :
    (read known name details).map Reading.status =
      (read [] name details).map Reading.status := by
  have hfactor : ∀ others : List Text,
      (read others name details).map Reading.status =
        ((Scan.run others { status := { name := name } } details).map
          Scan.unanchored).map Scan.status := by
    intro others
    unfold read
    cases Scan.run others { status := { name := name } } details <;> rfl
  rw [hfactor, hfactor, Scan.run_unanchored]
  rfl

/-- The anchor is the position of the first known array that is a part. -/
theorem read_anchor {known : List Text} {name : Text} {details : List Text}
    {reading : Reading} (hread : read known name details = .ok reading) :
    reading.anchor =
      known.findIdx? (isKnownPart reading.status.members) := by
  obtain ⟨final, hrun, hreading⟩ := bind_eq_ok_iff.mp hread
  cases hreading
  exact Scan.run_anchor (findIdx?_isKnownPart_nil known).symm hrun

/-- A line is about the array that it names. -/
theorem read_name {known : List Text} {name : Text} {details : List Text}
    {reading : Reading} (hread : read known name details = .ok reading) :
    reading.status.name = name := by
  obtain ⟨final, hrun, hreading⟩ := bind_eq_ok_iff.mp hread
  cases hreading
  exact Scan.run_name hrun

/-! ## The anchor is the least position of a part -/

theorem readWords_anchor {known words : List Text} {reading : Reading}
    (hread : readWords known words = .ok reading) :
    reading.anchor =
      known.findIdx? (isKnownPart reading.status.members) := by
  cases words with
  | nil => cases hread
  | cons name details =>
    obtain ⟨scan, hrun, rfl⟩ := readWords_cons_eq_ok_iff.mp hread
    exact Scan.run_anchor (findIdx?_isKnownPart_nil known).symm hrun

/-- The known array of this position is among these disks of an array, and is
called like an array. -/
def IsPartAt (known members : List Text) (position : Nat) : Prop :=
  ∃ name, known[position]? = some name ∧ Text.ofString "md" <+: name ∧
    name ∈ members

theorem IsPartAt.lt_length {known members : List Text} {position : Nat}
    (h : IsPartAt known members position) : position < known.length := by
  obtain ⟨name, hname, -⟩ := h
  exact (List.getElem?_eq_some_iff.mp hname).1

theorem isPartAt_iff {known members : List Text} {position : Nat} :
    IsPartAt known members position ↔
      ∃ h : position < known.length,
        isKnownPart members known[position] = true := by
  constructor
  · intro hpart
    have hlt := hpart.lt_length
    obtain ⟨name, hname, hmd, hmem⟩ := hpart
    rw [List.getElem?_eq_getElem hlt, Option.some.injEq] at hname
    exact ⟨hlt, isKnownPart_iff.mpr (by rw [hname]; exact ⟨hmd, hmem⟩)⟩
  · rintro ⟨hlt, hpart⟩
    exact ⟨known[position], List.getElem?_eq_getElem hlt,
      isKnownPart_iff.mp hpart⟩

/-- The search for a part finds the least position of one. -/
theorem findIdx?_eq_some_iff_isLeast {known members : List Text}
    {position : Nat} :
    known.findIdx? (isKnownPart members) = some position ↔
      IsLeast {position | IsPartAt known members position} position := by
  rw [List.findIdx?_eq_some_iff_getElem]
  constructor
  · rintro ⟨hlt, hpart, hbefore⟩
    refine ⟨isPartAt_iff.mpr ⟨hlt, hpart⟩, ?_⟩
    intro other hother
    obtain ⟨hother_lt, hother_part⟩ := isPartAt_iff.mp hother
    exact Nat.le_of_not_lt fun hlt => hbefore other hlt hother_part
  · rintro ⟨hmem, hleast⟩
    obtain ⟨hlt, hpart⟩ := isPartAt_iff.mp hmem
    refine ⟨hlt, hpart, ?_⟩
    intro other hother hother_part
    have hle : position ≤ other :=
      hleast (isPartAt_iff.mpr ⟨Nat.lt_trans hother hlt, hother_part⟩)
    omega

theorem findIdx?_eq_none_iff_not_isPartAt {known members : List Text} :
    known.findIdx? (isKnownPart members) = none ↔
      ¬ ∃ position, IsPartAt known members position := by
  rw [List.findIdx?_eq_none_iff]
  constructor
  · rintro hnone ⟨position, hpart⟩
    obtain ⟨hlt, hknown⟩ := isPartAt_iff.mp hpart
    rw [hnone _ (List.getElem_mem hlt)] at hknown
    cases hknown
  · intro hno name hname
    obtain ⟨position, hlt, rfl⟩ := List.getElem_of_mem hname
    rw [Bool.eq_false_iff]
    intro hknown
    exact hno ⟨position, isPartAt_iff.mpr ⟨hlt, hknown⟩⟩

/-- The anchor of a line is the least position of a known array that is called
like an array and is among the disks; there is no anchor if there is no such
position.  It is a position of a known array, and lines that name the same disks
have the same anchor, in whatever order and however often they name them. -/
theorem readWords_anchor_isLeast {known words : List Text} {reading : Reading}
    (hread : readWords known words = .ok reading) :
    (∀ position, reading.anchor = some position ↔
      IsLeast {position | IsPartAt known reading.status.members position}
        position) ∧
    (reading.anchor = none ↔
      ¬ ∃ position, IsPartAt known reading.status.members position) ∧
    (∀ position ∈ reading.anchor, position < known.length) ∧
    ∀ others other, readWords known others = .ok other →
      (∀ disk, disk ∈ other.status.members ↔
        disk ∈ reading.status.members) →
      other.anchor = reading.anchor := by
  have hanchor := readWords_anchor hread
  refine ⟨?_, ?_, ?_, ?_⟩
  · intro position
    rw [hanchor, findIdx?_eq_some_iff_isLeast]
  · rw [hanchor, findIdx?_eq_none_iff_not_isPartAt]
  · intro position hposition
    rw [hanchor] at hposition
    exact (findIdx?_eq_some_iff_isLeast.mp hposition).1.lt_length
  · intro others other hother hmembers
    rw [hanchor, readWords_anchor hother]
    congr 1
    funext name
    rw [Bool.eq_iff_iff, isKnownPart_iff, isKnownPart_iff, hmembers]

/-- Known arrays, one name twice, and one that is not called like an array. -/
def knownNames : List Text :=
  ["md9", "sda", "md0", "md_x", "md1", "md0"]

/-- The third disk lowers the anchor that the first one gave.  The last disk is
not found any more, since it is looked for in front of the anchor. -/
def crossedWords : List Text :=
  ["md5", ":", "active", "raid0", "md1[0]", "sda[1]", "md0[2]", "md_x[3]"]

/-- The same disks in another order, one of them twice. -/
def reorderedWords : List Text :=
  ["md7", ":", "inactive", "md_x[0]", "md0[1]", "md1[2]", "md0[3]", "sda[4]"]

def crossedReading : Reading where
  status :=
    { name := "md5", activity := .active, level := some "raid0",
      members := ["md1", "sda", "md0", "md_x"] }
  anchor := some 2

def reorderedReading : Reading where
  status :=
    { name := "md7", activity := .inactive,
      members := ["md_x", "md0", "md1", "md0", "sda"] }
  anchor := some 2

theorem crossedWords_anchor :
    readWords knownNames crossedWords = .ok crossedReading ∧
    readWords knownNames reorderedWords = .ok reorderedReading ∧
    IsLeast
      {position | IsPartAt knownNames crossedReading.status.members position}
      2 ∧
    reorderedReading.anchor = crossedReading.anchor := by
  have hread : readWords knownNames crossedWords = .ok crossedReading := rfl
  have hreordered : readWords knownNames reorderedWords =
      .ok reorderedReading := rfl
  have hforth : ∀ disk ∈ reorderedReading.status.members,
      disk ∈ crossedReading.status.members := by decide
  have hback : ∀ disk ∈ crossedReading.status.members,
      disk ∈ reorderedReading.status.members := by decide
  obtain ⟨hleast, -, -, hsame⟩ := readWords_anchor_isLeast hread
  exact ⟨hread, hreordered, (hleast 2).mp rfl,
    hsame reorderedWords reorderedReading hreordered
      fun disk => ⟨hforth disk, hback disk⟩⟩

end ArrayStatus
end RaidStatus

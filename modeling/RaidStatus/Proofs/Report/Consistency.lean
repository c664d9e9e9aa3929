import RaidStatus.Proofs.Report.Account
import RaidStatus.Proofs.Scan.Detail
import RaidStatus.Proofs.Text.Numeral
import RaidStatus.Proofs.Watch.Transition

/-!
# What is true of every status

The parts of a status come from different words of a line, which may stand in
any order and make no sense together.  Some things are true of every status all
the same (`ArrayStatus.IsConsistent`): a percentage is that of some operation,
an array of unknown activity has no level and no disks, and what is known of the
disks, the health and the level has the form that it should have.

These facts hold after every word of a line.  To carry them from word to word,
they are joined by what the section of the disks says about the words so far
(`Scan.IsConsistent`): it is open only if a level or the word `inactive` has
been read.
-/

namespace RaidStatus

/-- The parts of a status that was read from some words fit together. -/
structure ArrayStatus.IsConsistent (details : List Text)
    (status : ArrayStatus) : Prop where
  operation_ne_none : ∀ done, status.progress = some (.percent done) →
    status.operation ≠ none
  of_unknown : status.activity = .unknown →
    status.level = none ∧ status.members = []
  members_eq_nil : status.level = none →
    Text.ofString "inactive" ∉ details → status.members = []
  level_notMem : ∀ level ∈ status.level,
    level ∉ [Text.ofString "active", Text.ofString "inactive",
      Text.ofString "bitmap:"]
  level_head_ne : ∀ level ∈ status.level, level.head? ≠ some (.char '(')
  bracket_notMem : ∀ member ∈ status.members, .char '[' ∉ member
  /-- A disk is named by some word in front of a bracket. -/
  exists_isPrefix : ∀ member ∈ status.members,
    ∃ word ∈ details, member ++ [.char '['] <+: word
  diskCount_nonneg : 0 ≤ status.diskCount
  health_head : ∀ health ∈ status.health,
    health.head? = some (.char 'U') ∨ health.head? = some (.char '_')
  /-- Only an assigned percentage can be negative. -/
  exists_assigned : ∀ done, status.progress = some (.percent done) →
    done < 0 → ∃ word ∈ details, Text.ofString "re" <+: word ∧
      Text.ofString "%" <:+ word ∧ .char '=' ∈ word

/-! ## One more word -/

namespace ArrayStatus

variable {details : List Text} {status next : ArrayStatus} {word : Text}

/-- More words do no harm, as long as none of them is `inactive` while nothing
is known of the disks. -/
theorem IsConsistent.mono (h : status.IsConsistent details)
    {more : List Text} (hsubset : details ⊆ more) :
    status.IsConsistent more :=
  { h with
    members_eq_nil := fun hlevel hinactive =>
      h.members_eq_nil hlevel fun hmem => hinactive (hsubset hmem)
    exists_isPrefix := fun member hmember =>
      let ⟨word, hword, hbegins⟩ := h.exists_isPrefix member hmember
      ⟨word, hsubset hword, hbegins⟩
    exists_assigned := fun done hdone hneg =>
      let ⟨word, hword, hassigned⟩ := h.exists_assigned done hdone hneg
      ⟨word, hsubset hword, hassigned⟩ }

/-- One more disk, while it is known that the array has disks. -/
theorem IsConsistent.addMember (h : status.IsConsistent details)
    {disk : Text} (hactivity : status.activity ≠ .unknown)
    (hlevel : status.level = none → Text.ofString "inactive" ∈ details)
    (hbracket : .char '[' ∉ disk)
    (hbegins : ∃ word ∈ details, disk ++ [.char '['] <+: word) :
    IsConsistent details
      { status with members := status.members ++ [disk] } :=
  { h with
    of_unknown := fun hunknown => absurd hunknown hactivity
    members_eq_nil := fun hnone hinactive => absurd (hlevel hnone) hinactive
    bracket_notMem := by
      intro member hmember
      rcases List.mem_append.mp hmember with hmember | hmember
      · exact h.bracket_notMem member hmember
      · rw [List.mem_singleton.mp hmember]
        exact hbracket
    exists_isPrefix := by
      intro member hmember
      rcases List.mem_append.mp hmember with hmember | hmember
      · exact h.exists_isPrefix member hmember
      · rw [List.mem_singleton.mp hmember]
        exact hbegins }

/-- A word behind the disks. -/
theorem IsConsistent.detail (h : status.IsConsistent details)
    (hword : word ∈ details) (hchange : DetailChange status word next) :
    next.IsConsistent details := by
  cases hchange with
  | count number count hnumber hcount =>
    obtain ⟨-, digit, rest, rfl, hdigit⟩ :=
      Detail.diskCount?_eq_some_iff.mp hnumber
    exact { h with
      diskCount_nonneg := Numeral.leading_nonneg_of_isDigit hdigit hcount }
  | health health hnone hhealth =>
    refine { h with health_head := ?_ }
    rintro _ ⟨rfl⟩
    exact (Detail.of_health? hhealth).1
  | assigned number done hnone hnumber =>
    obtain ⟨⟨hbegins, hends⟩, before, rfl, -⟩ :=
      Detail.assigned?_eq_some_iff.mp hnumber
    exact { h with
      operation_ne_none := by simp
      exists_assigned := fun _ _ _ =>
        ⟨_, hword, hbegins, hends, by simp⟩ }
  | announced =>
    exact { h with
      operation_ne_none := fun done hdone =>
        absurd hdone (Progress.ofWord?_ne_percent word done)
      exists_assigned := fun done hdone =>
        absurd hdone (Progress.ofWord?_ne_percent word done) }
  | percentage done hnone hpercentage hdone =>
    obtain ⟨digit, hhead, hdigit⟩ :=
      (Detail.isPercentage_iff.mp hpercentage).exists_digit
    obtain ⟨rest, rfl⟩ := List.head?_eq_some_iff.mp hhead
    have hnonneg := Numeral.leading_nonneg_of_isDigit hdigit hdone
    refine { h with operation_ne_none := by simp, exists_assigned := ?_ }
    rintro _ ⟨rfl⟩ hneg
    omega
  | ignored => exact h

end ArrayStatus

namespace Scan

/-- What has been read fits together, and the section of the disks is open for
a reason. -/
structure IsConsistent (seen : List Text) (scan : Scan) : Prop where
  status : scan.status.IsConsistent seen
  anchor_eq_none : scan.status.activity = .unknown → scan.anchor = none
  known_of_members : scan.reached = .members →
    scan.status.activity ≠ .unknown
  inactive_mem_of_members : scan.reached = .members →
    scan.status.level = none → Text.ofString "inactive" ∈ seen

variable {seen : List Text} {known : List Text} {scan next final : Scan}
  {word : Text}

theorem IsConsistent.mono (h : scan.IsConsistent seen) {more : List Text}
    (hsubset : seen ⊆ more) : scan.IsConsistent more where
  status := h.status.mono hsubset
  anchor_eq_none := h.anchor_eq_none
  known_of_members := h.known_of_members
  inactive_mem_of_members := fun hreached hlevel =>
    hsubset (h.inactive_mem_of_members hreached hlevel)

theorem IsConsistent.noteMember (h : scan.IsConsistent seen)
    (hword : word ∈ seen) (hreached : scan.reached = .members) :
    (scan.noteMember known word).IsConsistent seen := by
  have hactivity := h.known_of_members hreached
  have hlevel := h.inactive_mem_of_members hreached
  unfold Scan.noteMember
  cases hdisk : disk? word with
  | none => exact h
  | some disk =>
    obtain ⟨hbracket, hbegins⟩ := of_disk? hdisk
    exact
      { status := h.status.addMember hactivity hlevel hbracket
          ⟨word, hword, hbegins⟩
        anchor_eq_none := fun hunknown => absurd hunknown hactivity
        known_of_members := h.known_of_members
        inactive_mem_of_members := h.inactive_mem_of_members }

/-- A word that has been seen keeps everything together. -/
theorem IsConsistent.transition (h : scan.IsConsistent seen)
    (hword : word ∈ seen) (hnext : Transition known scan word next) :
    next.IsConsistent seen := by
  cases hnext with
  | closed => exact h
  | version =>
    exact ⟨{ h.status with }, h.anchor_eq_none, nofun, nofun⟩
  | active =>
    exact ⟨{ h.status with of_unknown := nofun }, nofun, nofun,
      h.inactive_mem_of_members⟩
  | inactive hinactive =>
    refine ⟨{ h.status with of_unknown := nofun }, nofun, nofun, ?_⟩
    intro _ _
    rw [← hinactive]
    exact hword
  | bitmap => exact ⟨h.status, h.anchor_eq_none, nofun, nofun⟩
  | level hawaits hhead hactive hinactive hbitmap =>
    have hactivity : scan.status.activity = .active := by
      simp only [ArrayStatus.awaitsLevel, Bool.and_eq_true,
        decide_eq_true_eq] at hawaits
      exact hawaits.1
    have hknown : scan.status.activity ≠ .unknown := by
      rw [hactivity]
      exact nofun
    refine ⟨?_, fun hunknown => absurd hunknown hknown, fun _ => hknown,
      nofun⟩
    exact { h.status with
      of_unknown := fun hunknown => absurd hunknown hknown
      members_eq_nil := nofun
      level_notMem := by
        rintro _ ⟨rfl⟩
        simp [hactive, hinactive, hbitmap]
      level_head_ne := by
        rintro _ ⟨rfl⟩
        exact hhead }
  | blocks => exact ⟨h.status, h.anchor_eq_none, nofun, nofun⟩
  | member hreached => exact h.noteMember hword hreached
  | super => exact ⟨h.status, h.anchor_eq_none, nofun, nofun⟩
  | detail status hreached hnote =>
    have hstatus := h.status.detail hword
      (ArrayStatus.detailChange_of_noteDetail hnote)
    obtain ⟨health, count, operation, progress, rfl⟩ :=
      ArrayStatus.noteDetail_frame hnote
    exact ⟨hstatus, h.anchor_eq_none, h.known_of_members,
      h.inactive_mem_of_members⟩

theorem IsConsistent.run {words : List Text} (h : scan.IsConsistent seen)
    (hrun : Scan.run known scan words = .ok final) :
    final.IsConsistent (seen ++ words) := by
  apply run_induction (P := fun seen scan => scan.IsConsistent seen) _ seen h
    hrun
  intro seen scan word next h hnext
  exact (h.mono (List.subset_append_left seen [word])).transition (by simp)
    hnext

/-- Nothing contradicts itself before the first word. -/
theorem isConsistent_start (name : Text) :
    IsConsistent [] { status := { name := name } } where
  status := by constructor <;> simp
  anchor_eq_none := fun _ => rfl
  known_of_members := nofun
  inactive_mem_of_members := nofun

end Scan

/-! ## Every status -/

/-- The status that is read from the words of a line is consistent, and a line
that does not say whether its array runs has no anchor. -/
theorem ArrayStatus.isConsistent_of_read {known : List Text} {name : Text}
    {details : List Text} {reading : Reading}
    (hread : read known name details = .ok reading) :
    reading.status.IsConsistent details ∧
      (reading.status.activity = .unknown → reading.anchor = none) := by
  obtain ⟨final, hrun, hreading⟩ := bind_eq_ok_iff.mp hread
  cases hreading
  have hfinal := (Scan.isConsistent_start name).run hrun
  exact ⟨hfinal.status, hfinal.anchor_eq_none⟩

namespace Report

/-- Each array of a report is read from some line. -/
theorem exists_reading_of_mem {order : ArrayOrder} {text : Text}
    {arrays : List ArrayStatus}
    (hread : (read order text).outcome = .ok arrays) {array : ArrayStatus}
    (harray : array ∈ arrays) :
    ∃ line ∈ arrayLines text, ∃ reading,
      ArrayStatus.read [] line.name line.details = .ok reading ∧
        reading.status = array := by
  obtain ⟨line, hline, hstatus⟩ := List.mem_map.mp
    ((map_ok_perm_of_read hread).mem_iff.mp (List.mem_map_of_mem harray))
  refine ⟨line, hline, ?_⟩
  unfold ArrayStatus.ofLine at hstatus
  cases hreading : ArrayStatus.read [] line.name line.details with
  | error e =>
    rw [hreading] at hstatus
    cases hstatus
  | ok reading =>
    rw [hreading] at hstatus
    exact ⟨reading, rfl, Except.ok.inj hstatus⟩

/-- Each array of a report is that of some line, and is called like an
array. -/
theorem exists_line_of_mem {order : ArrayOrder} {text : Text}
    {arrays : List ArrayStatus}
    (hread : (read order text).outcome = .ok arrays) {array : ArrayStatus}
    (harray : array ∈ arrays) :
    isArrayName array.name = true ∧
      ∃ line ∈ LogicalLine.ofText text, line.name = array.name ∧
        array.IsConsistent line.details := by
  obtain ⟨line, hline, reading, hreading, rfl⟩ :=
    exists_reading_of_mem hread harray
  have hname := ArrayStatus.read_name hreading
  refine ⟨?_, line, (List.mem_filter.mp hline).1, hname.symm,
    (ArrayStatus.isConsistent_of_read hreading).1⟩
  rw [hname]
  exact isArrayName_of_mem_arrayLines hline

/-- What is true of every status, wherever it comes from.  A line that is read
from its words has a consistent status, and no anchor if it does not say
whether its array runs.  The arrays of a report are consistent and called like
arrays, each as its own line says, and those that a session reads are so with
the file that is read. -/
theorem reading_isConsistent :
    (∀ (known words : List Text) (reading : Reading),
      ArrayStatus.readWords known words = .ok reading →
        reading.status.IsConsistent words.tail ∧
          (reading.status.activity = .unknown → reading.anchor = none)) ∧
    (∀ (order : ArrayOrder) (text : Text) (arrays : List ArrayStatus),
      (read order text).outcome = .ok arrays → ∀ array ∈ arrays,
        isArrayName array.name = true ∧
          ∃ line ∈ LogicalLine.ofText text, line.name = array.name ∧
            array.IsConsistent line.details) ∧
    (∀ (session : Session) (hold : Bool) (order : ArrayOrder)
      (failingMark : Option Nat) (arrays : List ArrayStatus),
      (session.read hold order failingMark).2.outcome = .ok (some arrays) →
        ∃ id, session.source? hold = some id ∧ ∀ array ∈ arrays,
          isArrayName array.name = true ∧
            ∃ line ∈ LogicalLine.ofText
                (Text.Utf8.decode (session.fs.contents id)).normalizeEndings,
              line.name = array.name ∧ array.IsConsistent line.details) := by
  refine ⟨?_, ?_, ?_⟩
  · intro known words reading hread
    cases words with
    | nil => cases hread
    | cons name details =>
      cases hreading : ArrayStatus.read known name details with
      | error e =>
        rw [ArrayStatus.readWords, hreading] at hread
        cases hread
      | ok other =>
        rw [ArrayStatus.readWords, hreading] at hread
        cases hread
        exact ArrayStatus.isConsistent_of_read hreading
  · intro order text arrays hread array harray
    exact exists_line_of_mem hread harray
  · intro session hold order failingMark arrays hread
    obtain ⟨id, hsource, hreport⟩ := session.exists_readFile_of_read hread
    refine ⟨id, hsource, fun array harray => ?_⟩
    exact exists_line_of_mem hreport harray

/-- The words of a line that assigns a negative percentage. -/
def negativeLine : List Text :=
  ["md0", ":", "active", "raid1", "sda1[0]", "5", "blocks", "resync=-5%"]

/-- A session with a report of one array. -/
def oneArray : Session :=
  Session.initial.run [.write [0x6d, 0x64, 0x30]]

theorem negativeLine_isConsistent :
    (∃ reading, ArrayStatus.readWords [] negativeLine = .ok reading ∧
      reading.status.progress = some (.percent (-5)) ∧
      reading.status.IsConsistent negativeLine.tail) ∧
    (∃ arrays, (read .partsLast partFirst).outcome = .ok arrays ∧
      ∀ array ∈ arrays, isArrayName array.name = true) ∧
    ∃ arrays,
      (oneArray.read true .partsLast none).2.outcome = .ok (some arrays) ∧
        ∀ array ∈ arrays, isArrayName array.name = true := by
  obtain ⟨hline, hreport, hsession⟩ := reading_isConsistent
  have hwords : ArrayStatus.readWords [] negativeLine = .ok _ := rfl
  have hread : (read .partsLast partFirst).outcome = .ok _ := rfl
  have hone : (oneArray.read true .partsLast none).2.outcome =
      .ok (some _) := rfl
  obtain ⟨id, -, hnames⟩ := hsession _ _ _ _ _ hone
  exact ⟨⟨_, hwords, rfl, (hline _ _ _ hwords).1⟩,
    ⟨_, hread, fun array harray => (hreport _ _ _ hread array harray).1⟩,
    _, hone, fun array harray => (hnames array harray).1⟩

end Report
end RaidStatus

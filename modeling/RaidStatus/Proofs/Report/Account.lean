import Mathlib.Data.Set.List
import RaidStatus.Proofs.Report.Order

/-!
# The account of a reading

Reading a report leaves notices, and these tell line by line what happened.  A
line about the report itself leaves no notice, a line of no interest one that
it was skipped, and the line of an array one that it was read.  If a line in
front of it is about a part of that array, the next notice names the array that
the new one was put in front of.  `LineAccount` says this for one line and
`Account` for all lines from some line on, both by the lines alone.

The arrays themselves are those of the lines, each read as if it were the only
one (`statuses_eq_ok_iff`), so no line changes what another one says.
-/

namespace RaidStatus

/-- The first item that is looked for, and an item that is put in front of
it. -/
theorem insertIdx_of_findIdx? {α : Type} {p : α → Bool} {items : List α}
    {position : Nat} (hposition : items.findIdx? p = some position)
    (item : α) :
    ∃ before found behind, items = before ++ found :: behind ∧
      p found = true ∧ (∀ a ∈ before, p a = false) ∧
      items[position]? = some found ∧
      items.insertIdx position item = before ++ item :: found :: behind := by
  induction items generalizing position with
  | nil => cases hposition
  | cons a items ih =>
    rw [List.findIdx?_cons] at hposition
    cases ha : p a with
    | true =>
      rw [ha] at hposition
      cases hposition
      exact ⟨[], a, items, rfl, ha, by simp, rfl, rfl⟩
    | false =>
      rw [ha] at hposition
      obtain ⟨rest, hrest, rfl⟩ := Option.map_eq_some_iff.mp hposition
      obtain ⟨before, found, behind, rfl, hfound, hbefore, hget, hinsert⟩ :=
        ih hrest
      refine ⟨a :: before, found, behind, rfl, hfound, ?_, hget, ?_⟩
      · intro b hb
        rcases List.mem_cons.mp hb with rfl | hb
        · exact ha
        · exact hbefore b hb
      · rw [List.insertIdx_succ_cons, hinsert]
        rfl

/-- Some items are turned into results exactly if each of them is. -/
theorem mapM_eq_ok_iff {ε α β : Type} {f : α → Except ε β} {items : List α}
    {results : List β} :
    items.mapM f = .ok results ↔ items.map f = results.map .ok := by
  induction items generalizing results with
  | nil => cases results <;> simp [pure, Except.pure]
  | cons a items ih =>
    rw [List.mapM_cons, bind_eq_ok_iff]
    simp only [bind_eq_ok_iff, ih, pure, Except.pure, Except.ok.injEq]
    cases results with
    | nil => simp
    | cons b results =>
      simp only [List.cons.injEq, List.map_cons]
      constructor
      · rintro ⟨_, hb, _, hrest, rfl, rfl⟩
        exact ⟨hb, hrest⟩
      · rintro ⟨hb, hrest⟩
        exact ⟨b, hb, results, hrest, rfl, rfl⟩

namespace Report

/-! ## One line -/

/-- What a line of a report does to the arrays that have been read, and the
notices that it leaves. -/
inductive Transition (arrays : List ArrayStatus) (line : LogicalLine) :
    List Notice → List ArrayStatus → Prop
  | header (hheader : line.name ∈ headers) :
    Transition arrays line [] arrays
  | skipped (hheader : line.name ∉ headers)
      (hname : isArrayName line.name = false) :
    Transition arrays line [.skipped line.name] arrays
  | appended (status : ArrayStatus) (hline : isArrayLine line = true)
      (hstatus : ArrayStatus.ofLine line = .ok status)
      (hnone : ∀ array ∈ arrays, array.name ∉ status.members) :
    Transition arrays line [.parsed status.name] (arrays ++ [status])
  | inserted (status part : ArrayStatus) (before behind : List ArrayStatus)
      (hline : isArrayLine line = true)
      (hstatus : ArrayStatus.ofLine line = .ok status)
      (harrays : arrays = before ++ part :: behind)
      (hpart : part.name ∈ status.members)
      (hbefore : ∀ array ∈ before, array.name ∉ status.members) :
    Transition arrays line
      [.parsed status.name, .inserted status.name part.name]
      (before ++ status :: part :: behind)

theorem isArrayLine_iff {line : LogicalLine} :
    isArrayLine line = true ↔
      line.name ∉ headers ∧ isArrayName line.name = true := by
  simp [isArrayLine]

/-- Where an array is put: at the end if nothing is a part of it yet, and
directly in front of its first part otherwise. -/
theorem place_eq_or {arrays : List ArrayStatus} {name : Text}
    {details : List Text} {reading : Reading}
    (hnames : ∀ array ∈ arrays, isArrayName array.name = true)
    (hreading : ArrayStatus.read (arrays.map (·.name)) name details =
      .ok reading) :
    ((∀ array ∈ arrays, array.name ∉ reading.status.members) ∧
      placementNotices arrays reading = [.parsed reading.status.name] ∧
      place arrays reading = arrays ++ [reading.status]) ∨
    ∃ before part behind, arrays = before ++ part :: behind ∧
      part.name ∈ reading.status.members ∧
      (∀ array ∈ before, array.name ∉ reading.status.members) ∧
      placementNotices arrays reading =
        [.parsed reading.status.name,
          .inserted reading.status.name part.name] ∧
      place arrays reading = before ++ reading.status :: part :: behind := by
  have hanchor := ArrayStatus.read_anchor hreading
  rw [List.findIdx?_map] at hanchor
  have hpart : ∀ array ∈ arrays,
      (isKnownPart reading.status.members ∘ (·.name)) array =
        reading.status.members.contains array.name :=
    fun array harray => isKnownPart_of_isArrayName (hnames array harray) _
  cases hposition : reading.anchor with
  | none =>
    left
    rw [hposition, eq_comm, List.findIdx?_eq_none_iff] at hanchor
    refine ⟨fun array harray => ?_, by simp [placementNotices, hposition],
      by simp [place, insertAt, hposition]⟩
    have hnot := hanchor array harray
    rw [hpart array harray] at hnot
    simpa using hnot
  | some position =>
    right
    rw [hposition] at hanchor
    obtain ⟨before, part, behind, rfl, hfound, hbefore, hget, hinsert⟩ :=
      insertIdx_of_findIdx? hanchor.symm reading.status
    refine ⟨before, part, behind, rfl, ?_, ?_,
      by simp [placementNotices, hposition, hget],
      by rw [place, hposition, insertAt, hinsert]⟩
    · rw [hpart part (by simp)] at hfound
      simpa using hfound
    · intro array harray
      have hnot := hbefore array harray
      rw [hpart array (List.mem_append_left _ harray)] at hnot
      simpa using hnot

/-- A line that is read without an error does one of these things. -/
theorem transition_of_readLine {arrays next : List ArrayStatus}
    {line : LogicalLine}
    (hnames : ∀ array ∈ arrays, isArrayName array.name = true)
    (hread : (readLine arrays line).outcome = .ok next) :
    Transition arrays line (readLine arrays line).notices next := by
  have hstatus := ArrayStatus.read_status (arrays.map (·.name)) line.name
    line.details
  unfold readLine at hread ⊢
  split_ifs at hread ⊢ with hheader hname
  · cases hread
    exact .header hheader
  · have hline : isArrayLine line = true :=
      isArrayLine_iff.mpr ⟨hheader, hname⟩
    cases hreading : ArrayStatus.read (arrays.map (·.name)) line.name
        line.details with
    | error e =>
      rw [hreading] at hread
      cases hread
    | ok reading =>
      rw [hreading] at hread hstatus
      cases hread
      dsimp only
      rcases place_eq_or hnames hreading with
        ⟨hnone, hnotices, hplace⟩ |
        ⟨before, part, behind, harrays, hpart, hbefore, hnotices, hplace⟩
      · rw [hnotices, hplace]
        exact .appended _ hline hstatus.symm hnone
      · rw [hnotices, hplace]
        exact .inserted _ part before behind hline hstatus.symm harrays hpart
          hbefore
  · cases hread
    exact .skipped hheader (by simpa using hname)

/-! ## All lines -/

/-- What the notices say about a line of a report, behind the lines
`front`. -/
inductive LineAccount (front : List LogicalLine) (line : LogicalLine) :
    List Notice → Prop
  | header (hheader : line.name ∈ headers) : LineAccount front line []
  | skipped (hheader : line.name ∉ headers)
      (hname : isArrayName line.name = false) :
    LineAccount front line [.skipped line.name]
  /-- No line in front of it is about a part of the array. -/
  | appended (status : ArrayStatus) (hline : isArrayLine line = true)
      (hstatus : ArrayStatus.ofLine line = .ok status)
      (hnone : ∀ earlier ∈ front, isArrayLine earlier = true →
        earlier.name ∉ status.members) :
    LineAccount front line [.parsed status.name]
  /-- A line in front of it is about a part of the array.  With the new line,
  the array stands directly in front of a part of it. -/
  | inserted (status part : ArrayStatus) (before behind : List ArrayStatus)
      (hline : isArrayLine line = true)
      (hstatus : ArrayStatus.ofLine line = .ok status)
      (hearlier : ∃ earlier ∈ front, isArrayLine earlier = true ∧
        earlier.name ∈ status.members)
      (hfront : (front.foldlM readLine []).outcome =
        .ok (before ++ part :: behind))
      (hnext : ((front ++ [line]).foldlM readLine []).outcome =
        .ok (before ++ status :: part :: behind))
      (hpart : part.name ∈ status.members)
      (hbefore : ∀ array ∈ before, array.name ∉ status.members) :
    LineAccount front line
      [.parsed status.name, .inserted status.name part.name]

/-- What the notices say about some lines of a report, behind the lines
`front`. -/
inductive Account : (front lines : List LogicalLine) → List Notice → Prop
  | nil (front : List LogicalLine) : Account front [] []
  | cons {front lines : List LogicalLine} {line : LogicalLine}
      {notices more : List Notice} (hline : LineAccount front line notices)
      (hlines : Account (front ++ [line]) lines more) :
    Account front (line :: lines) (notices ++ more)

/-- These arrays have been read from the lines `front`, and are called like
those lines say. -/
structure IsReadFrom (front : List LogicalLine)
    (arrays : List ArrayStatus) : Prop where
  outcome_eq : (front.foldlM readLine []).outcome = .ok arrays
  mem_names : ∀ name, name ∈ arrays.map (·.name) ↔
    ∃ line ∈ front, isArrayLine line = true ∧ line.name = name

namespace IsReadFrom

variable {front : List LogicalLine} {arrays next : List ArrayStatus}
  {line : LogicalLine}

theorem isReadFrom_nil : IsReadFrom [] [] where
  outcome_eq := rfl
  mem_names := by simp

theorem isArrayName (h : IsReadFrom front arrays) {array : ArrayStatus}
    (harray : array ∈ arrays) : Report.isArrayName array.name = true := by
  obtain ⟨line, -, hline, hname⟩ :=
    (h.mem_names array.name).mp (List.mem_map_of_mem harray)
  rw [← hname]
  exact (isArrayLine_iff.mp hline).2

theorem outcome_append (h : IsReadFrom front arrays) (line : LogicalLine) :
    ((front ++ [line]).foldlM readLine []).outcome =
      (readLine arrays line).outcome := by
  rw [List.foldlM_append, Noted.bind_outcome, h.outcome_eq]
  change (([line].foldlM readLine arrays)).outcome = _
  rw [List.foldlM_cons]
  simp only [List.foldlM_nil, bind_pure]

/-- No array of the list is a part if no line is about one. -/
theorem forall_notMem_iff (h : IsReadFrom front arrays)
    (members : List Text) :
    (∀ array ∈ arrays, array.name ∉ members) ↔
      ∀ earlier ∈ front, isArrayLine earlier = true →
        earlier.name ∉ members := by
  constructor
  · intro hnone earlier hearlier hline hmem
    obtain ⟨array, harray, hname⟩ := List.mem_map.mp
      ((h.mem_names earlier.name).mpr ⟨earlier, hearlier, hline, rfl⟩)
    apply hnone array harray
    rw [hname]
    exact hmem
  · intro hnone array harray hmem
    obtain ⟨earlier, hearlier, hline, hname⟩ :=
      (h.mem_names array.name).mp (List.mem_map_of_mem harray)
    apply hnone earlier hearlier hline
    rw [hname]
    exact hmem

/-- The arrays after one more line. -/
theorem step (h : IsReadFrom front arrays)
    (hread : (readLine arrays line).outcome = .ok next) :
    IsReadFrom (front ++ [line]) next where
  outcome_eq := by rw [h.outcome_append, hread]
  mem_names := by
    intro name
    simp only [List.mem_append, List.mem_singleton, or_and_right, exists_or,
      exists_eq_left, ← h.mem_names name]
    have htransition := transition_of_readLine (fun _ => h.isArrayName) hread
    generalize (readLine arrays line).notices = notices at htransition
    cases htransition with
    | header hheader =>
      have hline : isArrayLine line = false := by
        simp [isArrayLine, hheader]
      simp [hline]
    | skipped hheader hname =>
      have hline : isArrayLine line = false := by
        simp [isArrayLine, hname]
      simp [hline]
    | appended status hline hstatus hnone =>
      simp [hline, ofLine_name hstatus, eq_comm]
    | inserted status part before behind hline hstatus harrays =>
      rw [harrays]
      simp [hline, ofLine_name hstatus, eq_comm, or_comm, or_left_comm]

/-- The notices give an account of one more line. -/
theorem lineAccount (h : IsReadFrom front arrays)
    (hread : (readLine arrays line).outcome = .ok next) :
    LineAccount front line (readLine arrays line).notices := by
  have hnext := (h.step hread).outcome_eq
  have htransition := transition_of_readLine (fun _ => h.isArrayName) hread
  generalize (readLine arrays line).notices = notices at htransition ⊢
  cases htransition with
  | header hheader => exact .header hheader
  | skipped hheader hname => exact .skipped hheader hname
  | appended status hline hstatus hnone =>
    exact .appended status hline hstatus ((h.forall_notMem_iff _).mp hnone)
  | inserted status part before behind hline hstatus harrays hpart hbefore =>
    subst harrays
    refine .inserted status part before behind hline hstatus ?_ h.outcome_eq
      hnext hpart hbefore
    obtain ⟨earlier, hearlier, hline, hname⟩ :=
      (h.mem_names part.name).mp (by simp)
    exact ⟨earlier, hearlier, hline, hname ▸ hpart⟩

theorem account {lines : List LogicalLine} {final : List ArrayStatus}
    (h : IsReadFrom front arrays)
    (hread : (lines.foldlM readLine arrays).outcome = .ok final) :
    Account front lines (lines.foldlM readLine arrays).notices := by
  induction lines generalizing front arrays with
  | nil => exact .nil front
  | cons line lines ih =>
    rw [List.foldlM_cons, Noted.bind_outcome] at hread
    obtain ⟨next, hnext, hrest⟩ := bind_eq_ok_iff.mp hread
    rw [List.foldlM_cons, Noted.bind_of_ok hnext]
    exact .cons (h.lineAccount hnext) (ih (h.step hnext) hrest)

end IsReadFrom

/-! ## The arrays of a report -/

theorem arrange_perm (order : ArrayOrder) (arrays : List ArrayStatus) :
    (order.arrange arrays).Perm arrays := by
  cases order with
  | partsLast => exact List.Perm.refl arrays
  | partsFirst => exact List.reverse_perm arrays

/-- The statuses of a report are those of its lines, each read by itself. -/
theorem statuses_eq_ok_iff {text : Text} {lines : List ArrayStatus} :
    statuses text = .ok lines ↔
      (arrayLines text).map ArrayStatus.ofLine = lines.map .ok :=
  mapM_eq_ok_iff

/-- The arrays that are read are those of the lines in some order. -/
theorem map_ok_perm_of_read {order : ArrayOrder} {text : Text}
    {arrays : List ArrayStatus}
    (hread : (read order text).outcome = .ok arrays) :
    (arrays.map Except.ok).Perm
      ((arrayLines text).map ArrayStatus.ofLine) := by
  obtain ⟨lines, entries, hlines, -, hlisting, rfl⟩ :=
    exists_listing_of_read hread
  rw [statuses_eq_ok_iff.mp hlines]
  exact ((arrange_perm order _).trans hlisting.map_snd_perm).map Except.ok

/-- A report with more lines about arrays has more arrays, whatever the order
of the lines. -/
theorem exists_perm_append_of_read {order order' : ArrayOrder}
    {text other : Text} {arrays arrays' : List ArrayStatus}
    {more : List LogicalLine}
    (hread : (read order text).outcome = .ok arrays)
    (hread' : (read order' other).outcome = .ok arrays')
    (hlines : (arrayLines other).Perm (arrayLines text ++ more)) :
    ∃ added : List ArrayStatus,
      more.map ArrayStatus.ofLine = added.map .ok ∧
        arrays'.Perm (arrays ++ added) := by
  have hall : (arrays'.map Except.ok).Perm
      (arrays.map Except.ok ++ more.map ArrayStatus.ofLine) :=
    calc
      (arrays'.map Except.ok).Perm
          ((arrayLines other).map ArrayStatus.ofLine) :=
        map_ok_perm_of_read hread'
      List.Perm _ ((arrayLines text ++ more).map ArrayStatus.ofLine) :=
        hlines.map _
      List.Perm _ (arrays.map Except.ok ++ more.map ArrayStatus.ofLine) := by
        rw [List.map_append]
        exact (map_ok_perm_of_read hread).symm.append_right _
  -- the other lines can be read, since their statuses are among those read
  have hmore : more.map ArrayStatus.ofLine ∈
      Set.range (List.map Except.ok) := by
    rw [Set.range_list_map]
    intro status hstatus
    obtain ⟨array, -, harray⟩ := List.mem_map.mp
      (hall.mem_iff.mpr (List.mem_append_right _ hstatus))
    exact ⟨array, harray⟩
  obtain ⟨added, hadded⟩ := hmore
  refine ⟨added, hadded.symm, ?_⟩
  rw [← hadded, ← List.map_append] at hall
  exact (List.map_perm_map_iff fun a b hab => Except.ok.inj hab).mp hall

/-- The notices of a report give an account of its lines. -/
theorem account_of_read {order : ArrayOrder} {text : Text}
    {arrays : List ArrayStatus}
    (hread : (read order text).outcome = .ok arrays) :
    Account [] (LogicalLine.ofText text) (read order text).notices := by
  unfold read at hread ⊢
  rw [Noted.map_notices]
  rw [Noted.map_outcome] at hread
  cases hfold : ((LogicalLine.ofText text).foldlM readLine []).outcome with
  | error e =>
    rw [hfold] at hread
    cases hread
  | ok final => exact IsReadFrom.isReadFrom_nil.account hfold

/-- What becomes of the lines of a report.  Its arrays are those of its lines,
each read as if it were the only one.  A report with more lines about arrays,
in any order, has the same arrays and those of the other lines.  The notices
give an account of all lines, one after the other. -/
theorem read_account {order : ArrayOrder} {text : Text}
    {arrays : List ArrayStatus}
    (hread : (read order text).outcome = .ok arrays) :
    (arrays.map Except.ok).Perm ((arrayLines text).map ArrayStatus.ofLine) ∧
      (∀ (order' : ArrayOrder) (other : Text) (arrays' : List ArrayStatus)
        (more : List LogicalLine),
        (read order' other).outcome = .ok arrays' →
        (arrayLines other).Perm (arrayLines text ++ more) →
          ∃ added : List ArrayStatus,
            more.map ArrayStatus.ofLine = added.map .ok ∧
              arrays'.Perm (arrays ++ added)) ∧
      Account [] (LogicalLine.ofText text) (read order text).notices := by
  refine ⟨map_ok_perm_of_read hread, ?_, account_of_read hread⟩
  intro order' other arrays' more hread' hlines
  exact exists_perm_append_of_read hread hread' hlines

/-- The report of an array and of another one that is built from it, with
lines that are about no array. -/
def partFirst : Text :=
  Text.ofString "unused\nmd0 :\ndisks\nmd1 : inactive md0[0]\n"

/-- The lines of that report about arrays in the other order, and one more. -/
def partBehind : Text :=
  Text.ofString "md1 : inactive md0[0]\nmd2 :\nmd0 :\n"

theorem partFirst_account :
    ∃ arrays arrays', (read .partsLast partFirst).outcome = .ok arrays ∧
      (read .partsFirst partBehind).outcome = .ok arrays' ∧
      (∃ added : List ArrayStatus, arrays'.Perm (arrays ++ added)) ∧
      Account [] (LogicalLine.ofText partFirst)
        [.parsed "md0", .skipped "disks", .parsed "md1",
          .inserted "md1" "md0"] := by
  have hread : (read .partsLast partFirst).outcome = .ok _ := rfl
  have hbehind : (read .partsFirst partBehind).outcome = .ok _ := rfl
  have hfirst : arrayLines partFirst =
      [⟨"md0", [":"]⟩, ⟨"md1", [":", "inactive", "md0[0]"]⟩] := rfl
  have hlast : arrayLines partBehind =
      [⟨"md1", [":", "inactive", "md0[0]"]⟩, ⟨"md2", [":"]⟩] ++
        [⟨"md0", [":"]⟩] := rfl
  have hlines : (arrayLines partBehind).Perm
      (arrayLines partFirst ++ [⟨"md2", [":"]⟩]) := by
    rw [hfirst, hlast]
    exact List.perm_append_comm
  obtain ⟨-, hmore, haccount⟩ := read_account hread
  obtain ⟨added, -, hadded⟩ := hmore _ _ _ _ hbehind hlines
  exact ⟨_, _, hread, hbehind, ⟨added, hadded⟩, haccount⟩

end Report
end RaidStatus

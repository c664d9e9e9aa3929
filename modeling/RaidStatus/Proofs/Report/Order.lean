import Mathlib.Data.List.Nodup
import Mathlib.Data.List.Perm.Basic
import RaidStatus.Proofs.Report.Listing

/-!
# The order of a listing

A line is listed in front of the first of its parts that is listed already, or
at the end.  Lines that are listed already keep their order.  So the order of
two lines is settled when the later one of them is listed, and it is decided
by the parts of that line: the later line comes first exactly if one of the
parts reported before it is the other line or stands in front of it.
-/

namespace RaidStatus

/-! ## Positions and insertions -/

theorem idxOf_insertIdx_self {items : List Nat} {position item : Nat}
    (hposition : position ≤ items.length) (hitem : item ∉ items) :
    (items.insertIdx position item).idxOf item = position := by
  induction items generalizing position with
  | nil =>
    have hzero : position = 0 := by simpa using hposition
    simp [hzero]
  | cons a items ih =>
    cases position with
    | zero => simp
    | succ position =>
      rw [List.mem_cons, not_or] at hitem
      rw [List.insertIdx_succ_cons,
        List.idxOf_cons_ne _ (Ne.symm hitem.1)]
      rw [ih (by simpa using hposition) hitem.2]

theorem idxOf_insertIdx_of_mem {items : List Nat} {position item other : Nat}
    (hitem : item ∉ items) (hother : other ∈ items) :
    (items.insertIdx position item).idxOf other =
      if items.idxOf other < position then items.idxOf other
      else items.idxOf other + 1 := by
  have hne : item ≠ other := fun heq => hitem (heq ▸ hother)
  induction items generalizing position with
  | nil => simp at hother
  | cons a items ih =>
    cases position with
    | zero => simp [List.idxOf_cons_ne _ hne]
    | succ position =>
      rw [List.insertIdx_succ_cons]
      rw [List.mem_cons, not_or] at hitem
      by_cases ha : a = other
      · simp [ha]
      · have htail : other ∈ items := by
          simpa [Ne.symm ha] using hother
        rw [List.idxOf_cons_ne _ ha, List.idxOf_cons_ne _ ha,
          ih hitem.2 htail]
        split_ifs <;> omega

namespace Report

theorem insertAt_eq_insertIdx {α : Type} (position : Option Nat) (item : α)
    (items : List α) :
    insertAt position item items =
      items.insertIdx (position.getD items.length) item := by
  cases position with
  | none => exact List.insertIdx_length_self.symm
  | some position => rfl

/-! ## The invariant -/

/-- The position of a line on a listing. -/
def position (listing : List (Nat × ArrayStatus)) (line : Nat) : Nat :=
  (listing.map Prod.fst).idxOf line

/-- One line stands before another one on a listing. -/
def Before (listing : List (Nat × ArrayStatus)) (front back : Nat) : Prop :=
  position listing front < position listing back

/-- The array of line `whole` has the array of line `part` among its disks. -/
def IsPart (statuses : List ArrayStatus) (part whole : Nat) : Prop :=
  ∃ p ∈ statuses[part]?, ∃ w ∈ statuses[whole]?, p.name ∈ w.members

/-- The lines with these statuses are all listed, each of them once, in the
order that is decided by their parts. -/
structure IsListing (statuses : List ArrayStatus)
    (listing : List (Nat × ArrayStatus)) : Prop where
  lines_perm : (listing.map Prod.fst).Perm (List.range statuses.length)
  status_eq : ∀ entry ∈ listing, statuses[entry.1]? = some entry.2
  before_iff : ∀ earlier later, earlier < later →
    later < statuses.length →
      (Before listing later earlier ↔
        ∃ part < later, IsPart statuses part later ∧
          (part = earlier ∨ Before listing part earlier))

namespace IsListing

variable {statuses : List ArrayStatus} {listing : List (Nat × ArrayStatus)}

theorem length_eq (h : IsListing statuses listing) :
    listing.length = statuses.length := by
  simpa using h.lines_perm.length_eq

theorem mem_lines (h : IsListing statuses listing) {line : Nat} :
    line ∈ listing.map Prod.fst ↔ line < statuses.length := by
  rw [h.lines_perm.mem_iff, List.mem_range]

theorem nodup (h : IsListing statuses listing) :
    (listing.map Prod.fst).Nodup :=
  h.lines_perm.nodup_iff.mpr List.nodup_range

theorem position_lt (h : IsListing statuses listing) {line : Nat}
    (hline : line < statuses.length) :
    position listing line < listing.length := by
  have hindex := List.idxOf_lt_length_of_mem (h.mem_lines.mpr hline)
  rw [List.length_map] at hindex
  exact hindex

theorem fst_getElem_position (h : IsListing statuses listing) {line : Nat}
    (hline : line < statuses.length)
    (hposition : position listing line < listing.length) :
    listing[position listing line].1 = line := by
  have hlt := List.idxOf_lt_length_of_mem (h.mem_lines.mpr hline)
  calc
    listing[position listing line].1
        = (listing.map Prod.fst)[(listing.map Prod.fst).idxOf line] := by
      simp only [List.getElem_map, position]
    _ = line := List.getElem_idxOf hlt

theorem position_fst_getElem (h : IsListing statuses listing) {index : Nat}
    (hindex : index < listing.length) :
    position listing listing[index].1 = index := by
  have hget := h.nodup.idxOf_getElem index (by simpa using hindex)
  simpa [position] using hget

theorem position_inj (h : IsListing statuses listing) {line other : Nat}
    (hline : line < statuses.length) (hother : other < statuses.length)
    (hposition : position listing line = position listing other) :
    line = other := by
  rw [← h.fst_getElem_position hline (h.position_lt hline),
    ← h.fst_getElem_position hother (h.position_lt hother)]
  simp only [hposition]

theorem position_le_iff (h : IsListing statuses listing) {line other : Nat}
    (hline : line < statuses.length) (hother : other < statuses.length) :
    position listing line ≤ position listing other ↔
      line = other ∨ Before listing line other := by
  constructor
  · intro hle
    rcases Nat.eq_or_lt_of_le hle with heq | hlt
    · exact Or.inl (h.position_inj hline hother heq)
    · exact Or.inr hlt
  · rintro (rfl | hbefore)
    · exact Nat.le_refl _
    · exact Nat.le_of_lt hbefore

theorem isListing_nil : IsListing [] [] where
  lines_perm := by simp
  status_eq := by simp
  before_iff := by simp

/-- The array at an index is the status of some line. -/
theorem statuses_getElem (h : IsListing statuses listing) {index : Nat}
    (hindex : index < listing.length) :
    statuses[listing[index].1]? = some listing[index].2 :=
  h.status_eq _ (List.getElem_mem hindex)

/-- The listed arrays are the statuses of the lines. -/
theorem map_snd_perm (h : IsListing statuses listing) :
    (listing.map Prod.snd).Perm statuses := by
  have hlisting : (listing.map Prod.fst).map (statuses[·]?) =
      (listing.map Prod.snd).map some := by
    rw [List.map_map, List.map_map]
    apply List.map_congr_left
    intro entry hentry
    exact h.status_eq entry hentry
  have hrange : (List.range statuses.length).map (statuses[·]?) =
      statuses.map some := by
    apply List.ext_getElem
    · simp
    · intro line hline _
      simp at hline
      simp [hline]
  have hperm := h.lines_perm.map (statuses[·]?)
  rw [hlisting, hrange] at hperm
  simpa [List.filterMap_map] using hperm.filterMap id

/-! ## One more line -/

/-- The first entry of a kind stands no further back than a line exactly if
some line of that kind does not. -/
theorem findIdx_le_position_iff (h : IsListing statuses listing)
    (kind : ArrayStatus → Bool) {line : Nat}
    (hline : line < statuses.length) :
    (listing.findIdx fun entry => kind entry.2) ≤ position listing line ↔
      ∃ part < statuses.length, (∃ p ∈ statuses[part]?, kind p = true) ∧
        position listing part ≤ position listing line := by
  constructor
  · intro hle
    have hindex := Nat.lt_of_le_of_lt hle (h.position_lt hline)
    have hkind : kind (listing[listing.findIdx fun entry => kind entry.2]).2 =
        true := List.findIdx_getElem (w := hindex)
    have hstatus := h.statuses_getElem hindex
    refine ⟨_, ?_, ⟨_, hstatus, hkind⟩, ?_⟩
    · exact (List.getElem?_eq_some_iff.mp hstatus).1
    · rw [h.position_fst_getElem hindex]
      exact hle
  · rintro ⟨part, hpart, ⟨p, hp, hkind⟩, hle⟩
    have hindex := h.position_lt hpart
    have hstatus := h.statuses_getElem hindex
    rw [h.fst_getElem_position hpart hindex, hp] at hstatus
    have hentry : kind (listing[position listing part]).2 = true := by
      rw [← Option.some.inj hstatus]
      exact hkind
    apply Nat.le_trans _ hle
    by_contra hlt
    have hnot := List.not_of_lt_findIdx (Nat.not_le.mp hlt)
    rw [hentry] at hnot
    cases hnot

theorem position_insertIdx_self (h : IsListing statuses listing)
    (status : ArrayStatus) {index : Nat} (hindex : index ≤ listing.length) :
    position (listing.insertIdx index (listing.length, status))
      listing.length = index := by
  rw [position, List.map_insertIdx]
  apply idxOf_insertIdx_self
  · simpa using hindex
  · rw [h.mem_lines, h.length_eq]
    exact Nat.lt_irrefl _

theorem position_insertIdx_of_lt (h : IsListing statuses listing)
    (status : ArrayStatus) (index : Nat) {line : Nat}
    (hline : line < statuses.length) :
    position (listing.insertIdx index (listing.length, status)) line =
      if position listing line < index then position listing line
      else position listing line + 1 := by
  rw [position, List.map_insertIdx]
  apply idxOf_insertIdx_of_mem
  · rw [h.mem_lines, h.length_eq]
    exact Nat.lt_irrefl _
  · exact h.mem_lines.mpr hline

theorem before_insertIdx_iff (h : IsListing statuses listing)
    (status : ArrayStatus) (index : Nat) {front back : Nat}
    (hfront : front < statuses.length) (hback : back < statuses.length) :
    Before (listing.insertIdx index (listing.length, status)) front back ↔
      Before listing front back := by
  unfold Before
  rw [h.position_insertIdx_of_lt status index hfront,
    h.position_insertIdx_of_lt status index hback]
  split_ifs <;> omega

/-- An array that is put in front of the first of its parts stands before
exactly those lines that are such a part or stand behind one. -/
theorem before_iff_of_findIdx (h : IsListing statuses listing)
    (status : ArrayStatus) {line : Nat} (hline : line < statuses.length)
    {index : Nat}
    (hindex : index =
      listing.findIdx fun entry => status.members.contains entry.2.name) :
    Before (listing.insertIdx index (listing.length, status))
        listing.length line ↔
      ∃ part < statuses.length,
        (∃ p ∈ statuses[part]?, p.name ∈ status.members) ∧
          (part = line ∨ Before listing part line) := by
  have hle : index ≤ listing.length := hindex ▸ List.findIdx_le_length
  have hparts := h.findIdx_le_position_iff
    (fun p => status.members.contains p.name) hline
  rw [← hindex] at hparts
  have hfront : Before (listing.insertIdx index (listing.length, status))
      listing.length line ↔ index ≤ position listing line := by
    unfold Before
    rw [h.position_insertIdx_self status hle,
      h.position_insertIdx_of_lt status index hline]
    split_ifs <;> omega
  rw [hfront, hparts]
  apply exists_congr
  intro part
  apply and_congr_right
  intro hpart
  rw [h.position_le_iff hpart hline]
  simp only [List.contains_iff_mem]

/-- Listing one more array in front of the first of its parts keeps the
invariant. -/
theorem insert (h : IsListing statuses listing) (status : ArrayStatus)
    {index : Nat}
    (hindex : index =
      listing.findIdx fun entry => status.members.contains entry.2.name) :
    IsListing (statuses ++ [status])
      (listing.insertIdx index (listing.length, status)) := by
  have hlast : (statuses ++ [status])[statuses.length]? = some status := by
    simp
  have hold : ∀ line < statuses.length,
      (statuses ++ [status])[line]? = statuses[line]? :=
    fun line hline => List.getElem?_append_left hline
  have hle : index ≤ listing.length := hindex ▸ List.findIdx_le_length
  refine ⟨?_, ?_, ?_⟩
  · rw [List.map_insertIdx, List.length_append, List.length_singleton,
      List.range_succ, ← h.length_eq]
    calc
      List.Perm ((listing.map Prod.fst).insertIdx index listing.length)
          (listing.length :: listing.map Prod.fst) :=
        List.perm_insertIdx _ _ (by simpa using hle)
      List.Perm _ (listing.length :: List.range listing.length) := by
        rw [h.length_eq]
        exact h.lines_perm.cons _
      List.Perm _ (List.range listing.length ++ [listing.length]) :=
        (List.perm_append_singleton _ _).symm
  · intro entry hentry
    rcases List.eq_or_mem_of_mem_insertIdx hentry with rfl | hmem
    · rw [h.length_eq]
      exact hlast
    · have hstatus := h.status_eq entry hmem
      rw [hold _ (List.getElem?_eq_some_iff.mp hstatus).1]
      exact hstatus
  · intro earlier later hlt hlater
    rw [List.length_append, List.length_singleton] at hlater
    rcases Nat.lt_succ_iff_lt_or_eq.mp hlater with hlater | rfl
    · rw [h.before_insertIdx_iff status index hlater (Nat.lt_trans hlt hlater),
        h.before_iff earlier later hlt hlater]
      apply exists_congr
      intro part
      apply and_congr_right
      intro hpart
      rw [h.before_insertIdx_iff status index (Nat.lt_trans hpart hlater)
        (Nat.lt_trans hlt hlater)]
      unfold IsPart
      rw [hold part (Nat.lt_trans hpart hlater), hold later hlater]
    · have hfirst := h.before_iff_of_findIdx status hlt hindex
      rw [h.length_eq] at hfirst ⊢
      rw [hfirst]
      apply exists_congr
      intro part
      apply and_congr_right
      intro hpart
      rw [← h.length_eq, h.before_insertIdx_iff status index hpart hlt]
      unfold IsPart
      rw [hold part hpart, h.length_eq, hlast]
      simp only [Option.mem_def, Option.some.injEq, exists_eq_left']

end IsListing

/-! ## Every listing -/

theorem isKnownPart_of_isArrayName {name : Text}
    (hname : isArrayName name = true) (members : List Text) :
    isKnownPart members name = members.contains name := by
  obtain ⟨s, rest, hsplit, -, -⟩ := isArrayName_iff.mp hname
  have hmd : (Text.ofString "md") <+: name := ⟨s :: rest, hsplit.symm⟩
  simp [isKnownPart, hmd]

/-- A line is listed in front of the first of its parts. -/
theorem addLine_eq {listing : List (Nat × ArrayStatus)}
    (hnames : ∀ entry ∈ listing, isArrayName entry.2.name = true)
    (line : LogicalLine) :
    addLine listing line =
      (ArrayStatus.ofLine line).map fun status =>
        listing.insertIdx
          (listing.findIdx fun entry =>
            status.members.contains entry.2.name)
          (listing.length, status) := by
  have hstatus := ArrayStatus.read_status (listing.map (·.2.name)) line.name
    line.details
  unfold addLine ArrayStatus.ofLine
  cases hread : ArrayStatus.read (listing.map (·.2.name)) line.name
      line.details with
  | error e =>
    rw [hread] at hstatus
    rw [← hstatus]
    rfl
  | ok reading =>
    have hanchor := ArrayStatus.read_anchor hread
    rw [hread] at hstatus
    rw [← hstatus]
    simp only [Except.map, insertAt_eq_insertIdx, hanchor,
      List.findIdx?_map, ← List.findIdx_eq_getD_findIdx?]
    have hindex : listing.findIdx
          (isKnownPart reading.status.members ∘ (·.2.name)) =
        listing.findIdx fun entry =>
          reading.status.members.contains entry.2.name := by
      apply Nat.le_antisymm
      · apply List.findIdx_le_findIdx
        intro entry hentry hpart
        rw [Function.comp_apply,
          isKnownPart_of_isArrayName (hnames entry hentry)]
        exact hpart
      · apply List.findIdx_le_findIdx
        intro entry hentry hpart
        rw [Function.comp_apply,
          isKnownPart_of_isArrayName (hnames entry hentry)] at hpart
        exact hpart
    rw [hindex]

theorem ofLine_name {line : LogicalLine} {status : ArrayStatus}
    (hline : ArrayStatus.ofLine line = .ok status) :
    status.name = line.name := by
  unfold ArrayStatus.ofLine at hline
  cases hread : ArrayStatus.read [] line.name line.details with
  | error e =>
    rw [hread] at hline
    cases hline
  | ok reading =>
    rw [hread] at hline
    cases hline
    exact ArrayStatus.read_name hread

/-- Listing goes as far as the lines can be read by themselves, and keeps the
invariant. -/
theorem foldlM_addLine {lines : List LogicalLine}
    {statuses : List ArrayStatus} {listing : List (Nat × ArrayStatus)}
    (hlines : ∀ line ∈ lines, isArrayName line.name = true)
    (hstatuses : ∀ status ∈ statuses, isArrayName status.name = true)
    (h : IsListing statuses listing) :
    match lines.mapM ArrayStatus.ofLine with
    | .error e => lines.foldlM addLine listing = .error e
    | .ok more =>
      ∃ entries, lines.foldlM addLine listing = .ok entries ∧
        IsListing (statuses ++ more) entries := by
  induction lines generalizing statuses listing with
  | nil => exact ⟨listing, rfl, by simpa using h⟩
  | cons line lines ih =>
    have hnames : ∀ entry ∈ listing, isArrayName entry.2.name = true := by
      intro entry hentry
      exact hstatuses _ (List.mem_of_getElem? (h.status_eq entry hentry))
    rw [List.mapM_cons, List.foldlM_cons, addLine_eq hnames]
    cases hstatus : ArrayStatus.ofLine line with
    | error e => rfl
    | ok status =>
      have hall : ∀ s ∈ statuses ++ [status],
          isArrayName s.name = true := by
        intro s hs
        rw [List.mem_append, List.mem_singleton] at hs
        rcases hs with hs | rfl
        · exact hstatuses s hs
        · rw [ofLine_name hstatus]
          exact hlines line (List.mem_cons_self ..)
      have hnext := ih (fun l hl => hlines l (List.mem_cons_of_mem _ hl))
        hall (h.insert status rfl)
      cases hmore : lines.mapM ArrayStatus.ofLine with
      | error e =>
        rw [hmore] at hnext
        exact hnext
      | ok more =>
        rw [hmore] at hnext
        obtain ⟨entries, hfold, hentries⟩ := hnext
        refine ⟨entries, hfold, ?_⟩
        rw [List.append_assoc] at hentries
        exact hentries

theorem isArrayName_of_mem_arrayLines {text : Text} {line : LogicalLine}
    (hline : line ∈ arrayLines text) : isArrayName line.name = true := by
  have harray := (List.mem_filter.mp hline).2
  rw [isArrayLine, Bool.and_eq_true] at harray
  exact harray.2

theorem exists_listing {text : Text} {lines : List ArrayStatus}
    (hlines : statuses text = .ok lines) :
    ∃ entries, listing text = .ok entries ∧ IsListing lines entries := by
  have hnames : ∀ line ∈ arrayLines text, isArrayName line.name = true :=
    fun _ => isArrayName_of_mem_arrayLines
  have hfold := foldlM_addLine hnames (by simp) IsListing.isListing_nil
  unfold statuses at hlines
  rw [hlines] at hfold
  exact hfold

theorem listing_eq_error {text : Text} {e : Numeral.TooLong}
    (hlines : statuses text = .error e) : listing text = .error e := by
  have hnames : ∀ line ∈ arrayLines text, isArrayName line.name = true :=
    fun _ => isArrayName_of_mem_arrayLines
  have hfold := foldlM_addLine hnames (by simp) IsListing.isListing_nil
  unfold statuses at hlines
  rw [hlines] at hfold
  exact hfold

/-- The arrays of a text are listed whenever the text can be read. -/
theorem exists_listing_of_read {order : ArrayOrder} {text : Text}
    {arrays : List ArrayStatus}
    (hread : (read order text).outcome = .ok arrays) :
    ∃ lines entries, statuses text = .ok lines ∧
      listing text = .ok entries ∧ IsListing lines entries ∧
      order.arrange (entries.map Prod.snd) = arrays := by
  rw [read_outcome] at hread
  cases hlines : statuses text with
  | error e =>
    rw [listing_eq_error hlines] at hread
    cases hread
  | ok lines =>
    obtain ⟨entries, hentries, hlisting⟩ := exists_listing hlines
    rw [hentries] at hread
    cases hread
    exact ⟨lines, entries, rfl, hentries, hlisting, rfl⟩

/-- The order of the arrays of a text, for any two of its lines: the array of
the later line comes first exactly if a line before it is about a part of it
and is the earlier line or comes before that.  The other order of the text is
the reverse. -/
theorem read_before_iff {text : Text} {arrays : List ArrayStatus}
    (hread : (read .partsLast text).outcome = .ok arrays) :
    ∃ lines entries, statuses text = .ok lines ∧
      listing text = .ok entries ∧ entries.map Prod.snd = arrays ∧
      (entries.map Prod.fst).Perm (List.range lines.length) ∧
      (∀ entry ∈ entries, lines[entry.1]? = some entry.2) ∧
      (∀ earlier later, earlier < later → later < lines.length →
        (Before entries later earlier ↔
          ∃ part < later, IsPart lines part later ∧
            (part = earlier ∨ Before entries part earlier))) ∧
      (read .partsFirst text).outcome = .ok arrays.reverse := by
  obtain ⟨lines, entries, hlines, hentries, hlisting, harrays⟩ :=
    exists_listing_of_read hread
  refine ⟨lines, entries, hlines, hentries, harrays, hlisting.lines_perm,
    hlisting.status_eq, hlisting.before_iff, ?_⟩
  rw [read_outcome, hentries, ← harrays]
  rfl

/-- The report of two arrays and of a third one that is built from them. -/
def compositeLast : Text :=
  Text.ofString ("md0 : active raid1 sda1[0]\n" ++
    "md1 : active raid1 sdb1[0]\n" ++
    "md3 : active raid0 md1[1] md0[0]\n")

/-- The arrays of that report, in the order of their lines. -/
def compositeLastArrays : List ArrayStatus :=
  [{ name := "md0", activity := .active, level := some "raid1",
     members := ["sda1"] },
   { name := "md1", activity := .active, level := some "raid1",
     members := ["sdb1"] },
   { name := "md3", activity := .active, level := some "raid0",
     members := ["md1", "md0"] }]

theorem statuses_compositeLast :
    statuses compositeLast = .ok compositeLastArrays := by
  rfl

/-- An array that is reported behind its parts comes before the first of
them. -/
theorem compositeLast_before_iff :
    (∃ arrays, (read .partsLast compositeLast).outcome = .ok arrays) ∧
      ∃ entries, listing compositeLast = .ok entries ∧
        Before entries 2 0 := by
  refine ⟨⟨_, rfl⟩, ?_⟩
  obtain ⟨lines, entries, hlines, hentries, -, -, -, horder, -⟩ :=
    read_before_iff
      (show (read .partsLast compositeLast).outcome = .ok _ from rfl)
  rw [statuses_compositeLast] at hlines
  cases hlines
  refine ⟨entries, hentries, (horder 0 2 (by decide) (by decide)).mpr ?_⟩
  exact ⟨0, by decide, ⟨_, rfl, _, rfl, by decide⟩, Or.inl rfl⟩

end Report
end RaidStatus

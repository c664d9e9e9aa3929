import RaidStatus.Proofs.Watch.Transition

/-!
# The answers of lookups

A lookup answers with the first array of the report for which its test holds
(`Lookup.takeFirst_eq`).  The array is taken from a roster of the reading, and
this never fails, since the array has been found there by its place
(`Roster.exists_detach_of_mem`).

What the tests of the two lookups hold for is said by the members and the
version of an array alone (`Lookup.HoldsDisk`, `Lookup.IsPartOf`).
-/

namespace RaidStatus

/-- The answer is the first item of a list that has a property, or there is no
such item. -/
def IsFirst {α : Type} (p : α → Prop) (items : List α) : Option α → Prop
  | some answer =>
    ∃ before behind, items = before ++ answer :: behind ∧ p answer ∧
      ∀ other ∈ before, ¬ p other
  | none => ∀ other ∈ items, ¬ p other

theorem isFirst_find? {α : Type} {p : α → Prop} {fits : α → Bool}
    (hfits : ∀ a, fits a = true ↔ p a) (items : List α) :
    IsFirst p items (items.find? fits) := by
  cases hanswer : items.find? fits with
  | none =>
    intro other hother hp
    exact List.find?_eq_none.mp hanswer other hother ((hfits other).mpr hp)
  | some answer =>
    obtain ⟨hanswer, before, behind, hitems, hbefore⟩ :=
      List.find?_eq_some_iff_append.mp hanswer
    refine ⟨before, behind, hitems, (hfits answer).mp hanswer, ?_⟩
    intro other hother hp
    simpa [(hfits other).mpr hp] using hbefore other hother

theorem IsFirst.property {α : Type} {p : α → Prop} {items : List α}
    {answer : Option α} (h : IsFirst p items answer) :
    ∀ a ∈ answer, p a := by
  rintro a rfl
  obtain ⟨-, -, -, ha, -⟩ := h
  exact ha

/-! ## Taking an array from a roster -/

namespace Roster

/-- The first array that fits is found with its place. -/
theorem map_first?_ofList (fits : ArrayStatus → Bool)
    (arrays : List ArrayStatus) :
    ((ofList arrays).first? fits).map Prod.snd = arrays.find? fits := by
  have hfind := List.find?_map (f := Prod.snd) (p := fits)
    (l := (ofList arrays).entries)
  change (ofList arrays).arrays.find? fits = _ at hfind
  rw [arrays_ofList] at hfind
  exact hfind.symm

/-- What is on the roster can be taken from it. -/
theorem exists_detach_of_mem {roster : Roster} {entry : Nat × ArrayStatus}
    (hentry : entry ∈ roster.entries) :
    ∃ rest, roster.detach ⟨some entry.1, entry.2⟩ = .ok rest := by
  unfold detach
  cases hposition : roster.entries.findIdx? fun e =>
      decide (some e.1 = some entry.1) with
  | some position => exact ⟨_, rfl⟩
  | none =>
    have hnot := List.findIdx?_eq_none_iff.mp hposition entry hentry
    simp at hnot

end Roster

namespace Lookup

/-- The array is taken without an error, so the answer is the first array that
fits. -/
theorem takeFirst_eq (fits : ArrayStatus → Bool) (otherwise : List Notice)
    (arrays : List ArrayStatus) :
    takeFirst fits otherwise arrays =
      ⟨if arrays.find? fits = none then otherwise else [],
        .ok (arrays.find? fits)⟩ := by
  have hanswer := Roster.map_first?_ofList fits arrays
  cases hfound : (Roster.ofList arrays).first? fits with
  | none =>
    rw [hfound, Option.map_none] at hanswer
    simp [takeFirst, hfound, ← hanswer]
  | some entry =>
    obtain ⟨rest, hrest⟩ :=
      Roster.exists_detach_of_mem (List.mem_of_find?_eq_some hfound)
    rw [hfound, Option.map_some] at hanswer
    simp only [takeFirst, hfound, hrest, ← hanswer]
    rfl

/-! ## What the lookups ask for -/

/-- The array holds the disk, and its version is not that of a subarray. -/
def HoldsDisk (disk : Text) (array : ArrayStatus) : Prop :=
  disk ∈ array.members ∧
    ∀ version ∈ array.version,
      ¬ Text.ofString "external:/" <+: version ∧
      ¬ Text.ofString "external:-" <+: version

/-- The version of the array has a tail with this container and this
subarray. -/
def IsPartOf (subarray container : Text) (array : ArrayStatus) : Prop :=
  ∃ tail, array.version = some (Text.ofString "external:" ++ tail) ∧
    ExternalVersion.isIn container tail = true ∧
    ExternalVersion.isNamed subarray tail = true

theorem externalTail?_eq_some_iff {array : ArrayStatus} {tail : Text} :
    array.externalTail? = some tail ↔
      array.version = some (Text.ofString "external:" ++ tail) := by
  unfold ArrayStatus.externalTail?
  simp [Option.bind_eq_some_iff, ExternalVersion.tail?_eq_some_iff,
    ExternalVersion.keyword]

theorem isSubarray_iff {array : ArrayStatus} :
    array.isSubarray = true ↔
      ∃ version ∈ array.version, Text.ofString "external:/" <+: version ∨
        Text.ofString "external:-" <+: version := by
  have hkeyword : Text.ofString "external:/" =
        Text.ofString "external:" ++ [.char '/'] ∧
      Text.ofString "external:-" =
        Text.ofString "external:" ++ [.char '-'] := ⟨rfl, rfl⟩
  rw [hkeyword.1, hkeyword.2]
  unfold ArrayStatus.isSubarray ExternalVersion.isSubarray
  simp only [Option.any_eq_true, externalTail?_eq_some_iff,
    Option.isSome_iff_exists, ExternalVersion.location?_eq_some_iff,
    ExternalVersion.mem_markers_iff]
  constructor
  · rintro ⟨tail, hversion, location, marker, hmarker, rfl⟩
    refine ⟨_, hversion, ?_⟩
    rcases hmarker with rfl | rfl
    · exact Or.inl ⟨location, by simp⟩
    · exact Or.inr ⟨location, by simp⟩
  · rintro ⟨version, hversion, ⟨location, rfl⟩ | ⟨location, rfl⟩⟩
    · exact ⟨_, by simpa using hversion, location, _, Or.inl rfl, rfl⟩
    · exact ⟨_, by simpa using hversion, location, _, Or.inr rfl, rfl⟩

theorem holds_iff (disk : Text) (array : ArrayStatus) :
    holds disk array = true ↔ HoldsDisk disk array := by
  have hsubarray : array.isSubarray = false ↔
      ∀ version ∈ array.version, ¬ Text.ofString "external:/" <+: version ∧
        ¬ Text.ofString "external:-" <+: version := by
    rw [← Bool.not_eq_true, isSubarray_iff]
    simp only [not_exists, not_and, not_or]
  simp [holds, HoldsDisk, hsubarray, and_comm]

theorem isSubarrayNamed_iff (subarray container : Text)
    (array : ArrayStatus) :
    isSubarrayNamed subarray container array = true ↔
      IsPartOf subarray container array := by
  simp [isSubarrayNamed, IsPartOf, Option.any_eq_true,
    externalTail?_eq_some_iff]

theorem HoldsDisk.isSubarray_eq_false {disk : Text} {array : ArrayStatus}
    (h : HoldsDisk disk array) : array.isSubarray = false := by
  have hholds := (holds_iff disk array).mpr h
  simp only [holds, Bool.and_eq_true, Bool.not_eq_true'] at hholds
  exact hholds.1

/-- What is in a container is a subarray. -/
theorem IsPartOf.isSubarrayOf {subarray container : Text}
    {array : ArrayStatus} (h : IsPartOf subarray container array) :
    array.isSubarray = true ∧ array.isSubarrayOf container = true := by
  obtain ⟨tail, hversion, hcontainer, -⟩ := h
  have htail := externalTail?_eq_some_iff.mpr hversion
  obtain ⟨marker, hmarker, rest, rfl⟩ :=
    ExternalVersion.isIn_iff.mp hcontainer
  constructor
  · simp [ArrayStatus.isSubarray, htail, ExternalVersion.isSubarray,
      ExternalVersion.location?, hmarker]
  · simp [ArrayStatus.isSubarrayOf, htail, hcontainer]

/-! ## Lookups in a session -/

theorem arraysOf_outcome_of_readFile {order : ArrayOrder} {bytes : List UInt8}
    {arrays : List ArrayStatus}
    (hread : (Report.readFile order bytes).outcome = .ok arrays) :
    (arraysOf order (some bytes)).outcome = .ok (some arrays) := by
  rw [arraysOf, Noted.map_outcome, hread]
  rfl

/-- A question to a file that can be read is put to its arrays. -/
theorem ask_of_readFile {bytes : List UInt8} {arrays : List ArrayStatus}
    (hread : (Report.readFile .partsLast bytes).outcome = .ok arrays)
    (question : List ArrayStatus → Noted LookupError (Option ArrayStatus)) :
    ask question (some bytes) =
      ⟨(Report.readFile .partsLast bytes).notices ++
        (question arrays).notices, (question arrays).outcome⟩ := by
  have harrays : ((arraysOf .partsLast (some bytes)).mapError
      LookupError.tooLong).outcome = .ok (some arrays) := by
    rw [Noted.mapError_outcome, arraysOf_outcome_of_readFile hread]
    rfl
  rw [ask, Noted.bind_of_ok harrays, Noted.mapError_notices, arraysOf,
    Noted.map_notices]

theorem noSubarray_notMem_readFile (subarray container : Text)
    (order : ArrayOrder) (bytes : List UInt8) :
    .noSubarray subarray container ∉ (Report.readFile order bytes).notices := by
  intro hmem
  cases Report.isAboutLine_of_mem_read hmem

/-- The answers of both lookups, in every session.  Nothing is the answer if
there is no file at the path.  If there is one that can be read, the answer is
the first of its arrays that holds the disk without being a subarray, or that
is the subarray of the container, and there is no answer only if no array is.
Asking changes nothing and leaves the notices of the reading, to which the
lack of the subarray is added. -/
theorem lookup_answers (session : Session) (disk subarray container : Text) :
    (session.fs.current? = none →
      session.perform (.holderOf disk) =
        (session, ⟨[.readFailed], .ok (.array none)⟩) ∧
      session.perform (.subarrayOf subarray container) =
        (session, ⟨[.readFailed], .ok (.array none)⟩)) ∧
    ∀ bytes arrays, session.fs.current? = some bytes →
      (Report.readFile .partsLast bytes).outcome = .ok arrays →
        (∃ answer,
          session.perform (.holderOf disk) =
            (session, ⟨(Report.readFile .partsLast bytes).notices,
              .ok (.array answer)⟩) ∧
          IsFirst (HoldsDisk disk) arrays answer ∧
          ∀ array ∈ answer, array.isSubarray = false) ∧
        ∃ answer,
          session.perform (.subarrayOf subarray container) =
            (session, ⟨(Report.readFile .partsLast bytes).notices ++
              (if answer = none then [.noSubarray subarray container]
                else []),
              .ok (.array answer)⟩) ∧
          .noSubarray subarray container ∉
            (Report.readFile .partsLast bytes).notices ∧
          IsFirst (IsPartOf subarray container) arrays answer ∧
          ∀ array ∈ answer, array.isSubarray = true ∧
            array.isSubarrayOf container = true := by
  constructor
  · intro hnone
    simp only [Session.perform, hnone]
    exact ⟨rfl, rfl⟩
  · intro bytes arrays hfile hread
    constructor
    · have hfirst := isFirst_find? (holds_iff disk) arrays
      refine ⟨arrays.find? (holds disk), ?_, hfirst, ?_⟩
      · simp only [Session.perform, hfile, holderOf, ask_of_readFile hread,
          takeFirst_eq, ite_self, List.append_nil]
        exact Prod.ext rfl (Noted.ext (by simp) rfl)
      · exact fun array harray =>
          (hfirst.property array harray).isSubarray_eq_false
    · have hfirst :=
        isFirst_find? (isSubarrayNamed_iff subarray container) arrays
      refine ⟨arrays.find? (isSubarrayNamed subarray container), ?_,
        noSubarray_notMem_readFile _ _ _ _, hfirst, ?_⟩
      · simp only [Session.perform, hfile, subarrayOf, ask_of_readFile hread,
          takeFirst_eq]
        exact Prod.ext rfl (Noted.ext (by simp) rfl)
      · exact fun array harray => (hfirst.property array harray).isSubarrayOf

/-- The report of a container, behind a subarray that lists the same disk. -/
def subarrayFirst : Text :=
  Text.ofString ("md126 : active raid1 sda[0] 8 blocks super external:-m/0\n" ++
    "md127 : inactive sda[0] 8 blocks super external:imsm\n")

/-- A session with that report. -/
def subarrayFirstSession : Session :=
  Session.initial.run [.write (Text.Utf8.encode subarrayFirst)]

/-- The container of that report. -/
def laterContainer : ArrayStatus :=
  { name := "md127", activity := .inactive, members := ["sda"],
    version := some "external:imsm" }

theorem readFile_subarrayFirst :
    (Report.readFile .partsLast (Text.Utf8.encode subarrayFirst)).outcome =
      .ok
        [{ name := "md126", activity := .active, level := some "raid1",
           members := ["sda"], version := some "external:-m/0" },
         laterContainer] := by
  have hdecode : Text.Utf8.decode (Text.Utf8.encode subarrayFirst) =
      subarrayFirst := Text.Utf8.decode_encode_ofString _
  rw [Report.readFile, hdecode]
  rfl

/-- The subarray that comes first is not taken for the holder of its disk. -/
theorem subarrayFirst_answers :
    ∃ bytes arrays holder,
      subarrayFirstSession.fs.current? = some bytes ∧
      (Report.readFile .partsLast bytes).outcome = .ok arrays ∧
      (subarrayFirstSession.perform (.holderOf "sda")).2.outcome =
        .ok (.array (some holder)) ∧
      IsFirst (HoldsDisk "sda") arrays (some holder) ∧
      holder.isSubarray = false := by
  have hfile : subarrayFirstSession.fs.current? =
      some (Text.Utf8.encode subarrayFirst) := rfl
  obtain ⟨-, hanswers⟩ := lookup_answers subarrayFirstSession "sda" "0" "m"
  obtain ⟨⟨answer, hperform, hfirst, hholder⟩, -⟩ :=
    hanswers _ _ hfile readFile_subarrayFirst
  cases answer with
  | none =>
    have hcontainer : HoldsDisk "sda" laterContainer :=
      (holds_iff "sda" laterContainer).mp (by decide)
    exact absurd hcontainer (hfirst laterContainer (by simp))
  | some holder =>
    refine ⟨_, _, holder, hfile, readFile_subarrayFirst, ?_, hfirst,
      hholder holder rfl⟩
    rw [hperform]

end Lookup
end RaidStatus

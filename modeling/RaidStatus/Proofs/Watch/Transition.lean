import RaidStatus.Watch.Session

/-!
# What an action does to the files and the slot

Every action changes the files in a way of its own (`Action.onFiles`), and
leaves the slot alone unless it takes a descriptor, closes the one that is held
or breaks it.  That a descriptor was taken can be seen from outside: it is the
only occasion for the notice `Notice.held` (`Session.Takes`).

The action with the most ways to end is reading.  They are listed once
(`Session.ReadCase`), each with the session that it leaves and the notices, and
what is said about readings elsewhere is taken from that list.

An action is *plain* if it neither breaks the held descriptor nor takes one of
a pipe.  Plain actions take a descriptor of what is at the path at that time,
and of nothing else (`Session.perform_of_takes`).
-/

namespace RaidStatus

/-- The action neither breaks the held descriptor nor takes one of a pipe. -/
def Action.isPlain : Action → Bool
  | .breakHeld | .hold .pipe => false
  | _ => true

/-- The path leads elsewhere after the action. -/
def Action.movesPath : Action → Bool
  | .replace _ | .remove | .makeDirectory => true
  | _ => false

/-- The action looks at the files and the slot, and changes neither. -/
def Action.observes : Action → Bool
  | .isKnown _ | .holderOf _ | .subarrayOf _ _ | .wait _ _ |
    .signalWait _ _ => true
  | _ => false

/-- What an action does to the files. -/
def Action.onFiles : Action → FileSystem → FileSystem
  | .write bytes => FileSystem.write bytes
  | .replace bytes => FileSystem.replace bytes
  | .remove => FileSystem.remove
  | .makeDirectory => FileSystem.makeDirectory
  | _ => id

/-- The descriptor of what is at the path, if something is there. -/
def PathEntry.descriptor? : PathEntry → Option Descriptor
  | missing => none
  | directory => some .directory
  | file id => some (.file id)

/-- The file at the path, if a file is there. -/
def PathEntry.file? : PathEntry → Option Nat
  | missing | directory => none
  | file id => some id

/-! ## Reading a report is not about the slot -/

namespace Notice

/-- The notice is about the slot. -/
def isAboutSlot : Notice → Bool
  | held | closing => true
  | _ => false

/-- The notice is about a line of a report. -/
def isAboutLine : Notice → Bool
  | skipped _ | parsed _ | inserted _ _ => true
  | _ => false

/-- None of some notices is about the slot. -/
def Quiet (notices : List Notice) : Prop :=
  ∀ notice ∈ notices, notice.isAboutSlot = false

theorem quiet_nil : Quiet [] := by
  intro notice hnotice
  cases hnotice

theorem quiet_singleton {notice : Notice}
    (hnotice : notice.isAboutSlot = false) : Quiet [notice] := by
  simpa [Quiet] using hnotice

theorem Quiet.append {front back : List Notice} (hfront : Quiet front)
    (hback : Quiet back) : Quiet (front ++ back) := by
  intro notice hnotice
  rcases List.mem_append.mp hnotice with hnotice | hnotice
  · exact hfront notice hnotice
  · exact hback notice hnotice

theorem Quiet.held_notMem {notices : List Notice} (hquiet : Quiet notices) :
    held ∉ notices := by
  intro hmem
  cases hquiet held hmem

theorem Quiet.filter_eq_nil {notices : List Notice}
    (hquiet : Quiet notices) : notices.filter isAboutSlot = [] := by
  rw [List.filter_eq_nil_iff]
  intro notice hnotice
  simp [hquiet notice hnotice]

theorem Quiet.bind {ε α β : Type} {x : Noted ε α} {f : α → Noted ε β}
    (hx : Quiet x.notices) (hf : ∀ a, Quiet (f a).notices) :
    Quiet (x >>= f).notices := by
  intro notice hnotice
  rcases Noted.mem_bind_notices hnotice with hmem | ⟨a, -, hmem⟩
  · exact hx notice hmem
  · exact hf a notice hmem

end Notice

theorem Report.isAboutLine_of_mem_readLine {arrays : List ArrayStatus}
    {line : LogicalLine} {notice : Notice}
    (hnotice : notice ∈ (readLine arrays line).notices) :
    notice.isAboutLine = true := by
  unfold readLine at hnotice
  split at hnotice
  · simp at hnotice
  · split at hnotice
    · split at hnotice
      · simp only [placementNotices, List.mem_cons, List.mem_map] at hnotice
        rcases hnotice with rfl | ⟨part, -, rfl⟩ <;> rfl
      · simp at hnotice
    · rw [List.mem_singleton.mp hnotice]
      rfl

/-- Reading a report leaves notices about its lines only. -/
theorem Report.isAboutLine_of_mem_read {order : ArrayOrder} {text : Text}
    {notice : Notice} (hnotice : notice ∈ (read order text).notices) :
    notice.isAboutLine = true := by
  have hlines : ∀ (lines : List LogicalLine) (arrays : List ArrayStatus),
      notice ∈ (lines.foldlM readLine arrays).notices →
        notice.isAboutLine = true := by
    intro lines
    induction lines with
    | nil =>
      intro arrays hnone
      simp at hnone
    | cons line lines ih =>
      intro arrays hmem
      rw [List.foldlM_cons] at hmem
      rcases Noted.mem_bind_notices hmem with hmem | ⟨next, -, hmem⟩
      · exact isAboutLine_of_mem_readLine hmem
      · exact ih next hmem
  unfold read at hnotice
  rw [Noted.map_notices] at hnotice
  exact hlines _ [] hnotice

theorem Report.quiet_read (order : ArrayOrder) (text : Text) :
    Notice.Quiet (read order text).notices := by
  intro notice hnotice
  have hline := isAboutLine_of_mem_read hnotice
  cases notice with
  | skipped | parsed | inserted => rfl
  | _ => cases hline

namespace Lookup

theorem quiet_arraysOf (order : ArrayOrder) (file : Option (List UInt8)) :
    Notice.Quiet (arraysOf order file).notices := by
  cases file with
  | none => exact Notice.quiet_singleton rfl
  | some bytes =>
    unfold arraysOf
    rw [Noted.map_notices]
    exact Report.quiet_read order _

theorem quiet_isKnown (name : Text) (file : Option (List UInt8)) :
    Notice.Quiet (isKnown name file).notices :=
  (quiet_arraysOf .partsLast file).bind fun _ => Notice.quiet_nil

theorem quiet_takeFirst (fits : ArrayStatus → Bool)
    {otherwise : List Notice} (hotherwise : Notice.Quiet otherwise)
    (arrays : List ArrayStatus) :
    Notice.Quiet (takeFirst fits otherwise arrays).notices := by
  unfold takeFirst
  dsimp only
  split
  · split
    · exact Notice.quiet_nil
    · exact Notice.quiet_nil
  · exact hotherwise

theorem quiet_ask
    {question : List ArrayStatus → Noted LookupError (Option ArrayStatus)}
    (hquestion : ∀ arrays, Notice.Quiet (question arrays).notices)
    (file : Option (List UInt8)) :
    Notice.Quiet (ask question file).notices := by
  refine Notice.Quiet.bind (quiet_arraysOf .partsLast file) fun arrays? => ?_
  cases arrays? with
  | none => exact Notice.quiet_nil
  | some arrays => exact hquestion arrays

theorem quiet_holderOf (disk : Text) (file : Option (List UInt8)) :
    Notice.Quiet (holderOf disk file).notices :=
  quiet_ask (quiet_takeFirst (holds disk) Notice.quiet_nil) file

theorem quiet_subarrayOf (subarray container : Text)
    (file : Option (List UInt8)) :
    Notice.Quiet (subarrayOf subarray container file).notices :=
  quiet_ask (quiet_takeFirst (isSubarrayNamed subarray container)
    (Notice.quiet_singleton rfl)) file

end Lookup

theorem quiet_waitHeld (slot : Option Descriptor) (limit : Seconds)
    (poll : Poll) : Notice.Quiet (waitHeld slot limit poll).notices := by
  unfold waitHeld
  split
  · exact Notice.quiet_nil
  · exact Notice.quiet_nil
  · exact Notice.quiet_nil
  · exact Notice.quiet_singleton rfl
  · split
    · exact Notice.quiet_nil
    · split
      · exact Notice.quiet_singleton rfl
      · exact Notice.quiet_nil

theorem SignalWait.quiet_run (wait : SignalWait) (slot : Option Descriptor)
    (before : SignalState) : Notice.Quiet (wait.run slot before).1 := by
  unfold SignalWait.run
  split
  · exact Notice.quiet_singleton rfl
  · dsimp only
    split
    · exact Notice.quiet_nil
    · exact Notice.quiet_singleton rfl

namespace Session

variable (session : Session)

/-- The action takes a descriptor. -/
def Takes (action : Action) : Prop :=
  Notice.held ∈ (session.perform action).2.notices

theorem source?_of_slot_eq_none (hslot : session.slot = none)
    (hold : Bool) : session.source? hold = session.fs.entry.file? := by
  unfold source?
  rw [hslot, ite_self]
  cases session.fs.entry <;> rfl

theorem source?_false : session.source? false = session.fs.entry.file? := by
  unfold source?
  cases session.fs.entry <;> rfl

/-- Looking at the files and the slot leaves no notice about the slot. -/
theorem quiet_perform_of_observes {action : Action}
    (hobserves : action.observes = true) :
    Notice.Quiet (session.perform action).2.notices := by
  cases action with
  | isKnown name =>
    simp only [perform, Noted.map_notices, Noted.mapError_notices]
    exact Lookup.quiet_isKnown name _
  | holderOf disk =>
    simp only [perform, Noted.map_notices, Noted.mapError_notices]
    exact Lookup.quiet_holderOf disk _
  | subarrayOf subarray container =>
    simp only [perform, Noted.map_notices, Noted.mapError_notices]
    exact Lookup.quiet_subarrayOf subarray container _
  | wait limit poll =>
    simp only [perform, Noted.map_notices, Noted.mapError_notices]
    exact quiet_waitHeld _ limit poll
  | signalWait wait before => exact wait.quiet_run _ before
  | _ => cases hobserves

/-! ## The files and the slot after an action -/

theorem perform_fs (action : Action) :
    (session.perform action).1.fs = action.onFiles session.fs := by
  cases action with
  | read hold order failingMark =>
    exact session.read_fs hold order failingMark
  | hold target => exact session.hold_fs target
  | close => exact session.close_fs
  | _ => rfl

/-- What a reading can come to: the session after it, and its answer. -/
inductive ReadCase (hold : Bool) (order : ArrayOrder)
    (failingMark : Option Nat) :
    Session → Noted SessionError (Option (List ArrayStatus)) → Prop
  /-- There is no file to be read, or its descriptor cannot be marked. -/
  | unreadable
      (hfails : failingMark = some 1 ∨ session.source? hold = none) :
    ReadCase hold order failingMark (session.rewind hold)
      ⟨[.readFailed], .ok none⟩
  /-- A number of the report is too long. -/
  | refused (id : Nat) (error : Numeral.TooLong)
      (hsource : session.source? hold = some id)
      (hreport : (Report.readFile order (session.fs.contents id)).outcome =
        .error error) :
    ReadCase hold order failingMark ((session.rewind hold).exhaust hold id)
      ⟨(Report.readFile order (session.fs.contents id)).notices,
        .error (.tooLong error)⟩
  /-- The report is read, but the descriptor to be held cannot be marked. -/
  | unmarked (id : Nat) (hhold : hold = true) (hslot : session.slot = none)
      (hsource : session.source? hold = some id)
      (hfails : failingMark = some 2) :
    ReadCase hold order failingMark ((session.rewind hold).exhaust hold id)
      ⟨(Report.readFile order (session.fs.contents id)).notices ++
        [.readFailed], .ok none⟩
  /-- The report is read, and its descriptor is held from now on. -/
  | taken (id : Nat) (arrays : List ArrayStatus) (offset : Nat)
      (hhold : hold = true) (hslot : session.slot = none)
      (hsource : session.source? hold = some id)
      (hreport : (Report.readFile order (session.fs.contents id)).outcome =
        .ok arrays) :
    ReadCase hold order failingMark
      (((session.rewind hold).exhaust hold id).take (.file id) offset)
      ⟨(Report.readFile order (session.fs.contents id)).notices ++ [.held],
        .ok (some arrays)⟩
  /-- The report is read, and no descriptor is to be held, or one is held
  already. -/
  | read (id : Nat) (arrays : List ArrayStatus)
      (hkeeps : hold = true → session.slot ≠ none)
      (hsource : session.source? hold = some id)
      (hreport : (Report.readFile order (session.fs.contents id)).outcome =
        .ok arrays) :
    ReadCase hold order failingMark ((session.rewind hold).exhaust hold id)
      ⟨(Report.readFile order (session.fs.contents id)).notices,
        .ok (some arrays)⟩

theorem readCase_read (hold : Bool) (order : ArrayOrder)
    (failingMark : Option Nat) :
    session.ReadCase hold order failingMark
      (session.read hold order failingMark).1
      (session.read hold order failingMark).2 := by
  unfold Session.read
  split
  · next hsource =>
    apply ReadCase.unreadable
    by_cases hfails : failingMark = some 1
    · exact Or.inl hfails
    · rw [if_neg hfails] at hsource
      exact Or.inr hsource
  · next id hsource =>
    have hfile : session.source? hold = some id := by
      split at hsource
      · cases hsource
      · exact hsource
    dsimp only
    rw [session.remaining_rewind]
    split
    · next error hreport => exact .refused id error hfile hreport
    · next arrays hreport =>
      split
      · next htakes =>
        rw [Bool.and_eq_true, Option.isNone_iff_eq_none] at htakes
        split
        · next hfails =>
          exact .unmarked id htakes.1 htakes.2 hfile hfails
        · exact .taken id arrays _ htakes.1 htakes.2 hfile hreport
      · next htakes =>
        refine .read id arrays ?_ hfile hreport
        intro hhold hslot
        simp [hhold, hslot] at htakes

/-- The arrays that are read are those of the file that the reading goes
to. -/
theorem exists_readFile_of_read {hold : Bool} {order : ArrayOrder}
    {failingMark : Option Nat} {arrays : List ArrayStatus}
    (hread : (session.read hold order failingMark).2.outcome =
      .ok (some arrays)) :
    ∃ id, session.source? hold = some id ∧
      (Report.readFile order (session.fs.contents id)).outcome =
        .ok arrays := by
  have hcase := session.readCase_read hold order failingMark
  generalize (session.read hold order failingMark).1 = after at hcase
  generalize (session.read hold order failingMark).2 = answer at hcase hread
  cases hcase with
  | unreadable | refused | unmarked => cases hread
  | taken id _ _ _ _ hsource hreport =>
    cases hread
    exact ⟨id, hsource, hreport⟩
  | read id _ _ hsource hreport =>
    cases hread
    exact ⟨id, hsource, hreport⟩

/-- A reading leaves the slot alone, or takes a descriptor of the file that is
read. -/
theorem read_slot (hold : Bool) (order : ArrayOrder)
    (failingMark : Option Nat) :
    (Notice.held ∉ (session.read hold order failingMark).2.notices ∧
      (session.read hold order failingMark).1.slot = session.slot) ∨
    (Notice.held ∈ (session.read hold order failingMark).2.notices ∧
      ∃ id, session.fs.entry = .file id ∧
        (session.read hold order failingMark).1.slot =
          some (.file id)) := by
  have hreport : ∀ bytes,
      Notice.held ∉ (Report.readFile order bytes).notices :=
    fun bytes => (Report.quiet_read order _).held_notMem
  have hcase := session.readCase_read hold order failingMark
  generalize (session.read hold order failingMark).1 = after at hcase ⊢
  generalize (session.read hold order failingMark).2 = answer at hcase ⊢
  cases hcase with
  | unreadable => simp
  | refused => simp [hreport]
  | unmarked => simp [hreport]
  | read => simp [hreport]
  | taken id arrays offset hhold hslot hsource =>
    right
    -- nothing was held, so the file that was read is the one at the path
    rw [session.source?_of_slot_eq_none hslot] at hsource
    refine ⟨by simp, id, ?_, rfl⟩
    unfold PathEntry.file? at hsource
    split at hsource
    · cases hsource
    · cases hsource
    · cases hsource
      assumption

/-- A plain action that takes a descriptor takes one of what is at the
path. -/
theorem perform_of_takes {action : Action} (hplain : action.isPlain = true)
    (htakes : session.Takes action) :
    (session.perform action).1.slot = session.fs.entry.descriptor? ∧
      (session.perform action).1.slot ≠ none ∧
      (session.perform action).1.fs = session.fs := by
  unfold Takes at htakes
  cases action with
  | write | replace | remove | makeDirectory => simp [perform] at htakes
  | read hold order failingMark =>
    have hnotices : Notice.held ∈
        (session.read hold order failingMark).2.notices := by
      simpa [perform] using htakes
    rcases session.read_slot hold order failingMark with
      ⟨hnone, -⟩ | ⟨-, id, hentry, hslot⟩
    · exact absurd hnotices hnone
    · refine ⟨?_, ?_, session.read_fs hold order failingMark⟩
      · rw [hentry]
        exact hslot
      · change (session.read hold order failingMark).1.slot ≠ none
        rw [hslot]
        exact Option.some_ne_none _
  | isKnown | holderOf | subarrayOf | wait | signalWait =>
    exact absurd htakes (session.quiet_perform_of_observes rfl).held_notMem
  | hold target =>
    cases target with
    | pipe => cases hplain
    | closed => simp [perform, hold] at htakes
    | file =>
      refine ⟨?_, ?_, session.hold_fs .file⟩
      · simp only [perform, hold] at htakes ⊢
        cases hentry : session.fs.entry with
        | missing => simp [hentry] at htakes
        | directory | file => rfl
      · simp only [perform, hold] at htakes ⊢
        cases hentry : session.fs.entry with
        | missing => simp [hentry] at htakes
        | directory | file => exact Option.some_ne_none _
  | breakHeld => cases hplain
  | close =>
    simp only [perform, close, Noted.map_notices] at htakes
    split at htakes <;> simp at htakes

/-- An action that takes no descriptor leaves the held one alone or closes
it. -/
theorem perform_of_not_takes {action : Action}
    (hplain : action.isPlain = true) (htakes : ¬ session.Takes action) :
    (session.perform action).1.slot = session.slot ∨
      (session.perform action).1.slot = none := by
  unfold Takes at htakes
  cases action with
  | write | replace | remove | makeDirectory | isKnown | holderOf |
    subarrayOf | wait | signalWait => exact Or.inl rfl
  | read hold order failingMark =>
    left
    rcases session.read_slot hold order failingMark with
      ⟨-, hslot⟩ | ⟨hheld, -⟩
    · exact hslot
    · simp only [perform, Noted.map_notices] at htakes
      exact absurd hheld htakes
  | hold target =>
    cases target with
    | pipe => cases hplain
    | closed => exact Or.inl rfl
    | file =>
      left
      simp only [perform, hold] at htakes ⊢
      cases hentry : session.fs.entry with
      | missing => rfl
      | directory | file => simp [hentry] at htakes
  | breakHeld => cases hplain
  | close =>
    simp only [perform, close]
    split
    · exact Or.inl rfl
    · exact Or.inl rfl
    · exact Or.inr rfl

end Session
end RaidStatus

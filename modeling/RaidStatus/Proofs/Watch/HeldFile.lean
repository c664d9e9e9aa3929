import Mathlib.Data.List.Induction
import Mathlib.Data.List.TakeWhile
import RaidStatus.Proofs.Watch.Transition

/-!
# The file behind the held descriptor

A held descriptor stays with its file when the path is led elsewhere, and sees
what is written to the path only as long as the path still leads to that file.
The contents of its file are therefore those that the file had when the
descriptor was taken, overwritten by the writes before the path was moved
(`written`).

The invariant of the actions since a descriptor was taken is `Holds`.  It says
where the descriptor leads, what is in its file, and that the path leads to the
same place exactly as long as it has not been moved.
-/

namespace RaidStatus

/-- The action reads the report without holding its descriptor. -/
def Action.readsPath : Action → Bool
  | .read throughHeld _ _ => !throughHeld
  | .isKnown _ | .holderOf _ | .subarrayOf _ _ => true
  | _ => false

/-- The contents of the file at the path after some actions, if it had the
given contents before them and stays there until it is moved. -/
def written (bytes : List UInt8) (actions : List Action) : List UInt8 :=
  (actions.takeWhile fun action => !action.movesPath).foldl
    (fun bytes action =>
      match action with
      | .write new => new
      | _ => bytes)
    bytes

/-- No action moves the path. -/
def Stays (actions : List Action) : Prop :=
  ∀ action ∈ actions, action.movesPath = false

@[simp] theorem written_nil (bytes : List UInt8) :
    written bytes [] = bytes := rfl

theorem written_append_of_stays {actions : List Action}
    (hstays : Stays actions) (bytes : List UInt8) (action : Action) :
    written bytes (actions ++ [action]) =
      match action with
      | .write new => new
      | _ => written bytes actions := by
  have hfront : actions.takeWhile (fun a => !a.movesPath) = actions := by
    rw [List.takeWhile_eq_self_iff]
    intro a ha
    simp [hstays a ha]
  unfold written
  rw [List.takeWhile_append_of_pos (fun a ha => by simp [hstays a ha]),
    hfront, List.foldl_append]
  cases action <;> rfl

theorem written_append_of_not_stays {actions : List Action}
    (hmoved : ¬ Stays actions) (bytes : List UInt8) (action : Action) :
    written bytes (actions ++ [action]) = written bytes actions := by
  have hend : (actions ++ [action]).takeWhile (fun a => !a.movesPath) =
      actions.takeWhile (fun a => !a.movesPath) := by
    rw [List.takeWhile_append, if_neg]
    intro hlength
    apply hmoved
    intro a ha
    have hall := List.takeWhile_eq_self_iff.mp
      ((List.takeWhile_prefix _).eq_of_length hlength) a ha
    simpa using hall
  unfold written
  rw [hend]

theorem stays_append_singleton {actions : List Action} {action : Action} :
    Stays (actions ++ [action]) ↔
      Stays actions ∧ action.movesPath = false := by
  simp [Stays, or_imp, forall_and]

namespace FileSystem

/-- A file that is there stays the same file, and only a write at the path that
leads to it changes it. -/
theorem onFiles_contents {fs : FileSystem} {id : Nat}
    (hid : id < fs.files.length) (action : Action) :
    (action.onFiles fs).contents id =
      match action with
      | .write new => if fs.entry = .file id then new else fs.contents id
      | _ => fs.contents id := by
  cases action with
  | write bytes =>
    simp only [Action.onFiles, write]
    split
    · next other hentry =>
      by_cases hsame : other = id
      · simp [contents, hentry, hsame, hid]
      · simp [contents, hentry, hsame]
    · next hentry => simp [hentry, contents_replace hid]
    · next hentry => simp [hentry]
  | replace bytes => exact contents_replace hid bytes
  | _ => rfl

theorem onFiles_length (fs : FileSystem) (action : Action) :
    fs.files.length ≤ (action.onFiles fs).files.length := by
  cases action with
  | write bytes =>
    simp only [Action.onFiles, write]
    split <;> simp [replace]
  | replace bytes => simp [Action.onFiles, replace]
  | _ => exact Nat.le_refl _

theorem isValid_onFiles {fs : FileSystem} (hvalid : fs.IsValid)
    (action : Action) : (action.onFiles fs).IsValid := by
  cases action with
  | write bytes => exact isValid_write hvalid bytes
  | replace bytes => exact isValid_replace bytes fs
  | remove => exact isValid_remove fs
  | makeDirectory => exact isValid_makeDirectory fs
  | _ => exact hvalid

/-- As long as the path is not moved, it leads to where it led before, if it
led anywhere. -/
theorem onFiles_entry {fs : FileSystem} (hentry : fs.entry ≠ .missing)
    {action : Action} (hstays : action.movesPath = false) :
    (action.onFiles fs).entry = fs.entry := by
  cases action with
  | write bytes =>
    simp only [Action.onFiles, write]
    split
    · rfl
    · contradiction
    · rfl
  | replace | remove | makeDirectory => cases hstays
  | _ => rfl

/-- A path that is moved leads to no file that was there before, and neither
does a path that led elsewhere already. -/
theorem onFiles_entry_ne {fs : FileSystem} {id : Nat}
    (hid : id < fs.files.length) {action : Action}
    (hmoved : action.movesPath = true ∨ fs.entry ≠ .file id) :
    (action.onFiles fs).entry ≠ .file id := by
  cases action with
  | write bytes =>
    have hentry : fs.entry ≠ .file id := by
      rcases hmoved with hmoved | hentry
      · cases hmoved
      · exact hentry
    simp only [Action.onFiles, write]
    split
    · exact hentry
    · simp [replace, Nat.ne_of_gt hid]
    · exact hentry
  | replace bytes => simp [Action.onFiles, replace, Nat.ne_of_gt hid]
  | remove | makeDirectory => simp [Action.onFiles, remove, makeDirectory]
  | _ =>
    rcases hmoved with hmoved | hentry
    · cases hmoved
    · exact hentry

end FileSystem

namespace Session

/-! ## The actions since a descriptor was taken -/

/-- None of some actions takes a descriptor. -/
def TakesNone (session : Session) : List Action → Prop
  | [] => True
  | action :: actions =>
    ¬ session.Takes action ∧ TakesNone (session.perform action).1 actions

/-- The action `taking` is the last one of a session that takes a
descriptor. -/
structure TakenAt (actions front : List Action) (taking : Action)
    (back : List Action) : Prop where
  actions_eq : actions = front ++ taking :: back
  takes : (initial.run front).Takes taking
  takesNone : (initial.run (front ++ [taking])).TakesNone back

theorem takesNone_append_singleton {session : Session}
    {actions : List Action} {action : Action} :
    session.TakesNone (actions ++ [action]) ↔
      session.TakesNone actions ∧
        ¬ (session.run actions).Takes action := by
  induction actions generalizing session with
  | nil => simp [TakesNone]
  | cons first actions ih =>
    rw [List.cons_append, TakesNone, TakesNone, ih, run_cons, and_assoc]

theorem run_append_singleton (session : Session) (actions : List Action)
    (action : Action) :
    session.run (actions ++ [action]) =
      ((session.run actions).perform action).1 :=
  session.run_append actions [action]

theorem isValid_run (actions : List Action) :
    (initial.run actions).fs.IsValid := by
  induction actions using List.reverseRecOn with
  | nil =>
    intro id hentry
    cases hentry
  | append_singleton actions action ih =>
    rw [run_append_singleton, perform_fs]
    exact FileSystem.isValid_onFiles ih action

/-- A descriptor was taken of what was at the path of `start`, and `back` has
happened since. -/
structure Holds (start : FileSystem) (back : List Action)
    (session : Session) : Prop where
  start_ne : start.entry ≠ .missing
  slot_eq : session.slot = start.entry.descriptor?
  entry_eq : Stays back → session.fs.entry = start.entry
  entry_ne : ¬ Stays back →
    ∀ id, start.entry = .file id → session.fs.entry ≠ .file id
  lt_length : ∀ id, start.entry = .file id →
    id < session.fs.files.length
  contents_eq : ∀ id, start.entry = .file id →
    session.fs.contents id = written (start.contents id) back

theorem holds_of_takes {session : Session} (hvalid : session.fs.IsValid)
    {action : Action} (hplain : action.isPlain = true)
    (htakes : session.Takes action) :
    Holds session.fs [] (session.perform action).1 := by
  obtain ⟨hslot, hne, hfs⟩ := session.perform_of_takes hplain htakes
  refine ⟨?_, hslot, ?_, ?_, ?_, ?_⟩
  · intro hmissing
    rw [hslot, hmissing] at hne
    exact hne rfl
  · intro _
    rw [hfs]
  · intro hmoved
    exact absurd (fun action haction => by cases haction) hmoved
  · intro id hentry
    rw [hfs]
    exact hvalid id hentry
  · intro id _
    rw [hfs, written_nil]

/-- One more action keeps the invariant, if it neither takes a descriptor nor
closes the held one. -/
theorem Holds.step {start : FileSystem} {back : List Action}
    {session : Session} (h : Holds start back session) {action : Action}
    (hplain : action.isPlain = true) (htakes : ¬ session.Takes action)
    (hheld : (session.perform action).1.slot ≠ none) :
    Holds start (back ++ [action]) (session.perform action).1 := by
  have hfs := session.perform_fs action
  refine ⟨h.start_ne, ?_, ?_, ?_, ?_, ?_⟩
  · rcases session.perform_of_not_takes hplain htakes with hslot | hslot
    · rw [hslot, h.slot_eq]
    · exact absurd hslot hheld
  · intro hstays
    obtain ⟨hback, haction⟩ := stays_append_singleton.mp hstays
    have hentry := h.entry_eq hback
    rw [hfs, FileSystem.onFiles_entry _ haction, hentry]
    rw [hentry]
    exact h.start_ne
  · intro hmoved id hentry
    rw [hfs]
    apply FileSystem.onFiles_entry_ne (h.lt_length id hentry)
    by_cases haction : action.movesPath = true
    · exact Or.inl haction
    · right
      apply h.entry_ne _ id hentry
      intro hback
      rw [Bool.not_eq_true] at haction
      exact hmoved (stays_append_singleton.mpr ⟨hback, haction⟩)
  · intro id hentry
    rw [hfs]
    exact Nat.lt_of_lt_of_le (h.lt_length id hentry)
      (FileSystem.onFiles_length _ _)
  · intro id hentry
    rw [hfs, FileSystem.onFiles_contents (h.lt_length id hentry),
      h.contents_eq id hentry]
    -- only while the path leads to the file can an action write to it
    by_cases hback : Stays back
    · rw [written_append_of_stays hback, h.entry_eq hback, hentry]
      cases action <;> simp
    · rw [written_append_of_not_stays hback]
      have hne := h.entry_ne hback id hentry
      cases action <;> simp [hne]

/-- Whatever is held after plain actions was taken by one of them, and the
invariant holds of the actions since. -/
theorem exists_takenAt {actions : List Action}
    (hplain : ∀ action ∈ actions, action.isPlain = true)
    (hheld : (initial.run actions).slot ≠ none) :
    ∃ front taking back, TakenAt actions front taking back ∧
      Holds (initial.run front).fs back (initial.run actions) := by
  induction actions using List.reverseRecOn with
  | nil => exact absurd rfl hheld
  | append_singleton actions action ih =>
    have haction : action.isPlain = true := hplain action (by simp)
    rw [run_append_singleton] at hheld ⊢
    -- the last action takes a descriptor, or leaves one that was taken before
    by_cases htakes : (initial.run actions).Takes action
    · exact ⟨actions, action, [], ⟨rfl, htakes, trivial⟩,
        holds_of_takes (isValid_run actions) haction htakes⟩
    · have hbefore : (initial.run actions).slot ≠ none := by
        rcases perform_of_not_takes _ haction htakes with hslot | hslot
        · rwa [hslot] at hheld
        · exact absurd hslot hheld
      obtain ⟨front, taking, back, htaken, hholds⟩ :=
        ih (fun a ha => hplain a (List.mem_append_left _ ha)) hbefore
      refine ⟨front, taking, back ++ [action], ⟨?_, htaken.takes, ?_⟩,
        hholds.step haction htakes hheld⟩
      · rw [htaken.actions_eq, List.append_assoc, List.cons_append]
      · rw [takesNone_append_singleton]
        refine ⟨htaken.takesNone, ?_⟩
        rw [← run_append, List.append_assoc, List.singleton_append,
          ← htaken.actions_eq]
        exact htakes

/-! ## What a reading finds -/

/-- The outcome of reading a file, if there is one. -/
def parsed (order : ArrayOrder) :
    Option (List UInt8) → Except SessionError (Option (List ArrayStatus))
  | none => .ok none
  | some bytes =>
    ((Report.readFile order bytes).outcome.map some).mapError .tooLong

/-- A reading that is not made to fail parses all of the file that it goes
to. -/
theorem read_outcome (session : Session) (hold : Bool) (order : ArrayOrder) :
    (session.read hold order none).2.outcome =
      parsed order ((session.source? hold).map session.fs.contents) := by
  unfold read
  rw [if_neg (by simp)]
  cases hsource : session.source? hold with
  | none => rfl
  | some id =>
    dsimp only
    rw [remaining_rewind]
    unfold parsed
    dsimp only [Option.map_some]
    cases (Report.readFile order (session.fs.contents id)).outcome with
    | error e => rfl
    | ok arrays =>
      dsimp only
      split
      · rfl
      · rfl

theorem current?_eq (fs : FileSystem) :
    fs.current? = fs.entry.file?.map fs.contents := by
  unfold FileSystem.current?
  cases fs.entry <;> rfl

/-- A reading of the path is one of the file that is there, unless it is made
to fail. -/
theorem read_false_eq (session : Session) (order : ArrayOrder)
    (failingMark : Option Nat) :
    (session.read false order failingMark).2 =
      (Lookup.arraysOf order
        (if failingMark = some 1 then none
          else session.fs.current?)).mapError .tooLong := by
  have hready : session.rewind false = session := rfl
  unfold read
  split
  · next hsource =>
    split at hsource
    · next hfailing =>
      rw [if_pos hfailing]
      rfl
    · next hfailing =>
      rw [source?_false] at hsource
      rw [if_neg hfailing, current?_eq, hsource]
      rfl
  · next id hsource =>
    split at hsource
    · cases hsource
    · next hfailing =>
      rw [source?_false] at hsource
      rw [if_neg hfailing, current?_eq, hsource, Option.map_some]
      dsimp only
      rw [remaining_rewind]
      generalize session.fs.contents id = bytes
      apply Noted.ext
      · rw [Noted.mapError_notices]
        unfold Lookup.arraysOf
        rw [Noted.map_notices]
        cases (Report.readFile order bytes).outcome <;> rfl
      · rw [Noted.mapError_outcome]
        unfold Lookup.arraysOf
        rw [Noted.map_outcome]
        cases (Report.readFile order bytes).outcome <;> rfl

/-- The descriptor that was taken leads to the file that was at the path, and
a reading through it finds what that file has become. -/
theorem Holds.read_outcome {start : FileSystem} {back : List Action}
    {session : Session} (h : Holds start back session)
    (order : ArrayOrder) :
    (session.read true order none).2.outcome =
      parsed order (start.current?.map (written · back)) := by
  rw [Session.read_outcome, current?_eq]
  congr 1
  have hslot := h.slot_eq
  cases hentry : start.entry with
  | missing => exact absurd hentry h.start_ne
  | directory =>
    rw [hentry] at hslot
    have hsource : session.source? true = none := by
      unfold source?
      rw [hslot]
      rfl
    rw [hsource]
    rfl
  | file id =>
    rw [hentry] at hslot
    have hsource : session.source? true = some id := by
      unfold source?
      rw [hslot]
      rfl
    rw [hsource]
    exact congrArg some (h.contents_eq id hentry)

/-- As long as the path has not been moved, it makes no difference whether a
reading goes through the descriptor. -/
theorem Holds.read_outcome_of_stays {start : FileSystem}
    {back : List Action} {session : Session} (h : Holds start back session)
    (hstays : Stays back) (order : ArrayOrder) :
    (session.read true order none).2.outcome =
      (session.read false order none).2.outcome := by
  have hsource : session.source? true = session.source? false := by
    rw [source?_false, h.entry_eq hstays]
    unfold source?
    rw [h.slot_eq]
    cases hentry : start.entry with
    | missing => exact absurd hentry h.start_ne
    | directory | file => rfl
  rw [Session.read_outcome, Session.read_outcome, hsource]

/-- Nothing that an action of this kind answers comes from the held
descriptor. -/
theorem perform_of_readsPath {session other : Session} {action : Action}
    (hpath : action.readsPath = true)
    (hsame : other.fs.current? = session.fs.current?) :
    (other.perform action).2 = (session.perform action).2 := by
  cases action with
  | read hold order failingMark =>
    cases hold with
    | true => cases hpath
    | false =>
      have hread : (other.read false order failingMark).2 =
          (session.read false order failingMark).2 := by
        rw [read_false_eq, read_false_eq, hsame]
      exact congrArg (Result.arrays <$> ·) hread
  | isKnown | holderOf | subarrayOf =>
    simp only [perform, hsame]
  | _ => cases hpath

/-! ## Sessions of plain actions -/

/-- Reading through the held descriptor, in every session of plain actions.
The descriptor was taken by one of the actions, and reading through it parses
the file that was at the path then, with the writes until the path was moved.
It makes no difference to reading the path if nothing is held, or if the path
has not been moved since.  What else is asked is answered from the path. -/
theorem read_outcome_of_isPlain {actions : List Action}
    (hplain : ∀ action ∈ actions, action.isPlain = true) :
    (∀ descriptor, (initial.run actions).slot = some descriptor →
      ∃ front taking back, TakenAt actions front taking back ∧
        (∀ id, descriptor = .file id →
          ∃ bytes, (initial.run front).fs.current? = some bytes ∧
            ∀ order,
              ((initial.run actions).read true order none).2.outcome =
                parsed order (some (written bytes back))) ∧
        (Stays back → ∀ order,
          ((initial.run actions).read true order none).2.outcome =
            ((initial.run actions).read false order none).2.outcome)) ∧
    ((initial.run actions).slot = none → ∀ order,
      ((initial.run actions).read true order none).2.outcome =
        ((initial.run actions).read false order none).2.outcome) ∧
    (∀ query : Action, query.readsPath = true → ∀ other : Session,
      other.fs.current? = (initial.run actions).fs.current? →
        (other.perform query).2 =
          ((initial.run actions).perform query).2) := by
  refine ⟨?_, ?_, ?_⟩
  · intro descriptor hheld
    obtain ⟨front, taking, back, htaken, hholds⟩ :=
      exists_takenAt hplain (by rw [hheld]; exact Option.some_ne_none _)
    refine ⟨front, taking, back, htaken, ?_, hholds.read_outcome_of_stays⟩
    intro id hfile
    have hentry : (initial.run front).fs.entry = .file id := by
      have hslot := hholds.slot_eq
      rw [hheld, hfile] at hslot
      unfold PathEntry.descriptor? at hslot
      split at hslot
      · cases hslot
      · cases hslot
      · cases hslot
        assumption
    refine ⟨(initial.run front).fs.contents id, ?_, ?_⟩
    · rw [current?_eq, hentry]
      rfl
    · intro order
      rw [hholds.read_outcome, current?_eq, hentry]
      rfl
  · intro hslot order
    rw [Session.read_outcome, Session.read_outcome,
      source?_of_slot_eq_none _ hslot, source?_of_slot_eq_none _ hslot]
  · intro query hquery other hsame
    exact perform_of_readsPath hquery hsame

/-- A session that holds a file, overwrites it, and leads the path away from
it before it writes once more. -/
def overtaken : List Action :=
  [.write [0x6d], .hold .file, .write [0x6e], .replace [0x6f], .write [0x70]]

theorem overtaken_read_outcome :
    (∀ action ∈ overtaken, action.isPlain = true) ∧
      ∃ front taking back, TakenAt overtaken front taking back ∧
        ∃ bytes, (initial.run front).fs.current? = some bytes ∧
          ∀ order,
            ((initial.run overtaken).read true order none).2.outcome =
              parsed order (some (written bytes back)) := by
  have hplain : ∀ action ∈ overtaken, action.isPlain = true := by
    simp [overtaken, Action.isPlain]
  refine ⟨hplain, ?_⟩
  obtain ⟨hheld, -, -⟩ := read_outcome_of_isPlain hplain
  obtain ⟨front, taking, back, htaken, hfile, -⟩ := hheld (.file 0) rfl
  exact ⟨front, taking, back, htaken, hfile 0 rfl⟩

end Session
end RaidStatus

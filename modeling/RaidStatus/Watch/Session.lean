import RaidStatus.Lookup.StatusFile
import RaidStatus.Watch.FileSystem
import RaidStatus.Watch.Wait

/-!
# Sessions

A session is the status file together with the slot for one held descriptor.
Reading with `hold` takes a descriptor of the file that was read, unless one
is held already; from then on such readings go to the held file, from its
start, whatever is at the path by then.  All other readings, and all lookups,
go to the path.

A descriptor remembers how far its file has been read, and reading goes on from
there.  A held descriptor is therefore set back to the start of its file before
it is read once more.

An action that fails leaves the slot and the files as they were.
-/

namespace RaidStatus

/-- The status file and the held descriptor. -/
structure Session where
  /-- The path of the report and its files. -/
  fs : FileSystem := {}
  slot : Option Descriptor := none
  /-- How many bytes of its file have been read through the held descriptor. -/
  offset : Nat := 0
  deriving DecidableEq, Repr

/-- Why an action of a session fails. -/
inductive SessionError where
  /-- A number of the report is too long. -/
  | tooLong (error : Numeral.TooLong)
  /-- An array cannot be taken from the roster of a reading. -/
  | roster (error : RosterError)
  /-- A descriptor is not open. -/
  | badDescriptor
  | limit (error : LimitError)
  deriving DecidableEq, Repr

namespace SessionError

/-- The error of an action that asks the status file. -/
def ofLookup : LookupError → SessionError
  | .tooLong error => tooLong error
  | .roster error => roster error

def message : SessionError → Text
  | tooLong error => Text.ofString error.message
  | roster error => error.message
  | badDescriptor => Text.ofString badDescriptorMessage
  | limit error => Text.ofString error.message

end SessionError

/-- What a descriptor to be held is open for. -/
inductive HoldTarget where
  /-- The file or directory at the path. -/
  | file
  | pipe
  /-- Nothing: the descriptor is not open. -/
  | closed
  deriving DecidableEq, Repr

namespace Session

/-- The session in which nothing is at the path and nothing is held. -/
def initial : Session := {}

variable (session : Session)

/-- The file that a reading goes to, if there is one.  A held pipe cannot be
read from its start, and a held directory or a stale descriptor not at
all. -/
def source? (hold : Bool) : Option Nat :=
  match (if hold then session.slot else none), session.fs.entry with
  | some (.file id), _ => some id
  | some _, _ => none
  | none, .file id => some id
  | none, _ => none

/-- A reading goes through the held descriptor. -/
def readsHeld (hold : Bool) : Bool :=
  hold && session.slot.isSome

/-- The descriptor that a reading goes through is at the start of its file. -/
def rewind (hold : Bool) : Session :=
  if session.readsHeld hold then { session with offset := 0 } else session

/-- What a reading finds in a file: what has not been read through the held
descriptor yet, or all of it through a descriptor that is opened for the
reading. -/
def remaining (hold : Bool) (id : Nat) : List UInt8 :=
  (session.fs.contents id).drop
    (if session.readsHeld hold then session.offset else 0)

/-- The descriptor that a reading went through is at the end of its file. -/
def exhaust (hold : Bool) (id : Nat) : Session :=
  if session.readsHeld hold then
    { session with
      offset := max session.offset (session.fs.contents id).length }
  else session

/-- The session with another descriptor in its slot, through which some bytes
have been read. -/
def take (descriptor : Descriptor) (offset : Nat) : Session :=
  { session with slot := some descriptor, offset := offset }

/-- The report is read up to its end.  Descriptors are marked as private to the
process, and the attempt numbered `failingMark` to do so fails: the first one
belongs to opening the report, the second one to holding its descriptor. -/
def read (hold : Bool) (order : ArrayOrder) (failingMark : Option Nat) :
    Session × Noted SessionError (Option (List ArrayStatus)) :=
  let ready := session.rewind hold
  match if failingMark = some 1 then none else session.source? hold with
  | none => (ready, ⟨[.readFailed], .ok none⟩)
  | some id =>
    let report := Report.readFile order (ready.remaining hold id)
    let after := ready.exhaust hold id
    match report.outcome with
    | .error error => (after, ⟨report.notices, .error (.tooLong error)⟩)
    | .ok arrays =>
      if hold && session.slot.isNone then
        if failingMark = some 2 then
          (after, ⟨report.notices ++ [.readFailed], .ok none⟩)
        else
          (after.take (.file id) (after.fs.contents id).length,
            ⟨report.notices ++ [.held], .ok (some arrays)⟩)
      else (after, ⟨report.notices, .ok (some arrays)⟩)

/-- A descriptor is held, in the place of the one that may have been held. -/
def hold : HoldTarget → Session × Noted SessionError Unit
  | .pipe => (session.take .pipe 0, ⟨[.held], .ok ()⟩)
  | .closed => (session, ⟨[], .error .badDescriptor⟩)
  | .file =>
    match session.fs.entry with
    | .file id => (session.take (.file id) 0, ⟨[.held], .ok ()⟩)
    | .directory => (session.take .directory 0, ⟨[.held], .ok ()⟩)
    | .missing => (session, ⟨[], .error .badDescriptor⟩)

/-- The held descriptor is closed, if there is one.  A stale descriptor cannot
be closed once more, and stays. -/
def close : Session × Noted SessionError Unit :=
  match session.slot with
  | none => (session, ⟨[], .ok ()⟩)
  | some .stale => (session, ⟨[.closing], .error .badDescriptor⟩)
  | some _ => ({ session with slot := none }, ⟨[.closing], .ok ()⟩)

/-- The slot gets a descriptor that somebody else has closed. -/
def breakHeld : Session :=
  { session with slot := some .stale }

end Session

/-- What can be done in a session. -/
inductive Action where
  /-- The file at the path gets new contents. -/
  | write (bytes : List UInt8)
  | replace (bytes : List UInt8)
  | remove
  /-- A directory is put at the path. -/
  | makeDirectory
  | read (hold : Bool) (order : ArrayOrder) (failingMark : Option Nat)
  /-- Is an array known? -/
  | isKnown (name : Text)
  /-- Which array holds a disk? -/
  | holderOf (disk : Text)
  /-- Which array is a subarray of a container? -/
  | subarrayOf (subarray container : Text)
  | hold (target : HoldTarget)
  /-- Somebody else closes the held descriptor. -/
  | breakHeld
  /-- The held descriptor is closed. -/
  | close
  /-- The held descriptor is waited for. -/
  | wait (limit : Seconds) (poll : Poll)
  /-- The held descriptor and another one are waited for, in a thread in this
  state. -/
  | signalWait (wait : SignalWait) (before : SignalState)

/-- What an action results in. -/
inductive Result where
  | nothing
  | arrays (arrays : Option (List ArrayStatus))
  | known (isKnown : Bool)
  | array (array : Option ArrayStatus)
  | waited (outcome : WaitOutcome)
  | signalWaited (outcome : SignalWaitOutcome)

namespace Session

variable (session : Session)

/-- One action of a session. -/
def perform : Action → Session × Noted SessionError Result
  | .write bytes =>
    ({ session with fs := session.fs.write bytes }, pure .nothing)
  | .replace bytes =>
    ({ session with fs := session.fs.replace bytes }, pure .nothing)
  | .remove => ({ session with fs := session.fs.remove }, pure .nothing)
  | .makeDirectory =>
    ({ session with fs := session.fs.makeDirectory }, pure .nothing)
  | .read hold order failingMark =>
    let (after, answer) := session.read hold order failingMark
    (after, .arrays <$> answer)
  | .isKnown name =>
    (session,
      .known <$> (Lookup.isKnown name session.fs.current?).mapError .tooLong)
  | .holderOf disk =>
    (session,
      .array <$>
        (Lookup.holderOf disk session.fs.current?).mapError .ofLookup)
  | .subarrayOf subarray container =>
    (session,
      .array <$> (Lookup.subarrayOf subarray container
        session.fs.current?).mapError .ofLookup)
  | .hold target =>
    let (after, answer) := session.hold target
    (after, (fun _ => .nothing) <$> answer)
  | .breakHeld => (session.breakHeld, pure .nothing)
  | .close =>
    let (after, answer) := session.close
    (after, (fun _ => .nothing) <$> answer)
  | .wait limit poll =>
    (session,
      .waited <$> (waitHeld session.slot limit poll).mapError .limit)
  | .signalWait wait before =>
    let (notices, outcome) := wait.run session.slot before
    (session, ⟨notices, .ok (.signalWaited outcome)⟩)

def run (actions : List Action) : Session :=
  actions.foldl (fun session action => (session.perform action).1) session

/-- The answers to some actions, each with the session after it. -/
def trace (session : Session) :
    List Action → List (Session × Noted SessionError Result)
  | [] => []
  | action :: actions =>
    let answer := session.perform action
    answer :: trace answer.1 actions

@[simp] theorem rewind_fs (hold : Bool) :
    (session.rewind hold).fs = session.fs := by
  unfold rewind
  split <;> rfl

@[simp] theorem rewind_slot (hold : Bool) :
    (session.rewind hold).slot = session.slot := by
  unfold rewind
  split <;> rfl

@[simp] theorem exhaust_fs (hold : Bool) (id : Nat) :
    (session.exhaust hold id).fs = session.fs := by
  unfold exhaust
  split <;> rfl

@[simp] theorem exhaust_slot (hold : Bool) (id : Nat) :
    (session.exhaust hold id).slot = session.slot := by
  unfold exhaust
  split <;> rfl

@[simp] theorem take_fs (descriptor : Descriptor) (offset : Nat) :
    (session.take descriptor offset).fs = session.fs := rfl

@[simp] theorem take_slot (descriptor : Descriptor) (offset : Nat) :
    (session.take descriptor offset).slot = some descriptor := rfl

/-- A reading finds all of its file, however much of it has been read before. -/
theorem remaining_rewind (hold : Bool) (id : Nat) :
    (session.rewind hold).remaining hold id = session.fs.contents id := by
  by_cases hheld : session.readsHeld hold = true
  · simp [remaining, rewind, hheld]
  · have hready : session.rewind hold = session := by simp [rewind, hheld]
    simp [remaining, hready, hheld]

theorem read_fs (hold : Bool) (order : ArrayOrder)
    (failingMark : Option Nat) :
    (session.read hold order failingMark).1.fs = session.fs := by
  unfold read
  split
  · simp
  · dsimp only
    split
    · simp
    · split
      · split <;> simp
      · simp

theorem hold_fs (target : HoldTarget) :
    (session.hold target).1.fs = session.fs := by
  cases target with
  | pipe => rfl
  | closed => rfl
  | file =>
    unfold hold
    dsimp only
    split <;> rfl

theorem close_fs : session.close.1.fs = session.fs := by
  unfold close
  split <;> rfl

@[simp] theorem run_nil : session.run [] = session := rfl

@[simp] theorem run_cons (action : Action) (actions : List Action) :
    session.run (action :: actions) =
      (session.perform action).1.run actions :=
  rfl

theorem run_append (front back : List Action) :
    session.run (front ++ back) = (session.run front).run back :=
  List.foldl_append

end Session
end RaidStatus

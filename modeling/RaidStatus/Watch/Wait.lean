import RaidStatus.Notice
import RaidStatus.Watch.SignalState

/-!
# Waiting for changes

The kernel reports a change of the status file as an exceptional condition of
a descriptor that is open for it.  One descriptor can be held for this
purpose.  There are two ways to wait: for the held descriptor alone, up to a
time limit; and without a limit for the held descriptor together with another
one, while certain signals are blocked.

Whether something happens is decided by the system, so it is an argument of
both.  The second way changes the blocked signals and the wake-up pipe of the
thread for as long as it waits; both are restored on every path.
-/

namespace RaidStatus

/-- What a held descriptor is open for. -/
inductive Descriptor where
  /-- A status file, by its number. -/
  | file (id : Nat)
  /-- A directory that was found in its place. -/
  | directory
  | pipe
  /-- Nothing any more: it was closed by somebody else. -/
  | stale
  deriving DecidableEq, Repr

/-- The kinds of file that a descriptor can be open for. -/
inductive FileKind where
  | regular
  | directory
  | pipe
  | device
  deriving DecidableEq, Repr

/-- The kind of file that a descriptor is open for. -/
def Descriptor.kind? : Descriptor → Option FileKind
  | file _ => some .regular
  | directory => some .directory
  | pipe => some .pipe
  | stale => none

/-- The wording of an error about a descriptor that is not open. -/
def badDescriptorMessage : String :=
  "[Errno 9] Bad file descriptor"

/-! ## The held descriptor alone -/

/-- A number of seconds, `mantissa / 10 ^ places`. -/
structure Seconds where
  /-- The digits of the number. -/
  mantissa : Int
  /-- How many of them stand behind the point. -/
  places : Nat
  deriving DecidableEq, Repr

namespace Seconds

def isNegative (seconds : Seconds) : Bool :=
  seconds.mantissa < 0

/-- The number of nanoseconds does not fit into sixty-four bits. -/
def isTooLarge (seconds : Seconds) : Bool :=
  let nanoseconds := 1000000000 * seconds.mantissa
  let unit : Int := Nat.pow 10 seconds.places
  9223372036854775807 * unit < nanoseconds ||
    nanoseconds < -9223372036854775808 * unit

end Seconds

/-- What the system does when it is asked for a change. -/
inductive Poll where
  /-- It waits, and nothing happens until the time has passed. -/
  | idle
  /-- It answers at once whether there was a change. -/
  | answering (changed : Bool)
  | failing
  deriving DecidableEq, Repr

/-- What waiting for a change came to. -/
inductive WaitResult where
  | changed
  | timedOut
  /-- There was an error, or there is nothing to wait for. -/
  | failed
  deriving DecidableEq, Repr

inductive LimitError where
  | tooLarge
  deriving DecidableEq, Repr

def LimitError.message : LimitError → String
  | tooLarge => "timestamp too large to convert to C _PyTime_t"

structure WaitOutcome where
  result : WaitResult
  asked : Bool
  deriving DecidableEq, Repr

/-- The held descriptor is waited for.  The system looks at the time limit
before it looks at the descriptor. -/
def waitHeld (slot : Option Descriptor) (limit : Seconds) (poll : Poll) :
    Noted LimitError WaitOutcome :=
  match slot, poll with
  | none, _ => ⟨[], .ok ⟨.failed, false⟩⟩
  | some _, .answering true => ⟨[], .ok ⟨.changed, true⟩⟩
  | some _, .answering false => ⟨[], .ok ⟨.timedOut, true⟩⟩
  | some _, .failing => ⟨[.waitFailed], .ok ⟨.failed, true⟩⟩
  | some descriptor, .idle =>
    if limit.isTooLarge then ⟨[], .error .tooLarge⟩
    else if limit.isNegative || descriptor = .stale then
      ⟨[.waitFailed], .ok ⟨.failed, true⟩⟩
    else ⟨[], .ok ⟨.timedOut, true⟩⟩

/-! ## The held descriptor and another one -/

/-- The other descriptor of a wait. -/
inductive OtherDescriptor where
  /-- A number that is no descriptor. -/
  | negative
  | closed
  /-- A descriptor that is open for a file of some kind. -/
  | opened (kind : FileKind)
  | held
  deriving DecidableEq, Repr

inductive Watched where
  | held
  | other
  deriving DecidableEq, Repr

namespace OtherDescriptor

/-- The descriptor that is meant, and the kind of its file if it is open.
There is none if nothing is held or the number is no descriptor. -/
def target? (slot : Option Descriptor) :
    OtherDescriptor → Option (Watched × Option FileKind)
  | negative => none
  | closed => some (.other, none)
  | opened kind => some (.other, some kind)
  | held => slot.map fun descriptor => (.held, descriptor.kind?)

end OtherDescriptor

/-- A wait for the held descriptor and another one. -/
structure SignalWait where
  other : Option OtherDescriptor := none
  /-- The signals to be blocked during the wait, if they are to change. -/
  mask : Option SignalSet := none
  /-- The wait happens in the main thread.  Only there a wake-up pipe can be
  set. -/
  inMainThread : Bool := true
  /-- The system is interrupted, for this reason. -/
  interruption : Option String := none

/-- Why the system gives up a wait. -/
inductive SelectError where
  | interrupted (reason : String)
  | badDescriptor
  deriving DecidableEq, Repr

def SelectError.message : SelectError → String
  | interrupted reason => "[Errno 4] " ++ reason
  | badDescriptor => badDescriptorMessage

/-- What the system is asked for, and what it answers. -/
structure Selection where
  /-- The descriptors that are watched for becoming readable, the wake-up pipe
  apart. -/
  readable : List Watched
  exceptional : List Watched
  mask : SignalSet
  /-- Whether the wake-up pipe is readable, or why the system gave up. -/
  outcome : Except SelectError Bool

structure SignalWaitOutcome where
  /-- What the system was asked for, if it was asked. -/
  selection : Option Selection
  /-- The signals of the thread when its settings are back. -/
  after : SignalState
  /-- What the wait ends with then: the error of the system, if it gave up. -/
  result : Except SelectError Unit

/-- The settings of a thread that a wait has replaced, as they were before.  A
setting that it left alone is missing. -/
structure ReplacedSettings where
  wakeup : Option (Option WakeupPipe)
  mask : Option SignalSet

/-- The signals of a thread when its settings are put back, the last one first.
The pipe of the wait is emptied and closed. -/
def ReplacedSettings.restore (replaced : ReplacedSettings)
    (during : SignalState) : SignalState :=
  let unmasked :=
    match replaced.mask with
    | some mask => during.setBlocked mask
    | none => during
  match replaced.wakeup with
  | some pipe => { unmasked with wakeup := pipe, woken := false }
  | none => { unmasked with woken := false }

namespace SignalWait

/-- The pipe of the wait, which holds no byte yet, is set for wake-ups.  This
fails outside the main thread. -/
def setWakeup (wait : SignalWait) (state : SignalState) :
    Option (Option WakeupPipe) × SignalState :=
  if wait.inMainThread then
    (some state.wakeup, { state with wakeup := some .own, woken := false })
  else (none, { state with woken := false })

/-- The signals to be blocked during the wait are blocked, if they are to
change. -/
def setMask (wait : SignalWait) (state : SignalState) :
    Option SignalSet × SignalState :=
  match wait.mask with
  | some mask => (some state.blocked, state.setBlocked mask)
  | none => (none, state)

/-- The settings that the wait replaces, and the signals of the thread while
the system waits.  The pipe is set first, so that signals that are no longer
blocked leave a byte in it. -/
def enter (wait : SignalWait) (before : SignalState) :
    ReplacedSettings × SignalState :=
  let ready := wait.setWakeup before
  let during := wait.setMask ready.2
  (⟨ready.1, during.1⟩, during.2)

/-- The error with which the system gives up, if it does.  The number of a
stale descriptor is taken not to be in use while the system waits: in
particular the pipe of the wait, which is opened after the descriptor became
stale, has other numbers. -/
def selectError? (wait : SignalWait) (slot : Option Descriptor) :
    Option SelectError :=
  match wait.interruption with
  | some reason => some (.interrupted reason)
  | none => if slot = some .stale then some .badDescriptor else none

/-- What the system answers: whether the wake-up pipe is readable, unless it
gives up. -/
def answer (wait : SignalWait) (slot : Option Descriptor)
    (during : SignalState) : Except SelectError Bool :=
  match wait.selectError? slot with
  | some error => .error error
  | none => .ok during.woken

/-- The descriptors that are watched for an exceptional condition: the held
one, and the other one if it is open for a regular file. -/
def exceptional (slot : Option Descriptor)
    (target : Option (Watched × Option FileKind)) : List Watched :=
  (slot.map fun _ => Watched.held).toList ++
    (target.toList.filter (·.2 = some .regular)).map (·.1)

/-- The descriptors that are watched for becoming readable: the other one, if
it is open for something else than a regular file. -/
def readable (target : Option (Watched × Option FileKind)) : List Watched :=
  (target.toList.filter (·.2 ≠ some .regular)).map (·.1)

/-- The wait takes place, unless the other descriptor is not open.  Whatever
the system answers, the settings are put back; an error of it is passed on
afterwards. -/
def run (wait : SignalWait) (slot : Option Descriptor)
    (before : SignalState) : List Notice × SignalWaitOutcome :=
  match wait.other.bind (·.target? slot) with
  | some (_, none) => ([.badDescriptor], ⟨none, before, .ok ()⟩)
  | target =>
    let entered := wait.enter before
    let during := entered.2
    (if wait.inMainThread then [] else [.notMainThread],
      { selection := some
          { readable := readable target
            exceptional := exceptional slot target
            mask := during.blocked
            outcome := wait.answer slot during }
        after := entered.1.restore during
        result := (wait.answer slot during).map fun _ => () })

end SignalWait
end RaidStatus

import RaidStatus.Watch.Signal

/-!
# Signals of a thread

A thread that waits for a file wants to be woken by signals as well.  Each
signal that is handled leaves a byte in the pipe that is set for wake-ups, if
there is one; a wait therefore sets a pipe of its own and watches it.

A signal that is not blocked is handled each time it is sent.  One that is
blocked becomes pending, however often it is sent, and is handled once when it
is no longer blocked.  Signals without a handler are ignored.
-/

namespace RaidStatus

/-- A pipe in which handled signals leave a byte. -/
inductive WakeupPipe where
  /-- A pipe set by somebody else. -/
  | foreign
  /-- The pipe of the wait. -/
  | own
  deriving DecidableEq, Repr

/-- What a thread knows of signals. -/
structure SignalState where
  blocked : SignalSet := .empty
  /-- The signals that were sent while they were blocked. -/
  pending : SignalSet := .empty
  handlers : SignalSet := .empty
  /-- How often each signal has been handled. -/
  handled : SignalTally := .empty
  /-- The pipe that is set for wake-ups. -/
  wakeup : Option WakeupPipe := none
  /-- The pipe of the wait holds a byte. -/
  woken : Bool := false

namespace SignalState

/-- Some signals reach the thread, each of them once.  Those that have no
handler are ignored. -/
def receive (signals : SignalSet) (state : SignalState) : SignalState :=
  let noted : SignalSet := fun s => signals s && state.handlers s
  { state with
    handled := state.handled.add noted
    woken := state.woken ||
      (state.wakeup = some .own && !noted.toList.isEmpty) }

def send (signal : Signal) (state : SignalState) : SignalState :=
  if state.blocked signal then
    { state with pending := fun s => s = signal || state.pending s }
  else state.receive fun s => s = signal

/-- The thread blocks these signals and no others.  The pending signals that
are no longer blocked reach it. -/
def setBlocked (signals : SignalSet) (state : SignalState) : SignalState :=
  let blocked := signals.blockable
  let masked :=
    { state with
      blocked := blocked
      pending := fun s => state.pending s && blocked s }
  masked.receive fun s => state.pending s && !blocked s

/-- A thread that handles some signals, blocks some, and is sent others. -/
def ofSignals (handlers blocked : SignalSet) (sent : List Signal) :
    SignalState :=
  sent.foldl (fun state signal => state.send signal)
    { blocked := blocked.blockable
      handlers := handlers }

@[simp] theorem receive_blocked (signals : SignalSet) (state : SignalState) :
    (state.receive signals).blocked = state.blocked := rfl

@[simp] theorem receive_wakeup (signals : SignalSet) (state : SignalState) :
    (state.receive signals).wakeup = state.wakeup := rfl

@[simp] theorem setBlocked_blocked (signals : SignalSet)
    (state : SignalState) :
    (state.setBlocked signals).blocked = signals.blockable := rfl

@[simp] theorem setBlocked_wakeup (signals : SignalSet)
    (state : SignalState) :
    (state.setBlocked signals).wakeup = state.wakeup := rfl

@[simp] theorem setBlocked_pending (signals : SignalSet)
    (state : SignalState) :
    (state.setBlocked signals).pending =
      fun s => state.pending s && signals.blockable s := rfl

@[simp] theorem setBlocked_handlers (signals : SignalSet)
    (state : SignalState) :
    (state.setBlocked signals).handlers = state.handlers := rfl

/-- The pipe of a wait gets a byte if it is set and a signal is handled that is
no longer blocked. -/
theorem setBlocked_woken_iff {state : SignalState} {signals : SignalSet} :
    (state.setBlocked signals).woken = true ↔
      state.woken = true ∨ state.wakeup = some .own ∧
        ∃ signal, state.pending signal = true ∧
          signals.blockable signal = false ∧
          state.handlers signal = true := by
  simp [setBlocked, receive, SignalSet.toList_eq_nil_iff]

@[simp] theorem send_blocked (signal : Signal) (state : SignalState) :
    (state.send signal).blocked = state.blocked := by
  unfold send
  split <;> rfl

theorem ofSignals_blocked (handlers blocked : SignalSet)
    (sent : List Signal) :
    (ofSignals handlers blocked sent).blocked = blocked.blockable := by
  suffices hfold : ∀ state : SignalState,
      (sent.foldl (fun state signal => state.send signal) state).blocked =
        state.blocked from hfold _
  induction sent with
  | nil => intro state; rfl
  | cons signal sent ih =>
    intro state
    rw [List.foldl_cons, ih, send_blocked]

end SignalState
end RaidStatus

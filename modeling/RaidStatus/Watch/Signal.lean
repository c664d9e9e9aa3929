/-!
# Signals

A signal interrupts a thread.  A thread can block signals; one that is sent
to it then stays pending until it is no longer blocked.  Two signals, the one
that kills and the one that stops, cannot be blocked.

A set of signals is a test for membership, so that two sets are equal when
they have the same elements; a tally counts how often each signal occurred.
In both cases `toList` lists the signals by name.
-/

namespace RaidStatus

/-- The signals that have a name, in the order of their names. -/
inductive Signal where
  | abrt
  | alrm
  | bus
  | chld
  | cont
  | fpe
  | hup
  | ill
  | int
  | io
  | kill
  | pipe
  | prof
  | pwr
  | quit
  | rtmax
  | rtmin
  | segv
  | stkflt
  | stop
  | sys
  | term
  | trap
  | tstp
  | ttin
  | ttou
  | urg
  | usr1
  | usr2
  | vtalrm
  | winch
  | xcpu
  | xfsz
  deriving DecidableEq, Repr

namespace Signal

def name : Signal → String
  | abrt => "SIGABRT"
  | alrm => "SIGALRM"
  | bus => "SIGBUS"
  | chld => "SIGCHLD"
  | cont => "SIGCONT"
  | fpe => "SIGFPE"
  | hup => "SIGHUP"
  | ill => "SIGILL"
  | int => "SIGINT"
  | io => "SIGIO"
  | kill => "SIGKILL"
  | pipe => "SIGPIPE"
  | prof => "SIGPROF"
  | pwr => "SIGPWR"
  | quit => "SIGQUIT"
  | rtmax => "SIGRTMAX"
  | rtmin => "SIGRTMIN"
  | segv => "SIGSEGV"
  | stkflt => "SIGSTKFLT"
  | stop => "SIGSTOP"
  | sys => "SIGSYS"
  | term => "SIGTERM"
  | trap => "SIGTRAP"
  | tstp => "SIGTSTP"
  | ttin => "SIGTTIN"
  | ttou => "SIGTTOU"
  | urg => "SIGURG"
  | usr1 => "SIGUSR1"
  | usr2 => "SIGUSR2"
  | vtalrm => "SIGVTALRM"
  | winch => "SIGWINCH"
  | xcpu => "SIGXCPU"
  | xfsz => "SIGXFSZ"

/-- All signals, in the order of their names. -/
def all : List Signal :=
  [abrt, alrm, bus, chld, cont, fpe, hup, ill, int, io, kill, pipe, prof,
   pwr, quit, rtmax, rtmin, segv, stkflt, stop, sys, term, trap, tstp, ttin,
   ttou, urg, usr1, usr2, vtalrm, winch, xcpu, xfsz]

/-- The signal of a given name.  Three signals have a second name. -/
def ofName? (name : String) : Option Signal :=
  if name = "SIGCLD" then some chld
  else if name = "SIGIOT" then some abrt
  else if name = "SIGPOLL" then some io
  else all.find? (·.name = name)

/-- The signal can be blocked. -/
def isBlockable (signal : Signal) : Bool :=
  signal ≠ kill && signal ≠ stop

theorem mem_all (signal : Signal) : signal ∈ all := by
  cases signal <;> decide

end Signal

abbrev SignalSet := Signal → Bool

namespace SignalSet

def empty : SignalSet := fun _ => false

def ofList (signals : List Signal) : SignalSet :=
  fun signal => signals.contains signal

/-- The signals of a set, in the order of their names. -/
def toList (signals : SignalSet) : List Signal :=
  Signal.all.filter signals

/-- The set without the signals that cannot be blocked. -/
def blockable (signals : SignalSet) : SignalSet :=
  fun signal => signals signal && signal.isBlockable

@[simp] theorem mem_toList {signals : SignalSet} {signal : Signal} :
    signal ∈ signals.toList ↔ signals signal = true := by
  simp [toList, Signal.mem_all]

theorem toList_eq_nil_iff {signals : SignalSet} :
    signals.toList = [] ↔ ∀ signal, signals signal = false := by
  simp [toList, Signal.mem_all]

end SignalSet

/-- How often each signal occurred. -/
abbrev SignalTally := Signal → Nat

namespace SignalTally

def empty : SignalTally := fun _ => 0

def add (tally : SignalTally) (signals : SignalSet) : SignalTally :=
  fun signal => tally signal + (signals signal).toNat

/-- The signals that occurred, in the order of their names, each as often as it
did. -/
def toList (tally : SignalTally) : List Signal :=
  Signal.all.flatMap fun signal => List.replicate (tally signal) signal

@[simp] theorem mem_toList {tally : SignalTally} {signal : Signal} :
    signal ∈ tally.toList ↔ tally signal ≠ 0 := by
  simp only [toList, List.mem_flatMap, List.mem_replicate]
  constructor
  · rintro ⟨other, _, hne, rfl⟩
    exact hne
  · intro hne
    exact ⟨signal, Signal.mem_all signal, hne, rfl⟩

@[simp] theorem add_none (tally : SignalTally) :
    (tally.add fun _ => false) = tally := rfl

/-- A signal is listed as often as it occurred. -/
theorem count_toList (tally : SignalTally) (signal : Signal) :
    tally.toList.count signal = tally signal := by
  cases signal <;> simp [toList, Signal.all, List.count_replicate]

end SignalTally
end RaidStatus

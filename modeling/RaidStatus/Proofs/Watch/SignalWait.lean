import RaidStatus.Proofs.FirstError
import RaidStatus.Watch.Session

/-!
# What a wait does to the signals of a thread

A wait with signals replaces two settings of its thread, the wake-up pipe and
the blocked signals, and puts back what was there before.  That this leaves the
thread as it was rests on two facts about every state that a thread can get
into: only signals that can be blocked are blocked, and every pending signal is
blocked (`SignalState.IsSettled`).  So no signal is delivered when the old
settings are put back, and the only ones that are delivered at all are those
that the wait no longer blocks (`SignalWait.Delivers`).

What the system is asked for while the thread waits, and why it gives up, is
said by the arguments of the wait alone (`SignalWait.IsSelection`).  The wait
ends with the error of the system, when everything is as before
(`Session.signalWait_restores`).
-/

namespace RaidStatus

namespace SignalState

/-- The states that a thread can get into.  It may start with any signals
blocked and with any pipe but that of the wait; then signals are sent to it, it
blocks other signals, and it waits. -/
inductive IsReached : SignalState → Prop
  | start (handlers blocked : SignalSet) (wakeup : Option WakeupPipe)
      (hwakeup : wakeup ≠ some .own) :
    IsReached
      { blocked := blocked.blockable, handlers := handlers, wakeup := wakeup }
  | send {state : SignalState} (signal : Signal) (h : IsReached state) :
    IsReached (state.send signal)
  | setBlocked {state : SignalState} (signals : SignalSet)
      (h : IsReached state) :
    IsReached (state.setBlocked signals)
  | wait {state : SignalState} (wait : SignalWait)
      (slot : Option Descriptor) (h : IsReached state) :
    IsReached (wait.run slot state).2.after

/-- Only signals that can be blocked are blocked, pending signals are blocked,
and no wait is under way. -/
structure IsSettled (state : SignalState) : Prop where
  blockable_blocked : state.blocked.blockable = state.blocked
  blocked_of_pending : ∀ signal, state.pending signal = true →
    state.blocked signal = true
  wakeup_ne_own : state.wakeup ≠ some .own

theorem blockable_blockable (signals : SignalSet) :
    signals.blockable.blockable = signals.blockable := by
  funext signal
  simp [SignalSet.blockable]

theorem IsSettled.send {state : SignalState} (h : state.IsSettled)
    (signal : Signal) : (state.send signal).IsSettled := by
  unfold SignalState.send
  split
  · next hblocked =>
    refine ⟨h.blockable_blocked, ?_, h.wakeup_ne_own⟩
    intro other hother
    simp only [Bool.or_eq_true, decide_eq_true_eq] at hother
    rcases hother with rfl | hother
    · exact hblocked
    · exact h.blocked_of_pending other hother
  · exact ⟨h.blockable_blocked, h.blocked_of_pending, h.wakeup_ne_own⟩

theorem IsSettled.setBlocked {state : SignalState} (h : state.IsSettled)
    (signals : SignalSet) : (state.setBlocked signals).IsSettled where
  blockable_blocked := blockable_blockable signals
  blocked_of_pending := by
    intro signal hpending
    rw [setBlocked_pending, Bool.and_eq_true] at hpending
    exact hpending.2
  wakeup_ne_own := h.wakeup_ne_own

/-- If no signal is to be delivered, only the blocked signals change. -/
theorem setBlocked_eq {state : SignalState} {signals : SignalSet}
    (hblockable : signals.blockable = signals)
    (hpending : ∀ signal, state.pending signal = true →
      signals signal = true) :
    state.setBlocked signals = { state with blocked := signals } := by
  have hkept : ∀ signal, (state.pending signal && signals signal) =
      state.pending signal := by
    intro signal
    cases hsignal : state.pending signal with
    | false => rfl
    | true => exact hpending signal hsignal
  have hnone : ∀ signal, (state.pending signal && !signals signal) =
      false := by
    intro signal
    rw [← hkept signal, Bool.and_assoc, Bool.and_not_self, Bool.and_false]
  simp [SignalState.setBlocked, receive, hblockable, hkept, hnone,
    SignalSet.toList]

end SignalState

/-! ## Replacing the settings and putting them back -/

namespace SignalWait

/-- The signal is pending, and the wait no longer blocks it. -/
def Delivers (wait : SignalWait) (before : SignalState)
    (signal : Signal) : Prop :=
  before.pending signal = true ∧
    ∃ mask ∈ wait.mask, ¬ (mask signal = true ∧ signal.isBlockable = true)

/-- The signals that are delivered when the wait begins. -/
def delivered (wait : SignalWait) (before : SignalState) : SignalSet :=
  fun signal =>
    before.pending signal &&
      wait.mask.any fun mask => !mask.blockable signal

variable {wait : SignalWait} {before : SignalState}

theorem delivered_iff {signal : Signal} :
    wait.delivered before signal = true ↔ wait.Delivers before signal := by
  simp only [delivered, Delivers, SignalSet.blockable, Bool.and_eq_true,
    Option.any_eq_true, Bool.not_eq_true', Bool.eq_false_iff, ne_eq,
    Option.mem_def]

theorem setWakeup_snd (wait : SignalWait) (state : SignalState) :
    (wait.setWakeup state).2 =
      { state with
        wakeup := if wait.inMainThread then some .own else state.wakeup
        woken := false } := by
  unfold setWakeup
  split <;> rfl

theorem enter_blocked (wait : SignalWait) (before : SignalState) :
    (wait.enter before).2.blocked =
      (wait.mask.map SignalSet.blockable).getD before.blocked := by
  unfold enter setMask
  cases wait.mask with
  | none => simp [setWakeup_snd]
  | some mask => rfl

/-- A wait is woken by the signals that it delivers, if these leave a byte in
its pipe. -/
theorem enter_woken_iff (h : before.IsSettled) (wait : SignalWait) :
    (wait.enter before).2.woken = true ↔
      wait.inMainThread = true ∧
        ∃ signal, wait.Delivers before signal ∧
          before.handlers signal = true := by
  have hpipe : (wait.setWakeup before).2.wakeup = some .own ↔
      wait.inMainThread = true := by
    cases hmain : wait.inMainThread <;>
      simp [setWakeup_snd, hmain, h.wakeup_ne_own]
  simp only [← delivered_iff, delivered]
  unfold enter setMask
  cases wait.mask with
  | none => simp [setWakeup_snd]
  | some mask =>
    dsimp only
    rw [SignalState.setBlocked_woken_iff, hpipe]
    simp [setWakeup_snd, and_assoc]

/-- Putting the settings back undoes the wait, apart from the signals that were
delivered. -/
theorem restore_enter (h : before.IsSettled) (wait : SignalWait) :
    (wait.enter before).1.restore (wait.enter before).2 =
      { before with
        pending := fun signal =>
          before.pending signal && !wait.delivered before signal
        handled := before.handled.add fun signal =>
          wait.delivered before signal && before.handlers signal
        woken := false } := by
  unfold enter setMask delivered ReplacedSettings.restore
  cases wait.mask with
  | none => unfold setWakeup; cases wait.inMainThread <;> simp
  | some mask =>
    have hsaved : (wait.setWakeup before).2.blocked = before.blocked := by
      rw [setWakeup_snd]
    have hback :
        ((wait.setWakeup before).2.setBlocked mask).setBlocked
            before.blocked =
          { (wait.setWakeup before).2.setBlocked mask with
            blocked := before.blocked } := by
      apply SignalState.setBlocked_eq h.blockable_blocked
      intro signal hpending
      rw [SignalState.setBlocked_pending, Bool.and_eq_true, setWakeup_snd]
        at hpending
      exact h.blocked_of_pending signal hpending.1
    have hkept : ∀ signal,
        (before.pending signal && mask.blockable signal) =
          (before.pending signal &&
            !(before.pending signal && !mask.blockable signal)) := by
      intro signal
      cases before.pending signal <;> simp
    dsimp only
    rw [hsaved, hback]
    unfold setWakeup
    cases wait.inMainThread <;>
      simp [SignalState.setBlocked, SignalState.receive, hkept]

/-! ## What the system is asked for -/

/-- The other descriptor is given, and it is not open. -/
inductive IsBad (wait : SignalWait) (slot : Option Descriptor) : Prop
  | closed (hother : wait.other = some .closed)
  | stale (hother : wait.other = some .held) (hslot : slot = some .stale)

/-- The other descriptor is open for a file of some kind. -/
inductive IsOpenFor (wait : SignalWait) (slot : Option Descriptor) :
    Watched → FileKind → Prop
  | opened {kind : FileKind} (hother : wait.other = some (.opened kind)) :
    IsOpenFor wait slot .other kind
  | held {descriptor : Descriptor} {kind : FileKind}
      (hother : wait.other = some .held) (hslot : slot = some descriptor)
      (hkind : descriptor.kind? = some kind) :
    IsOpenFor wait slot .held kind

/-- The held descriptor, if there is one. -/
def heldOf (slot : Option Descriptor) : List Watched :=
  if slot = none then [] else [.held]

/-- The descriptors that are watched for becoming readable, and those that are
watched for an exceptional condition. -/
inductive Watches (wait : SignalWait) (slot : Option Descriptor) :
    (readable exceptional : List Watched) → Prop
  | regular {watched : Watched} (hopen : wait.IsOpenFor slot watched .regular) :
    Watches wait slot [] (heldOf slot ++ [watched])
  | otherwise {watched : Watched} {kind : FileKind}
      (hopen : wait.IsOpenFor slot watched kind) (hkind : kind ≠ .regular) :
    Watches wait slot [watched] (heldOf slot)
  | heldOnly (hnone : ∀ watched kind, ¬ wait.IsOpenFor slot watched kind) :
    Watches wait slot [] (heldOf slot)

/-- What the system is asked for while the thread waits, and its answer. -/
structure IsSelection (wait : SignalWait) (slot : Option Descriptor)
    (before : SignalState) (selection : Selection) : Prop where
  watches : wait.Watches slot selection.readable selection.exceptional
  /-- A held file is watched twice if it is the other descriptor as well. -/
  exceptional_eq : ∀ id, slot = some (.file id) → wait.other = some .held →
    selection.exceptional = [.held, .held]
  mask_of_none : wait.mask = none → selection.mask = before.blocked
  /-- A mask that is given takes effect, be it empty, but two signals cannot be
  blocked. -/
  mask_of_some : ∀ mask ∈ wait.mask, ∀ signal,
    selection.mask signal = true ↔
      mask signal = true ∧ signal ≠ .kill ∧ signal ≠ .stop
  outcome_of_interruption : ∀ reason ∈ wait.interruption,
    selection.outcome = .error (.interrupted reason)
  outcome_of_stale : wait.interruption = none → slot = some .stale →
    selection.outcome = .error .badDescriptor
  /-- A wait that is not given up is woken by the signals that it delivers. -/
  outcome_of_ne_stale : wait.interruption = none → slot ≠ some .stale →
    ∃ woken, selection.outcome = .ok woken ∧
      (woken = true ↔ wait.inMainThread = true ∧
        ∃ signal, wait.Delivers before signal ∧
          before.handlers signal = true)

theorem target_eq_bad_iff {slot : Option Descriptor} :
    (∃ watched, wait.other.bind (·.target? slot) = some (watched, none)) ↔
      wait.IsBad slot := by
  constructor
  · rintro ⟨watched, htarget⟩
    obtain ⟨other, hother, htarget⟩ := Option.bind_eq_some_iff.mp htarget
    cases other with
    | negative | opened => cases htarget
    | closed => exact .closed hother
    | held =>
      obtain ⟨descriptor, hslot, hkind⟩ := Option.map_eq_some_iff.mp htarget
      cases descriptor with
      | stale => exact .stale hother hslot
      | file | directory | pipe => cases hkind
  · rintro (hother | ⟨hother, hslot⟩)
    · exact ⟨.other, by rw [hother]; rfl⟩
    · exact ⟨.held, by rw [hother, hslot]; rfl⟩

theorem target_eq_open_iff {slot : Option Descriptor} {watched : Watched}
    {kind : FileKind} :
    wait.other.bind (·.target? slot) = some (watched, some kind) ↔
      wait.IsOpenFor slot watched kind := by
  constructor
  · intro htarget
    obtain ⟨other, hother, htarget⟩ := Option.bind_eq_some_iff.mp htarget
    cases other with
    | negative | closed => cases htarget
    | opened =>
      cases htarget
      exact .opened hother
    | held =>
      obtain ⟨descriptor, hslot, hkind⟩ := Option.map_eq_some_iff.mp htarget
      rw [Prod.mk.injEq] at hkind
      obtain ⟨rfl, hkind⟩ := hkind
      exact .held hother hslot hkind
  · rintro (hother | ⟨hother, hslot, hkind⟩)
    · rw [hother]
      rfl
    · rw [hother, hslot, Option.bind_some, OtherDescriptor.target?,
        Option.map_some, hkind]

theorem map_held_toList (slot : Option Descriptor) :
    (slot.map fun _ => Watched.held).toList = heldOf slot := by
  cases slot <;> rfl

/-- What is watched, unless the other descriptor is not open. -/
theorem watches_of_not_isBad {slot : Option Descriptor}
    (hbad : ¬ wait.IsBad slot) :
    wait.Watches slot (readable (wait.other.bind (·.target? slot)))
      (exceptional slot (wait.other.bind (·.target? slot))) := by
  cases htarget : wait.other.bind (·.target? slot) with
  | none =>
    have hnone : ∀ watched kind, ¬ wait.IsOpenFor slot watched kind := by
      intro watched kind hopen
      rw [← target_eq_open_iff, htarget] at hopen
      cases hopen
    simpa [readable, exceptional, map_held_toList] using
      Watches.heldOnly hnone
  | some target =>
    obtain ⟨watched, kind?⟩ := target
    cases kind? with
    | none => exact absurd (target_eq_bad_iff.mp ⟨watched, htarget⟩) hbad
    | some kind =>
      have hopen := target_eq_open_iff.mp htarget
      by_cases hkind : kind = .regular
      · subst hkind
        simpa [readable, exceptional, map_held_toList] using
          Watches.regular hopen
      · simpa [readable, exceptional, map_held_toList, hkind] using
          Watches.otherwise hopen hkind

/-! ## The whole wait -/

/-- What becomes of the signals that are delivered, and of the others. -/
structure Handles (wait : SignalWait) (before after : SignalState) : Prop where
  handlers_eq : after.handlers = before.handlers
  pending_iff : ∀ signal, after.pending signal = true ↔
    before.pending signal = true ∧ ¬ wait.Delivers before signal
  /-- A signal that is delivered is handled once. -/
  handled_of_delivers : ∀ signal, wait.Delivers before signal →
    before.handlers signal = true →
      after.handled signal = before.handled signal + 1
  handled_of_not_delivers : ∀ signal,
    ¬ (wait.Delivers before signal ∧ before.handlers signal = true) →
      after.handled signal = before.handled signal

variable {slot : Option Descriptor}

theorem run_of_isBad (hbad : wait.IsBad slot) (before : SignalState) :
    wait.run slot before =
      ([.badDescriptor], ⟨none, before, .ok ()⟩) := by
  obtain ⟨watched, htarget⟩ := target_eq_bad_iff.mpr hbad
  unfold run
  rw [htarget]

theorem run_of_not_isBad (hbad : ¬ wait.IsBad slot) (before : SignalState) :
    wait.run slot before =
      (if wait.inMainThread then [] else [.notMainThread],
        { selection := some
            { readable := readable (wait.other.bind (·.target? slot))
              exceptional := exceptional slot (wait.other.bind (·.target? slot))
              mask := (wait.enter before).2.blocked
              outcome := wait.answer slot (wait.enter before).2 }
          after := (wait.enter before).1.restore (wait.enter before).2
          result := (wait.answer slot (wait.enter before).2).map
            fun _ => () }) := by
  unfold run
  split
  · next watched htarget =>
    exact absurd (target_eq_bad_iff.mp ⟨watched, htarget⟩) hbad
  · rfl

theorem handles_restore_enter (h : before.IsSettled) (wait : SignalWait) :
    wait.Handles before
      ((wait.enter before).1.restore (wait.enter before).2) := by
  rw [restore_enter h]
  refine ⟨rfl, ?_, ?_, ?_⟩
  · intro signal
    simp [← delivered_iff]
  · intro signal hdelivers hhandlers
    simp [SignalTally.add, delivered_iff.mpr hdelivers, hhandlers]
  · intro signal hnot
    rw [← delivered_iff, ← Bool.and_eq_true, Bool.not_eq_true] at hnot
    simp [SignalTally.add, hnot]

/-- The thread is in order again when the wait is over. -/
theorem isSettled_run_after (h : before.IsSettled) (wait : SignalWait)
    (slot : Option Descriptor) : (wait.run slot before).2.after.IsSettled := by
  by_cases hbad : wait.IsBad slot
  · rw [run_of_isBad hbad]
    exact h
  · rw [run_of_not_isBad hbad]
    dsimp only
    rw [restore_enter h]
    refine ⟨h.blockable_blocked, ?_, h.wakeup_ne_own⟩
    intro signal hpending
    rw [Bool.and_eq_true] at hpending
    exact h.blocked_of_pending signal hpending.1

end SignalWait

/-- Every state that a thread can get into is in order. -/
theorem SignalState.IsReached.isSettled {state : SignalState}
    (h : state.IsReached) : state.IsSettled := by
  induction h with
  | start handlers blocked wakeup hwakeup =>
    exact ⟨blockable_blockable blocked, nofun, hwakeup⟩
  | send signal _ ih => exact ih.send signal
  | setBlocked signals _ ih => exact ih.setBlocked signals
  | wait wait slot _ ih => exact wait.isSettled_run_after ih slot

namespace SignalWait

variable {wait : SignalWait} {before : SignalState}

theorem isSelection_of_run {slot : Option Descriptor}
    (h : before.IsSettled) (hbad : ¬ wait.IsBad slot) :
    ∃ selection, (wait.run slot before).2.selection = some selection ∧
      wait.IsSelection slot before selection := by
  rw [run_of_not_isBad hbad]
  refine ⟨_, rfl, watches_of_not_isBad hbad, ?_, ?_, ?_, ?_, ?_, ?_⟩
  · intro id hslot hother
    dsimp only
    rw [target_eq_open_iff.mpr (.held hother hslot rfl), hslot]
    rfl
  · intro hmask
    simp [enter_blocked, hmask]
  · intro mask hmask signal
    rw [Option.mem_def] at hmask
    simp [enter_blocked, hmask, SignalSet.blockable, Signal.isBlockable]
  · intro reason hreason
    rw [Option.mem_def] at hreason
    simp [answer, selectError?, hreason]
  · intro hnone hslot
    simp [answer, selectError?, hnone, hslot]
  · intro hnone hslot
    simp only [answer, selectError?, hnone, hslot, if_false]
    exact ⟨_, rfl, enter_woken_iff h wait⟩

end SignalWait

/-- Waiting with signals, in every session and in every state of the thread.
If the other descriptor is not open, nothing happens.  Otherwise the system is
asked for what the arguments say, and is woken by the signals that are
delivered.  Whatever it answers, the thread blocks the same signals afterwards
and has the same pipe for wake-ups; the wait then ends with the error of the
system, or without one if the system did not give up. -/
theorem Session.signalWait_restores (session : Session) (wait : SignalWait)
    {before : SignalState} (hreached : before.IsReached) :
    ∃ notices outcome,
      session.perform (.signalWait wait before) =
        (session, ⟨notices, .ok (.signalWaited outcome)⟩) ∧
      outcome.after.blocked = before.blocked ∧
      outcome.after.wakeup = before.wakeup ∧
      (outcome.selection = none ↔ wait.IsBad session.slot) ∧
      (outcome.selection = none →
        outcome.after = before ∧ outcome.result = .ok () ∧
          notices = [.badDescriptor]) ∧
      ∀ selection ∈ outcome.selection,
        wait.IsSelection session.slot before selection ∧
        wait.Handles before outcome.after ∧
        (∀ error, outcome.result = .error error ↔
          selection.outcome = .error error) ∧
        notices = if wait.inMainThread then [] else [.notMainThread] := by
  have hsettled := hreached.isSettled
  refine ⟨(wait.run session.slot before).1, (wait.run session.slot before).2,
    rfl, ?_⟩
  by_cases hbad : wait.IsBad session.slot
  · rw [SignalWait.run_of_isBad hbad]
    exact ⟨rfl, rfl, by simp [hbad], fun _ => ⟨rfl, rfl, rfl⟩, nofun⟩
  · obtain ⟨selection, hselection, hasked⟩ :=
      SignalWait.isSelection_of_run hsettled hbad
    have hrun := SignalWait.run_of_not_isBad hbad before
    have hnotices : (wait.run session.slot before).1 =
        if wait.inMainThread then [] else [.notMainThread] := by rw [hrun]
    have hafter : (wait.run session.slot before).2.after =
        (wait.enter before).1.restore (wait.enter before).2 := by rw [hrun]
    have hresult : ∀ error,
        (wait.run session.slot before).2.result = .error error ↔
          selection.outcome = .error error := by
      rw [hrun] at hselection ⊢
      cases hselection
      exact fun _ => map_eq_error_iff
    have hhandles := SignalWait.handles_restore_enter hsettled wait
    rw [hselection, hnotices, hafter]
    rw [SignalWait.restore_enter hsettled] at hhandles ⊢
    refine ⟨rfl, rfl, by simp [hbad], nofun, ?_⟩
    rintro other ⟨rfl⟩
    exact ⟨hasked, hhandles, hresult, rfl⟩

/-- A session that holds a regular file. -/
def heldFileSession : Session :=
  Session.initial.run [.write [], .hold .file]

/-- A thread to which a signal was sent while it was blocked. -/
def pendingThread : SignalState :=
  SignalState.send .usr1
    { blocked := SignalSet.blockable (.ofList [.usr1, .term])
      handlers := .ofList [.usr1]
      wakeup := some .foreign }

/-- The wait for the held descriptor together with itself, while no signal is
blocked. -/
def unmaskedWait : SignalWait where
  other := some .held
  mask := some .empty

/-- The pending signal wakes the wait, and is blocked again afterwards. -/
theorem unmaskedWait_restores :
    pendingThread.IsReached ∧
      ∃ notices outcome,
        heldFileSession.perform (.signalWait unmaskedWait pendingThread) =
          (heldFileSession, ⟨notices, .ok (.signalWaited outcome)⟩) ∧
        outcome.after.blocked = pendingThread.blocked ∧
        outcome.after.wakeup = some .foreign ∧
        outcome.result = .ok () ∧
        ∃ selection ∈ outcome.selection,
          selection.exceptional = [.held, .held] ∧
          selection.outcome = .ok true := by
  have hreached : pendingThread.IsReached :=
    .send _ (.start _ _ _ (by decide))
  obtain ⟨notices, outcome, hperform, hblocked, hwakeup, -⟩ :=
    heldFileSession.signalWait_restores unmaskedWait hreached
  have houtcome : outcome =
      (unmaskedWait.run heldFileSession.slot pendingThread).2 := by
    cases hperform
    rfl
  refine ⟨hreached, notices, outcome, hperform, hblocked, hwakeup, ?_⟩
  rw [houtcome]
  exact ⟨rfl, _, rfl, rfl, rfl⟩

end RaidStatus

import Mathlib.Data.List.Induction
import RaidStatus.Proofs.Watch.HeldFile

/-!
# When the slot is filled and when it is emptied

A descriptor gets into the slot in three ways only: it is held explicitly, it
is left behind by somebody else who has closed it, or it is that of a report
that was read to be held while nothing was.  The slot is emptied by closing
only.  Whatever fails leaves the slot and the files as they were, and so does
everything that only looks (`SlotRules`).

All this is read off the list of what an action can do to the slot
(`SlotChange`).  The notices tell the same story: as long as nobody breaks the
held descriptor, the slot is filled exactly if the last notice about it says
so.
-/

namespace RaidStatus

/-- The action may change the slot. -/
def Action.concernsSlot : Action → Bool
  | .read _ _ _ | .hold _ | .breakHeld | .close => true
  | _ => false

namespace Session

variable (session : Session)

/-- The action is a hold that succeeds, or leaves a broken descriptor in the
slot. -/
inductive Replaces : Action → Prop
  | hold (target : HoldTarget)
      (hok : (session.hold target).2.outcome = .ok ()) :
    Replaces (.hold target)
  | breakHeld : Replaces .breakHeld

/-- The action is a reading that is to hold its report, and it returns a list
of arrays. -/
inductive ReadsToHold : Action → Prop
  | read (order : ArrayOrder) (failingMark : Option Nat)
      (arrays : List ArrayStatus)
      (hok : (session.read true order failingMark).2.outcome =
        .ok (some arrays)) :
    ReadsToHold (.read true order failingMark)

/-! ## What an action does to the slot -/

/-- What an action does to the slot, with the notices that it leaves and its
outcome. -/
inductive SlotChange : Action → Session → List Notice →
    Except SessionError Result → Prop
  | kept {action : Action} {after : Session} {notices : List Notice}
      {outcome : Except SessionError Result}
      (hslot : after.slot = session.slot)
      (hquiet : Notice.Quiet notices)
      (hreplaces : ¬ session.Replaces action)
      (hreads : session.ReadsToHold action → session.slot ≠ none)
      (hclose : action = .close → session.slot = none) :
    SlotChange action after notices outcome
  | held {target : HoldTarget} (descriptor : Descriptor) {after : Session}
      {result : Result} (hslot : after.slot = some descriptor)
      (hstale : descriptor ≠ .stale)
      (hreplaces : session.Replaces (.hold target)) :
    SlotChange (.hold target) after [.held] (.ok result)
  | broken {after : Session} {result : Result}
      (hslot : after.slot = some .stale) :
    SlotChange .breakHeld after [] (.ok result)
  | read {order : ArrayOrder} {failingMark : Option Nat} (id : Nat)
      (arrays : List ArrayStatus) {after : Session} {notices : List Notice}
      (hempty : session.slot = none)
      (hslot : after.slot = some (.file id))
      (hquiet : Notice.Quiet notices)
      (hreads : session.ReadsToHold (.read true order failingMark)) :
    SlotChange (.read true order failingMark) after (notices ++ [.held])
      (.ok (.arrays (some arrays)))
  | closed (descriptor : Descriptor) {after : Session} {result : Result}
      (hheld : session.slot = some descriptor)
      (hstale : descriptor ≠ .stale) (hslot : after.slot = none)
      (hok : session.close.2.outcome = .ok ()) :
    SlotChange .close after [.closing] (.ok result)
  | refused (hheld : session.slot = some .stale)
      (herror : session.close.2.outcome = .error .badDescriptor) :
    SlotChange .close session [.closing] (.error .badDescriptor)

theorem slotChange_of_not_concernsSlot {action : Action} {after : Session}
    {notices : List Notice} {outcome : Except SessionError Result}
    (hconcerns : action.concernsSlot = false)
    (hslot : after.slot = session.slot) (hquiet : Notice.Quiet notices) :
    session.SlotChange action after notices outcome := by
  refine .kept hslot hquiet ?_ ?_ ?_
  · rintro (⟨target, -⟩ | -) <;> cases hconcerns
  · rintro ⟨order, failingMark, -⟩
    cases hconcerns
  · rintro rfl
    cases hconcerns

theorem slotChange_read (hold : Bool) (order : ArrayOrder)
    (failingMark : Option Nat) :
    session.SlotChange (.read hold order failingMark)
      (session.read hold order failingMark).1
      (session.read hold order failingMark).2.notices
      ((session.read hold order failingMark).2.outcome.map .arrays) := by
  have hreport : ∀ bytes, Notice.Quiet (Report.readFile order bytes).notices :=
    fun bytes => Report.quiet_read order _
  have hnot : ¬ session.Replaces (.read hold order failingMark) := nofun
  have hnone : (session.read hold order failingMark).2.outcome = .ok none →
      ¬ session.ReadsToHold (.read hold order failingMark) := by
    rintro houtcome ⟨_, _, arrays, hok⟩
    rw [houtcome] at hok
    cases hok
  have hcase := session.readCase_read hold order failingMark
  generalize (session.read hold order failingMark).1 = after at hcase ⊢
  generalize hanswer : (session.read hold order failingMark).2 = answer
    at hcase hnone ⊢
  cases hcase with
  | unreadable =>
    exact .kept (by simp) (Notice.quiet_singleton rfl) hnot
      (fun hreads => absurd hreads (hnone rfl)) nofun
  | refused id error =>
    refine .kept (by simp) (hreport _) hnot ?_ nofun
    rintro ⟨_, _, arrays, hok⟩
    rw [hanswer] at hok
    cases hok
  | unmarked id =>
    exact .kept (by simp)
      ((hreport _).append (Notice.quiet_singleton rfl)) hnot
      (fun hreads => absurd hreads (hnone rfl)) nofun
  | taken id arrays offset hhold hslot =>
    subst hhold
    exact .read id arrays hslot rfl (hreport _) ⟨_, _, arrays, by rw [hanswer]⟩
  | read id arrays hkeeps =>
    refine .kept (by simp) (hreport _) hnot ?_ nofun
    rintro ⟨_, _, _, _⟩
    exact hkeeps rfl

/-- A hold that takes a descriptor. -/
theorem slotChange_of_taken {target : HoldTarget} (descriptor : Descriptor)
    (hstale : descriptor ≠ .stale)
    (hhold : session.hold target =
      (session.take descriptor 0, ⟨[.held], .ok ()⟩)) :
    session.SlotChange (.hold target) (session.hold target).1
      (session.hold target).2.notices
      ((session.hold target).2.outcome.map fun _ => .nothing) := by
  have hreplaces : session.Replaces (.hold target) :=
    .hold target (by rw [hhold])
  rw [hhold]
  exact .held descriptor rfl hstale hreplaces

/-- A hold of what is not open. -/
theorem slotChange_of_not_open {target : HoldTarget}
    (hhold : session.hold target = (session, ⟨[], .error .badDescriptor⟩)) :
    session.SlotChange (.hold target) (session.hold target).1
      (session.hold target).2.notices
      ((session.hold target).2.outcome.map fun _ => .nothing) := by
  have hreplaces : ¬ session.Replaces (.hold target) := by
    rintro (⟨_, hok⟩ | -)
    rw [hhold] at hok
    cases hok
  have hreads : ¬ session.ReadsToHold (.hold target) := by
    rintro ⟨⟩
  rw [hhold]
  refine .kept rfl Notice.quiet_nil hreplaces
    (fun hholds => absurd hholds hreads) ?_
  rintro ⟨⟩

theorem slotChange_hold (target : HoldTarget) :
    session.SlotChange (.hold target) (session.hold target).1
      (session.hold target).2.notices
      ((session.hold target).2.outcome.map fun _ => .nothing) := by
  cases target with
  | pipe => exact session.slotChange_of_taken .pipe (by simp) rfl
  | closed => exact session.slotChange_of_not_open rfl
  | file =>
    cases hentry : session.fs.entry with
    | missing => exact session.slotChange_of_not_open (by rw [hold, hentry])
    | directory =>
      exact session.slotChange_of_taken .directory (by simp)
        (by rw [hold, hentry])
    | file id =>
      exact session.slotChange_of_taken (.file id) (by simp)
        (by rw [hold, hentry])

theorem close_of_slot_eq_none (hslot : session.slot = none) :
    session.close = (session, ⟨[], .ok ()⟩) := by
  simp [close, hslot]

theorem close_of_ne_stale {descriptor : Descriptor}
    (hslot : session.slot = some descriptor) (hstale : descriptor ≠ .stale) :
    session.close = ({ session with slot := none }, ⟨[.closing], .ok ()⟩) := by
  cases descriptor with
  | stale => exact absurd rfl hstale
  | file | directory | pipe => simp [close, hslot]

theorem close_slot_of_ne_stale (hstale : session.slot ≠ some .stale) :
    session.close.1.slot = none := by
  cases hslot : session.slot with
  | none => rw [session.close_of_slot_eq_none hslot, hslot]
  | some descriptor =>
    rw [session.close_of_ne_stale hslot]
    rintro rfl
    exact hstale hslot

theorem slotChange_close :
    session.SlotChange .close session.close.1 session.close.2.notices
      (session.close.2.outcome.map fun _ => .nothing) := by
  cases hslot : session.slot with
  | none =>
    rw [session.close_of_slot_eq_none hslot]
    exact .kept rfl Notice.quiet_nil nofun nofun fun _ => hslot
  | some descriptor =>
    by_cases hstale : descriptor = .stale
    · subst hstale
      have hclose : session.close =
          (session, ⟨[.closing], .error .badDescriptor⟩) := by
        simp [close, hslot]
      rw [hclose]
      exact .refused hslot (by rw [hclose])
    · have hclose := session.close_of_ne_stale hslot hstale
      rw [hclose]
      exact .closed descriptor hslot hstale rfl (by rw [hclose])

/-- Every action does one of these things to the slot. -/
theorem slotChange_perform (action : Action) :
    session.SlotChange action (session.perform action).1
      (session.perform action).2.notices
      (session.perform action).2.outcome := by
  cases action with
  | write | replace | remove | makeDirectory =>
    exact session.slotChange_of_not_concernsSlot rfl rfl Notice.quiet_nil
  | read hold order failingMark =>
    simp only [perform, Noted.map_notices, Noted.map_outcome]
    exact session.slotChange_read hold order failingMark
  | isKnown | holderOf | subarrayOf | wait | signalWait =>
    exact session.slotChange_of_not_concernsSlot rfl rfl
      (session.quiet_perform_of_observes rfl)
  | hold target =>
    simp only [perform, Noted.map_notices, Noted.map_outcome]
    exact session.slotChange_hold target
  | breakHeld => exact .broken rfl
  | close =>
    simp only [perform, Noted.map_notices, Noted.map_outcome]
    exact session.slotChange_close

namespace SlotChange

variable {session} {action : Action} {after : Session}
  {notices : List Notice} {outcome : Except SessionError Result}

theorem filled_iff (h : session.SlotChange action after notices outcome)
    (hempty : session.slot = none) :
    after.slot ≠ none ↔
      session.Replaces action ∨ session.ReadsToHold action := by
  cases h with
  | kept hslot _ hreplaces hreads =>
    have hnot : ¬ session.ReadsToHold action := fun h => hreads h hempty
    simp [hslot, hempty, hreplaces, hnot]
  | held descriptor hslot _ hreplaces => simp [hslot, hreplaces]
  | broken hslot => simp [hslot, Replaces.breakHeld]
  | read id arrays _ hslot _ hreads => simp [hslot, hreads]
  | closed descriptor hheld =>
    rw [hempty] at hheld
    cases hheld
  | refused hheld =>
    rw [hempty] at hheld
    cases hheld

theorem slot_ne_none (h : session.SlotChange action after notices outcome)
    (hfills : session.Replaces action ∨ session.ReadsToHold action) :
    after.slot ≠ none := by
  cases h with
  | kept hslot _ hreplaces hreads =>
    rw [hslot]
    exact hreads (hfills.resolve_left hreplaces)
  | held descriptor hslot => simp [hslot]
  | broken hslot => simp [hslot]
  | read id arrays _ hslot => simp [hslot]
  | closed | refused => rcases hfills with hfills | hfills <;> cases hfills

theorem emptied_iff (h : session.SlotChange action after notices outcome)
    (hheld : session.slot ≠ none) :
    after.slot = none ↔
      action = .close ∧ session.close.2.outcome = .ok () := by
  cases h with
  | kept hslot _ _ _ hclose =>
    have hnot : action ≠ .close := fun h => hheld (hclose h)
    simp [hslot, hheld, hnot]
  | held descriptor hslot => simp [hslot]
  | broken hslot => simp [hslot]
  | read id arrays hempty => exact absurd hempty hheld
  | closed descriptor _ _ hslot hok => simp [hslot, hok]
  | refused _ herror => simp [hheld, herror]

/-- A descriptor that stays in the slot is not taken anew. -/
theorem kept_of_not_replaces
    (h : session.SlotChange action after notices outcome)
    (hheld : session.slot ≠ none) (hafter : after.slot ≠ none)
    (hreplaces : ¬ session.Replaces action) :
    after.slot = session.slot ∧ Notice.held ∉ notices := by
  cases h with
  | kept hslot hquiet => exact ⟨hslot, hquiet.held_notMem⟩
  | held _ _ _ hholds => exact absurd hholds hreplaces
  | broken => exact absurd Replaces.breakHeld hreplaces
  | read id arrays hempty => exact absurd hempty hheld
  | closed _ _ _ hslot => exact absurd hslot hafter
  | refused => exact ⟨rfl, by simp⟩

theorem slot_of_error (h : session.SlotChange action after notices outcome)
    {error : SessionError} (herror : outcome = .error error) :
    after.slot = session.slot := by
  cases h with
  | kept hslot => exact hslot
  | refused => rfl
  | held | broken | read | closed => cases herror

theorem slot_of_none {hold : Bool} {order : ArrayOrder}
    {failingMark : Option Nat}
    (h : session.SlotChange (.read hold order failingMark) after notices
      outcome)
    (hnone : outcome = .ok (.arrays none)) : after.slot = session.slot := by
  cases h with
  | kept hslot => exact hslot
  | read => cases hnone

end SlotChange

/-! ## The rules of the slot -/

/-- What an action can and cannot do to the slot and to the files. -/
structure SlotRules (action : Action) : Prop where
  /-- What fills an empty slot. -/
  filled_iff : session.slot = none →
    ((session.perform action).1.slot ≠ none ↔
      session.Replaces action ∨ session.ReadsToHold action)
  /-- A report that was to be held is held if it could be read. -/
  held_of_readsToHold : session.ReadsToHold action →
    (session.perform action).1.slot ≠ none
  /-- Only closing empties the slot. -/
  emptied_iff : session.slot ≠ none →
    ((session.perform action).1.slot = none ↔
      action = .close ∧ session.close.2.outcome = .ok ())
  /-- A held descriptor stays, and no other one is taken, unless it is
  replaced. -/
  kept_of_not_replaces : session.slot ≠ none →
    (session.perform action).1.slot ≠ none → ¬ session.Replaces action →
      (session.perform action).1.slot = session.slot ∧
        ¬ session.Takes action
  /-- An action that fails changes nothing. -/
  unchanged_of_error : ∀ error,
    (session.perform action).2.outcome = .error error →
      (session.perform action).1.slot = session.slot ∧
        (session.perform action).1.fs = session.fs
  /-- A reading that finds nothing changes nothing. -/
  unchanged_of_none : ∀ hold order failingMark,
    action = .read hold order failingMark →
      (session.read hold order failingMark).2.outcome = .ok none →
        (session.perform action).1.slot = session.slot ∧
          (session.perform action).1.fs = session.fs
  /-- Looking changes nothing. -/
  unchanged_of_observes : action.observes = true →
    (session.perform action).1.slot = session.slot ∧
      (session.perform action).1.fs = session.fs

theorem onFiles_of_error {action : Action} {error : SessionError}
    (herror : (session.perform action).2.outcome = .error error)
    (fs : FileSystem) : action.onFiles fs = fs := by
  cases action with
  | write | replace | remove | makeDirectory => cases herror
  | _ => rfl

theorem slotRules (action : Action) : session.SlotRules action where
  filled_iff := (session.slotChange_perform action).filled_iff
  held_of_readsToHold := fun hreads =>
    (session.slotChange_perform action).slot_ne_none (Or.inr hreads)
  emptied_iff := (session.slotChange_perform action).emptied_iff
  kept_of_not_replaces := by
    intro hheld hafter hreplaces
    exact (session.slotChange_perform action).kept_of_not_replaces hheld
      hafter hreplaces
  unchanged_of_error := by
    intro error herror
    refine ⟨(session.slotChange_perform action).slot_of_error herror, ?_⟩
    rw [perform_fs, session.onFiles_of_error herror]
  unchanged_of_none := by
    rintro hold order failingMark rfl hnone
    refine ⟨?_, session.read_fs hold order failingMark⟩
    apply (session.slotChange_read hold order failingMark).slot_of_none
    rw [hnone]
    rfl
  unchanged_of_observes := by
    intro hobserves
    cases action with
    | isKnown | holderOf | subarrayOf | wait | signalWait => exact ⟨rfl, rfl⟩
    | _ => cases hobserves

/-! ## What the notices tell about the slot -/

/-- The notices of some actions, in order. -/
def log (actions : List Action) : List Notice :=
  (session.trace actions).flatMap (·.2.notices)

/-- The last notice about the slot tells whether it is filled, and nobody has
broken the held descriptor. -/
structure Tells (notices : List Notice) : Prop where
  slot_ne_stale : session.slot ≠ some .stale
  held_iff : session.slot ≠ none ↔
    (notices.filter Notice.isAboutSlot).getLast? = some .held

theorem log_append_singleton (actions : List Action) (action : Action) :
    session.log (actions ++ [action]) =
      session.log actions ++
        ((session.run actions).perform action).2.notices := by
  induction actions generalizing session with
  | nil => simp [log, trace]
  | cons first actions ih =>
    have hrest := ih (session.perform first).1
    unfold log at hrest ⊢
    rw [List.cons_append, trace, List.flatMap_cons, hrest, trace,
      List.flatMap_cons, List.append_assoc]
    rfl

variable {session}

theorem Tells.step {notices : List Notice} (h : session.Tells notices)
    {action : Action} (hbreak : action ≠ .breakHeld) :
    (session.perform action).1.Tells
      (notices ++ (session.perform action).2.notices) := by
  have hchange := session.slotChange_perform action
  generalize (session.perform action).1 = after at hchange ⊢
  generalize (session.perform action).2.notices = more at hchange ⊢
  generalize (session.perform action).2.outcome = outcome at hchange
  cases hchange with
  | kept hslot hquiet =>
    refine ⟨hslot ▸ h.slot_ne_stale, ?_⟩
    rw [List.filter_append, hquiet.filter_eq_nil, List.append_nil, hslot]
    exact h.held_iff
  | held descriptor hslot hstale =>
    refine ⟨by simpa [hslot] using hstale, ?_⟩
    simp [hslot, Notice.isAboutSlot]
  | broken => exact absurd rfl hbreak
  | read id arrays hempty hslot hquiet =>
    refine ⟨by simp [hslot], ?_⟩
    simp [hslot, Notice.isAboutSlot]
  | closed descriptor hheld hstale hslot =>
    refine ⟨by simp [hslot], ?_⟩
    simp [hslot, Notice.isAboutSlot]
  | refused hheld => exact absurd hheld h.slot_ne_stale

theorem tells_run {actions : List Action}
    (hbreak : ∀ action ∈ actions, action ≠ .breakHeld) :
    (initial.run actions).Tells (initial.log actions) := by
  induction actions using List.reverseRecOn with
  | nil => exact ⟨nofun, by simp [log, trace, initial]⟩
  | append_singleton actions action ih =>
    rw [run_append_singleton, log_append_singleton]
    exact (ih fun a ha => hbreak a (List.mem_append_left _ ha)).step
      (hbreak action (by simp))

/-- The slot stays filled as long as it is not closed. -/
theorem run_slot_ne_none {actions : List Action}
    (hheld : session.slot ≠ none)
    (hopen : ∀ action ∈ actions, action ≠ .close) :
    (session.run actions).slot ≠ none := by
  induction actions generalizing session with
  | nil => exact hheld
  | cons action actions ih =>
    rw [run_cons]
    apply ih
    · intro hempty
      obtain ⟨hclose, -⟩ :=
        ((session.slotChange_perform action).emptied_iff hheld).mp hempty
      exact hopen action List.mem_cons_self hclose
    · exact fun a ha => hopen a (List.mem_cons_of_mem _ ha)

/-- What is held after a run without a break got into the slot by some action,
and was not closed since. -/
theorem exists_filling {actions : List Action}
    (hbreak : ∀ action ∈ actions, action ≠ .breakHeld)
    (hheld : (initial.run actions).slot ≠ none) :
    ∃ front filling back, actions = front ++ filling :: back ∧
      ((initial.run front).Replaces filling ∨
        (initial.run front).ReadsToHold filling) ∧
      ∀ action ∈ back, action ≠ .close := by
  induction actions using List.reverseRecOn with
  | nil => exact absurd rfl hheld
  | append_singleton actions action ih =>
    have hfront : ∀ a ∈ actions, a ≠ .breakHeld :=
      fun a ha => hbreak a (List.mem_append_left _ ha)
    have hchange := (initial.run actions).slotChange_perform action
    rw [run_append_singleton] at hheld
    by_cases hempty : (initial.run actions).slot = none
    · exact ⟨actions, action, [], rfl, (hchange.filled_iff hempty).mp hheld,
        by simp⟩
    · obtain ⟨front, filling, back, hactions, hfills, hback⟩ :=
        ih hfront hempty
      refine ⟨front, filling, back ++ [action], by simp [hactions], hfills,
        ?_⟩
      -- closing would have emptied the slot, since nobody has broken it
      have hopen : action ≠ .close := by
        rintro rfl
        exact hheld (close_slot_of_ne_stale _ (tells_run hfront).slot_ne_stale)
      intro a ha
      rcases List.mem_append.mp ha with ha | ha
      · exact hback a ha
      · rw [List.mem_singleton.mp ha]
        exact hopen

/-- A run without a break leaves the slot filled exactly if one of its actions
filled it and none behind that one closed it. -/
theorem slot_ne_none_iff_exists {actions : List Action}
    (hbreak : ∀ action ∈ actions, action ≠ .breakHeld) :
    (initial.run actions).slot ≠ none ↔
      ∃ front filling back, actions = front ++ filling :: back ∧
        ((initial.run front).Replaces filling ∨
          (initial.run front).ReadsToHold filling) ∧
        ∀ action ∈ back, action ≠ .close := by
  constructor
  · exact exists_filling hbreak
  · rintro ⟨front, filling, back, rfl, hfills, hback⟩
    have hchange := (initial.run front).slotChange_perform filling
    rw [run_append, run_cons]
    exact run_slot_ne_none (hchange.slot_ne_none hfills) hback

/-- The slot in every session.  Whatever is done in a session obeys the rules.
As long as nobody breaks the held descriptor, the slot is filled exactly if
the last notice about it is that a descriptor was taken, which means that some
action filled it and none closed it afterwards. -/
theorem slot_obeys_rules (actions : List Action) :
    (∀ action, (initial.run actions).SlotRules action) ∧
      ((∀ action ∈ actions, action ≠ .breakHeld) →
        ((initial.run actions).slot ≠ none ↔
          ((initial.log actions).filter Notice.isAboutSlot).getLast? =
            some .held) ∧
        ((initial.run actions).slot ≠ none ↔
          ∃ front filling back, actions = front ++ filling :: back ∧
            ((initial.run front).Replaces filling ∨
              (initial.run front).ReadsToHold filling) ∧
            ∀ action ∈ back, action ≠ .close)) :=
  ⟨(initial.run actions).slotRules, fun hbreak =>
    ⟨(tells_run hbreak).held_iff, slot_ne_none_iff_exists hbreak⟩⟩

/-- A session that holds a pipe and closes it, then fails to hold the report
that it reads, and tries once more. -/
def heldAtLast : List Action :=
  [.hold .pipe, .close, .write [0x6d], .read true .partsLast (some 2),
    .read true .partsLast none]

theorem heldAtLast_slot :
    (∀ action ∈ heldAtLast, action ≠ .breakHeld) ∧
      (initial.run heldAtLast).slot ≠ none ∧
      ((initial.log heldAtLast).filter Notice.isAboutSlot).getLast? =
        some .held := by
  have hbreak : ∀ action ∈ heldAtLast, action ≠ .breakHeld := by
    simp [heldAtLast]
  obtain ⟨hheld, -⟩ := (slot_obeys_rules heldAtLast).2 hbreak
  have hlog : ((initial.log heldAtLast).filter
      Notice.isAboutSlot).getLast? = some .held := rfl
  exact ⟨hbreak, hheld.mpr hlog, hlog⟩

end Session
end RaidStatus

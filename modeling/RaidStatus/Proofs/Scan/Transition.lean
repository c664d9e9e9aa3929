import Mathlib.Tactic.SplitIfs
import RaidStatus.ArrayStatus.Scan
import RaidStatus.Notice

/-!
# The transitions of a reading

The next word of a line changes the state of the reading in one of ten ways.
`Scan.Transition` lists them, each with the conditions under which it happens,
and `Scan.transition_of_step` shows that there are no others.  What every
reading keeps is proved by cases on a transition, not by opening the
definition of a step again, and carried through a whole line by
`Scan.run_induction`.

A word behind the disks is read in one more step, whose changes are listed in
the same way (`ArrayStatus.DetailChange`).
-/

namespace RaidStatus

/-- What holds before the first item of a list, and is kept by every step, holds
after the last one. -/
theorem foldlM_induction {ε α σ : Type} {step : σ → α → Except ε σ}
    {P : List α → σ → Prop}
    (hkeeps : ∀ seen state item next, P seen state →
      step state item = .ok next → P (seen ++ [item]) next)
    (seen : List α) {state final : σ} {items : List α} (hstart : P seen state)
    (hfold : items.foldlM step state = .ok final) :
    P (seen ++ items) final := by
  induction items generalizing seen state with
  | nil =>
    cases hfold
    rwa [List.append_nil]
  | cons item items ih =>
    rw [List.foldlM_cons] at hfold
    obtain ⟨next, hstep, hrest⟩ := bind_eq_ok_iff.mp hfold
    have hnext := hkeeps seen state item next hstart hstep
    have hfinal := ih (seen ++ [item]) hnext hrest
    rwa [List.append_assoc] at hfinal

namespace ArrayStatus

/-- What a word behind the disks can do to the status. -/
inductive DetailChange (status : ArrayStatus) (word : Text) :
    ArrayStatus → Prop
  | count (number : Text) (count : Int)
      (hnumber : Detail.diskCount? word = some number)
      (hcount : Numeral.leading number = .ok count) :
    DetailChange status word { status with diskCount := count }
  | health (health : Text) (hnone : status.health = none)
      (hhealth : Detail.health? word = some health) :
    DetailChange status word { status with health := some health }
  | assigned (number : Text) (done : Int) (hnone : status.progress = none)
      (hnumber : Detail.assigned? word = some number)
      (hdone : Numeral.leading number = .ok done) :
    DetailChange status word
      { status with
        operation := (Operation.ofWord? word).getD .recovery
        progress := some (.percent done) }
  | announced (hnone : status.progress = none)
      (hassigned : Detail.assigned? word = none)
      (hword : Detail.isAnnouncement word = true) :
    DetailChange status word
      { status with
        operation := (Operation.ofWord? word).or status.operation
        progress := Progress.ofWord? word }
  | percentage (done : Int) (hnone : status.progress = none)
      (hword : Detail.isPercentage word = true)
      (hdone : Numeral.leading word = .ok done) :
    DetailChange status word
      { status with
        operation := status.operation.getD .recovery
        progress := some (.percent done) }
  | ignored (hcount : Detail.diskCount? word = none)
      (hhealth : status.health = none → Detail.health? word = none)
      (hprogress : status.progress = none →
        Detail.assigned? word = none ∧ Detail.isAnnouncement word = false ∧
          Detail.isPercentage word = false) :
    DetailChange status word status

theorem detailChange_of_noteProgress {status next : ArrayStatus}
    {word : Text} (hnone : status.progress = none)
    (hcount : Detail.diskCount? word = none)
    (hhealth : status.health = none → Detail.health? word = none)
    (hnote : status.noteProgress word = .ok next) :
    DetailChange status word next := by
  unfold noteProgress at hnote
  split at hnote
  · next number hnumber =>
    obtain ⟨done, hdone, hnext⟩ := bind_eq_ok_iff.mp hnote
    cases hnext
    exact .assigned number done hnone hnumber hdone
  · next hassigned =>
    split_ifs at hnote with hannounces hpercentage
    · cases hnote
      exact .announced hnone hassigned hannounces
    · obtain ⟨done, hdone, hnext⟩ := bind_eq_ok_iff.mp hnote
      cases hnext
      exact .percentage done hnone hpercentage hdone
    · cases hnote
      rw [Bool.not_eq_true] at hannounces hpercentage
      exact .ignored hcount hhealth
        fun _ => ⟨hassigned, hannounces, hpercentage⟩

/-- A word behind the disks that is read without an error does one of these
things. -/
theorem detailChange_of_noteDetail {status next : ArrayStatus} {word : Text}
    (hnote : status.noteDetail word = .ok next) :
    DetailChange status word next := by
  unfold noteDetail at hnote
  split at hnote
  · next number hnumber =>
    obtain ⟨count, hcount, hnext⟩ := bind_eq_ok_iff.mp hnote
    cases hnext
    exact .count number count hnumber hcount
  · next hcount =>
    split at hnote
    · next health hnone hhealth =>
      cases hnote
      exact .health health hnone hhealth
    · next hother =>
      have hhealth : status.health = none → Detail.health? word = none :=
        fun hnone => Option.eq_none_iff_forall_ne_some.mpr
          fun health => hother health hnone
      split_ifs at hnote with hnone
      · exact detailChange_of_noteProgress
          (Option.isNone_iff_eq_none.mp hnone) hcount hhealth hnote
      · cases hnote
        exact .ignored hcount hhealth
          fun hprogress => absurd hprogress (by simpa using hnone)

/-- A word behind the disks changes nothing but the health, the number of
disks, the operation and its progress. -/
theorem noteDetail_frame {status next : ArrayStatus} {word : Text}
    (hnote : status.noteDetail word = .ok next) :
    ∃ health count operation progress,
      next =
        { status with
          health := health
          diskCount := count
          operation := operation
          progress := progress } := by
  cases detailChange_of_noteDetail hnote with
  | count | health | assigned | announced | percentage | ignored =>
    exact ⟨_, _, _, _, rfl⟩

end ArrayStatus

namespace Scan

/-- What one word can do to the state of a reading. -/
inductive Transition (known : List Text) (scan : Scan) (word : Text) :
    Scan → Prop
  | closed (hreached : scan.reached = .closed) :
    Transition known scan word scan
  | version (hreached : scan.reached = .version) :
    Transition known scan word
      { scan with
        status := { scan.status with version := some word }
        reached := .details }
  | active (hword : word = "active") :
    Transition known scan word
      { scan with status := { scan.status with activity := .active } }
  | inactive (hword : word = "inactive") :
    Transition known scan word
      { scan with
        status := { scan.status with activity := .inactive }
        reached := .members }
  | bitmap (hword : word = "bitmap:") :
    Transition known scan word { scan with reached := .closed }
  | level (hawaits : scan.status.awaitsLevel = true)
      (hhead : word.head? ≠ some (.char '('))
      (hactive : word ≠ "active") (hinactive : word ≠ "inactive")
      (hbitmap : word ≠ "bitmap:") :
    Transition known scan word
      { scan with
        status := { scan.status with level := some word }
        reached := .members }
  | blocks (hreached : scan.reached = .members) (hword : word = "blocks") :
    Transition known scan word { scan with reached := .details }
  | member (hreached : scan.reached = .members) :
    Transition known scan word (scan.noteMember known word)
  | super (hreached : scan.reached = .details) (hword : word = "super") :
    Transition known scan word { scan with reached := .version }
  | detail (status : ArrayStatus) (hreached : scan.reached = .details)
      (hnote : scan.status.noteDetail word = .ok status) :
    Transition known scan word { scan with status := status }

/-- A step that succeeds is one of the transitions. -/
theorem transition_of_step {known : List Text} {scan next : Scan}
    {word : Text} (hstep : step known scan word = .ok next) :
    Transition known scan word next := by
  obtain ⟨status, anchor, reached⟩ := scan
  cases reached with
  | closed =>
    cases hstep
    exact .closed rfl
  | version =>
    cases hstep
    exact .version rfl
  | members =>
    simp only [step, reduceIte] at hstep
    split_ifs at hstep with hactive hinactive hbitmap hlevel hblocks
    · cases hstep
      exact .active hactive
    · cases hstep
      exact .inactive hinactive
    · cases hstep
      exact .bitmap hbitmap
    · cases hstep
      exact .level hlevel.1 hlevel.2 hactive hinactive hbitmap
    · cases hstep
      exact .blocks rfl hblocks
    · cases hstep
      exact .member rfl
  | details =>
    simp only [step, reduceCtorEq, reduceIte] at hstep
    split_ifs at hstep with hactive hinactive hbitmap hlevel hsuper
    · cases hstep
      exact .active hactive
    · cases hstep
      exact .inactive hinactive
    · cases hstep
      exact .bitmap hbitmap
    · cases hstep
      exact .level hlevel.1 hlevel.2 hactive hinactive hbitmap
    · cases hstep
      exact .super rfl hsuper
    · obtain ⟨noted, hnote, hnext⟩ := bind_eq_ok_iff.mp hstep
      cases hnext
      exact .detail noted rfl hnote

theorem run_append_of_ok {known : List Text} {scan next : Scan}
    {front : List Text} (hfront : run known scan front = .ok next)
    (back : List Text) :
    run known scan (front ++ back) = run known next back := by
  rw [run_append, hfront]
  rfl

theorem run_cons_of_ok {known : List Text} {scan next : Scan} {word : Text}
    (hword : step known scan word = .ok next) (words : List Text) :
    run known scan (word :: words) = run known next words := by
  rw [run_cons, hword]
  rfl

theorem run_singleton (known : List Text) (scan : Scan) (word : Text) :
    run known scan [word] = step known scan word := by
  rw [run_cons]
  cases step known scan word <;> rfl

/-- What holds before the first word, and is kept by every transition, holds
after the last one. -/
theorem run_induction {known : List Text} {P : List Text → Scan → Prop}
    (hkeeps : ∀ seen scan word next, P seen scan →
      Transition known scan word next → P (seen ++ [word]) next)
    (seen : List Text) {scan final : Scan} {words : List Text}
    (hstart : P seen scan) (hrun : run known scan words = .ok final) :
    P (seen ++ words) final :=
  foldlM_induction
    (fun seen scan word next hscan hstep =>
      hkeeps seen scan word next hscan (transition_of_step hstep))
    seen hstart hrun

/-- Only `super` is followed by a version. -/
theorem reached_ne_version_of_step {known : List Text} {scan next : Scan}
    {word : Text} (hword : word ≠ "super")
    (hstep : step known scan word = .ok next) : next.reached ≠ .version := by
  by_cases hversion : scan.reached = .version
  · simp only [step, hversion] at hstep
    cases hstep
    simp
  · cases transition_of_step hstep with
    | closed | active | detail => exact hversion
    | version | inactive | bitmap | level | blocks => simp
    | member =>
      unfold noteMember
      cases disk? word <;> exact hversion
    | super _ hsuper => exact absurd hsuper hword

theorem reached_ne_version_of_run {known : List Text} {scan next : Scan}
    {words : List Text}
    (hstart : scan.reached ≠ .version)
    (hlast : words.getLast? ≠ some (Text.ofString "super"))
    (hrun : run known scan words = .ok next) : next.reached ≠ .version := by
  rcases List.eq_nil_or_concat words with rfl | ⟨front, word, rfl⟩
  · cases hrun
    exact hstart
  · rw [List.concat_eq_append] at hlast hrun
    rw [List.getLast?_concat] at hlast
    rw [run_append, bind_eq_ok_iff] at hrun
    obtain ⟨last, -, hstep⟩ := hrun
    rw [run_singleton] at hstep
    exact reached_ne_version_of_step (fun h => hlast (congrArg some h)) hstep

/-- What has been read. -/
def reading (scan : Scan) : Reading :=
  ⟨scan.status, scan.anchor⟩

end Scan

/-- A line is read by running through the words behind the name. -/
theorem ArrayStatus.readWords_cons_eq_ok_iff {known : List Text} {name : Text}
    {details : List Text} {reading : Reading} :
    readWords known (name :: details) = .ok reading ↔
      ∃ scan, Scan.run known { status := { name := name } } details =
        .ok scan ∧ scan.reading = reading := by
  cases hrun : Scan.run known { status := { name := name } } details with
  | error error =>
    simp [readWords, read, hrun, bind, Except.bind, Except.mapError]
  | ok scan =>
    simp [readWords, read, hrun, bind, Except.bind, pure, Except.pure,
      Except.mapError, Scan.reading]

end RaidStatus

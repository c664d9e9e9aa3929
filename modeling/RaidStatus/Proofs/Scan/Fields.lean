import RaidStatus.Proofs.Scan.Refusal

/-!
# What the details of a line come to

The words behind the disks may stand in any order, and each of them changes a
field or two of the status.  What they come to in the end is said of each field
by itself: the last number of disks counts, the first health, and the first
progress together with the last operation that has been announced until then.

Each of these is a relation between the words and the field, of which it is
proved that one more word keeps it (`ArrayStatus.DetailChange.countAfter`,
`healthAfter`, `progressAfter`), so that it holds of a run of words
(`ArrayStatus.readsDetails_of_foldlM`).
-/

namespace RaidStatus

/-- The operation that the last of some words announces that announces any, or
the one before. -/
inductive Operation.LastNamed (start : Option Operation) :
    List Text → Option Operation → Prop
  | unnamed {words : List Text}
      (hnone : ∀ word ∈ words, ∀ operation : Operation,
        ¬ operation.keyword <+: word) :
    LastNamed start words start
  | named {front back : List Text} {word : Text} {operation : Operation}
      (hword : operation.keyword <+: word)
      (hback : ∀ other ∈ back, ∀ operation : Operation,
        ¬ operation.keyword <+: other) :
    LastNamed start (front ++ word :: back) (some operation)

/-- A word about the progress does not begin with a bracket. -/
theorem Detail.head_ne_of_progress {word : Text}
    (hword : assigned? word ≠ none ∨ isAnnouncement word = true ∨
      isPercentage word = true) :
    word.head? ≠ some (.char '[') := by
  rcases hword with hassigned | hannounces | hpercentage
  · exact (setsProgress_iff.mpr (Or.inl hassigned)).head_ne
  · intro hbracket
    rw [isAnnouncement_iff, hbracket] at hannounces
    simp at hannounces
  · exact (setsProgress_iff.mpr (Or.inr (Or.inr hpercentage))).head_ne

namespace Operation.LastNamed

variable {start operation : Option Operation} {seen : List Text}
  {word : Text}

theorem nil (start : Option Operation) : LastNamed start [] start :=
  .unnamed (by simp)

/-- The operation after one more word. -/
theorem concat (h : LastNamed start seen operation) (word : Text) :
    LastNamed start (seen ++ [word])
      ((Operation.ofWord? word).or operation) := by
  cases hword : Operation.ofWord? word with
  | some named =>
    exact .named (Operation.ofWord?_eq_some_iff.mp hword) (by simp)
  | none =>
    rw [Operation.ofWord?_eq_none_iff] at hword
    cases h with
    | unnamed hnone =>
      exact .unnamed (List.forall_mem_append.mpr
        ⟨hnone, List.forall_mem_singleton.mpr hword⟩)
    | named hlast hback =>
      rw [List.append_assoc, List.cons_append]
      exact .named hlast (List.forall_mem_append.mpr
        ⟨hback, List.forall_mem_singleton.mpr hword⟩)

end Operation.LastNamed

/-! ## What the words come to -/

namespace ArrayStatus

/-- The number of disks after some words is that of the last word with one. -/
inductive CountAfter (start : Int) : List Text → Int → Prop
  | unset {words : List Text} (hnone : ∀ word ∈ words, ¬ word.BeginsCount) :
    CountAfter start words start
  | set {front back : List Text} {word : Text} {count : Int}
      (hword : word.BeginsCount)
      (hcount : Numeral.leading word.tail = .ok count)
      (hback : ∀ other ∈ back, ¬ other.BeginsCount) :
    CountAfter start (front ++ word :: back) count

/-- The health after some words is the one before them, or that of the first
word with one. -/
inductive HealthAfter : Option Text → List Text → Option Text → Prop
  | known (health : Text) (words : List Text) :
    HealthAfter (some health) words (some health)
  | unset {words : List Text} (hnone : ∀ word ∈ words, ¬ word.BeginsHealth) :
    HealthAfter none words none
  | set {front back : List Text} {word health : Text}
      (hfront : ∀ other ∈ front, ¬ other.BeginsHealth)
      (hword : word.BeginsHealth) (hhealth : health.IsBracketed word) :
    HealthAfter none (front ++ word :: back) (some health)

/-- The operation and the progress after some words, if no progress is known
before them.  The first word that sets the progress makes use of the operation
that has been announced until then, and what follows it changes neither. -/
inductive ProgressAfter (start : Option Operation) :
    List Text → Option Operation → Option Progress → Prop
  | unset {words : List Text} {operation : Option Operation}
      (hnone : ∀ word ∈ words, ¬ SetsProgress word)
      (hnamed : Operation.LastNamed start words operation) :
    ProgressAfter start words operation none
  | assigned {front back : List Text} {word before number : Text}
      {operation : Option Operation} {done : Int}
      (hfront : ∀ other ∈ front, ¬ SetsProgress other)
      (hbegins : Text.ofString "re" <+: word)
      (hends : Text.ofString "%" <:+ word)
      (hword : word = before ++ .char '=' :: number)
      (hbefore : .char '=' ∉ before) (hdone : Numeral.leading number = .ok done)
      (hnamed : Operation.LastNamed (some .recovery) [word] operation) :
    ProgressAfter start (front ++ word :: back) operation
      (some (.percent done))
  | waiting {front back : List Text} {word : Text}
      {operation : Option Operation} {progress : Progress}
      (hfront : ∀ other ∈ front, ¬ SetsProgress other)
      (hhead : word.head? = some (.char 'r') ∨ word.head? = some (.char 'c'))
      (hends : progress.IsWaiting word)
      (hnamed : Operation.LastNamed start (front ++ [word]) operation) :
    ProgressAfter start (front ++ word :: back) operation (some progress)
  | percentage {front back : List Text} {word : Text}
      {operation : Option Operation} {done : Int}
      (hfront : ∀ other ∈ front, ¬ SetsProgress other)
      (hword : word.IsPercentage) (hdone : Numeral.leading word = .ok done)
      (hnamed : Operation.LastNamed start front operation) :
    ProgressAfter start (front ++ word :: back)
      (some (operation.getD .recovery)) (some (.percent done))

/-- What some words behind the disks make of the fields that they may change. -/
structure ReadsDetails (words : List Text) (before after : ArrayStatus) :
    Prop where
  count : CountAfter before.diskCount words after.diskCount
  health : HealthAfter before.health words after.health
  progress_of_known : before.progress ≠ none →
    after.progress = before.progress ∧ after.operation = before.operation
  progress_of_unknown : before.progress = none →
    ProgressAfter before.operation words after.operation after.progress

/-! ## One more word -/

variable {status next : ArrayStatus} {seen : List Text} {word : Text}

theorem CountAfter.concat_of_not {start count : Int}
    (h : CountAfter start seen count) (hword : ¬ word.BeginsCount) :
    CountAfter start (seen ++ [word]) count := by
  cases h with
  | unset hnone =>
    exact .unset (List.forall_mem_append.mpr
      ⟨hnone, List.forall_mem_singleton.mpr hword⟩)
  | set hlast hcount hback =>
    rw [List.append_assoc, List.cons_append]
    exact .set hlast hcount (List.forall_mem_append.mpr
      ⟨hback, List.forall_mem_singleton.mpr hword⟩)

theorem HealthAfter.concat_of_not {start health : Option Text}
    (h : HealthAfter start seen health) (hword : ¬ word.BeginsHealth) :
    HealthAfter start (seen ++ [word]) health := by
  cases h with
  | known => exact .known _ _
  | unset hnone =>
    exact .unset (List.forall_mem_append.mpr
      ⟨hnone, List.forall_mem_singleton.mpr hword⟩)
  | set hfront hfirst hhealth =>
    rw [List.append_assoc, List.cons_append]
    exact .set hfront hfirst hhealth

theorem HealthAfter.concat_of_some {start : Option Text} {health : Text}
    (h : HealthAfter start seen (some health)) (word : Text) :
    HealthAfter start (seen ++ [word]) (some health) := by
  cases h with
  | known => exact .known _ _
  | set hfront hfirst hhealth =>
    rw [List.append_assoc, List.cons_append]
    exact .set hfront hfirst hhealth

theorem HealthAfter.concat_of_none {start : Option Text} {health : Text}
    (h : HealthAfter start seen none) (hword : word.BeginsHealth)
    (hhealth : health.IsBracketed word) :
    HealthAfter start (seen ++ [word]) (some health) := by
  cases h with
  | unset hnone => exact .set hnone hword hhealth

namespace ProgressAfter

variable {start operation : Option Operation} {progress : Option Progress}

theorem of_none (h : ProgressAfter start seen operation none) :
    (∀ word ∈ seen, ¬ SetsProgress word) ∧
      Operation.LastNamed start seen operation := by
  cases h with
  | unset hnone hnamed => exact ⟨hnone, hnamed⟩

theorem concat_of_some {progress : Progress}
    (h : ProgressAfter start seen operation (some progress)) (word : Text) :
    ProgressAfter start (seen ++ [word]) operation (some progress) := by
  cases h with
  | assigned hfront hbegins hends hword hbefore hdone hnamed =>
    rw [List.append_assoc, List.cons_append]
    exact .assigned hfront hbegins hends hword hbefore hdone hnamed
  | waiting hfront hhead hends hnamed =>
    rw [List.append_assoc, List.cons_append]
    exact .waiting hfront hhead hends hnamed
  | percentage hfront hword hdone hnamed =>
    rw [List.append_assoc, List.cons_append]
    exact .percentage hfront hword hdone hnamed

theorem concat_of_not (h : ProgressAfter start seen operation none)
    (hword : ¬ SetsProgress word) :
    ProgressAfter start (seen ++ [word])
      ((Operation.ofWord? word).or operation) none := by
  obtain ⟨hnone, hnamed⟩ := h.of_none
  exact .unset (List.forall_mem_append.mpr
    ⟨hnone, List.forall_mem_singleton.mpr hword⟩) (hnamed.concat word)

end ProgressAfter

namespace DetailChange

theorem countAfter {start : Int} (hchange : DetailChange status word next)
    (h : CountAfter start seen status.diskCount) :
    CountAfter start (seen ++ [word]) next.diskCount := by
  have hother (hhead : word.head? ≠ some (.char '[')) :
      CountAfter start (seen ++ [word]) status.diskCount :=
    h.concat_of_not fun hcount => hhead (Detail.head_eq_of_beginsCount hcount)
  cases hchange with
  | count number count hnumber hcount =>
    have hword := Detail.beginsCount_of_diskCount? hnumber
    obtain ⟨rfl, -⟩ := Detail.diskCount?_eq_some_iff.mp hnumber
    exact .set hword hcount (by simp)
  | health health hnone hhealth =>
    have hword := (Detail.of_health?_eq_some hhealth).1
    exact h.concat_of_not fun hcount =>
      Detail.not_beginsHealth_of_beginsCount hcount hword
  | assigned number done hnone hnumber =>
    exact hother (Detail.head_ne_of_progress (Or.inl (by simp [hnumber])))
  | announced hnone hassigned hword =>
    exact hother (Detail.head_ne_of_progress (Or.inr (Or.inl hword)))
  | percentage done hnone hword =>
    exact hother (Detail.head_ne_of_progress (Or.inr (Or.inr hword)))
  | ignored hcount =>
    exact h.concat_of_not (Detail.not_beginsCount_of_diskCount? hcount)

theorem healthAfter {start : Option Text}
    (hchange : DetailChange status word next)
    (h : HealthAfter start seen status.health) :
    HealthAfter start (seen ++ [word]) next.health := by
  have hother (hhead : word.head? ≠ some (.char '[')) :
      HealthAfter start (seen ++ [word]) status.health :=
    h.concat_of_not fun hhealth =>
      hhead (Detail.head_eq_of_beginsHealth hhealth)
  cases hchange with
  | count number count hnumber =>
    exact h.concat_of_not (Detail.not_beginsHealth_of_beginsCount
      (Detail.beginsCount_of_diskCount? hnumber))
  | health health hnone hhealth =>
    obtain ⟨hword, hbracketed⟩ := Detail.of_health?_eq_some hhealth
    rw [hnone] at h
    exact h.concat_of_none hword hbracketed
  | assigned number done hnone hnumber =>
    exact hother (Detail.head_ne_of_progress (Or.inl (by simp [hnumber])))
  | announced hnone hassigned hword =>
    exact hother (Detail.head_ne_of_progress (Or.inr (Or.inl hword)))
  | percentage done hnone hword =>
    exact hother (Detail.head_ne_of_progress (Or.inr (Or.inr hword)))
  | ignored hcount hhealth =>
    cases hknown : status.health with
    | some health =>
      rw [hknown] at h
      exact h.concat_of_some word
    | none =>
      rw [hknown] at h
      exact h.concat_of_not
        (Detail.not_beginsHealth_of_health? (hhealth hknown))

/-- Nothing is learned about the operation once its progress is known. -/
theorem progress_of_known (hchange : DetailChange status word next)
    (hknown : status.progress ≠ none) :
    next.progress = status.progress ∧ next.operation = status.operation := by
  cases hchange with
  | count | health | ignored => exact ⟨rfl, rfl⟩
  | assigned _ _ hnone | announced hnone | percentage _ hnone =>
    exact absurd hnone hknown

/-- The progress after one more word, while none is known before it. -/
theorem progressAfter_of_unknown {start : Option Operation}
    (hchange : DetailChange status word next)
    (hnone : status.progress = none)
    (h : ProgressAfter start seen status.operation none) :
    ProgressAfter start (seen ++ [word]) next.operation next.progress := by
  obtain ⟨hfirst, hnamed⟩ := h.of_none
  have hother (hannounces : ¬ Detail.isAnnouncement word = true)
      (hsets : ¬ SetsProgress word) :
      ProgressAfter start (seen ++ [word]) status.operation
        status.progress := by
    have hunnamed : Operation.ofWord? word = none :=
      Operation.ofWord?_eq_none_iff.mpr fun operation hkeyword =>
        hannounces (Detail.isAnnouncement_of_keyword hkeyword)
    have hafter := h.concat_of_not hsets
    rwa [hunnamed, Option.none_or, ← hnone] at hafter
  have hbracket (hhead : word.head? = some (.char '[')) :
      ProgressAfter start (seen ++ [word]) status.operation
        status.progress :=
    hother
      (fun hannounces =>
        Detail.head_ne_of_progress (Or.inr (Or.inl hannounces)) hhead)
      fun hsets => hsets.head_ne hhead
  cases hchange with
  | count number count hnumber =>
    exact hbracket (Detail.head_eq_of_beginsCount
      (Detail.beginsCount_of_diskCount? hnumber))
  | health health _ hhealth =>
    exact hbracket (Detail.head_eq_of_health? hhealth)
  | assigned number done _ hnumber hdone =>
    obtain ⟨⟨hbegins, hends⟩, before, hword, hbefore⟩ :=
      Detail.assigned?_eq_some_iff.mp hnumber
    have hlast := (Operation.LastNamed.nil (some .recovery)).concat word
    rw [Option.or_some] at hlast
    exact .assigned hfirst hbegins hends hword hbefore hdone hlast
  | announced _ hassigned hword =>
    cases hprogress : Progress.ofWord? word with
    | none =>
      refine h.concat_of_not ?_
      simp [setsProgress_iff, hassigned, hprogress,
        Detail.isPercentage_eq_false hword]
    | some progress =>
      exact .waiting hfirst (Detail.isAnnouncement_iff.mp hword)
        (Progress.isWaiting_of_ofWord? hprogress) (hnamed.concat word)
  | percentage done _ hword hdone =>
    exact .percentage hfirst (Detail.isPercentage_iff.mp hword) hdone hnamed
  | ignored hcount hhealth hprogress =>
    obtain ⟨hassigned, hannounces, hpercentage⟩ := hprogress hnone
    refine hother (by simp [hannounces]) ?_
    simp [setsProgress_iff, hassigned, hannounces, hpercentage]

/-- The progress after one more word. -/
theorem progressAfter {start : Option Operation}
    (hchange : DetailChange status word next)
    (h : ProgressAfter start seen status.operation status.progress) :
    ProgressAfter start (seen ++ [word]) next.operation next.progress := by
  cases hprogress : status.progress with
  | none =>
    rw [hprogress] at h
    exact hchange.progressAfter_of_unknown hprogress h
  | some progress =>
    obtain ⟨hsame, hoperation⟩ :=
      hchange.progress_of_known (by simp [hprogress])
    rw [hprogress] at h hsame
    rw [hsame, hoperation]
    exact h.concat_of_some word

/-- One more word is read like those before it. -/
theorem readsDetails {before : ArrayStatus}
    (hchange : DetailChange status word next)
    (h : ReadsDetails seen before status) :
    ReadsDetails (seen ++ [word]) before next where
  count := hchange.countAfter h.count
  health := hchange.healthAfter h.health
  progress_of_known hknown := by
    obtain ⟨hprogress, hoperation⟩ := h.progress_of_known hknown
    obtain ⟨hsame, hother⟩ :=
      hchange.progress_of_known (by rwa [hprogress])
    exact ⟨hsame.trans hprogress, hother.trans hoperation⟩
  progress_of_unknown hnone :=
    hchange.progressAfter (h.progress_of_unknown hnone)

end DetailChange

theorem readsDetails_nil (status : ArrayStatus) :
    ReadsDetails [] status status where
  count := .unset (by simp)
  health := by
    cases status.health with
    | none => exact .unset (by simp)
    | some health => exact .known health []
  progress_of_known _ := ⟨rfl, rfl⟩
  progress_of_unknown hnone := by
    rw [hnone]
    exact .unset (by simp) (Operation.LastNamed.nil _)

/-- What a run of words makes of the fields that it may change. -/
theorem readsDetails_of_foldlM {words : List Text}
    (hread : words.foldlM noteDetail status = .ok next) :
    ReadsDetails words status next :=
  foldlM_induction (P := fun seen noted => ReadsDetails seen status noted)
    (fun _ _ _ _ hseen hnote =>
      (detailChange_of_noteDetail hnote).readsDetails hseen)
    [] (readsDetails_nil status) hread

/-- The other fields stay. -/
theorem foldlM_noteDetail_frame {words : List Text}
    (hread : words.foldlM noteDetail status = .ok next) :
    ∃ health count operation progress,
      next =
        { status with
          health := health
          diskCount := count
          operation := operation
          progress := progress } := by
  refine foldlM_induction (P := fun _ noted => ∃ health count operation
    progress, noted = { status with
      health := health, diskCount := count, operation := operation,
      progress := progress }) ?_ [] ⟨_, _, _, _, rfl⟩ hread
  rintro _ _ word noted ⟨health, count, operation, progress, rfl⟩ hnote
  obtain ⟨_, _, _, _, rfl⟩ := noteDetail_frame hnote
  exact ⟨_, _, _, _, rfl⟩

end ArrayStatus
end RaidStatus

import RaidStatus.Notice
import RaidStatus.Proofs.ArrayLine.Format
import RaidStatus.Proofs.Report.Listing

/-!
# Reading the words of an array line

Each piece of an array line is read by itself: for every piece there is one
lemma that says which fields the reading of its words sets, and under which
conditions on the status so far.  These conditions are that the level is not
awaited any more (`ArrayStatus.awaitsLevel`) and that the fields of the piece
are not set yet.  Remarks set nothing, wherever they stand behind the disks.

The pieces make up the line, so what a whole line is read as, whatever numbers
it holds, is put together from these lemmas.
-/

namespace RaidStatus

namespace Scan

/-- A word is no level, if none is awaited or it begins with a parenthesis. -/
theorem not_isLevel {status : ArrayStatus} {word : Text}
    (hlevel : status.awaitsLevel = false ∨ word.head? = some (.char '(')) :
    ¬ (status.awaitsLevel = true ∧ word.head? ≠ some (.char '(')) := by
  rintro ⟨hawaits, hhead⟩
  rcases hlevel with hlevel | hlevel
  · rw [hlevel] at hawaits
    cases hawaits
  · exact hhead hlevel

/-- Behind the disks, a word that is no keyword is read as a detail. -/
theorem step_details {status : ArrayStatus} {word : Text}
    (hlevel : status.awaitsLevel = false ∨ word.head? = some (.char '('))
    (hkeyword : word ∉ ArrayLine.keywords) (known : List Text)
    (anchor : Option Nat) :
    step known ⟨status, anchor, .details⟩ word =
      (status.noteDetail word).map fun noted =>
        ⟨noted, anchor, .details⟩ := by
  simp only [ArrayLine.keywords, List.mem_cons, List.not_mem_nil, or_false,
    not_or] at hkeyword
  obtain ⟨hactive, hinactive, hbitmap, hsuper⟩ := hkeyword
  simp only [step, hactive, hinactive, hbitmap, hsuper, not_isLevel hlevel,
    if_false, reduceCtorEq]
  cases status.noteDetail word <;> rfl

theorem step_super {status : ArrayStatus} (hlevel : status.awaitsLevel = false)
    (known : List Text) (anchor : Option Nat) :
    step known ⟨status, anchor, .details⟩ "super" =
      .ok ⟨status, anchor, .version⟩ := by
  have hkeyword : Text.ofString "super" ≠ "active" ∧
      Text.ofString "super" ≠ "inactive" ∧
      Text.ofString "super" ≠ "bitmap:" := by decide
  simp [step, hkeyword, hlevel, pure, Except.pure]

theorem step_version (known : List Text) (status : ArrayStatus)
    (anchor : Option Nat) (word : Text) :
    step known ⟨status, anchor, .version⟩ word =
      .ok ⟨{ status with version := some word }, anchor, .details⟩ := rfl

/-- The words that have a meaning of their own among the disks. -/
def memberKeywords : List Text :=
  ["active", "inactive", "bitmap:", "blocks"]

theorem step_members {scan : Scan} {word : Text}
    (hreached : scan.reached = .members)
    (hlevel : scan.status.awaitsLevel = false ∨
      word.head? = some (.char '('))
    (hkeyword : word ∉ memberKeywords) (known : List Text) :
    step known scan word = .ok (scan.noteMember known word) := by
  simp only [memberKeywords, List.mem_cons, List.not_mem_nil, or_false,
    not_or] at hkeyword
  obtain ⟨hactive, hinactive, hbitmap, hblocks⟩ := hkeyword
  simp only [step, hreached, hactive, hinactive, hbitmap, hblocks,
    not_isLevel hlevel, if_false, if_true]
  rfl

end Scan

/-- A word that is no number of disks and no health is read for its
progress. -/
theorem ArrayStatus.noteDetail_of_none {word : Text}
    (hcount : Detail.diskCount? word = none)
    (hhealth : Detail.health? word = none) (status : ArrayStatus) :
    status.noteDetail word =
      if status.progress.isNone then status.noteProgress word
      else .ok status := by
  unfold noteDetail
  rw [hcount, hhealth]
  cases status.health <;> rfl

theorem ArrayStatus.noteDetail_of_head_ne {word : Text}
    (hhead : word.head? ≠ some (.char '[')) (status : ArrayStatus) :
    status.noteDetail word =
      if status.progress.isNone then status.noteProgress word
      else .ok status := by
  apply noteDetail_of_none
  · unfold Detail.diskCount?
    split
    · exact absurd rfl hhead
    · rfl
  · unfold Detail.health?
    split
    · exact absurd rfl hhead
    · rfl

/-- A word that gives no detail changes no status. -/
theorem ArrayStatus.noteDetail_eq_self {word : Text}
    (hcount : Detail.diskCount? word = none)
    (hhealth : Detail.health? word = none)
    (hassigned : Detail.assigned? word = none)
    (hoperation : Operation.ofWord? word = none)
    (hwaiting : Detail.isAnnouncement word = true →
      Progress.ofWord? word = none)
    (hpercentage : Detail.isPercentage word = false) (status : ArrayStatus) :
    status.noteDetail word = .ok status := by
  rw [noteDetail_of_none hcount hhealth]
  split
  · next hprogress =>
    unfold noteProgress
    rw [hassigned]
    dsimp only
    split
    -- a word such as raid6 is read, but sets what is set already
    · next hannounces =>
      rw [hoperation, hwaiting hannounces, Option.none_or,
        ← Option.isNone_iff_eq_none.mp hprogress]
      rfl
    · rw [hpercentage]
      rfl
  · rfl

/-! ## Remarks -/

namespace Text

theorem suffix_percent_of_getLast? {word : Text}
    (hlast : word.getLast? = some (.char '%')) :
    Text.ofString "%" <:+ word := by
  obtain ⟨front, rfl⟩ := List.getLast?_eq_some_iff.mp hlast
  exact List.suffix_append front _

namespace IsRemark

variable {word : Text}

theorem diskCount?_eq_none (hword : word.IsRemark) :
    Detail.diskCount? word = none := by
  unfold Detail.diskCount?
  split
  · next digit rest =>
    have hdigit := (hword.bracket digit rest rfl).1
    rw [if_neg (by simp [hdigit])]
  · rfl

theorem health?_eq_none (hword : word.IsRemark) :
    Detail.health? word = none := by
  unfold Detail.health?
  split
  · next disk rest =>
    obtain ⟨-, hworking, hmissing⟩ := hword.bracket disk rest rfl
    rw [if_neg (by simp [hworking, hmissing])]
  · rfl

theorem assigned?_eq_none (hword : word.IsRemark) :
    Detail.assigned? word = none := by
  unfold Detail.assigned?
  split
  · next hends =>
    rw [cut?_eq_none_iff.mpr (hword.assigned hends.1 hends.2)]
    rfl
  · rfl

theorem operation?_eq_none (hword : word.IsRemark) :
    Operation.ofWord? word = none := by
  unfold Operation.ofWord?
  rw [List.find?_eq_none]
  intro operation _
  simpa using hword.operation operation

theorem progress?_eq_none (hword : word.IsRemark)
    (hannounces : Detail.isAnnouncement word = true) :
    Progress.ofWord? word = none := by
  have hhead : word.head? = some (.char 'r') ∨
      word.head? = some (.char 'c') := by
    simpa [Detail.isAnnouncement] using hannounces
  obtain ⟨hdelayed, hpending, hremote⟩ := hword.waiting hhead
  unfold Progress.ofWord?
  rw [if_neg hdelayed, if_neg hpending, if_neg hremote]

theorem not_isPercentage (hword : word.IsRemark) :
    Detail.isPercentage word = false := by
  rw [Bool.eq_false_iff]
  intro hpercentage
  simp only [Detail.isPercentage, Bool.and_eq_true, decide_eq_true_eq,
    Option.any_eq_true] at hpercentage
  obtain ⟨⟨⟨s, hhead, hdigit⟩, hlast⟩, -⟩ := hpercentage
  exact hword.percentage s hhead hdigit (suffix_percent_of_getLast? hlast)

/-- A remark changes no status. -/
theorem noteDetail_eq (hword : word.IsRemark) (status : ArrayStatus) :
    status.noteDetail word = .ok status :=
  ArrayStatus.noteDetail_eq_self hword.diskCount?_eq_none
    hword.health?_eq_none hword.assigned?_eq_none hword.operation?_eq_none
    hword.progress?_eq_none hword.not_isPercentage status

theorem step_eq (hword : word.IsRemark) (status : ArrayStatus)
    (hlevel : status.awaitsLevel = false ∨ word.head? = some (.char '('))
    (known : List Text) (anchor : Option Nat) :
    Scan.step known ⟨status, anchor, .details⟩ word =
      .ok ⟨status, anchor, .details⟩ := by
  rw [Scan.step_details hlevel hword.keyword, hword.noteDetail_eq]
  rfl

end IsRemark
end Text

namespace Text

/-- The symbols that keywords begin with. -/
def keywordHeads : List Symbol :=
  [.char 'a', .char 'i', .char 'b', .char 's']

/-- The symbols that announcements begin with. -/
def announcementHeads : List Symbol :=
  [.char 'r', .char 'c']

theorem notMem_keywords {s : Symbol} (hs : s ∉ keywordHeads) (rest : Text) :
    s :: rest ∉ ArrayLine.keywords := by
  have hheads : ∀ t ∈ ArrayLine.keywords.filterMap List.head?,
      t ∈ keywordHeads := by decide
  intro hmem
  exact hs (hheads s (List.mem_filterMap.mpr ⟨s :: rest, hmem, rfl⟩))

theorem not_keyword_prefix {s : Symbol} (hs : s ∉ announcementHeads)
    (rest : Text) (operation : Operation) :
    ¬ operation.keyword <+: s :: rest := by
  rintro ⟨more, heq⟩
  apply hs
  cases operation <;> cases heq <;> decide

/-- A word is a remark if its first symbol begins no detail. -/
theorem IsRemark.of_head {s : Symbol} {rest : Text}
    (hword : IsWord (s :: rest)) (hkeyword : s ∉ keywordHeads)
    (hannouncement : s ∉ announcementHeads) (hdigit : s.isDigit = false)
    (hbracket : s = .char '[' → ∀ t ∈ rest.head?,
      t.isDigit = false ∧ t ≠ .char 'U' ∧ t ≠ .char '_') :
    IsRemark (s :: rest) where
  isWord := hword
  keyword := notMem_keywords hkeyword rest
  bracket := by
    intro t more heq
    cases heq
    exact hbracket rfl t rfl
  operation := not_keyword_prefix hannouncement rest
  waiting := by
    simp only [List.head?_cons, Option.some.injEq]
    rintro (rfl | rfl)
    · exact absurd (by decide) hannouncement
    · exact absurd (by decide) hannouncement
  assigned := by
    intro hbegins
    obtain ⟨more, heq⟩ := hbegins
    cases heq
    exact absurd (by decide) hannouncement
  percentage := by
    intro t ht hdigit'
    cases ht
    rw [hdigit] at hdigit'
    cases hdigit'

end Text

namespace ArrayLine

/-! ## The state and the disks -/

theorem colon_isRemark : Text.IsRemark (Text.ofString ":") := by
  apply Text.IsRemark.of_head
  · exact ⟨by decide, by decide⟩
  · decide
  · decide
  · decide
  · intro heq
    cases heq

theorem equals_isRemark : Text.IsRemark (Text.ofString "=") := by
  apply Text.IsRemark.of_head
  · exact ⟨by decide, by decide⟩
  · decide
  · decide
  · decide
  · intro heq
    cases heq

theorem Marker.isRemark (marker : Marker) : marker.text.IsRemark := by
  have hword := marker.isWord
  obtain ⟨rest, heq⟩ := List.head?_eq_some_iff.mp marker.head_eq
  rw [heq] at hword ⊢
  apply Text.IsRemark.of_head hword
  · decide
  · decide
  · decide
  · intro heq'
    cases heq'

theorem Bar.isRemark (bar : Bar) : bar.word.IsRemark := by
  have hsymbols : ∀ s ∈ bar.symbols ++ [.char ']'], s.isBlank = false ∧
      s.isDigit = false ∧ s ≠ .char 'U' ∧ s ≠ .char '_' := by
    have hall : ∀ s ∈ [Symbol.char '=', .char '>', .char '.', .char ']'],
        s.isBlank = false ∧ s.isDigit = false ∧ s ≠ .char 'U' ∧
          s ≠ .char '_' := by
      decide
    intro s hs
    apply hall
    rcases List.mem_append.mp hs with hs | hs
    · exact List.mem_append_left [.char ']'] (bar.symbols_mem s hs)
    · exact List.mem_append_right [.char '=', .char '>', .char '.'] hs
  apply Text.IsRemark.of_head
  · refine ⟨by simp, ?_⟩
    intro s hs
    rcases List.mem_cons.mp hs with rfl | hs
    · decide
    · exact (hsymbols s hs).1
  · decide
  · decide
  · decide
  · intro _ t ht
    exact (hsymbols t (List.mem_of_mem_head? ht)).2

theorem run_remarks {words : List Text} {status : ArrayStatus}
    (hlevel : status.awaitsLevel = false ∨
      ∀ word ∈ words, word.head? = some (.char '('))
    (hwords : ∀ word ∈ words, word.IsRemark) (known : List Text)
    (anchor : Option Nat) :
    Scan.run known ⟨status, anchor, .details⟩ words =
      .ok ⟨status, anchor, .details⟩ := by
  induction words with
  | nil => rfl
  | cons word words ih =>
    have hword := (hwords word (List.mem_cons_self ..)).step_eq status
      (hlevel.imp_right fun hall => hall word (List.mem_cons_self ..))
      known anchor
    rw [Scan.run_cons_of_ok hword]
    apply ih
    · exact hlevel.imp_right fun hall w hw =>
        hall w (List.mem_cons_of_mem _ hw)
    · exact fun w hw => hwords w (List.mem_cons_of_mem _ hw)

/-- The words in front of the disks say whether the array runs, and name its
level. -/
theorem run_state (state : State) (known : List Text) (name : Text) :
    Scan.run known { status := { name := name } }
        (Text.ofString ":" :: state.words) =
      .ok
        { status :=
            { name := name
              activity := state.activity
              level := state.level? }
          reached := .members } := by
  have hcolon :=
    colon_isRemark.step_eq { name := name } (Or.inl rfl) known none
  rw [Scan.run_cons_of_ok hcolon]
  cases state with
  | inactive => rfl
  | active markers level =>
    have hactive : Scan.step known { status := { name := name } }
        (Text.ofString "active") =
          .ok { status := { name := name, activity := .active } } := rfl
    have hmarkers : Scan.run known
        { status := { name := name, activity := .active } }
        (markers.map (·.text)) =
          .ok { status := { name := name, activity := .active } } := by
      apply run_remarks
      · right
        intro word hword
        obtain ⟨marker, -, rfl⟩ := List.mem_map.mp hword
        exact marker.head_eq
      · intro word hword
        obtain ⟨marker, -, rfl⟩ := List.mem_map.mp hword
        exact marker.isRemark
    have hordinary := level.keyword
    simp only [List.mem_cons, List.not_mem_nil, or_false, not_or]
      at hordinary
    have hlevel : Scan.step known
        { status := { name := name, activity := .active } } level.text =
          .ok
            { status :=
                { name := name, activity := .active, level := level.text }
              reached := .members } := by
      simp only [Scan.step, hordinary, if_false]
      rw [if_pos ⟨rfl, level.head_ne⟩]
      rfl
    rw [State.words, Scan.run_cons_of_ok hactive,
      Scan.run_append_of_ok hmarkers, Scan.run_cons_of_ok hlevel]
    rfl

theorem Device.disk?_word (device : Device) :
    Scan.disk? device.word = some device.name.text := by
  have hcut : Text.cut? (.char '[') device.word =
      some (device.name.text,
        device.index ++ .char ']' :: device.flags) :=
    Text.cut?_eq_some_iff.mpr ⟨rfl, device.bracket_notMem⟩
  rw [Scan.disk?, hcut]
  rfl

theorem step_device (device : Device) {status : ArrayStatus}
    (hlevel : status.awaitsLevel = false) :
    Scan.step [] { status := status, reached := .members } device.word =
      .ok
        { status :=
            { status with members := status.members ++ [device.name.text] }
          reached := .members } := by
  have hbracket : Symbol.char '[' ∈ device.word :=
    List.mem_append_right _ (List.mem_cons_self ..)
  have hnone : ∀ keyword ∈ Scan.memberKeywords, .char '[' ∉ keyword := by
    decide
  rw [Scan.step_members rfl (Or.inl hlevel) fun hkeyword =>
    hnone device.word hkeyword hbracket]
  simp only [Scan.noteMember, device.disk?_word, Scan.lowerAnchor_eq,
    List.findIdx?_nil, Option.merge_none_left, ite_self]

/-- The disks are read in their order. -/
theorem run_devices (devices : List Device) (status : ArrayStatus)
    (hlevel : status.awaitsLevel = false) :
    Scan.run [] { status := status, reached := .members }
        (devices.map Device.word) =
      .ok
        { status :=
            { status with
              members := status.members ++ devices.map (·.name.text) }
          reached := .members } := by
  induction devices generalizing status with
  | nil => simp
  | cons device devices ih =>
    have hrest := ih
      { status with members := status.members ++ [device.name.text] } hlevel
    rw [List.map_cons, Scan.run_cons_of_ok (step_device device hlevel),
      hrest, List.map_cons, List.append_assoc, List.singleton_append]

/-- The size of the array ends its disks. -/
theorem run_blocks (blocks : Nat) {status : ArrayStatus}
    (hlevel : status.awaitsLevel = false) :
    Scan.run [] { status := status, reached := .members }
        [Numeral.ofNat blocks, Text.ofString "blocks"] =
      .ok { status := status } := by
  have hkeyword : Numeral.ofNat blocks ∉ Scan.memberKeywords := by
    have hheads : ∀ keyword ∈ Scan.memberKeywords,
        ∀ s ∈ keyword.head?, s.isDigit = false := by
      decide
    intro hmem
    obtain ⟨digit, rest, hblocks, hdigit⟩ :=
      Numeral.exists_ofNat_eq_cons blocks
    have hnone := hheads _ hmem digit (by rw [hblocks]; rfl)
    rw [hdigit] at hnone
    cases hnone
  have hdisk : Scan.disk? (Numeral.ofNat blocks) = none := by
    have hcut : Text.cut? (.char '[') (Numeral.ofNat blocks) = none := by
      rw [Text.cut?_eq_none_iff]
      intro hmem
      cases Numeral.isDigit_of_mem_ofNat hmem
    rw [Scan.disk?, hcut]
    rfl
  have hnumber : Scan.step [] { status := status, reached := .members }
      (Numeral.ofNat blocks) =
        .ok { status := status, reached := .members } := by
    rw [Scan.step_members rfl (Or.inl hlevel) hkeyword]
    simp only [Scan.noteMember, hdisk]
  have hend : Scan.step [] { status := status, reached := .members }
      (Text.ofString "blocks") = .ok { status := status } := by
    simp only [Scan.step, hlevel, if_true, Bool.false_eq_true, false_and,
      if_false]
    rfl
  rw [Scan.run_cons_of_ok hnumber, Scan.run_cons_of_ok hend]
  rfl

end ArrayLine
end RaidStatus

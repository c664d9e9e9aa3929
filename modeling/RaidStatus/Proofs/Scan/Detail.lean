import Mathlib.Tactic.SplitIfs
import RaidStatus.ArrayStatus.Scan

/-!
# The words of the details

Each word of a line is tested for what it may say about the array.  These are
the tests and the shapes of the words that pass them: which symbols a word
begins and ends with, and which part of it is taken.
-/

namespace RaidStatus

/-- The word begins with a digit and ends with a percent sign, without the end
of a line in between. -/
structure Text.IsPercentage (word : Text) : Prop where
  exists_digit : ∃ digit ∈ word.head?, digit.isDigit = true
  last_eq : word.getLast? = some (.char '%')
  lineFeed_notMem : .char '\n' ∉ word

/-- The word begins with a bracket and a digit. -/
def Text.BeginsCount (word : Text) : Prop :=
  ∃ digit rest, word = .char '[' :: digit :: rest ∧ digit.isDigit = true

/-- The word begins with a bracket and the first disk. -/
def Text.BeginsHealth (word : Text) : Prop :=
  Text.ofString "[U" <+: word ∨ Text.ofString "[_" <+: word

/-- The text stands behind the bracket that opens the word, up to a bracket that
may close it. -/
def Text.IsBracketed (health word : Text) : Prop :=
  word = .char '[' :: (health ++ [.char ']']) ∨
    word = .char '[' :: health ∧ health.getLast? ≠ some (.char ']')

/-- The word ends with the obstacle that the operation waits for. -/
inductive Progress.IsWaiting (word : Text) : Progress → Prop
  | delayed (hends : Text.ofString "=DELAYED" <:+ word) :
    IsWaiting word .delayed
  | pending (hends : Text.ofString "=PENDING" <:+ word) :
    IsWaiting word .pending
  | remote (hends : Text.ofString "=REMOTE" <:+ word) :
    IsWaiting word .remote

namespace Detail

variable {word number health : Text}

theorem diskCount?_eq_some_iff :
    diskCount? word = some number ↔
      word = .char '[' :: number ∧
        ∃ digit rest, number = digit :: rest ∧ digit.isDigit = true := by
  unfold diskCount?
  constructor
  · intro hnumber
    split at hnumber
    · next digit rest =>
      split_ifs at hnumber with hdigit
      cases hnumber
      exact ⟨rfl, digit, rest, rfl, hdigit⟩
    · cases hnumber
  · rintro ⟨rfl, digit, rest, rfl, hdigit⟩
    simp [hdigit]

theorem beginsCount_of_diskCount? (hnumber : diskCount? word = some number) :
    word.BeginsCount := by
  obtain ⟨rfl, digit, rest, rfl, hdigit⟩ := diskCount?_eq_some_iff.mp hnumber
  exact ⟨digit, rest, rfl, hdigit⟩

theorem not_beginsCount_of_diskCount? (hnone : diskCount? word = none) :
    ¬ word.BeginsCount := by
  rintro ⟨digit, rest, rfl, hdigit⟩
  simp [diskCount?, hdigit] at hnone

theorem beginsHealth_iff :
    word.BeginsHealth ↔
      ∃ disk rest, word = .char '[' :: disk :: rest ∧
        (disk = .char 'U' ∨ disk = .char '_') := by
  constructor
  · rintro (⟨rest, rfl⟩ | ⟨rest, rfl⟩)
    · exact ⟨.char 'U', rest, rfl, Or.inl rfl⟩
    · exact ⟨.char '_', rest, rfl, Or.inr rfl⟩
  · rintro ⟨_, rest, rfl, rfl | rfl⟩
    · exact Or.inl ⟨rest, rfl⟩
    · exact Or.inr ⟨rest, rfl⟩

theorem not_beginsHealth_of_health? (hnone : health? word = none) :
    ¬ word.BeginsHealth := by
  rw [beginsHealth_iff]
  rintro ⟨disk, rest, rfl, hdisk⟩
  simp [health?, hdisk] at hnone

theorem of_health?_eq_some (hhealth : health? word = some health) :
    word.BeginsHealth ∧ health.IsBracketed word := by
  unfold health? at hhealth
  split at hhealth
  · next disk rest =>
    split_ifs at hhealth with hdisk
    cases hhealth
    refine ⟨beginsHealth_iff.mpr ⟨disk, rest, rfl, hdisk⟩, ?_⟩
    split_ifs with hlast
    · obtain ⟨front, hfront⟩ := List.getLast?_eq_some_iff.mp hlast
      rw [hfront, List.dropLast_concat]
      exact Or.inl rfl
    · exact Or.inr ⟨rfl, hlast⟩
  · cases hhealth

/-- A word begins with a number of disks, or with a health, or with neither. -/
theorem not_beginsHealth_of_beginsCount (hcount : word.BeginsCount) :
    ¬ word.BeginsHealth := by
  obtain ⟨digit, rest, rfl, hdigit⟩ := hcount
  rw [beginsHealth_iff]
  rintro ⟨disk, _, hsame, hdisk⟩
  cases hsame
  rcases hdisk with rfl | rfl <;> cases hdigit

theorem head_eq_of_beginsHealth (hhealth : word.BeginsHealth) :
    word.head? = some (.char '[') := by
  obtain ⟨disk, rest, rfl, -⟩ := beginsHealth_iff.mp hhealth
  rfl

theorem head_eq_of_beginsCount (hcount : word.BeginsCount) :
    word.head? = some (.char '[') := by
  obtain ⟨digit, rest, rfl, -⟩ := hcount
  rfl

theorem head_eq_of_health? (hhealth : health? word = some health) :
    word.head? = some (.char '[') :=
  head_eq_of_beginsHealth (of_health?_eq_some hhealth).1

/-- The health follows a bracket, and a bracket may follow it. -/
theorem of_health? (hhealth : health? word = some health) :
    (health.head? = some (.char 'U') ∨ health.head? = some (.char '_')) ∧
      (word = .char '[' :: health ∨
        word = .char '[' :: (health ++ [.char ']'])) := by
  obtain ⟨hword, hbracketed⟩ := of_health?_eq_some hhealth
  obtain ⟨disk, rest, rfl, hdisk⟩ := beginsHealth_iff.mp hword
  rcases hbracketed with hclosed | ⟨hopen, -⟩
  · -- the closing bracket is not the first disk, so that one stays
    cases health with
    | nil =>
      cases hclosed
      simp at hdisk
    | cons first rest =>
      cases hclosed
      exact ⟨by simpa using hdisk, Or.inr rfl⟩
  · cases hopen
    exact ⟨by simpa using hdisk, Or.inl rfl⟩

/-- An assigned number is what follows the first sign of equality. -/
theorem assigned?_eq_some_iff :
    assigned? word = some number ↔
      (Text.ofString "re" <+: word ∧ Text.ofString "%" <:+ word) ∧
        ∃ before, word = before ++ .char '=' :: number ∧
          .char '=' ∉ before := by
  unfold assigned?
  by_cases hends : Text.ofString "re" <+: word ∧ Text.ofString "%" <:+ word
  · simp [hends, Text.cut?_eq_some_iff]
  · simp [hends]

theorem assigned?_eq_none_iff :
    assigned? word = none ↔
      ¬ (Text.ofString "re" <+: word ∧ Text.ofString "%" <:+ word ∧
        .char '=' ∈ word) := by
  unfold assigned?
  by_cases hends : Text.ofString "re" <+: word ∧ Text.ofString "%" <:+ word
  · simp [hends, Text.cut?_eq_none_iff]
  · simp only [hends, if_false, true_iff]
    exact fun hall => hends ⟨hall.1, hall.2.1⟩

theorem isAnnouncement_iff :
    isAnnouncement word = true ↔
      word.head? = some (.char 'r') ∨ word.head? = some (.char 'c') := by
  simp [isAnnouncement]

theorem isAnnouncement_of_keyword {operation : Operation}
    (hword : operation.keyword <+: word) : isAnnouncement word = true := by
  obtain ⟨rest, rfl⟩ := hword
  cases operation <;> rfl

theorem isPercentage_iff :
    isPercentage word = true ↔ word.IsPercentage := by
  constructor
  · intro hword
    simp only [isPercentage, Bool.and_eq_true, Option.any_eq_true,
      decide_eq_true_eq, Bool.not_eq_true', List.contains_eq_mem,
      decide_eq_false_iff_not] at hword
    exact ⟨hword.1.1, hword.1.2, hword.2⟩
  · intro hword
    simpa [isPercentage, Option.any_eq_true, hword.last_eq,
      hword.lineFeed_notMem] using hword.exists_digit

theorem isPercentage_eq_false (hword : isAnnouncement word = true) :
    isPercentage word = false := by
  rw [Bool.eq_false_iff, Ne, isPercentage_iff]
  intro hpercentage
  obtain ⟨digit, hdigit, hisDigit⟩ := hpercentage.exists_digit
  rcases isAnnouncement_iff.mp hword with hhead | hhead <;>
  · rw [hhead] at hdigit
    cases hdigit
    cases hisDigit

end Detail

theorem Operation.ofWord?_eq_some_iff {word : Text} {operation : Operation} :
    ofWord? word = some operation ↔ operation.keyword <+: word := by
  constructor
  · intro hword
    simpa using List.find?_some hword
  · rintro ⟨rest, rfl⟩
    cases operation <;> rfl

theorem Operation.ofWord?_eq_none_iff {word : Text} :
    ofWord? word = none ↔
      ∀ operation : Operation, ¬ operation.keyword <+: word := by
  simp only [Option.eq_none_iff_forall_ne_some, Ne, ofWord?_eq_some_iff]

theorem Progress.isWaiting_of_ofWord? {word : Text} {progress : Progress}
    (hword : ofWord? word = some progress) : progress.IsWaiting word := by
  unfold ofWord? at hword
  split_ifs at hword with hdelayed hpending hremote
  · cases hword
    exact .delayed hdelayed
  · cases hword
    exact .pending hpending
  · cases hword
    exact .remote hremote

theorem Progress.ofWord?_eq_none_iff {word : Text} :
    ofWord? word = none ↔
      ¬ (Text.ofString "=DELAYED" <:+ word ∨
        Text.ofString "=PENDING" <:+ word ∨
        Text.ofString "=REMOTE" <:+ word) := by
  unfold ofWord?
  split_ifs with hdelayed hpending hremote <;> simp [*]

/-- A word that ends like a percentage names no obstacle. -/
theorem Progress.ofWord?_eq_none_of_suffix {word : Text}
    (hends : Text.ofString "%" <:+ word) : ofWord? word = none := by
  have hlast {obstacle : Text} (hsuffix : obstacle <:+ word)
      (hlength : 1 ≤ obstacle.length) : Text.ofString "%" <:+ obstacle :=
    List.suffix_of_suffix_length_le hends hsuffix hlength
  rw [ofWord?_eq_none_iff]
  rintro (hdelayed | hpending | hremote)
  · exact absurd (hlast hdelayed (by decide)) (by decide)
  · exact absurd (hlast hpending (by decide)) (by decide)
  · exact absurd (hlast hremote (by decide)) (by decide)

theorem Progress.ofWord?_ne_percent (word : Text) (done : Int) :
    ofWord? word ≠ some (.percent done) := by
  unfold ofWord?
  split_ifs <;> simp

theorem Scan.of_disk? {word disk : Text} (hdisk : disk? word = some disk) :
    .char '[' ∉ disk ∧ disk ++ [.char '['] <+: word := by
  obtain ⟨⟨before, behind⟩, hcut, rfl⟩ := Option.map_eq_some_iff.mp hdisk
  obtain ⟨rfl, hbefore⟩ := Text.cut?_eq_some_iff.mp hcut
  exact ⟨hbefore, behind, by simp⟩

end RaidStatus

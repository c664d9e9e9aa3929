import Mathlib.Tactic.SplitIfs
import RaidStatus.ArrayStatus.Basic
import RaidStatus.Proofs.Text.Numeral

/-!
# The names of the levels

Three levels are called by a word.  The other ones have numbers, and are called
`raid` and the decimal numeral of the number, in front of which any zeros may
stand as long as the digits are not too many to be read.

The level of an array is known exactly if it is given by one of these names
(`ArrayStatus.knownLevel?_exact`).  Digits that are too many, or that denote the
number of no level, are an error only where the number is looked up: the level
is not known, and nothing fails.
-/

namespace RaidStatus
namespace Level

/-- The word that a level is called by, if it has one. -/
def word? : Level → Option Text
  | faulty => some "faulty"
  | multipath => some "multipath"
  | linear => some "linear"
  | raid0 | raid1 | raid4 | raid5 | raid6 | raid10 => none

/-- The number that a level is called by, if it has one. -/
def raidNumber? : Level → Option Nat
  | faulty | multipath | linear => none
  | raid0 => some 0
  | raid1 => some 1
  | raid4 => some 4
  | raid5 => some 5
  | raid6 => some 6
  | raid10 => some 10

/-- The names of a level. -/
inductive IsName (level : Level) (name : Text) : Prop
  | word (hword : level.word? = some name)
  | number (zeros n : Nat) (hnumber : level.raidNumber? = some n)
      (hname : name = "raid" ++ Numeral.padded zeros n)
      (hlength : (Numeral.padded zeros n).length ≤ Numeral.maxDigits)

/-! ## The number of a level -/

theorem ofDigits_of_le {digits : Text}
    (hlength : digits.length ≤ Numeral.maxDigits) :
    ofDigits digits =
      match ofNumber? (Numeral.value digits) with
      | some level => .ok level
      | none => .error (.unknown (Numeral.value digits)) := by
  have hread : Numeral.read digits = .ok (Numeral.value digits) :=
    Numeral.read_eq_ok_iff.mpr ⟨hlength, rfl⟩
  rw [ofDigits, hread]
  rfl

theorem ofDigits_of_lt {digits : Text}
    (hlength : Numeral.maxDigits < digits.length) :
    ofDigits digits = .error (.tooLong ⟨digits.length⟩) := by
  have hread : Numeral.read digits = .error ⟨digits.length⟩ :=
    Numeral.read_eq_error_iff.mpr ⟨hlength, rfl⟩
  rw [ofDigits, hread]
  rfl

/-- The numbers that are not negative are those of the RAID levels. -/
theorem number_eq_iff {level : Level} {n : Nat} :
    level.number = n ↔ level.raidNumber? = some n := by
  cases level <;>
    simp only [number, raidNumber?, Option.some.injEq, reduceCtorEq] <;> omega

theorem ofDigits_eq_ok_iff {digits : Text} {level : Level} :
    ofDigits digits = .ok level ↔
      digits.length ≤ Numeral.maxDigits ∧
        level.raidNumber? = some (Numeral.value digits) := by
  rw [← number_eq_iff, ← ofNumber?_eq_some_iff]
  by_cases hlength : digits.length ≤ Numeral.maxDigits
  · rw [ofDigits_of_le hlength]
    cases ofNumber? (Numeral.value digits) <;> simp [hlength]
  · rw [ofDigits_of_lt (Nat.lt_of_not_le hlength)]
    simp [hlength]

/-! ## From names to levels and back -/

theorem ofName?_of_word {level : Level} {name : Text}
    (hword : level.word? = some name) : ofName? name = some level := by
  cases level with
  | faulty | multipath | linear =>
    cases hword
    rfl
  | raid0 | raid1 | raid4 | raid5 | raid6 | raid10 => cases hword

theorem raid_append_ne (digits : Text) {word : Text}
    (hhead : word.head? ≠ some (.char 'r')) :
    Text.ofString "raid" ++ digits ≠ word := by
  rintro rfl
  exact hhead rfl

/-- Behind `raid` the digits are looked up, and either error of the lookup gives
no level. -/
theorem ofName?_raid (digits : Text) :
    ofName? ("raid" ++ digits) =
      if digits ≠ [] ∧ digits.all Symbol.isDigit then
        (ofDigits digits).toOption
      else none := by
  have hafter : Text.after? "raid" ("raid" ++ digits) = some digits :=
    Text.after?_eq_some_iff.mpr rfl
  have hlinear : Text.ofString "raid" ++ digits ≠ "linear" :=
    raid_append_ne digits (by decide)
  have hmultipath : Text.ofString "raid" ++ digits ≠ "multipath" :=
    raid_append_ne digits (by decide)
  have hfaulty : Text.ofString "raid" ++ digits ≠ "faulty" :=
    raid_append_ne digits (by decide)
  rw [ofName?, if_neg hlinear, if_neg hmultipath, if_neg hfaulty, hafter]

theorem word_or_raid_of_ofName? {name : Text} {level : Level}
    (hlevel : ofName? name = some level) :
    level.word? = some name ∨ ∃ digits, name = "raid" ++ digits := by
  cases hafter : Text.after? "raid" name with
  | some digits => exact Or.inr ⟨digits, Text.after?_eq_some_iff.mp hafter⟩
  | none =>
    rw [ofName?, hafter] at hlevel
    split_ifs at hlevel with hlinear hmultipath hfaulty
    · cases hlevel
      exact Or.inl (congrArg some hlinear.symm)
    · cases hlevel
      exact Or.inl (congrArg some hmultipath.symm)
    · cases hlevel
      exact Or.inl (congrArg some hfaulty.symm)

/-- The digits behind `raid` are the numeral of the number of the level. -/
theorem ofName?_raid_eq_some_iff {digits : Text} {level : Level} :
    ofName? ("raid" ++ digits) = some level ↔
      ∃ zeros n, level.raidNumber? = some n ∧
        digits = Numeral.padded zeros n ∧
        digits.length ≤ Numeral.maxDigits := by
  rw [ofName?_raid]
  constructor
  · intro hlevel
    split_ifs at hlevel with hdigits
    obtain ⟨hne, hall⟩ := hdigits
    cases hlookup : ofDigits digits with
    | error error =>
      rw [hlookup] at hlevel
      cases hlevel
    | ok found =>
      rw [hlookup] at hlevel
      cases hlevel
      obtain ⟨hlength, hnumber⟩ := ofDigits_eq_ok_iff.mp hlookup
      obtain ⟨zeros, hpadded⟩ :=
        Numeral.exists_eq_padded hne (List.all_eq_true.mp hall)
      exact ⟨zeros, Numeral.value digits, hnumber, hpadded, hlength⟩
  · rintro ⟨zeros, n, hnumber, rfl, hlength⟩
    have hdigits : (Numeral.padded zeros n).all Symbol.isDigit = true :=
      List.all_eq_true.mpr fun _ => Numeral.isDigit_of_mem_padded
    have hlookup : ofDigits (Numeral.padded zeros n) = .ok level := by
      rw [ofDigits_eq_ok_iff, Numeral.value_padded]
      exact ⟨hlength, hnumber⟩
    rw [if_pos ⟨Numeral.padded_ne_nil zeros n, hdigits⟩, hlookup]
    rfl

/-- A level is found by its names, and by nothing else. -/
theorem ofName?_eq_some_iff {name : Text} {level : Level} :
    ofName? name = some level ↔ level.IsName name := by
  constructor
  · intro hlevel
    rcases word_or_raid_of_ofName? hlevel with hword | ⟨digits, rfl⟩
    · exact .word hword
    · obtain ⟨zeros, n, hnumber, rfl, hlength⟩ :=
        ofName?_raid_eq_some_iff.mp hlevel
      exact .number zeros n hnumber rfl hlength
  · intro hname
    cases hname with
    | word hword => exact ofName?_of_word hword
    | number zeros n hnumber hname hlength =>
      rw [hname, ofName?_raid_eq_some_iff]
      exact ⟨zeros, n, hnumber, rfl, hlength⟩

end Level

namespace ArrayStatus

/-- A level of an array is known exactly if the report gives it by one of its
names, and none is known exactly if the report gives none or something that is
the name of no level.  The errors of looking up a number are not passed on: no
level is known then. -/
theorem knownLevel?_exact (status : ArrayStatus) :
    (∀ level, status.knownLevel? = some level ↔
      ∃ name ∈ status.level, level.IsName name) ∧
    (status.knownLevel? = none ↔
      ¬ ∃ level : Level, ∃ name ∈ status.level, level.IsName name) ∧
    ∀ digits error, Level.ofDigits digits = .error error →
      ({ status with level := some ("raid" ++ digits) } :
        ArrayStatus).knownLevel? = none := by
  have hknown : ∀ level, status.knownLevel? = some level ↔
      ∃ name ∈ status.level, level.IsName name := by
    intro level
    rw [knownLevel?, Option.bind_eq_some_iff]
    simp only [Level.ofName?_eq_some_iff, Option.mem_def]
  refine ⟨hknown, ?_, ?_⟩
  · simp only [← hknown]
    rw [Option.eq_none_iff_forall_ne_some, not_exists]
  · intro digits error herror
    change Level.ofName? ("raid" ++ digits) = none
    rw [Level.ofName?_raid, herror]
    exact ite_self none

example : Level.ofName? "raid0010" = some .raid10 ∧
    Level.ofName? "raid+5" = none := by
  decide

end ArrayStatus
end RaidStatus

import RaidStatus.Text.Numeral

/-!
# RAID levels

The kernel numbers the ways in which an array can spread its data over disks.
The nonnegative numbers are those of the RAID levels; three more kinds of
array have negative numbers and names of their own.
-/

namespace RaidStatus

/-- The levels that the kernel knows. -/
inductive Level where
  | faulty
  | multipath
  | linear
  | raid0
  | raid1
  | raid4
  | raid5
  | raid6
  | raid10
  deriving DecidableEq, Repr

namespace Level

/-- All levels, in the order of their numbers. -/
def all : List Level :=
  [faulty, multipath, linear, raid0, raid1, raid4, raid5, raid6, raid10]

/-- The kernel's number of a level. -/
def number : Level → Int
  | faulty => -5
  | multipath => -4
  | linear => -1
  | raid0 => 0
  | raid1 => 1
  | raid4 => 4
  | raid5 => 5
  | raid6 => 6
  | raid10 => 10

/-- The level with a given number. -/
def ofNumber? (number : Int) : Option Level :=
  all.find? (·.number = number)

/-- Why a run of digits names no level. -/
inductive NumberError where
  /-- The run is too long to be read. -/
  | tooLong (error : Numeral.TooLong)
  /-- No level has this number. -/
  | unknown (number : Nat)
  deriving DecidableEq, Repr

/-- The level whose number a run of digits denotes. -/
def ofDigits (digits : Text) : Except NumberError Level := do
  let number ← (Numeral.read digits).mapError .tooLong
  match ofNumber? number with
  | some level => .ok level
  | none => .error (.unknown number)

/-- The level with a given name.  A RAID level is named by its number, which
leading zeros do not change; a number that fails to give a level names none. -/
def ofName? (name : Text) : Option Level :=
  if name = "linear" then some linear
  else if name = "multipath" then some multipath
  else if name = "faulty" then some faulty
  else
    match Text.after? "raid" name with
    | some digits =>
      if digits ≠ [] ∧ digits.all Symbol.isDigit then
        (ofDigits digits).toOption
      else none
    | none => none

theorem mem_all (level : Level) : level ∈ all := by
  cases level <;> decide

theorem ofNumber?_number (level : Level) :
    ofNumber? level.number = some level := by
  cases level <;> decide

theorem ofNumber?_eq_some_iff {number : Int} {level : Level} :
    ofNumber? number = some level ↔ level.number = number := by
  constructor
  · intro hfind
    simpa using List.find?_some hfind
  · rintro rfl
    exact ofNumber?_number level

end Level
end RaidStatus

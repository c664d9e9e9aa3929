import RaidStatus.Text.Words

/-!
# Decimal numerals

Numbers in a report are runs of ASCII digits.  A run of at most `maxDigits`
digits has a value, leading zeros included in the count; a longer one is
refused, whatever its value would be.

Where a report may hold more than a number in one word, only the number in
front counts: blanks and one sign may stand before it, and anything may
follow.
-/

namespace RaidStatus

/-- The value of an ASCII digit; zero for any other symbol. -/
def Symbol.digitValue : Symbol → Nat
  | .char c => if c.isDigit then c.toNat - '0'.toNat else 0
  | .byte _ => 0

namespace Numeral

/-- The length of the longest run of digits that is read as a number. -/
def maxDigits : Nat := 4300

/-- A run of digits is longer than allowed. -/
structure TooLong where
  /-- The length of the run. -/
  digits : Nat
  deriving DecidableEq, Repr

/-- The wording of the refusal. -/
def TooLong.message (error : TooLong) : String :=
  "Exceeds the limit (" ++ toString maxDigits ++
    " digits) for integer string conversion: value has " ++
    toString error.digits ++
    " digits; use sys.set_int_max_str_digits() to increase the limit"

/-- The number that a run of digits denotes; no digits denote zero. -/
def value (digits : Text) : Nat :=
  digits.foldl (fun n digit => 10 * n + digit.digitValue) 0

/-- The number that a run of digits denotes, unless the run is too long. -/
def read (digits : Text) : Except TooLong Nat :=
  if digits.length ≤ maxDigits then .ok (value digits)
  else .error ⟨digits.length⟩

/-- The digits at the front of a text. -/
def run (text : Text) : Text :=
  text.takeWhile Symbol.isDigit

/-- The number at the front of a text, behind blanks and a sign; zero if there
is none. -/
def leading (text : Text) : Except TooLong Int :=
  match text.dropWhile Symbol.isBlank with
  | .char '-' :: unsigned => (read (run unsigned)).map fun n => -(n : Int)
  | .char '+' :: unsigned => (read (run unsigned)).map Int.ofNat
  | unsigned => (read (run unsigned)).map Int.ofNat

theorem read_eq_ok_iff {digits : Text} {n : Nat} :
    read digits = .ok n ↔ digits.length ≤ maxDigits ∧ value digits = n := by
  by_cases h : digits.length ≤ maxDigits <;> simp [read, h]

/-- Exactly the runs beyond the limit are refused, with their length. -/
theorem read_eq_error_iff {digits : Text} {error : TooLong} :
    read digits = .error error ↔
      maxDigits < digits.length ∧ error = ⟨digits.length⟩ := by
  by_cases h : digits.length ≤ maxDigits
  · simp [read, h, Nat.not_lt.mpr h]
  · simp [read, h, Nat.lt_of_not_le h, eq_comm]

end Numeral
end RaidStatus

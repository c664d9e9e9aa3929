import Mathlib.Data.List.Induction
import RaidStatus.Text.Numeral

/-!
# Decimal numerals of natural numbers

A natural number is written as its decimal numeral, without leading zeros.
Reading the numeral gives the number back, whatever stands behind it, as long
as that does not go on with a digit.  Only a numeral beyond the limit is
refused.

Any digits at all are the numeral of their value behind some zeros
(`Numeral.exists_eq_padded`).
-/

namespace RaidStatus

theorem Symbol.isBlank_of_isDigit {s : Symbol} (hs : s.isDigit = true) :
    s.isBlank = false := by
  cases s with
  | byte b => rfl
  | char c =>
    have hc : 48 ≤ c.toNat ∧ c.toNat ≤ 57 := by
      simpa [Symbol.isDigit, Char.isDigit, UInt32.le_iff_toNat_le] using hs
    simp only [Symbol.isBlank, blankRanges, List.any_cons, List.any_nil,
      Bool.or_false, Bool.or_eq_false_iff, Bool.and_eq_false_iff,
      decide_eq_false_iff_not]
    omega

theorem Symbol.ne_of_isDigit {s t : Symbol} (hs : s.isDigit = true)
    (ht : t.isDigit = false) : s ≠ t := by
  rintro rfl
  rw [hs] at ht
  cases ht

/-- A digit has a value below ten, which says which one it is. -/
theorem Symbol.exists_digitValue_eq {s : Symbol} (hs : s.isDigit = true) :
    ∃ n < 10, s = .char n.digitChar ∧ s.digitValue = n := by
  cases s with
  | byte b => cases hs
  | char c =>
    have hc : c.isDigit = true := hs
    have hbounds : 48 ≤ c.toNat ∧ c.toNat ≤ 57 := by
      simpa [Char.isDigit, UInt32.le_iff_toNat_le] using hc
    have hzero : '0'.toNat = 48 := rfl
    have hlt : c.toNat - 48 < 10 := by omega
    refine ⟨c.toNat - 48, hlt, ?_, ?_⟩
    · rw [char.injEq, ← Char.toNat_inj, Nat.toNat_digitChar_of_lt_ten hlt]
      omega
    · rw [digitValue, if_pos hc, hzero]

namespace Numeral

/-- The decimal numeral of a number. -/
def ofNat (n : Nat) : Text :=
  (Nat.toDigits 10 n).map .char

/-- Why the numeral of a number is not read, if it is not. -/
def refusal? (n : Nat) : Option TooLong :=
  if (ofNat n).length ≤ maxDigits then none else some ⟨(ofNat n).length⟩

/-- The outcome of a reading in which a number may be refused. -/
def orRefuse {α : Type} (refusal? : Option TooLong) (a : α) :
    Except TooLong α :=
  match refusal? with
  | some error => .error error
  | none => .ok a

/-- A number with as many digits as are read is not refused. -/
theorem orRefuse_of_le {α : Type} {n : Nat}
    (hdigits : (ofNat n).length ≤ maxDigits) (a : α) :
    orRefuse (refusal? n) a = .ok a := by
  rw [refusal?, if_pos hdigits]
  rfl

theorem ofNat_ne_nil (n : Nat) : ofNat n ≠ [] := by
  simp [ofNat, Nat.toDigits_ne_nil]

theorem isDigit_of_mem_ofNat {n : Nat} {s : Symbol} (hs : s ∈ ofNat n) :
    s.isDigit = true := by
  obtain ⟨c, hc, rfl⟩ := List.mem_map.mp hs
  exact Nat.isDigit_of_mem_toDigits (by decide) (by decide) hc

theorem solid_ofNat {n : Nat} {s : Symbol} (hs : s ∈ ofNat n) :
    s.isBlank = false :=
  Symbol.isBlank_of_isDigit (isDigit_of_mem_ofNat hs)

theorem exists_ofNat_eq_cons (n : Nat) :
    ∃ digit rest, ofNat n = digit :: rest ∧ digit.isDigit = true := by
  obtain ⟨digit, rest, hn⟩ := List.exists_cons_of_ne_nil (ofNat_ne_nil n)
  refine ⟨digit, rest, hn, isDigit_of_mem_ofNat (n := n) ?_⟩
  rw [hn]
  exact List.mem_cons_self ..

/-- The numeral of a number denotes the number. -/
theorem value_ofNat (n : Nat) : value (ofNat n) = n := by
  have hfold : ∀ digits : List Char, (∀ c ∈ digits, c.isDigit = true) →
      ∀ start, (digits.map Symbol.char).foldl
          (fun n digit => 10 * n + digit.digitValue) start =
        Nat.ofDigitChars 10 digits start := by
    intro digits
    induction digits with
    | nil =>
      intro _ start
      rfl
    | cons c digits ih =>
      intro hdigits start
      have hc : c.isDigit = true := hdigits c (List.mem_cons_self ..)
      rw [List.map_cons, List.foldl_cons, Nat.ofDigitChars_cons,
        ih (fun d hd => hdigits d (List.mem_cons_of_mem _ hd))]
      simp [Symbol.digitValue, hc]
  unfold value ofNat
  rw [hfold _ (fun c hc =>
    Nat.isDigit_of_mem_toDigits (by decide) (by decide) hc)]
  exact Nat.ofDigitChars_ten_toDigits

/-- Digits in front of a text that does not go on with one are its run. -/
theorem run_append {digits rest : Text}
    (hdigits : ∀ s ∈ digits, s.isDigit = true)
    (hrest : ∀ s ∈ rest.head?, s.isDigit = false) :
    run (digits ++ rest) = digits := by
  have hstop : rest.takeWhile Symbol.isDigit = [] := by
    cases rest with
    | nil => rfl
    | cons s rest => simp [hrest s rfl]
  rw [run, List.takeWhile_append_of_pos hdigits, hstop, List.append_nil]

theorem run_ofNat_append (n : Nat) {rest : Text}
    (hrest : ∀ s ∈ rest.head?, s.isDigit = false) :
    run (ofNat n ++ rest) = ofNat n :=
  run_append (fun _ => isDigit_of_mem_ofNat) hrest

/-- In front of a digit there is neither a blank nor a sign. -/
theorem leading_cons_of_isDigit {digit : Symbol}
    (hdigit : digit.isDigit = true) (rest : Text) :
    leading (digit :: rest) =
      (read (run (digit :: rest))).map Int.ofNat := by
  unfold leading
  rw [List.dropWhile_cons, Symbol.isBlank_of_isDigit hdigit]
  split
  · next heq =>
    cases heq
    cases hdigit
  · next heq =>
    cases heq
    cases hdigit
  · rfl

theorem leading_nonneg_of_isDigit {digit : Symbol}
    (hdigit : digit.isDigit = true) {rest : Text} {n : Int}
    (hn : leading (digit :: rest) = .ok n) : 0 ≤ n := by
  rw [leading_cons_of_isDigit hdigit] at hn
  cases hread : read (run (digit :: rest)) with
  | error e =>
    rw [hread] at hn
    cases hn
  | ok value =>
    rw [hread] at hn
    cases hn
    exact Int.natCast_nonneg value

/-- The number in front of a text is read from its numeral. -/
theorem leading_ofNat_append (n : Nat) {rest : Text}
    (hrest : ∀ s ∈ rest.head?, s.isDigit = false) :
    leading (ofNat n ++ rest) = orRefuse (refusal? n) (n : Int) := by
  obtain ⟨digit, more, hn, hdigit⟩ := exists_ofNat_eq_cons n
  have hleading := leading_cons_of_isDigit hdigit (more ++ rest)
  rw [← List.cons_append, ← hn] at hleading
  rw [hleading, run_ofNat_append n hrest]
  unfold read refusal?
  rw [value_ofNat]
  by_cases hlength : (ofNat n).length ≤ maxDigits
  · rw [if_pos hlength, if_pos hlength]
    rfl
  · rw [if_neg hlength, if_neg hlength]
    rfl

/-! ## Numerals digit by digit -/

theorem ofNat_digitValue {digit : Symbol} (hdigit : digit.isDigit = true) :
    ofNat digit.digitValue = [digit] := by
  obtain ⟨n, hn, hchar, hvalue⟩ := Symbol.exists_digitValue_eq hdigit
  rw [hvalue, hchar, ofNat, Nat.toDigits_of_lt_base hn]
  rfl

/-- One more digit behind the numeral of a positive number. -/
theorem ofNat_append_singleton {n : Nat} (hpos : 0 < n) {digit : Symbol}
    (hdigit : digit.isDigit = true) :
    ofNat n ++ [digit] = ofNat (10 * n + digit.digitValue) := by
  obtain ⟨d, hd, -, hvalue⟩ := Symbol.exists_digitValue_eq hdigit
  rw [← ofNat_digitValue hdigit, hvalue, ofNat, ofNat, ofNat,
    ← List.map_append, Nat.toDigits_append_toDigits (by decide) hpos hd]

theorem value_append_singleton (digits : Text) (digit : Symbol) :
    value (digits ++ [digit]) = 10 * value digits + digit.digitValue := by
  rw [value, List.foldl_append]
  rfl

/-! ## Leading zeros -/

/-- The numeral of a number behind some zeros. -/
def padded (zeros n : Nat) : Text :=
  List.replicate zeros (.char '0') ++ ofNat n

theorem padded_ne_nil (zeros n : Nat) : padded zeros n ≠ [] :=
  List.append_ne_nil_of_right_ne_nil _ (ofNat_ne_nil n)

theorem isDigit_of_mem_padded {zeros n : Nat} {s : Symbol}
    (hs : s ∈ padded zeros n) : s.isDigit = true := by
  rcases List.mem_append.mp hs with hs | hs
  · rw [List.eq_of_mem_replicate hs]
    rfl
  · exact isDigit_of_mem_ofNat hs

/-- Zeros in front of a numeral do not change its value. -/
theorem value_padded (zeros n : Nat) : value (padded zeros n) = n := by
  induction zeros with
  | zero => exact value_ofNat n
  | succ zeros ih => exact ih

/-- One more digit behind the numeral: a numeral of zero becomes one more of the
zeros in front. -/
theorem exists_padded_append_singleton (zeros n : Nat) {digit : Symbol}
    (hdigit : digit.isDigit = true) :
    ∃ more, padded zeros n ++ [digit] =
      padded more (10 * n + digit.digitValue) := by
  rcases Nat.eq_zero_or_pos n with rfl | hpos
  · refine ⟨zeros + 1, ?_⟩
    rw [Nat.mul_zero, Nat.zero_add, padded, padded, ofNat_digitValue hdigit,
      List.replicate_succ']
    rfl
  · refine ⟨zeros, ?_⟩
    rw [padded, padded, List.append_assoc,
      ofNat_append_singleton hpos hdigit]

/-- Digits are the numeral of their value behind some zeros. -/
theorem exists_eq_padded {digits : Text} (hne : digits ≠ [])
    (hdigits : ∀ s ∈ digits, s.isDigit = true) :
    ∃ zeros, digits = padded zeros (value digits) := by
  -- a numeral grows at its end, so the last digit is taken off
  induction digits using List.reverseRecOn with
  | nil => exact absurd rfl hne
  | append_singleton front digit ih =>
    have hdigit : digit.isDigit = true := hdigits digit (by simp)
    rw [value_append_singleton]
    by_cases hfront : front = []
    · refine ⟨0, ?_⟩
      rw [hfront, padded, show value [] = 0 from rfl, Nat.mul_zero,
        Nat.zero_add, ofNat_digitValue hdigit]
      rfl
    · obtain ⟨zeros, hzeros⟩ :=
        ih hfront fun s hs => hdigits s (List.mem_append_left _ hs)
      obtain ⟨more, hmore⟩ :=
        exists_padded_append_singleton zeros (value front) hdigit
      refine ⟨more, ?_⟩
      calc
        front ++ [digit] = padded zeros (value front) ++ [digit] :=
          congrArg (· ++ [digit]) hzeros
        _ = padded more (10 * value front + digit.digitValue) := hmore

end Numeral
end RaidStatus

import RaidStatus.Roster

/-!
# Looking up arrays in the status file

A question about the arrays of the status file is put to a fresh reading of
it, and nothing is the answer if the file cannot be read.  The arrays of the
reading make up a roster.  The array that is asked for is taken from the roster
by its place, before the rest of the roster is given up.

An array that is not on the roster cannot be taken from it, so this is one more
way for a question to fail.
-/

namespace RaidStatus

/-- Why a question about the status file has no answer. -/
inductive LookupError where
  /-- A number of the report is too long. -/
  | tooLong (error : Numeral.TooLong)
  /-- The array that was found cannot be taken from the roster. -/
  | roster (error : RosterError)
  deriving DecidableEq, Repr

namespace Lookup

/-- The arrays of a status file, unless it cannot be read. -/
def arraysOf (order : ArrayOrder) :
    Option (List UInt8) → Noted Numeral.TooLong (Option (List ArrayStatus))
  | some bytes => some <$> Report.readFile order bytes
  | none => ⟨[.readFailed], .ok none⟩

/-- The status file knows an array of this name. -/
def isKnown (name : Text) (file : Option (List UInt8)) :
    Noted Numeral.TooLong Bool := do
  let arrays? ← arraysOf .partsLast file
  pure (arrays?.any fun arrays => (byName? name arrays).isSome)

/-- The first array of a list that fits, taken from the roster of the list.
There are notices to be left if no array fits. -/
def takeFirst (fits : ArrayStatus → Bool) (otherwise : List Notice)
    (arrays : List ArrayStatus) :
    Noted LookupError (Option ArrayStatus) :=
  let roster := Roster.ofList arrays
  match roster.first? fits with
  | some (place, array) =>
    match roster.detach ⟨some place, array⟩ with
    | .ok _ => pure (some array)
    | .error error => ⟨[], .error (.roster error)⟩
  | none => ⟨otherwise, .ok none⟩

/-- The answer to a question that is put to the arrays of a status file, if it
can be read. -/
def ask (question : List ArrayStatus → Noted LookupError (Option ArrayStatus))
    (file : Option (List UInt8)) : Noted LookupError (Option ArrayStatus) := do
  match ← (arraysOf .partsLast file).mapError .tooLong with
  | some arrays => question arrays
  | none => pure none

/-- The array of the status file that holds the disk. -/
def holderOf (disk : Text) :
    Option (List UInt8) → Noted LookupError (Option ArrayStatus) :=
  ask (takeFirst (holds disk) [])

/-- The subarray of this name that the status file knows in this container. -/
def subarrayOf (subarray container : Text) :
    Option (List UInt8) → Noted LookupError (Option ArrayStatus) :=
  ask (takeFirst (isSubarrayNamed subarray container)
    [.noSubarray subarray container])

end Lookup
end RaidStatus

import RaidStatus.Lookup
import RaidStatus.Text.Quoted

/-!
# Rosters

A roster is a list of arrays from which single arrays can be taken.  Equal
arrays may be on it, so an array is not taken by what it is like but by its
*place*: each array keeps the place in which it was when the roster was made.
An array that was never on the roster has no place.

Asking for an array that is not there fails, and leaves the roster as it is.
-/

namespace RaidStatus

/-- An array and its place on a roster, if it has ever been there. -/
structure RosterEntry where
  place : Option Nat
  array : ArrayStatus
  deriving DecidableEq, Repr

structure Roster where
  /-- The arrays with their places, in order. -/
  entries : List (Nat × ArrayStatus)
  deriving DecidableEq, Repr

/-- Why nothing can be taken from a roster. -/
inductive RosterError where
  /-- The array is not on the roster, whose arrays have these names. -/
  | notListed (name : Text) (names : List Text)
  /-- There is no array at this position. -/
  | outOfRange
  deriving DecidableEq, Repr

namespace Roster

/-- The roster of a list of arrays; their places are their positions. -/
def ofList (arrays : List ArrayStatus) : Roster :=
  ⟨arrays.zipIdx.map fun (array, place) => (place, array)⟩

def places (roster : Roster) : List Nat :=
  roster.entries.map (·.1)

def arrays (roster : Roster) : List ArrayStatus :=
  roster.entries.map (·.2)

def names (roster : Roster) : List Text :=
  roster.arrays.map (·.name)

/-- A description by the names of arrays. -/
def describe (names : List Text) : Text :=
  Text.ofString "<Snapshot arrays=[" ++
    (Text.ofString ", ").intercalate (names.map Text.Quoted.quote) ++
    Text.ofString "]>"

/-- The first array of the roster that fits, with its place. -/
def first? (fits : ArrayStatus → Bool) (roster : Roster) :
    Option (Nat × ArrayStatus) :=
  roster.entries.find? fun entry => fits entry.2

def byName? (name : Text) (roster : Roster) : Option Nat :=
  (roster.first? fun array => array.name = name).map (·.1)

def byMember? (disk : Text) (roster : Roster) : Option Nat :=
  (roster.first? (Lookup.holds disk)).map (·.1)

/-- The roster without an array, which is found by its place. -/
def detach (entry : RosterEntry) (roster : Roster) :
    Except RosterError Roster :=
  match roster.entries.findIdx? fun e => some e.1 = entry.place with
  | some position => .ok ⟨roster.entries.eraseIdx position⟩
  | none => .error (.notListed entry.array.name roster.names)

/-- The place of the array at a position.  Negative positions count from the
end. -/
def get (position : Int) (roster : Roster) : Except RosterError Nat :=
  let length : Int := roster.entries.length
  let index := if position < 0 then position + length else position
  if index < 0 then .error .outOfRange
  else
    match roster.places[index.toNat]? with
    | some place => .ok place
    | none => .error .outOfRange

def clear (_roster : Roster) : Roster :=
  ⟨[]⟩

end Roster

def RosterError.message : RosterError → Text
  | notListed name names =>
    Text.ofString "Array " ++ name ++ Text.ofString " is not part of " ++
      Roster.describe names
  | outOfRange => Text.ofString "list index out of range"

/-- What can be asked of a roster. -/
inductive RosterRequest where
  | byName (name : Text)
  | byMember (disk : Text)
  | detach (entry : RosterEntry)
  | get (position : Int)
  | length
  | list
  | describe
  | clear
  /-- Release another roster, which does not exist. -/
  | releaseNothing
  deriving DecidableEq, Repr

inductive RosterAnswer where
  | nothing
  | place (place : Option Nat)
  | length (length : Nat)
  | places (places : List Nat)
  | text (text : Text)
  deriving DecidableEq, Repr

namespace Roster

@[simp] theorem arrays_ofList (arrays : List ArrayStatus) :
    (ofList arrays).arrays = arrays := by
  simp [Roster.arrays, ofList, Function.comp_def, List.zipIdx_map_fst]

@[simp] theorem places_ofList (arrays : List ArrayStatus) :
    (ofList arrays).places = List.range arrays.length := by
  simp [places, ofList, Function.comp_def, List.zipIdx_map_snd,
    List.range_eq_range']

/-- One request.  A request that fails leaves the roster as it is. -/
def perform (roster : Roster) :
    RosterRequest → Roster × Except RosterError RosterAnswer
  | .byName name => (roster, .ok (.place (roster.byName? name)))
  | .byMember disk => (roster, .ok (.place (roster.byMember? disk)))
  | .detach entry =>
    match roster.detach entry with
    | .ok rest => (rest, .ok (.place entry.place))
    | .error error => (roster, .error error)
  | .get position =>
    (roster, (roster.get position).map fun place => .place (some place))
  | .length => (roster, .ok (.length roster.entries.length))
  | .list => (roster, .ok (.places roster.places))
  | .describe => (roster, .ok (.text (describe roster.names)))
  | .clear => (roster.clear, .ok .nothing)
  | .releaseNothing => (roster, .ok .nothing)

def run (roster : Roster) (requests : List RosterRequest) : Roster :=
  requests.foldl (fun roster request => (roster.perform request).1) roster

/-- The answers to some requests, each with the roster after it. -/
def trace (roster : Roster) :
    List RosterRequest → List (Roster × Except RosterError RosterAnswer)
  | [] => []
  | request :: requests =>
    let answer := roster.perform request
    answer :: trace answer.1 requests

end Roster
end RaidStatus

import RaidStatus.ExternalVersion
import RaidStatus.ArrayStatus.Level

/-!
# The status of an array

A report says of each array whether it runs, how it is built and of which
disks, how many of them it should have and which of them work, where its
metadata is kept, and what the kernel is doing to it in the background.  Every
one of these may be missing from a report.
-/

namespace RaidStatus

/-- Whether an array runs. -/
inductive Activity where
  | unknown
  | inactive
  | active
  deriving DecidableEq, Repr

/-- What the kernel does to an array in the background. -/
inductive Operation where
  | resync
  | recovery
  | reshape
  | check
  deriving DecidableEq, Repr

/-- How far a background operation has come. -/
inductive Progress where
  /-- The operation runs; this much of it is done. -/
  | percent (done : Int)
  /-- The operation waits for another one. -/
  | delayed
  /-- The operation has not been started yet. -/
  | pending
  /-- The operation runs on another node of a cluster. -/
  | remote
  deriving DecidableEq, Repr

structure ArrayStatus where
  name : Text
  activity : Activity := .unknown
  level : Option Text := none
  /-- One symbol for each disk: `U` for one that works and `_` for one that
  is missing. -/
  health : Option Text := none
  /-- The number of disks that the array should have. -/
  diskCount : Int := 0
  /-- The names of its disks, in the order of the report. -/
  members : List Text := []
  version : Option Text := none
  operation : Option Operation := none
  progress : Option Progress := none
  deriving DecidableEq, Repr

namespace ArrayStatus

def memberCount (status : ArrayStatus) : Nat :=
  status.members.length

/-- The level of the array, if it has one that the kernel knows. -/
def knownLevel? (status : ArrayStatus) : Option Level :=
  status.level.bind Level.ofName?

/-- A disk of the array is missing. -/
def isDegraded (status : ArrayStatus) : Bool :=
  match status.health with
  | some health => decide (Symbol.char '_' ∈ health)
  | none => false

/-- A background operation is under way. -/
def isResyncing (status : ArrayStatus) : Bool :=
  status.operation.isSome

/-- The tail of the version, if the metadata is managed outside the kernel. -/
def externalTail? (status : ArrayStatus) : Option Text :=
  status.version.bind ExternalVersion.tail?

/-- The metadata is managed outside the kernel. -/
def isExternal (status : ArrayStatus) : Bool :=
  status.externalTail?.isSome

/-- The array is a subarray of some container. -/
def isSubarray (status : ArrayStatus) : Bool :=
  status.externalTail?.any ExternalVersion.isSubarray

/-- The array is a subarray of this container. -/
def isSubarrayOf (container : Text) (status : ArrayStatus) : Bool :=
  status.externalTail?.any (ExternalVersion.isIn container)

end ArrayStatus
end RaidStatus

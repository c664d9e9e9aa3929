import RaidStatus.Report

/-!
# Looking up arrays

Questions about the arrays of a report: whether an array of some name exists,
which array holds a disk, and which array is a given part of a container.  In
each case the first array that fits is the answer, so each question is a test
for a single array.

The disks of a container are listed for its subarrays, too.  The array that
holds a disk is the container, so subarrays are passed over there.
-/

namespace RaidStatus
namespace Lookup

def byName? (name : Text) (arrays : List ArrayStatus) : Option ArrayStatus :=
  arrays.find? fun array => array.name = name

/-- The array holds the disk, and not only as a part of a container. -/
def holds (disk : Text) (array : ArrayStatus) : Bool :=
  !array.isSubarray && array.members.contains disk

/-- The array is the subarray of this name in this container. -/
def isSubarrayNamed (subarray container : Text) (array : ArrayStatus) :
    Bool :=
  array.externalTail?.any fun tail =>
    ExternalVersion.isIn container tail &&
      ExternalVersion.isNamed subarray tail

end Lookup
end RaidStatus

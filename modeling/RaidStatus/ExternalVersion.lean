import RaidStatus.Text.Basic

/-!
# External metadata versions

The metadata of an array may be managed outside the kernel.  Its version then
begins with `external:`, and the rest of it, the *tail*, says what the array
is.  A tail of the form `/container/subarray` marks a subarray: a part of a
container, which is an array as well.  While the manager of the container is
blocked, the first symbol of the tail is `-` instead.

Neither the name of the container nor that of the subarray is restricted, so
both may hold slashes: a container matches when the tail goes on with a slash
behind its name, while the name of the subarray begins behind the first slash.
-/

namespace RaidStatus
namespace ExternalVersion

/-- What stands in front of the tail. -/
def keyword : Text := "external:"

/-- The symbol between the container and the subarray. -/
def slash : Symbol := .char '/'

/-- The symbols that a subarray's tail begins with. -/
def markers : List Symbol := [slash, .char '-']

/-- The tail of a version, if the version is external. -/
def tail? (version : Text) : Option Text :=
  keyword.after? version

/-- What follows the marker, if the tail is that of a subarray. -/
def location? : Text → Option Text
  | [] => none
  | s :: location => if s ∈ markers then some location else none

/-- The tail is that of a subarray. -/
def isSubarray (tail : Text) : Bool :=
  (location? tail).isSome

/-- The tail is that of a subarray of this container. -/
def isIn (container tail : Text) : Bool :=
  match location? tail with
  | some location => decide (container ++ [slash] <+: location)
  | none => false

/-- The tail is that of a subarray with this name. -/
def isNamed (subarray tail : Text) : Bool :=
  match (location? tail).bind (Text.cut? slash) with
  | some (_, name) => decide (name = subarray)
  | none => false

theorem tail?_eq_some_iff {version tail : Text} :
    tail? version = some tail ↔ version = keyword ++ tail :=
  Text.after?_eq_some_iff

theorem mem_markers_iff {marker : Symbol} :
    marker ∈ markers ↔ marker = .char '/' ∨ marker = .char '-' := by
  simp [markers, slash]

theorem location?_eq_some_iff {tail location : Text} :
    location? tail = some location ↔
      ∃ marker ∈ markers, tail = marker :: location := by
  cases tail with
  | nil => simp [location?]
  | cons s rest =>
    by_cases hs : s ∈ markers
    · simp only [location?, hs, if_true, Option.some.injEq, List.cons.injEq]
      constructor
      · rintro rfl
        exact ⟨s, hs, rfl, rfl⟩
      · rintro ⟨_, _, _, hrest⟩
        exact hrest
    · simp only [location?, hs, if_false, List.cons.injEq, reduceCtorEq,
        false_iff]
      rintro ⟨marker, hmarker, rfl, _⟩
      exact hs hmarker

/-- A container matches a tail that goes on with a slash behind its name. -/
theorem isIn_iff {container tail : Text} :
    isIn container tail = true ↔
      ∃ marker ∈ markers, ∃ rest,
        tail = marker :: (container ++ slash :: rest) := by
  unfold isIn
  cases hlocation : location? tail with
  | none =>
    simp only [Bool.false_eq_true, false_iff]
    rintro ⟨marker, hmarker, rest, htail⟩
    have := location?_eq_some_iff.mpr ⟨marker, hmarker, htail⟩
    simp [hlocation] at this
  | some location =>
    obtain ⟨marker, hmarker, rfl⟩ := location?_eq_some_iff.mp hlocation
    simp only [decide_eq_true_eq]
    constructor
    · rintro ⟨rest, rfl⟩
      exact ⟨marker, hmarker, rest, by simp⟩
    · rintro ⟨_, _, rest, htail⟩
      simp only [List.cons.injEq] at htail
      exact ⟨rest, by simp [htail.2]⟩

/-- A name matches a tail in which it stands behind the first slash. -/
theorem isNamed_iff {subarray tail : Text} :
    isNamed subarray tail = true ↔
      ∃ marker ∈ markers, ∃ before, slash ∉ before ∧
        tail = marker :: (before ++ slash :: subarray) := by
  unfold isNamed
  cases hparts : (location? tail).bind (Text.cut? slash) with
  | none =>
    simp only [Bool.false_eq_true, false_iff]
    rintro ⟨marker, hmarker, before, hbefore, htail⟩
    have hlocation := location?_eq_some_iff.mpr ⟨marker, hmarker, htail⟩
    have hcut : Text.cut? slash (before ++ slash :: subarray) =
        some (before, subarray) :=
      Text.cut?_eq_some_iff.mpr ⟨rfl, hbefore⟩
    simp [hlocation, hcut] at hparts
  | some parts =>
    obtain ⟨location, hlocation, hcut⟩ := Option.bind_eq_some_iff.mp hparts
    obtain ⟨marker, hmarker, rfl⟩ := location?_eq_some_iff.mp hlocation
    obtain ⟨before, name⟩ := parts
    obtain ⟨rfl, hbefore⟩ := Text.cut?_eq_some_iff.mp hcut
    simp only [decide_eq_true_eq]
    constructor
    · rintro rfl
      exact ⟨marker, hmarker, before, hbefore, rfl⟩
    · rintro ⟨_, _, before', hbefore', htail⟩
      simp only [List.cons.injEq] at htail
      have hcut' := Text.cut?_eq_some_iff.mpr ⟨htail.2, hbefore'⟩
      simp [hcut] at hcut'
      exact hcut'.2

end ExternalVersion
end RaidStatus

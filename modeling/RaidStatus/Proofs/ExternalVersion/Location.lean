import Mathlib.Data.List.Infix
import RaidStatus.ArrayStatus.Basic

/-!
# What a tail says about a subarray

Behind its marker, a slash or a minus sign, the tail of a subarray holds the
name of the container, a slash, and the name of the subarray.  The two names
are found in different ways: a container has to stand in front of any slash,
while the name of the subarray begins behind the first one.  So they need not
be the two sides of the same slash.

Main statements:

* `isIn_and_isNamed_iff`: the tails that a container and a subarray match at
  the same time.  If the container has a slash, the names overlap.
* `append_slash_prefix_of_isIn`: of two containers of one tail, the shorter one
  is followed by a slash in the longer one.
* `tail_obeys_rules`: these and the other rules of the tests together, and what
  follows for the status of an array.
-/

namespace RaidStatus
namespace ExternalVersion

/-- The tail is that of this subarray of this container. -/
inductive Locates (container subarray tail : Text) : Prop
  /-- The slash between the names is the first one. -/
  | apart {marker : Symbol}
      (hmarker : marker = .char '/' ∨ marker = .char '-')
      (hcontainer : Symbol.char '/' ∉ container)
      (htail : tail = marker :: (container ++ .char '/' :: subarray))
  /-- The subarray begins within the container. -/
  | overlapping {marker : Symbol} {first others rest : Text}
      (hmarker : marker = .char '/' ∨ marker = .char '-')
      (hfirst : Symbol.char '/' ∉ first)
      (hcontainer : container = first ++ .char '/' :: others)
      (hsubarray : subarray = others ++ .char '/' :: rest)
      (htail : tail = marker :: (container ++ .char '/' :: rest))

variable {container other subarray tail : Text}

/-- There is one way only to cut a text at the first slash. -/
theorem eq_and_eq_of_append_slash {before behind before' behind' : Text}
    (hbefore : slash ∉ before) (hbefore' : slash ∉ before')
    (h : before ++ slash :: behind = before' ++ slash :: behind') :
    before = before' ∧ behind = behind' := by
  have hcut := Text.cut?_eq_some_iff.mpr ⟨h, hbefore'⟩
  rw [Text.cut?_eq_some_iff.mpr ⟨rfl, hbefore⟩] at hcut
  cases hcut
  exact ⟨rfl, rfl⟩

theorem Locates.isIn (h : Locates container subarray tail) :
    isIn container tail = true := by
  cases h with
  | apart hmarker _ htail =>
    exact isIn_iff.mpr ⟨_, mem_markers_iff.mpr hmarker, _, htail⟩
  | overlapping hmarker _ _ _ htail =>
    exact isIn_iff.mpr ⟨_, mem_markers_iff.mpr hmarker, _, htail⟩

theorem Locates.isNamed (h : Locates container subarray tail) :
    isNamed subarray tail = true := by
  cases h with
  | apart hmarker hcontainer htail =>
    exact isNamed_iff.mpr
      ⟨_, mem_markers_iff.mpr hmarker, _, hcontainer, htail⟩
  | overlapping hmarker hfirst hcontainer hsubarray htail =>
    refine isNamed_iff.mpr ⟨_, mem_markers_iff.mpr hmarker, _, hfirst, ?_⟩
    rw [htail, hcontainer, hsubarray, List.append_assoc, List.cons_append,
      slash]

/-- The container ends at a slash, and the subarray begins behind the first
one. -/
theorem isIn_and_isNamed_iff :
    isIn container tail = true ∧ isNamed subarray tail = true ↔
      Locates container subarray tail := by
  constructor
  · rintro ⟨hin, hnamed⟩
    obtain ⟨marker, hmarker, rest, htail⟩ := isIn_iff.mp hin
    obtain ⟨_, _, before, hbefore, htail'⟩ := isNamed_iff.mp hnamed
    have hlocation : container ++ slash :: rest =
        before ++ slash :: subarray :=
      (List.cons.inj (htail.symm.trans htail')).2
    cases hcut : Text.cut? slash container with
    | none =>
      have hcontainer := Text.cut?_eq_none_iff.mp hcut
      obtain ⟨-, rfl⟩ :=
        eq_and_eq_of_append_slash hcontainer hbefore hlocation
      exact .apart (mem_markers_iff.mp hmarker) hcontainer htail
    | some parts =>
      obtain ⟨first, others⟩ := parts
      obtain ⟨hcontainer, hfirst⟩ := Text.cut?_eq_some_iff.mp hcut
      rw [hcontainer, List.append_assoc, List.cons_append] at hlocation
      obtain ⟨-, hsubarray⟩ :=
        eq_and_eq_of_append_slash hfirst hbefore hlocation
      exact .overlapping (mem_markers_iff.mp hmarker) hfirst hcontainer
        hsubarray.symm htail
  · exact fun h => ⟨h.isIn, h.isNamed⟩

/-- Two containers of one tail are the same, or the shorter one is followed by
a slash in the longer one. -/
theorem append_slash_prefix_of_isIn (hin : isIn container tail = true)
    (hother : isIn other tail = true) (hne : container ≠ other)
    (hlength : container.length ≤ other.length) :
    container ++ [slash] <+: other := by
  obtain ⟨_, _, rest, htail⟩ := isIn_iff.mp hin
  obtain ⟨_, _, rest', htail'⟩ := isIn_iff.mp hother
  have hlocation : container ++ slash :: rest = other ++ slash :: rest' :=
    (List.cons.inj (htail.symm.trans htail')).2
  have hcontainer : container <+: other ++ slash :: rest' :=
    ⟨slash :: rest, hlocation⟩
  obtain ⟨more, rfl⟩ := List.prefix_of_prefix_length_le hcontainer
    (List.prefix_append other (slash :: rest')) hlength
  rw [List.append_assoc, List.append_cancel_left_eq] at hlocation
  cases more with
  | nil => exact absurd (List.append_nil container).symm hne
  | cons s more =>
    cases hlocation
    exact ⟨more, by simp⟩

theorem eq_of_isIn (hcontainer : slash ∉ container) (hslash : slash ∉ other)
    (hin : isIn container tail = true) (hother : isIn other tail = true) :
    container = other := by
  obtain ⟨_, _, _, htail⟩ := isIn_iff.mp hin
  obtain ⟨_, _, _, htail'⟩ := isIn_iff.mp hother
  have hlocation := (List.cons.inj (htail.symm.trans htail')).2
  exact (eq_and_eq_of_append_slash hcontainer hslash hlocation).1

theorem eq_of_isNamed (hnamed : isNamed subarray tail = true)
    (hother : isNamed other tail = true) : subarray = other := by
  obtain ⟨_, _, _, hbefore, htail⟩ := isNamed_iff.mp hnamed
  obtain ⟨_, _, _, hbefore', htail'⟩ := isNamed_iff.mp hother
  have hlocation := (List.cons.inj (htail.symm.trans htail')).2
  exact (eq_and_eq_of_append_slash hbefore hbefore' hlocation).2

/-- What the tests of a tail accept. -/
structure TailRules (tail : Text) : Prop where
  isIn_iff (container : Text) : isIn container tail = true ↔
    ∃ marker : Symbol, (marker = .char '/' ∨ marker = .char '-') ∧
      ∃ rest, tail = marker :: (container ++ .char '/' :: rest)
  isNamed_iff (subarray : Text) : isNamed subarray tail = true ↔
    ∃ marker : Symbol, (marker = .char '/' ∨ marker = .char '-') ∧
      ∃ before, Symbol.char '/' ∉ before ∧
        tail = marker :: (before ++ .char '/' :: subarray)
  locates_iff (container subarray : Text) :
    isIn container tail = true ∧ isNamed subarray tail = true ↔
      Locates container subarray tail
  /-- The containers of a tail are nested in each other. -/
  nested (shorter longer : Text) (hshorter : isIn shorter tail = true)
    (hlonger : isIn longer tail = true) (hne : shorter ≠ longer)
    (hlength : shorter.length ≤ longer.length) :
    shorter ++ [.char '/'] <+: longer
  container_unique (container other : Text)
    (hcontainer : Symbol.char '/' ∉ container)
    (hother : Symbol.char '/' ∉ other) (hin : isIn container tail = true)
    (hinother : isIn other tail = true) : container = other
  subarray_unique (subarray other : Text)
    (hnamed : isNamed subarray tail = true)
    (hother : isNamed other tail = true) : subarray = other

theorem isSubarray_of_isIn (hin : isIn container tail = true) :
    isSubarray tail = true := by
  obtain ⟨marker, hmarker, rest, rfl⟩ := isIn_iff.mp hin
  rw [isSubarray, location?_eq_some_iff.mpr ⟨marker, hmarker, rfl⟩]
  rfl

end ExternalVersion

namespace ArrayStatus

theorem isSubarray_of_isSubarrayOf {status : ArrayStatus} {container : Text}
    (h : status.isSubarrayOf container = true) : status.isSubarray = true := by
  obtain ⟨tail, htail, hin⟩ := (Option.any_eq_true _ _).mp h
  exact (Option.any_eq_true _ _).mpr
    ⟨tail, htail, ExternalVersion.isSubarray_of_isIn hin⟩

theorem isExternal_of_isSubarray {status : ArrayStatus}
    (h : status.isSubarray = true) : status.isExternal = true := by
  obtain ⟨tail, htail, -⟩ := (Option.any_eq_true _ _).mp h
  exact Option.isSome_iff_exists.mpr ⟨tail, htail⟩

end ArrayStatus

namespace ExternalVersion

/-- Every tail is read by these rules, and a subarray of a container is a
subarray, whose metadata is managed outside the kernel. -/
theorem tail_obeys_rules :
    (∀ tail, TailRules tail) ∧
    ∀ (status : ArrayStatus) (container : Text),
      (status.isSubarrayOf container = true → status.isSubarray = true) ∧
      (status.isSubarray = true → status.isExternal = true) := by
  constructor
  · intro tail
    exact {
      isIn_iff := fun _ => by
        simpa only [mem_markers_iff, slash] using isIn_iff
      isNamed_iff := fun _ => by
        simpa only [mem_markers_iff, slash] using isNamed_iff
      locates_iff := fun _ _ => isIn_and_isNamed_iff
      nested := fun _ _ => append_slash_prefix_of_isIn
      container_unique := fun _ _ => eq_of_isIn
      subarray_unique := fun _ _ => eq_of_isNamed }
  · intro status container
    exact ⟨ArrayStatus.isSubarray_of_isSubarrayOf,
      ArrayStatus.isExternal_of_isSubarray⟩

/-- A container with a slash and a subarray with a slash overlap in it. -/
example : Locates "md0/a" "a/b" "-md0/a/b" :=
  isIn_and_isNamed_iff.mp (by decide)

end ExternalVersion
end RaidStatus

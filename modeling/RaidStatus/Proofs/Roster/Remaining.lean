import RaidStatus.Proofs.Lookup.Answer
import Mathlib.Data.Set.Card

/-!
# What is left on a roster

Which arrays are on a roster is said by the requests alone.  The array of a
place is left after some requests unless one of them has taken it or the roster
has been cleared (`Roster.Remains`).  One request keeps the arrays that it does
not take (`Roster.mem_places_perform_iff`), in their order and with their places
(`Roster.perform_sublist`), and so does a run (`Roster.mem_places_run_iff`,
`Roster.run_sublist`).

The answers to all requests follow from the places that are left, since these
increase along the roster (`Roster.HasLeft`).
-/

namespace RaidStatus
namespace Roster

/-! ## Taking one array -/

/-- The roster without the array of a place. -/
def without (place : Nat) (roster : Roster) : Roster :=
  ⟨roster.entries.filter fun entry => entry.1 != place⟩

theorem mem_without_iff {roster : Roster} {place : Nat}
    {entry : Nat × ArrayStatus} :
    entry ∈ (roster.without place).entries ↔
      entry ∈ roster.entries ∧ entry.1 ≠ place := by
  simp [without]

theorem mem_places_iff_exists {roster : Roster} {place : Nat} :
    place ∈ roster.places ↔ ∃ array, (place, array) ∈ roster.entries := by
  simp [places]

theorem mem_places_without_iff {roster : Roster} {place other : Nat} :
    other ∈ (roster.without place).places ↔
      other ∈ roster.places ∧ other ≠ place := by
  simp only [mem_places_iff_exists, mem_without_iff, exists_and_right]

/-- No other array has the place of the first one that has it. -/
theorem eraseP_eq_filter {place : Nat} (entries : List (Nat × ArrayStatus))
    (hplaces : (entries.map Prod.fst).Nodup) :
    entries.eraseP (fun entry => entry.1 == place) =
      entries.filter fun entry => entry.1 != place := by
  induction entries with
  | nil => rfl
  | cons entry entries ih =>
    rw [List.map_cons, List.nodup_cons] at hplaces
    by_cases hentry : entry.1 = place
    · have hkept : ∀ other ∈ entries, other.1 ≠ place := by
        intro other hother hplace
        apply hplaces.1
        rw [hentry, ← hplace]
        exact List.mem_map_of_mem hother
      have hfilter : entries.filter (fun entry => entry.1 != place) =
          entries := List.filter_eq_self.mpr (by simpa using hkept)
      simp [hentry, hfilter]
    · simp [hentry, ih hplaces.2]

theorem detach_of_mem {roster : Roster} (hplaces : roster.places.Nodup)
    {entry : RosterEntry} {place : Nat} (hentry : entry.place = some place)
    (hplace : place ∈ roster.places) :
    roster.detach entry = .ok (roster.without place) := by
  have hfits : (fun e : Nat × ArrayStatus => decide (some e.1 = entry.place)) =
      fun e => e.1 == place := by
    funext e
    simp [hentry, Bool.beq_eq_decide_eq]
  have hfound : (roster.entries.findIdx? fun e => e.1 == place).isSome := by
    simpa [places] using hplace
  obtain ⟨position, hposition⟩ := Option.isSome_iff_exists.mp hfound
  have herase : (roster.entries.filter fun e => e.1 != place) =
      roster.entries.eraseIdx position := by
    rw [← eraseP_eq_filter _ hplaces, List.eraseP_eq_eraseIdx, hposition]
  simp only [detach, hfits, hposition, without, herase]

theorem detach_of_notMem {roster : Roster} {entry : RosterEntry}
    (hplace : ∀ place ∈ entry.place, place ∉ roster.places) :
    roster.detach entry =
      .error (.notListed entry.array.name roster.names) := by
  have hnone : (roster.entries.findIdx? fun e =>
      decide (some e.1 = entry.place)) = none := by
    rw [List.findIdx?_eq_none_iff]
    intro e he
    rw [decide_eq_false_iff_not]
    intro hentry
    exact hplace e.1 hentry.symm (List.mem_map_of_mem he)
  rw [detach, hnone]

/-! ## What one request does -/

/-- The request takes the array of a place. -/
def Takes (roster : Roster) (request : RosterRequest) (place : Nat) : Prop :=
  ∃ entry, request = .detach entry ∧
    (roster.perform request).2 = .ok (.place (some place))

theorem perform_detach_of_mem {roster : Roster}
    (hplaces : roster.places.Nodup) {entry : RosterEntry} {place : Nat}
    (hentry : entry.place = some place) (hplace : place ∈ roster.places) :
    roster.perform (.detach entry) =
      (roster.without place, .ok (.place (some place))) := by
  simp only [perform, detach_of_mem hplaces hentry hplace, hentry]

theorem perform_detach_of_notMem {roster : Roster} {entry : RosterEntry}
    (hplace : ∀ place ∈ entry.place, place ∉ roster.places) :
    roster.perform (.detach entry) =
      (roster, .error (.notListed entry.array.name roster.names)) := by
  simp only [perform, detach_of_notMem hplace]

/-- A request takes one array, or clears the roster, or changes nothing. -/
theorem perform_cases {roster : Roster} (hplaces : roster.places.Nodup)
    (request : RosterRequest) :
    (∃ entry place, request = .detach entry ∧ entry.place = some place ∧
      place ∈ roster.places ∧
      roster.perform request =
        (roster.without place, .ok (.place (some place)))) ∨
    (request = .clear ∧ roster.perform request = (⟨[]⟩, .ok .nothing)) ∨
    ((roster.perform request).1 = roster ∧ request ≠ .clear ∧
      ∀ place, ¬ roster.Takes request place) := by
  cases request with
  | clear => exact Or.inr (Or.inl ⟨rfl, rfl⟩)
  | detach entry =>
    by_cases hplace : ∃ place ∈ entry.place, place ∈ roster.places
    · obtain ⟨place, hentry, hplace⟩ := hplace
      exact Or.inl ⟨entry, place, rfl, hentry, hplace,
        perform_detach_of_mem hplaces hentry hplace⟩
    · simp only [not_exists, not_and] at hplace
      have hrefused := perform_detach_of_notMem hplace
      refine Or.inr (Or.inr ⟨by rw [hrefused], by simp, ?_⟩)
      rintro place ⟨-, -, htaken⟩
      rw [hrefused] at htaken
      cases htaken
  | _ => exact Or.inr (Or.inr ⟨rfl, by simp, by simp [Takes]⟩)

/-- An array that is taken has been on the roster. -/
theorem Takes.mem_places {roster : Roster} (hplaces : roster.places.Nodup)
    {request : RosterRequest} {place : Nat}
    (h : roster.Takes request place) : place ∈ roster.places := by
  rcases perform_cases hplaces request with
    ⟨_, other, -, -, hother, hperform⟩ | ⟨rfl, -⟩ | ⟨-, -, hkept⟩
  · obtain ⟨_, -, hanswer⟩ := h
    rw [hperform] at hanswer
    simp only [Except.ok.injEq, RosterAnswer.place.injEq,
      Option.some.injEq] at hanswer
    rwa [← hanswer]
  · obtain ⟨_, hrequest, -⟩ := h
    cases hrequest
  · exact absurd h (hkept place)

theorem mem_places_perform_iff {roster : Roster}
    (hplaces : roster.places.Nodup) (request : RosterRequest) (place : Nat) :
    place ∈ (roster.perform request).1.places ↔
      place ∈ roster.places ∧ request ≠ .clear ∧
        ¬ roster.Takes request place := by
  rcases perform_cases hplaces request with
    ⟨entry, other, rfl, -, -, hperform⟩ | ⟨rfl, hperform⟩ |
      ⟨hsame, hclear, hkept⟩
  · have htakes : roster.Takes (.detach entry) place ↔ other = place := by
      simp [Takes, hperform]
    rw [hperform, mem_places_without_iff, htakes]
    simp [eq_comm]
  · simp [hperform, places]
  · simp [hsame, hclear, hkept place]

theorem perform_sublist {roster : Roster} (hplaces : roster.places.Nodup)
    (request : RosterRequest) :
    (roster.perform request).1.entries.Sublist roster.entries := by
  rcases perform_cases hplaces request with
    ⟨entry, place, -, -, -, hperform⟩ | ⟨-, hperform⟩ | ⟨hsame, -⟩
  · rw [hperform]
    exact List.filter_sublist
  · rw [hperform]
    exact List.nil_sublist _
  · rw [hsame]

/-! ## What a run does -/

/-- One of the requests takes the array of a place. -/
def IsTaken (roster : Roster) (requests : List RosterRequest)
    (place : Nat) : Prop :=
  ∃ front request back, requests = front ++ request :: back ∧
    (roster.run front).Takes request place

theorem isTaken_cons_iff {roster : Roster} {request : RosterRequest}
    {requests : List RosterRequest} {place : Nat} :
    roster.IsTaken (request :: requests) place ↔
      roster.Takes request place ∨
        (roster.perform request).1.IsTaken requests place := by
  constructor
  · rintro ⟨front, taker, back, hrequests, htakes⟩
    cases front with
    | nil =>
      obtain ⟨rfl, rfl⟩ := List.cons.inj hrequests
      exact Or.inl htakes
    | cons first front =>
      obtain ⟨rfl, rfl⟩ := List.cons.inj hrequests
      exact Or.inr ⟨front, taker, back, rfl, htakes⟩
  · rintro (htakes | ⟨front, taker, back, rfl, htakes⟩)
    · exact ⟨[], request, requests, rfl, htakes⟩
    · exact ⟨request :: front, taker, back, rfl, htakes⟩

/-- The places of a run are those that no request takes. -/
theorem mem_places_run_iff (requests : List RosterRequest) (place : Nat)
    (roster : Roster) (hplaces : roster.places.Nodup) :
    place ∈ (roster.run requests).places ↔
      place ∈ roster.places ∧ .clear ∉ requests ∧
        ¬ roster.IsTaken requests place := by
  induction requests generalizing roster with
  | nil => simp [run, IsTaken]
  | cons request requests ih =>
    have hnodup : (roster.perform request).1.places.Nodup :=
      hplaces.sublist ((perform_sublist hplaces request).map Prod.fst)
    change place ∈ ((roster.perform request).1.run requests).places ↔ _
    rw [ih _ hnodup, mem_places_perform_iff hplaces, isTaken_cons_iff,
      List.mem_cons, not_or, not_or]
    tauto

/-- The arrays of a run keep their places and their order. -/
theorem run_sublist (requests : List RosterRequest) (roster : Roster)
    (hplaces : roster.places.Nodup) :
    (roster.run requests).entries.Sublist roster.entries := by
  induction requests generalizing roster with
  | nil => exact List.Sublist.refl _
  | cons request requests ih =>
    have hfirst := perform_sublist hplaces request
    exact (ih _ (hplaces.sublist (hfirst.map Prod.fst))).trans hfirst

/-! ## The answers of a roster -/

/-- The roster has the arrays of some places of a list left, in order. -/
structure HasLeft (arrays : List ArrayStatus) (left : Nat → Prop)
    (roster : Roster) : Prop where
  increasing : roster.places.Pairwise (· < ·)
  mem_places_iff : ∀ place, place ∈ roster.places ↔ left place
  array_eq : ∀ entry ∈ roster.entries, arrays[entry.1]? = some entry.2

/-- The answer is the least place that fits, or no place does. -/
def IsLeastPlace (fits : Nat → Prop) : Option Nat → Prop
  | some place => IsLeast {place | fits place} place
  | none => ∀ place, ¬ fits place

/-- What a roster answers if the arrays of some places of a list are left. -/
structure Answers (arrays : List ArrayStatus) (left : Nat → Prop)
    (roster : Roster) : Prop where
  list : roster.perform .list = (roster, .ok (.places roster.places))
  length : roster.perform .length =
    (roster, .ok (.length {place | left place}.ncard))
  get_of_getElem? : ∀ (index : Nat) (place : Nat),
    roster.places[index]? = some place →
      roster.perform (.get index) = (roster, .ok (.place (some place))) ∧
      roster.perform (.get (index - roster.places.length)) =
        (roster, .ok (.place (some place)))
  get_of_outOfRange : ∀ position : Int,
    position < -roster.places.length ∨ roster.places.length ≤ position →
      roster.perform (.get position) = (roster, .error .outOfRange)
  byName : ∀ name, ∃ answer,
    roster.perform (.byName name) = (roster, .ok (.place answer)) ∧
    IsLeastPlace
      (fun place => left place ∧ ∃ array ∈ arrays[place]?, array.name = name)
      answer
  byMember : ∀ disk, ∃ answer,
    roster.perform (.byMember disk) = (roster, .ok (.place answer)) ∧
    IsLeastPlace
      (fun place => left place ∧
        ∃ array ∈ arrays[place]?, Lookup.HoldsDisk disk array)
      answer
  detach_of_left : ∀ entry place, entry.place = some place → left place →
    ∃ rest, roster.perform (.detach entry) =
        (rest, .ok (.place (some place))) ∧
      rest.HasLeft arrays fun other => left other ∧ other ≠ place
  detach_of_not_left : ∀ entry, (∀ place ∈ entry.place, ¬ left place) →
    roster.perform (.detach entry) =
      (roster, .error (.notListed entry.array.name roster.names))
  clear : roster.perform .clear = (⟨[]⟩, .ok .nothing)
  releaseNothing : roster.perform .releaseNothing = (roster, .ok .nothing)
  eq_of_error : ∀ request error,
    (roster.perform request).2 = .error error →
      (roster.perform request).1 = roster

variable {arrays : List ArrayStatus} {left : Nat → Prop} {roster : Roster}

theorem HasLeft.nodup (h : roster.HasLeft arrays left) :
    roster.places.Nodup :=
  h.increasing.imp Nat.ne_of_lt

theorem HasLeft.without (h : roster.HasLeft arrays left) (place : Nat) :
    (roster.without place).HasLeft arrays fun other =>
      left other ∧ other ≠ place where
  increasing := h.increasing.sublist (List.filter_sublist.map Prod.fst)
  mem_places_iff other := by
    rw [mem_places_without_iff, h.mem_places_iff]
  array_eq entry hentry := h.array_eq entry (mem_without_iff.mp hentry).1

/-- An array is on the roster if it is that of a place that is left. -/
theorem HasLeft.mem_entries_iff (h : roster.HasLeft arrays left)
    (place : Nat) (array : ArrayStatus) :
    (place, array) ∈ roster.entries ↔
      left place ∧ arrays[place]? = some array := by
  constructor
  · intro hentry
    exact ⟨(h.mem_places_iff place).mp (List.mem_map_of_mem hentry),
      h.array_eq _ hentry⟩
  · rintro ⟨hplace, harray⟩
    obtain ⟨other, hother⟩ :=
      mem_places_iff_exists.mp ((h.mem_places_iff place).mpr hplace)
    have hsame := h.array_eq _ hother
    rw [harray, Option.some.injEq] at hsame
    rwa [hsame]

/-- Since places increase along the roster, the first array that fits is that
of the least place. -/
theorem HasLeft.isLeastPlace_first? (h : roster.HasLeft arrays left)
    {fits : ArrayStatus → Bool} {p : ArrayStatus → Prop}
    (hfits : ∀ array, fits array = true ↔ p array) :
    IsLeastPlace (fun place => left place ∧ ∃ array ∈ arrays[place]?, p array)
      ((roster.first? fits).map Prod.fst) := by
  have hfirst : IsFirst (fun entry => p entry.2) roster.entries
      (roster.first? fits) :=
    isFirst_find? (fun entry => hfits entry.2) roster.entries
  cases hanswer : roster.first? fits with
  | none =>
    rw [hanswer] at hfirst
    rintro place ⟨hplace, array, harray, hp⟩
    exact hfirst _ ((h.mem_entries_iff place array).mpr ⟨hplace, harray⟩) hp
  | some answer =>
    rw [hanswer] at hfirst
    obtain ⟨before, behind, hentries, hp, hbefore⟩ := hfirst
    have hmem : (answer.1, answer.2) ∈ roster.entries := by
      simp [hentries]
    obtain ⟨hplace, harray⟩ := (h.mem_entries_iff _ _).mp hmem
    refine ⟨⟨hplace, answer.2, harray, hp⟩, ?_⟩
    rintro other ⟨hother, array, harray, hp⟩
    have hmem := (h.mem_entries_iff other array).mpr ⟨hother, harray⟩
    have hincreasing := h.increasing
    rw [places, hentries, List.map_append, List.map_cons] at hincreasing
    have hbehind :=
      (List.pairwise_cons.mp (List.pairwise_append.mp hincreasing).2.1).1
    rw [hentries, List.mem_append, List.mem_cons] at hmem
    rcases hmem with hmem | hmem | hmem
    · exact absurd hp (hbefore _ hmem)
    · exact (congrArg Prod.fst hmem).ge
    · exact (hbehind other (List.mem_map_of_mem hmem)).le

theorem HasLeft.ncard_eq (h : roster.HasLeft arrays left) :
    {place | left place}.ncard = roster.entries.length := by
  have hset : {place | left place} = (roster.places.toFinset : Set Nat) := by
    ext place
    simp [h.mem_places_iff]
  rw [hset, Set.ncard_coe_finset, List.toFinset_card_of_nodup h.nodup, places,
    List.length_map]

theorem length_places (roster : Roster) :
    roster.places.length = roster.entries.length := by
  rw [places, List.length_map]

theorem get_of_getElem? {index place : Nat}
    (hplace : roster.places[index]? = some place) :
    roster.get index = .ok place ∧
      roster.get (index - roster.places.length) = .ok place := by
  obtain ⟨hlt, -⟩ := List.getElem?_eq_some_iff.mp hplace
  rw [length_places] at hlt ⊢
  have hfront : ¬ (index : Int) < 0 := by omega
  have hback : (index : Int) - roster.entries.length < 0 := by omega
  constructor
  · simp only [get, hfront, if_false, Int.toNat_natCast, hplace]
  · simp only [get, hback, if_true, Int.sub_add_cancel, hfront, if_false,
      Int.toNat_natCast, hplace]

theorem get_of_outOfRange {position : Int}
    (hposition : position < -roster.places.length ∨
      roster.places.length ≤ position) :
    roster.get position = .error .outOfRange := by
  rw [length_places] at hposition
  rcases hposition with hfront | hback
  · have hneg : position < 0 := by omega
    have hindex : position + roster.entries.length < 0 := by omega
    simp only [get, hneg, if_true, hindex]
  · have hneg : ¬ position < 0 := by omega
    have hnone : roster.places[position.toNat]? = none := by
      rw [List.getElem?_eq_none_iff, length_places]
      omega
    simp only [get, hneg, if_false, hnone]

theorem HasLeft.answers (h : roster.HasLeft arrays left) :
    roster.Answers arrays left where
  list := rfl
  length := by rw [h.ncard_eq]; rfl
  get_of_getElem? index place hplace := by
    obtain ⟨hfront, hback⟩ := get_of_getElem? hplace
    simp only [perform, hfront, hback]
    exact ⟨rfl, rfl⟩
  get_of_outOfRange position hposition := by
    simp only [perform, get_of_outOfRange hposition]
    rfl
  byName name :=
    ⟨_, rfl, h.isLeastPlace_first? fun array => decide_eq_true_iff⟩
  byMember disk :=
    ⟨_, rfl, h.isLeastPlace_first? fun array => Lookup.holds_iff disk array⟩
  detach_of_left entry place hentry hplace :=
    ⟨roster.without place,
      perform_detach_of_mem h.nodup hentry
        ((h.mem_places_iff place).mpr hplace),
      h.without place⟩
  detach_of_not_left entry hentry :=
    perform_detach_of_notMem fun place hplace hmem =>
      hentry place hplace ((h.mem_places_iff place).mp hmem)
  clear := rfl
  releaseNothing := rfl
  eq_of_error request error herror := by
    rcases perform_cases h.nodup request with
      ⟨_, _, -, -, -, hperform⟩ | ⟨-, hperform⟩ | ⟨hsame, -⟩
    · rw [hperform] at herror
      cases herror
    · rw [hperform] at herror
      cases herror
    · exact hsame

/-- The array of a place of the list is left: no request has taken it, and none
has cleared the roster. -/
def Remains (arrays : List ArrayStatus) (requests : List RosterRequest)
    (place : Nat) : Prop :=
  place < arrays.length ∧ .clear ∉ requests ∧
    ¬ (ofList arrays).IsTaken requests place

theorem hasLeft_run (arrays : List ArrayStatus)
    (requests : List RosterRequest) :
    ((ofList arrays).run requests).HasLeft arrays
      (Remains arrays requests) := by
  have hincreasing : (ofList arrays).places.Pairwise (· < ·) := by
    rw [places_ofList]
    exact List.pairwise_lt_range
  have hnodup : (ofList arrays).places.Nodup :=
    hincreasing.imp Nat.ne_of_lt
  have hsublist := run_sublist requests (ofList arrays) hnodup
  refine ⟨hincreasing.sublist (hsublist.map Prod.fst), ?_, ?_⟩
  · intro place
    rw [mem_places_run_iff requests place _ hnodup, places_ofList,
      List.mem_range, Remains]
  · intro entry hentry
    have hfirst := hsublist.subset hentry
    simp only [ofList, List.mem_map, Prod.exists] at hfirst
    obtain ⟨array, place, hmem, rfl⟩ := hfirst
    exact List.mem_zipIdx_iff_getElem?.mp hmem

/-- What is left of a list of arrays after any requests, which may be equal to
each other, and every answer there: the places that are left increase along the
roster, an array is taken only from its own place and only once, and the roster
is left as it is by what fails. -/
theorem run_answers (arrays : List ArrayStatus)
    (requests : List RosterRequest) :
    ((ofList arrays).run requests).HasLeft arrays (Remains arrays requests) ∧
    ((ofList arrays).run requests).Answers arrays (Remains arrays requests) ∧
    ∀ request place, (ofList arrays).IsTaken requests place →
      ¬ ((ofList arrays).run requests).Takes request place := by
  have hleft := hasLeft_run arrays requests
  refine ⟨hleft, hleft.answers, ?_⟩
  intro request place htaken htakes
  have hplace := htakes.mem_places hleft.nodup
  obtain ⟨-, -, hnot⟩ := (hleft.mem_places_iff place).mp hplace
  exact hnot htaken

/-- Of two equal arrays, the second one is taken from its own place. -/
example :
    ((ofList [{ name := "md0" }, { name := "md0" }]).run
      [.detach ⟨some 1, { name := "md0" }⟩]).places = [0] := by
  decide

end Roster
end RaidStatus

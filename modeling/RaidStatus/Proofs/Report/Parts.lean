import Mathlib.Logic.Relation
import RaidStatus.Proofs.Report.Order

/-!
# Arrays and their parts

Arrays are put in front of their parts so that all of them can be stopped in
the order of the list, and started in the reverse order.  A part may be
reported later than the array that it belongs to.  It then comes before that
array if it has parts of its own that were reported earlier and stand before
the array, so the order is not always as it should be
(`exists_part_in_front`), even if no two arrays are parts of each other.

`Leads` says of two lines, from the disks of the arrays alone, which of them is
listed first.  The order of a listing is right exactly if in every chain of
three, an array, its part and a part of that part, the array leads the last
one whenever the line between them comes last (`respects_iff_chains`).  For
the arrays of a report this is `read_respects_iff`, in either order.
-/

namespace RaidStatus

/-- No array of the list stands on the wrong side of one of its parts. -/
def ArrayOrder.Respects : ArrayOrder → List ArrayStatus → Prop
  | partsLast, arrays =>
    arrays.Pairwise fun front back => front.name ∉ back.members
  | partsFirst, arrays =>
    arrays.Pairwise fun front back => back.name ∉ front.members

theorem ArrayOrder.respects_arrange (order : ArrayOrder)
    (arrays : List ArrayStatus) :
    order.Respects (order.arrange arrays) ↔
      ArrayOrder.partsLast.Respects arrays := by
  cases order with
  | partsLast => exact Iff.rfl
  | partsFirst => exact List.pairwise_reverse

namespace Report

/-! ## The order of two lines from the disks of the arrays -/

/-- One line comes before another one on the list.  A later line goes ahead of
its parts and of everything behind them; an earlier line stays ahead of a
later one if it leads all parts of it. -/
inductive Leads (lines : List ArrayStatus) : Nat → Nat → Prop
  | part {earlier later : Nat} (hlt : earlier < later)
      (hpart : IsPart lines earlier later) : Leads lines later earlier
  | ahead {earlier part later : Nat} (hlt : earlier < later)
      (hreported : part < later) (hpart : IsPart lines part later)
      (hleads : Leads lines part earlier) : Leads lines later earlier
  | stay {earlier later : Nat} (hlt : earlier < later)
      (hleads : ∀ part < later, IsPart lines part later →
        Leads lines earlier part) : Leads lines earlier later

instance (lines : List ArrayStatus) (part whole : Nat) :
    Decidable (IsPart lines part whole) :=
  inferInstanceAs (Decidable (∃ p ∈ lines[part]?, ∃ w ∈ lines[whole]?,
    p.name ∈ w.members))

theorem IsPart.lt_length {lines : List ArrayStatus} {part whole : Nat}
    (hpart : IsPart lines part whole) :
    part < lines.length ∧ whole < lines.length := by
  obtain ⟨p, hp, w, hw, -⟩ := hpart
  exact ⟨(List.getElem?_eq_some_iff.mp hp).1,
    (List.getElem?_eq_some_iff.mp hw).1⟩

namespace IsListing

variable {lines : List ArrayStatus} {entries : List (Nat × ArrayStatus)}

theorem before_or_before (h : IsListing lines entries) {line other : Nat}
    (hline : line < lines.length) (hother : other < lines.length)
    (hne : line ≠ other) :
    Before entries line other ∨ Before entries other line := by
  rcases Nat.lt_trichotomy (position entries line) (position entries other)
    with hlt | heq | hgt
  · exact Or.inl hlt
  · exact absurd (h.position_inj hline hother heq) hne
  · exact Or.inr hgt

theorem before_of_leads (h : IsListing lines entries) {front back : Nat}
    (hfront : front < lines.length) (hback : back < lines.length)
    (hleads : Leads lines front back) : Before entries front back := by
  induction hleads with
  | part hlt hpart =>
    exact (h.before_iff _ _ hlt hfront).mpr ⟨_, hlt, hpart, Or.inl rfl⟩
  | ahead hlt hreported hpart _ ih =>
    have hbefore := ih (Nat.lt_trans hreported hfront) hback
    exact (h.before_iff _ _ hlt hfront).mpr
      ⟨_, hreported, hpart, Or.inr hbefore⟩
  | @stay earlier later hlt _ ih =>
    rcases h.before_or_before hfront hback (Nat.ne_of_lt hlt)
      with hbefore | hbehind
    · exact hbefore
    · obtain ⟨part, hreported, hpart, hfirst⟩ :=
        (h.before_iff _ _ hlt hback).mp hbehind
      have hbefore := ih part hreported hpart hfront
        (Nat.lt_trans hreported hback)
      rcases hfirst with rfl | hpartBefore
      · exact absurd hbefore (Nat.lt_irrefl _)
      · exact absurd hbefore (Nat.lt_asymm hpartBefore)

theorem leads_of_before (h : IsListing lines entries) {bound : Nat} :
    ∀ front back, front < bound → back < bound → front < lines.length →
      back < lines.length → Before entries front back →
        Leads lines front back := by
  induction bound with
  | zero =>
    intro front back hbound
    exact absurd hbound (Nat.not_lt_zero _)
  | succ bound ih =>
    intro front back hfb hbb hfront hback hbefore
    have hne : front ≠ back := by
      rintro rfl
      exact Nat.lt_irrefl _ hbefore
    rcases Nat.lt_or_gt_of_ne hne with hlt | hgt
    · -- the later line stays behind, so the earlier one leads all its parts
      apply Leads.stay hlt
      intro part hreported hpart
      apply ih front part (by omega) (by omega) hfront hpart.lt_length.1
      have hnot : ¬(part = front ∨ Before entries part front) := by
        intro hfirst
        have hbehind := (h.before_iff _ _ hlt hback).mpr
          ⟨part, hreported, hpart, hfirst⟩
        exact Nat.lt_asymm hbefore hbehind
      rw [not_or] at hnot
      rcases h.before_or_before hfront hpart.lt_length.1 (Ne.symm hnot.1)
        with hpartBehind | hpartBefore
      · exact hpartBehind
      · exact absurd hpartBefore hnot.2
    · obtain ⟨part, hreported, hpart, hfirst⟩ :=
        (h.before_iff _ _ hgt hfront).mp hbefore
      rcases hfirst with rfl | hpartBefore
      · exact Leads.part hgt hpart
      · exact Leads.ahead hgt hreported hpart
          (ih part back (by omega) (by omega) hpart.lt_length.1 hback
            hpartBefore)

/-- Which of two lines is listed first can be told from the disks of the
arrays. -/
theorem leads_iff_before (h : IsListing lines entries) {front back : Nat}
    (hfront : front < lines.length) (hback : back < lines.length) :
    Leads lines front back ↔ Before entries front back :=
  ⟨h.before_of_leads hfront hback,
    h.leads_of_before front back hfront hback hfront hback⟩

/-! ## The order of arrays and parts -/

theorem respects_iff_not_before (h : IsListing lines entries) :
    ArrayOrder.partsLast.Respects (entries.map Prod.snd) ↔
      ∀ part whole, IsPart lines part whole →
        ¬Before entries part whole := by
  rw [ArrayOrder.Respects, List.pairwise_map, List.pairwise_iff_getElem]
  constructor
  · intro hpairs part whole hpart hbefore
    obtain ⟨hp, hw⟩ := hpart.lt_length
    have hnot := hpairs _ _ (h.position_lt hp) (h.position_lt hw) hbefore
    have hpartStatus := h.statuses_getElem (h.position_lt hp)
    have hwholeStatus := h.statuses_getElem (h.position_lt hw)
    rw [h.fst_getElem_position hp] at hpartStatus
    rw [h.fst_getElem_position hw] at hwholeStatus
    obtain ⟨p, hpsome, w, hwsome, hmem⟩ := hpart
    rw [hpsome] at hpartStatus
    rw [hwsome] at hwholeStatus
    rw [← Option.some.inj hpartStatus, ← Option.some.inj hwholeStatus] at hnot
    exact hnot hmem
  · intro hparts i j hi hj hlt hmem
    apply hparts entries[i].1 entries[j].1
    · exact ⟨_, h.statuses_getElem hi, _, h.statuses_getElem hj, hmem⟩
    · unfold Before
      rw [h.position_fst_getElem hi, h.position_fst_getElem hj]
      exact hlt

/-- Only a line that comes behind both its part and its whole can be listed on
the wrong side of the whole. -/
theorem respects_iff_chains (h : IsListing lines entries) :
    ArrayOrder.partsLast.Respects (entries.map Prod.snd) ↔
      ∀ whole part inner, whole < part → inner < part →
        IsPart lines part whole → IsPart lines inner part →
          Leads lines whole inner := by
  rw [h.respects_iff_not_before]
  constructor
  · intro hparts whole part inner hwhole hinner hpart hinnerPart
    have hw := hpart.lt_length.2
    have hi := hinnerPart.lt_length.1
    rw [h.leads_iff_before hw hi]
    have hnot : ¬(inner = whole ∨ Before entries inner whole) := by
      intro hfirst
      apply hparts part whole hpart
      exact (h.before_iff _ _ hwhole hpart.lt_length.1).mpr
        ⟨inner, hinner, hinnerPart, hfirst⟩
    rw [not_or] at hnot
    rcases h.before_or_before hw hi (Ne.symm hnot.1) with hbefore | hbehind
    · exact hbefore
    · exact absurd hbehind hnot.2
  · intro hchains part whole hpart hbefore
    obtain ⟨hp, hw⟩ := hpart.lt_length
    rcases Nat.lt_trichotomy part whole with hlt | rfl | hgt
    · have hbehind := (h.before_iff _ _ hlt hw).mpr
        ⟨part, hlt, hpart, Or.inl rfl⟩
      exact Nat.lt_asymm hbefore hbehind
    · exact Nat.lt_irrefl _ hbefore
    · obtain ⟨inner, hinner, hinnerPart, hfirst⟩ :=
        (h.before_iff _ _ hgt hp).mp hbefore
      have hleads := hchains whole part inner hgt hinner hpart hinnerPart
      rw [h.leads_iff_before hw hinnerPart.lt_length.1] at hleads
      rcases hfirst with rfl | hinnerBefore
      · exact Nat.lt_irrefl _ hleads
      · exact Nat.lt_asymm hleads hinnerBefore

end IsListing

/-- Exactly when every array of a report stands on the right side of its
parts: whenever a line is about a part of an earlier array and has an earlier
part of its own, the earlier array leads that part. -/
theorem read_respects_iff {order : ArrayOrder} {text : Text}
    {arrays : List ArrayStatus}
    (hread : (read order text).outcome = .ok arrays) :
    ∃ lines, statuses text = .ok lines ∧
      (order.Respects arrays ↔
        ∀ whole part inner, whole < part → inner < part →
          IsPart lines part whole → IsPart lines inner part →
            Leads lines whole inner) := by
  obtain ⟨lines, entries, hlines, -, hlisting, rfl⟩ :=
    exists_listing_of_read hread
  refine ⟨lines, hlines, ?_⟩
  rw [order.respects_arrange]
  exact hlisting.respects_iff_chains

theorem compositeLast_respects :
    ∃ arrays, (read .partsFirst compositeLast).outcome = .ok arrays ∧
      ArrayOrder.partsFirst.Respects arrays := by
  obtain ⟨lines, hlines, hrespects⟩ :=
    read_respects_iff
      (show (read .partsFirst compositeLast).outcome = .ok _ from rfl)
  refine ⟨_, rfl, hrespects.mpr ?_⟩
  rw [statuses_compositeLast] at hlines
  cases hlines
  intro whole part inner hlt _ hpart _
  have hreported : ∀ part < 3, ∀ whole < part,
      ¬IsPart compositeLastArrays part whole := by
    decide
  exact absurd hpart (hreported part hpart.lt_length.1 whole hlt)

/-- The report of an array, of another one whose part is reported last, and of
that part, which is built from the first array. -/
def partLast : Text :=
  Text.ofString ("md0 : active raid1 sda1[0]\n" ++
    "md2 : active raid1 md1[0]\n" ++
    "md1 : active raid1 md0[0]\n")

/-- The arrays of that report, in the order of their lines. -/
def partLastArrays : List ArrayStatus :=
  [{ name := "md0", activity := .active, level := some "raid1",
     members := ["sda1"] },
   { name := "md2", activity := .active, level := some "raid1",
     members := ["md1"] },
   { name := "md1", activity := .active, level := some "raid1",
     members := ["md0"] }]

theorem statuses_partLast : statuses partLast = .ok partLastArrays := by
  rfl

theorem partLastArrays_acyclic (line : Nat) :
    ¬Relation.TransGen (IsPart partLastArrays) line line := by
  intro hcycle
  -- the first line is a part of the last, and that one of the second
  let height : Nat → Nat := fun line =>
    if line = 0 then 0 else if line = 2 then 1 else 2
  have hheight : ∀ part < 3, ∀ whole < 3,
      IsPart partLastArrays part whole → height part < height whole := by
    decide
  have hrise := hcycle.lift height fun part whole hpart =>
    hheight part hpart.lt_length.1 whole hpart.lt_length.2 hpart
  rw [Relation.transGen_eq_self] at hrise
  exact Nat.lt_irrefl _ hrise

/-- No order is right for all reports without repeated names and without
arrays that are parts of themselves: a part that is reported last follows its
own part to a place in front of the array that it belongs to. -/
theorem exists_part_in_front :
    ¬∀ (order : ArrayOrder) (text : Text) (lines arrays : List ArrayStatus),
      statuses text = .ok lines →
      (read order text).outcome = .ok arrays →
      (lines.map (·.name)).Nodup →
      (∀ line, ¬Relation.TransGen (IsPart lines) line line) →
        order.Respects arrays := by
  intro hall
  have hright : ArrayOrder.partsLast.Respects
      [partLastArrays[2], partLastArrays[0], partLastArrays[1]] :=
    hall .partsLast partLast partLastArrays _ statuses_partLast rfl
      (by decide) partLastArrays_acyclic
  revert hright
  unfold ArrayOrder.Respects
  decide

end Report
end RaidStatus

import RaidStatus.LogicalLine

/-!
# Which physical lines make up a logical line

Folding assigns each physical line that has words to one logical line.  An
*assignment* numbers the logical lines, and it describes a folding if every
logical line consists of the words of its physical lines, if the order is
kept, and if two neighbours among the physical lines with words belong
together exactly when everything from behind the first up to the second one is
indented (`IsFolding`).  So an empty line separates its neighbours, and a blank
one does so only if it does not begin with a space or a tabulator.

The assignment of a folding is computed from the physical lines alone
(`owner`).  The only state that it needs is whether a logical line is open.
-/

namespace RaidStatus
namespace LogicalLine

/-- The physical line with this number has words. -/
def HasWords (physical : List Text) (n : Nat) : Prop :=
  ∃ line ∈ physical[n]?, line.words ≠ []

/-- The physical line with this number begins with a space or a tabulator. -/
def IsIndentedAt (physical : List Text) (n : Nat) : Prop :=
  ∃ line ∈ physical[n]?,
    line.head? = some (.char ' ') ∨ line.head? = some (.char '\t')

/-- The words of all physical lines that are assigned to one logical line. -/
def ownedWords (owner : Nat → Nat) (physical : List Text) (number : Nat) :
    List Text :=
  (physical.zipIdx.filter fun line => owner line.2 = number).flatMap
    fun line => line.1.words

/-- The logical lines are the physical ones put together as they are
assigned. -/
structure IsFolding (physical : List Text) (lines : List LogicalLine)
    (owner : Nat → Nat) : Prop where
  /-- A logical line consists of its physical lines, each of them whole. -/
  words_eq : ∀ number line, lines[number]? = some line →
    line.words = ownedWords owner physical number
  /-- Each physical line with words belongs to some logical line. -/
  owner_lt : ∀ n, HasWords physical n → owner n < lines.length
  owner_mono : ∀ m n, m ≤ n → owner m ≤ owner n
  /-- Neighbours belong together if nothing between them is not indented. -/
  owner_eq_iff : ∀ m n, m < n → HasWords physical m → HasWords physical n →
    (∀ k, m < k → k < n → ¬ HasWords physical k) →
      (owner m = owner n ↔
        ∀ k, m < k → k ≤ n → IsIndentedAt physical k)

/-! ## The assignment -/

/-- The physical line ends the logical line that may be open. -/
def ends (opened : Bool) (physical : Text) : Bool :=
  opened && !isIndented physical

/-- A logical line is open behind the physical line. -/
def leavesOpen (opened : Bool) (physical : Text) : Bool :=
  (opened && isIndented physical) || !physical.words.isEmpty

/-- The number of the logical line to which a physical line belongs, counted
from the one that may be open. -/
def owner : Bool → List Text → Nat → Nat
  | _, [], _ => 0
  | opened, physical :: _, 0 => (ends opened physical).toNat
  | opened, physical :: rest, n + 1 =>
    (ends opened physical).toNat + owner (leavesOpen opened physical) rest n

theorem owner_mono (opened : Bool) (physical : List Text) {m n : Nat}
    (hmn : m ≤ n) : owner opened physical m ≤ owner opened physical n := by
  induction physical generalizing opened m n with
  | nil => exact Nat.le_refl 0
  | cons line rest ih =>
    cases m with
    | zero => cases n <;> simp [owner]
    | succ m =>
      cases n with
      | zero => omega
      | succ n =>
        exact Nat.add_le_add_left (ih _ (Nat.le_of_succ_le_succ hmn)) _

/-- Behind lines without words, a line belongs to the logical line that is
open exactly if it and all of them are indented. -/
theorem owner_eq_zero_iff {physical : List Text} {n : Nat}
    (hn : HasWords physical n)
    (hgap : ∀ k < n, ¬ HasWords physical k) :
    owner true physical n = 0 ↔ ∀ k ≤ n, IsIndentedAt physical k := by
  induction n generalizing physical with
  | zero =>
    obtain ⟨line, hline, -⟩ := hn
    obtain ⟨rest, rfl⟩ := List.head?_eq_some_iff.mp
      ((List.head?_eq_getElem? ..).trans hline)
    simp [owner, ends, IsIndentedAt, isIndented_iff]
  | succ n ih =>
    cases physical with
    | nil => simp [HasWords] at hn
    | cons line rest =>
      have hempty : line.words = [] := by
        have hnot := hgap 0 (Nat.succ_pos n)
        simpa [HasWords] using hnot
      have hnext : HasWords rest n := hn
      have hrest := ih hnext fun k hk =>
        hgap (k + 1) (Nat.succ_lt_succ hk)
      -- the line has no words, so it keeps the open line or ends it for good
      by_cases hindented : isIndented line = true
      · have hopen : leavesOpen true line = true := by
          simp [leavesOpen, hindented]
        have hends : ends true line = false := by simp [ends, hindented]
        rw [owner, hopen, hends, Bool.toNat_false, Nat.zero_add, hrest]
        constructor
        · intro hall k hk
          cases k with
          | zero => exact ⟨line, rfl, isIndented_iff.mp hindented⟩
          | succ k => exact hall k (Nat.le_of_succ_le_succ hk)
        · intro hall k hk
          exact hall (k + 1) (Nat.succ_le_succ hk)
      · have hends : ends true line = true := by simp [ends, hindented]
        rw [owner, hends, Bool.toNat_true]
        constructor
        · intro hzero
          omega
        · intro hall
          obtain ⟨first, hfirst, hfirstIndented⟩ := hall 0 (Nat.zero_le _)
          cases hfirst
          exact absurd (isIndented_iff.mpr hfirstIndented) hindented

theorem owner_eq_iff (opened : Bool) {physical : List Text} {m n : Nat}
    (hmn : m < n) (hm : HasWords physical m) (hn : HasWords physical n)
    (hgap : ∀ k, m < k → k < n → ¬ HasWords physical k) :
    owner opened physical m = owner opened physical n ↔
      ∀ k, m < k → k ≤ n → IsIndentedAt physical k := by
  induction m generalizing opened physical n with
  | zero =>
    obtain ⟨line, hline, hwords⟩ := hm
    obtain ⟨rest, rfl⟩ := List.head?_eq_some_iff.mp
      ((List.head?_eq_getElem? ..).trans hline)
    obtain ⟨n, rfl⟩ := Nat.exists_eq_succ_of_ne_zero (Nat.ne_of_gt hmn)
    have hopen : leavesOpen opened line = true := by
      simp [leavesOpen, hwords]
    have hnext : HasWords rest n := hn
    have hrest := owner_eq_zero_iff hnext fun k hk =>
      hgap (k + 1) (Nat.succ_pos k) (Nat.succ_lt_succ hk)
    rw [owner, owner, hopen, Nat.left_eq_add, hrest]
    constructor
    · intro hall k hk hkn
      obtain ⟨k, rfl⟩ := Nat.exists_eq_succ_of_ne_zero (Nat.ne_of_gt hk)
      exact hall k (Nat.le_of_succ_le_succ hkn)
    · intro hall k hkn
      exact hall (k + 1) (Nat.succ_pos k) (Nat.succ_le_succ hkn)
  | succ m ih =>
    cases physical with
    | nil => simp [HasWords] at hm
    | cons line rest =>
      obtain ⟨n, rfl⟩ :=
        Nat.exists_eq_succ_of_ne_zero (Nat.ne_of_gt (Nat.zero_lt_of_lt hmn))
      have hfirst : HasWords rest m := hm
      have hsecond : HasWords rest n := hn
      have hrest := ih (leavesOpen opened line) (Nat.lt_of_succ_lt_succ hmn)
        hfirst hsecond fun k hmk hkn =>
          hgap (k + 1) (Nat.succ_lt_succ hmk) (Nat.succ_lt_succ hkn)
      rw [owner, owner, Nat.add_left_cancel_iff, hrest]
      constructor
      · intro hall k hmk hkn
        obtain ⟨k, rfl⟩ :=
          Nat.exists_eq_succ_of_ne_zero (Nat.ne_of_gt (Nat.zero_lt_of_lt hmk))
        exact hall k (Nat.lt_of_succ_lt_succ hmk) (Nat.le_of_succ_le_succ hkn)
      · intro hall k hmk hkn
        exact hall (k + 1) (Nat.succ_lt_succ hmk) (Nat.succ_le_succ hkn)

/-! ## The words of a logical line -/

theorem ownedWords_cons (owner : Nat → Nat) (line : Text)
    (rest : List Text) (number : Nat) :
    ownedWords owner (line :: rest) number =
      (if owner 0 = number then line.words else []) ++
        ownedWords (fun n => owner (n + 1)) rest number := by
  have hfilter := List.filter_map (p := fun line : Text × Nat =>
    decide (owner line.2 = number)) (f := fun line => (line.1, line.2 + 1))
    (l := rest.zipIdx)
  unfold ownedWords
  rw [List.zipIdx_cons, Nat.zero_add, List.zipIdx_succ, List.filter_cons,
    hfilter]
  by_cases hzero : owner 0 = number
  · simp [hzero, List.flatMap_map, Function.comp_def]
  · simp [hzero, List.flatMap_map, Function.comp_def]

theorem ownedWords_add_one (owner : Nat → Nat) (physical : List Text)
    (number : Nat) :
    ownedWords (fun n => 1 + owner n) physical (number + 1) =
      ownedWords owner physical number := by
  simp only [ownedWords, Nat.add_comm 1, Nat.add_right_cancel_iff]

theorem ownedWords_add_one_zero (owner : Nat → Nat)
    (physical : List Text) :
    ownedWords (fun n => 1 + owner n) physical 0 = [] := by
  simp [ownedWords]

theorem isSome_ofWords? (ws : List Text) :
    (ofWords? ws).isSome = !ws.isEmpty := by
  cases ws <;> rfl

/-- The words of a logical line are those of the line that was open, if it is
that one, and those of its physical lines. -/
theorem words_fold (opened : Option LogicalLine) (physical : List Text)
    (number : Nat) :
    (fold opened physical)[number]?.toList.flatMap words =
      (if number = 0 then opened.toList.flatMap words else []) ++
        ownedWords (owner opened.isSome physical) physical number := by
  -- the line that may be open is the one with the number 0 in each case
  fun_induction fold opened physical generalizing number with
  | case1 opened =>
    cases opened <;> cases number <;> simp [ownedWords]
  | case2 line rest ih =>
    have hopen : (ofWords? line.words).isSome = leavesOpen false line := by
      simp [leavesOpen, isSome_ofWords?]
    rw [ih, ownedWords_cons, hopen, flatMap_words_ofWords?]
    simp [owner, ends, eq_comm]
  | case3 opened line rest hindented ih =>
    have hends : ends true line = false := by simp [ends, hindented]
    have hopen : leavesOpen true line = true := by
      simp [leavesOpen, hindented]
    rw [ih, ownedWords_cons]
    by_cases hzero : number = 0
    · simp [owner, hends, hopen, hzero]
    · simp [owner, hends, hopen, hzero, Ne.symm hzero]
  | case4 opened line rest hindented ih =>
    have hends : ends true line = true := by simp [ends, hindented]
    have hopen : (ofWords? line.words).isSome = leavesOpen true line := by
      simp [leavesOpen, hindented, isSome_ofWords?]
    rw [ownedWords_cons]
    simp only [Option.isSome_some, owner, hends, Bool.toNat_true]
    cases number with
    | zero => simp [ownedWords_add_one_zero]
    | succ number =>
      rw [List.getElem?_cons_succ, ih, ownedWords_add_one, hopen,
        flatMap_words_ofWords?]
      simp [eq_comm]

theorem words_subset_ownedWords {owner : Nat → Nat}
    {physical : List Text} {n : Nat} {line : Text}
    (hline : physical[n]? = some line) :
    line.words ⊆ ownedWords owner physical (owner n) := by
  intro word hword
  have hmem : (line, n) ∈ physical.zipIdx :=
    List.mk_mem_zipIdx_iff_getElem?.mpr hline
  exact List.mem_flatMap.mpr
    ⟨(line, n), List.mem_filter.mpr ⟨hmem, by simp⟩, hword⟩

/-- Folding follows the assignment. -/
theorem isFolding_fold (physical : List Text) :
    IsFolding physical (fold none physical) (owner false physical) where
  words_eq := by
    intro number line hline
    have hwords := words_fold none physical number
    simpa [hline] using hwords
  owner_lt := by
    rintro n ⟨line, hline, hne⟩
    refine Nat.lt_of_not_le fun hge => ?_
    have hnone : (fold none physical)[owner false physical n]? = none :=
      List.getElem?_eq_none hge
    have hwords := words_fold none physical (owner false physical n)
    rw [hnone] at hwords
    have howned : ownedWords (owner false physical) physical
        (owner false physical n) = [] := by
      simpa using hwords.symm
    apply hne
    rw [← List.subset_nil, ← howned]
    exact words_subset_ownedWords hline
  owner_mono := fun _ _ => owner_mono false physical
  owner_eq_iff := fun _ _ => owner_eq_iff false

/-- The logical lines of a text hold the words of the text in order, none of
them is empty, and they are put together from the physical lines by
indentation. -/
theorem ofText_isFolding (text : Text) :
    (ofText text).flatMap words = text.words ∧
      (∀ line ∈ ofText text, line.words ≠ []) ∧
      ∃ owner, IsFolding text.physicalLines (ofText text) owner :=
  ⟨flatMap_words_ofText text, fun line _ => line.words_ne_nil,
    owner false text.physicalLines, isFolding_fold text.physicalLines⟩

example : ofText "a\n \n\tb\n\n c" = [⟨"a", ["b"]⟩, ⟨"c", []⟩] := by
  decide

end LogicalLine
end RaidStatus

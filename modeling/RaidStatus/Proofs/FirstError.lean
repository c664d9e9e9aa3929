import RaidStatus.Notice

/-!
# The first error

A list is worked off item by item until one of them fails, and the error is
that of this item.  The items may be worked on one by one (`mapM_eq_error_iff`)
or with the result of those before them (`foldlM_eq_error_iff`).
-/

namespace RaidStatus

variable {ε α β σ : Type}

/-- An item has the error, and all items before it have results. -/
def IsFirstError (f : α → Except ε β) (items : List α) (error : ε) : Prop :=
  ∃ front item back, items = front ++ item :: back ∧
    (∀ earlier ∈ front, ∃ result, f earlier = .ok result) ∧
    f item = .error error

/-- Some item has the first error, if any item has an error. -/
theorem exists_isFirstError_iff {f : α → Except ε β} {items : List α} :
    (∃ error, IsFirstError f items error) ↔
      ∃ item ∈ items, ∃ error, f item = .error error := by
  constructor
  · rintro ⟨error, front, item, back, rfl, -, hitem⟩
    exact ⟨item, by simp, error, hitem⟩
  · rintro ⟨item, hmem, hitem⟩
    induction items with
    | nil => cases hmem
    | cons a items ih =>
      cases ha : f a with
      | error error => exact ⟨error, [], a, items, rfl, by simp, ha⟩
      | ok result =>
        have hrest : item ∈ items := by
          rcases List.mem_cons.mp hmem with rfl | hrest
          · obtain ⟨error, hitem⟩ := hitem
            rw [ha] at hitem
            cases hitem
          · exact hrest
        obtain ⟨error, front, first, back, rfl, hfront, hfirst⟩ := ih hrest
        refine ⟨error, a :: front, first, back, rfl, ?_, hfirst⟩
        exact List.forall_mem_cons.mpr ⟨⟨result, ha⟩, hfront⟩

/-- The first error stays the first one if items with results have results all
the same. -/
theorem IsFirstError.imp {δ γ : Type} {f : α → Except ε β}
    {g : α → Except δ γ} {items : List α} {error : ε} {other : δ}
    (h : IsFirstError f items error)
    (hok : ∀ a b, f a = .ok b → ∃ c, g a = .ok c)
    (herror : ∀ a, f a = .error error → g a = .error other) :
    IsFirstError g items other := by
  obtain ⟨front, item, back, hitems, hfront, hitem⟩ := h
  refine ⟨front, item, back, hitems, ?_, herror item hitem⟩
  intro earlier hearlier
  obtain ⟨result, hresult⟩ := hfront earlier hearlier
  exact hok earlier result hresult

theorem map_eq_error_iff {f : α → β} {x : Except ε α} {error : ε} :
    x.map f = .error error ↔ x = .error error := by
  cases x <;> simp [Except.map]

/-- An outcome in two parts is an error if one of the parts is. -/
theorem bind_eq_error_iff {x : Except ε α} {f : α → Except ε β} {error : ε} :
    x >>= f = .error error ↔
      x = .error error ∨ ∃ a, x = .ok a ∧ f a = .error error := by
  cases x with
  | error e => simp [bind, Except.bind]
  | ok a => simp [bind, Except.bind]

theorem mapM_eq_error_iff {f : α → Except ε β} {items : List α} {error : ε} :
    items.mapM f = .error error ↔ IsFirstError f items error := by
  induction items with
  | nil => simp [IsFirstError, pure, Except.pure]
  | cons a items ih =>
    have hrest : (∃ results, f a = .ok results ∧
        (do let rest ← items.mapM f; pure (results :: rest)) =
          .error error) ↔
        ∃ result, f a = .ok result ∧ IsFirstError f items error := by
      simp [bind_eq_error_iff, ih, pure, Except.pure]
    rw [List.mapM_cons, bind_eq_error_iff, hrest]
    constructor
    · rintro (ha | ⟨result, ha, front, item, back, rfl, hfront, hitem⟩)
      · exact ⟨[], a, items, rfl, by simp, ha⟩
      · refine ⟨a :: front, item, back, rfl, ?_, hitem⟩
        exact List.forall_mem_cons.mpr ⟨⟨result, ha⟩, hfront⟩
    · rintro ⟨front, item, back, hitems, hfront, hitem⟩
      cases front with
      | nil =>
        cases hitems
        exact Or.inl hitem
      | cons first front =>
        cases hitems
        obtain ⟨⟨result, ha⟩, hrest⟩ := List.forall_mem_cons.mp hfront
        exact Or.inr ⟨result, ha, front, item, back, rfl, hrest, hitem⟩

theorem foldlM_eq_error_iff {f : σ → α → Except ε σ} {items : List α}
    {start : σ} {error : ε} :
    items.foldlM f start = .error error ↔
      ∃ front item back last, items = front ++ item :: back ∧
        front.foldlM f start = .ok last ∧ f last item = .error error := by
  induction items generalizing start with
  | nil => simp [pure, Except.pure]
  | cons a items ih =>
    rw [List.foldlM_cons, bind_eq_error_iff]
    constructor
    · rintro (ha | ⟨next, ha, hrest⟩)
      · exact ⟨[], a, items, start, rfl, rfl, ha⟩
      · obtain ⟨front, item, back, last, rfl, hfront, hitem⟩ := ih.mp hrest
        refine ⟨a :: front, item, back, last, rfl, ?_, hitem⟩
        rw [List.foldlM_cons, ha]
        exact hfront
    · rintro ⟨front, item, back, last, hitems, hfront, hitem⟩
      cases front with
      | nil =>
        cases hitems
        cases hfront
        exact Or.inl hitem
      | cons first front =>
        cases hitems
        rw [List.foldlM_cons, bind_eq_ok_iff] at hfront
        obtain ⟨next, ha, hrest⟩ := hfront
        exact Or.inr ⟨next, ha,
          ih.mpr ⟨front, item, back, last, rfl, hrest, hitem⟩⟩

end RaidStatus

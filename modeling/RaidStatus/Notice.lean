import RaidStatus.Text.Basic

/-!
# Notices

Besides its result, an action leaves notices of what it did on the way.  They
stay when the action fails, so a computation is a list of notices together
with a result or an error: the notices of a failed part are followed by none
of the parts behind it.
-/

namespace RaidStatus

/-- What an action did on the way to its result. -/
inductive Notice where
  /-- A line that is about no array was passed over. -/
  | skipped (name : Text)
  /-- The line of an array was read. -/
  | parsed (name : Text)
  /-- An array was put in front of the first array that it is built from. -/
  | inserted (name component : Text)
  /-- The container has no such subarray. -/
  | noSubarray (subarray container : Text)
  /-- The report could not be read. -/
  | readFailed
  /-- A descriptor was taken. -/
  | held
  /-- The descriptor was about to be closed. -/
  | closing
  /-- Waiting failed. -/
  | waitFailed
  /-- The other descriptor is not open. -/
  | badDescriptor
  /-- Signals cannot end the wait of this thread. -/
  | notMainThread
  deriving DecidableEq, Repr

/-- An outcome in two parts is a result if both parts are. -/
theorem bind_eq_ok_iff {ε α β : Type} {x : Except ε α}
    {f : α → Except ε β} {b : β} :
    x >>= f = .ok b ↔ ∃ a, x = .ok a ∧ f a = .ok b := by
  cases x with
  | error e => simp [bind, Except.bind]
  | ok a => simp [bind, Except.bind]

/-- A result or an error, and the notices left on the way to it. -/
structure Noted (ε α : Type) where
  notices : List Notice
  outcome : Except ε α

namespace Noted

variable {ε α β : Type}

protected def pure (a : α) : Noted ε α :=
  ⟨[], .ok a⟩

/-- A computation that goes on with the result of another one. -/
protected def bind (x : Noted ε α) (f : α → Noted ε β) : Noted ε β :=
  match x.outcome with
  | .ok a => ⟨x.notices ++ (f a).notices, (f a).outcome⟩
  | .error e => ⟨x.notices, .error e⟩

instance : Monad (Noted ε) where
  pure := Noted.pure
  bind := Noted.bind

/-- The same notices and result, with another description of the error. -/
def mapError {δ : Type} (f : ε → δ) (x : Noted ε α) : Noted δ α :=
  ⟨x.notices, x.outcome.mapError f⟩

@[ext] theorem ext {x y : Noted ε α} (hnotices : x.notices = y.notices)
    (houtcome : x.outcome = y.outcome) : x = y := by
  cases x
  cases y
  simp_all

@[simp] theorem pure_notices (a : α) :
    (pure a : Noted ε α).notices = [] := rfl

@[simp] theorem pure_outcome (a : α) :
    (pure a : Noted ε α).outcome = .ok a := rfl

theorem bind_of_ok {x : Noted ε α} {a : α} (hx : x.outcome = .ok a)
    (f : α → Noted ε β) :
    x >>= f = ⟨x.notices ++ (f a).notices, (f a).outcome⟩ := by
  simp [bind, Noted.bind, hx]

theorem bind_of_error {x : Noted ε α} {e : ε} (hx : x.outcome = .error e)
    (f : α → Noted ε β) : x >>= f = ⟨x.notices, .error e⟩ := by
  simp [bind, Noted.bind, hx]

/-- The outcome of two parts depends on their outcomes only. -/
theorem bind_outcome (x : Noted ε α) (f : α → Noted ε β) :
    (x >>= f).outcome = x.outcome >>= fun a => (f a).outcome := by
  cases hx : x.outcome with
  | ok a => simp [bind_of_ok hx]; rfl
  | error e => simp [bind_of_error hx]; rfl

@[simp] theorem map_outcome (f : α → β) (x : Noted ε α) :
    (f <$> x).outcome = x.outcome.map f := by
  obtain ⟨notices, outcome⟩ := x
  cases outcome <;> rfl

@[simp] theorem map_notices (f : α → β) (x : Noted ε α) :
    (f <$> x).notices = x.notices := by
  obtain ⟨notices, outcome⟩ := x
  cases outcome
  · rfl
  · exact List.append_nil notices

/-- A notice of two parts is left by one of them. -/
theorem mem_bind_notices {notice : Notice} {x : Noted ε α}
    {f : α → Noted ε β} (hnotice : notice ∈ (x >>= f).notices) :
    notice ∈ x.notices ∨
      ∃ a, x.outcome = .ok a ∧ notice ∈ (f a).notices := by
  cases hx : x.outcome with
  | ok a =>
    rw [bind_of_ok hx] at hnotice
    rcases List.mem_append.mp hnotice with hnotice | hnotice
    · exact Or.inl hnotice
    · exact Or.inr ⟨a, rfl, hnotice⟩
  | error e =>
    rw [bind_of_error hx] at hnotice
    exact Or.inl hnotice

@[simp] theorem mapError_notices {δ : Type} (f : ε → δ) (x : Noted ε α) :
    (x.mapError f).notices = x.notices := rfl

@[simp] theorem mapError_outcome {δ : Type} (f : ε → δ) (x : Noted ε α) :
    (x.mapError f).outcome = x.outcome.mapError f := rfl

instance : LawfulMonad (Noted ε) := LawfulMonad.mk' _
  (fun x => by
    obtain ⟨notices, outcome⟩ := x
    cases outcome <;> simp [Functor.map, Noted.bind, Noted.pure])
  (fun a f => by
    simp [bind, Noted.bind, pure, Noted.pure])
  (fun x f g => by
    obtain ⟨notices, outcome⟩ := x
    cases outcome with
    | error e => simp [bind, Noted.bind]
    | ok a =>
      cases hfa : (f a).outcome <;> simp [bind, Noted.bind, hfa])

end Noted
end RaidStatus

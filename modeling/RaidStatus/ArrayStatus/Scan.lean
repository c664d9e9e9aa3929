import RaidStatus.ArrayStatus.Basic

/-!
# Reading the status of an array

The words of a logical line are read one after the other, and the state of
the reading is the status gathered so far together with the section of the
line that has been reached.  A word means the first thing that it can mean in
that section; a word that can mean nothing is passed over.

The first words say whether the array runs.  The level of an array that runs,
or the word `inactive`, opens the section of its disks, which ends at the word
`blocks`.  The details that follow may come in any order.  Nothing behind the
word `bitmap:` belongs to the status.

An array that is built from other arrays names them among its disks.  While
the disks are read, the earliest of them that the report has already
described is kept as the *anchor* of the reading.
-/

namespace RaidStatus

namespace Operation

def all : List Operation :=
  [resync, reshape, recovery, check]

/-- The word that announces an operation. -/
def keyword : Operation → Text
  | resync => "resync"
  | reshape => "reshape"
  | recovery => "recovery"
  | check => "check"

/-- The operation that a word announces at its beginning. -/
def ofWord? (word : Text) : Option Operation :=
  all.find? fun operation => decide (operation.keyword <+: word)

end Operation

namespace Progress

/-- What the end of a word says about an operation that has no percentage. -/
def ofWord? (word : Text) : Option Progress :=
  if "=DELAYED" <:+ word then some delayed
  else if "=PENDING" <:+ word then some pending
  else if "=REMOTE" <:+ word then some remote
  else none

end Progress

namespace Detail

/-- The number of disks follows a bracket that opens in front of a digit. -/
def diskCount? : Text → Option Text
  | .char '[' :: digit :: rest =>
    if digit.isDigit then some (digit :: rest) else none
  | _ => none

/-- The health of the disks follows a bracket that opens in front of the first
disk, up to the bracket that closes the word. -/
def health? : Text → Option Text
  | .char '[' :: disk :: rest =>
    if disk = .char 'U' ∨ disk = .char '_' then
      let health := disk :: rest
      some (if health.getLast? = some (.char ']') then health.dropLast
        else health)
    else none
  | _ => none

/-- The percentage that is assigned to a resynchronization, a recovery or
another operation that is named alike. -/
def assigned? (word : Text) : Option Text :=
  if "re" <+: word ∧ "%" <:+ word then
    (word.cut? (.char '=')).map (·.2)
  else none

/-- The word may announce an operation. -/
def isAnnouncement (word : Text) : Bool :=
  word.head? = some (.char 'r') || word.head? = some (.char 'c')

/-- The word is a percentage: it begins with a digit, ends with a percent
sign, and is not broken by the end of a line. -/
def isPercentage (word : Text) : Bool :=
  word.head?.any Symbol.isDigit && word.getLast? = some (.char '%') &&
    !word.contains (.char '\n')

end Detail

namespace ArrayStatus

/-- The array runs, but its level is not known yet. -/
def awaitsLevel (status : ArrayStatus) : Bool :=
  status.activity = .active && status.level.isNone

/-- The status after a word that may be about the background operation, while
no progress is known.  A percentage alone is that of a recovery, unless the
operation has been announced. -/
def noteProgress (status : ArrayStatus) (word : Text) :
    Except Numeral.TooLong ArrayStatus :=
  match Detail.assigned? word with
  | some number => do
    let done ← Numeral.leading number
    pure { status with
      operation := (Operation.ofWord? word).getD .recovery
      progress := some (.percent done) }
  | none =>
    if Detail.isAnnouncement word then
      pure { status with
        operation := (Operation.ofWord? word).or status.operation
        progress := Progress.ofWord? word }
    else if Detail.isPercentage word then do
      let done ← Numeral.leading word
      pure { status with
        operation := status.operation.getD .recovery
        progress := some (.percent done) }
    else pure status

/-- The status after a word behind the disks.  A later number of disks
replaces an earlier one, while the first health and the first progress
stay. -/
def noteDetail (status : ArrayStatus) (word : Text) :
    Except Numeral.TooLong ArrayStatus :=
  match Detail.diskCount? word with
  | some number => do
    let count ← Numeral.leading number
    pure { status with diskCount := count }
  | none =>
    match status.health, Detail.health? word with
    | none, some health => pure { status with health := some health }
    | _, _ =>
      if status.progress.isNone then status.noteProgress word else pure status

end ArrayStatus

/-- The section of a line that the next word belongs to. -/
inductive Section where
  | details
  | members
  /-- The next word is the version, whatever it is. -/
  | version
  | closed
  deriving DecidableEq, Repr

/-- The state of reading a line. -/
structure Scan where
  status : ArrayStatus
  /-- The position of the earliest known array that was read as a disk. -/
  anchor : Option Nat := none
  /-- The section that has been reached. -/
  reached : Section := .details
  deriving DecidableEq, Repr

namespace Scan

/-- The anchor after a disk: the first known array of that name, which is
looked for in front of the old anchor only.  If there is none, the old anchor
stays. -/
def lowerAnchor (known : List Text) (anchor : Option Nat) (disk : Text) :
    Option Nat :=
  ((known.take (anchor.getD known.length)).findIdx? (· = disk)).or anchor

/-- The disk that a word names: what stands before its first bracket. -/
def disk? (word : Text) : Option Text :=
  (word.cut? (.char '[')).map (·.1)

/-- The reading after a word about a disk.  Only a disk that is called like an
array is looked for among the known arrays. -/
def noteMember (known : List Text) (scan : Scan) (word : Text) : Scan :=
  match disk? word with
  | some disk =>
    { scan with
      status := { scan.status with members := scan.status.members ++ [disk] }
      anchor :=
        if "md" <+: disk then lowerAnchor known scan.anchor disk
        else scan.anchor }
  | none => scan

def step (known : List Text) (scan : Scan) (word : Text) :
    Except Numeral.TooLong Scan :=
  match scan.reached with
  | .closed => pure scan
  | .version =>
    pure { scan with
      status := { scan.status with version := some word }
      reached := .details }
  | reached =>
    if word = "active" then
      pure { scan with status := { scan.status with activity := .active } }
    else if word = "inactive" then
      pure { scan with
        status := { scan.status with activity := .inactive }
        reached := .members }
    else if word = "bitmap:" then
      pure { scan with reached := .closed }
    else if scan.status.awaitsLevel ∧ word.head? ≠ some (.char '(') then
      pure { scan with
        status := { scan.status with level := some word }
        reached := .members }
    else if reached = .members then
      if word = "blocks" then pure { scan with reached := .details }
      else pure (scan.noteMember known word)
    else if word = "super" then
      pure { scan with reached := .version }
    else do
      let status ← scan.status.noteDetail word
      pure { scan with status := status }

def run (known : List Text) (scan : Scan) (words : List Text) :
    Except Numeral.TooLong Scan :=
  words.foldlM (step known) scan

/-- The search in front of the old anchor gives the earlier one of the old
anchor and the first known array of that name. -/
theorem lowerAnchor_eq (known : List Text) (anchor : Option Nat)
    (disk : Text) :
    lowerAnchor known anchor disk =
      (known.findIdx? (· = disk)).merge min anchor := by
  unfold lowerAnchor
  cases anchor with
  | none => simp
  | some limit =>
    rw [Option.getD_some, List.findIdx?_take]
    cases known.findIdx? (· = disk) with
    | none => simp
    | some position =>
      by_cases hlt : position < limit
      · simp [Option.guard, hlt, Nat.min_eq_left (Nat.le_of_lt hlt)]
      · simp [Option.guard, hlt, Nat.min_eq_right (Nat.le_of_not_lt hlt)]

@[simp] theorem run_nil (known : List Text) (scan : Scan) :
    run known scan [] = .ok scan := rfl

@[simp] theorem run_cons (known : List Text) (scan : Scan) (word : Text)
    (words : List Text) :
    run known scan (word :: words) =
      step known scan word >>= fun next => run known next words :=
  List.foldlM_cons

/-- Reading can be interrupted anywhere. -/
theorem run_append (known : List Text) (scan : Scan)
    (front back : List Text) :
    run known scan (front ++ back) =
      run known scan front >>= fun next => run known next back :=
  List.foldlM_append

/-- Nothing is read once the status is complete. -/
theorem run_of_closed {known : List Text} {scan : Scan}
    (hclosed : scan.reached = .closed) (words : List Text) :
    run known scan words = .ok scan := by
  induction words with
  | nil => rfl
  | cons word words ih =>
    have hstep : step known scan word = .ok scan := by
      simp [step, hclosed, pure, Except.pure]
    rw [run_cons, hstep]
    exact ih

end Scan

/-- What a line says: the status of its array, and the position of the
earliest known array that is a part of it. -/
structure Reading where
  status : ArrayStatus
  /-- The position of its earliest known part. -/
  anchor : Option Nat
  deriving DecidableEq, Repr

/-- Why a line cannot be read. -/
inductive LineError where
  /-- The line is empty, so it names no array. -/
  | noWords
  /-- A number of the line is too long. -/
  | tooLong (error : Numeral.TooLong)
  deriving DecidableEq, Repr

def LineError.message : LineError → String
  | noWords => ""
  | tooLong error => error.message

namespace ArrayStatus

/-- The reading of a line about the array `name`, while the arrays of the
report that come earlier have the names `known`. -/
def read (known : List Text) (name : Text) (details : List Text) :
    Except Numeral.TooLong Reading := do
  let scan ← Scan.run known { status := { name := name } } details
  pure ⟨scan.status, scan.anchor⟩

/-- The reading of a line from all its words, of which there may be none. -/
def readWords (known : List Text) : List Text → Except LineError Reading
  | [] => .error .noWords
  | name :: details => (read known name details).mapError .tooLong

end ArrayStatus
end RaidStatus

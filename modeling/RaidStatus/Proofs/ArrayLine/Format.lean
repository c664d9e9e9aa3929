import RaidStatus.Proofs.LogicalLine.Layout
import RaidStatus.Proofs.Text.Numeral
import RaidStatus.Report

/-!
# The documented format of an array line

An `ArrayLine` is what the kernel has to say about one array, piece by piece:
whether the array runs, its disks, its size, and the details that may be left
out.  Its words are put down in the documented order (`ArrayLine.logical`),
and `ArrayLine.status` is the status that a reader should get out of them.

The kernel also writes words that are of no interest here, such as the
algorithm of a level or the speed of a resynchronization.  Such a *remark* may
stand between any two details.  A remark is described by what its symbols are
not (`Text.IsRemark`), and not by what a reader does with it.

A number may have more digits than are read.  `ArrayLine.refusal?` is the first
such number of a line.
-/

namespace RaidStatus

/-- The words that have a meaning of their own among the details. -/
def ArrayLine.keywords : List Text :=
  ["active", "inactive", "bitmap:", "super"]

/-- A word that no detail is written like. -/
structure Text.IsRemark (word : Text) : Prop where
  isWord : word.IsWord
  /-- It is no keyword. -/
  keyword : word ∉ ArrayLine.keywords
  /-- It is no number of disks and no health. -/
  bracket : ∀ s rest, word = .char '[' :: s :: rest →
    s.isDigit = false ∧ s ≠ .char 'U' ∧ s ≠ .char '_'
  /-- It announces no operation. -/
  operation : ∀ operation : Operation, ¬ operation.keyword <+: word
  /-- It says of no operation that it waits. -/
  waiting : word.head? = some (.char 'r') ∨ word.head? = some (.char 'c') →
    ¬ Text.ofString "=DELAYED" <:+ word ∧
    ¬ Text.ofString "=PENDING" <:+ word ∧
    ¬ Text.ofString "=REMOTE" <:+ word
  /-- It assigns no percentage. -/
  assigned : Text.ofString "re" <+: word → Text.ofString "%" <:+ word →
    .char '=' ∉ word
  /-- It is no percentage. -/
  percentage : ∀ s ∈ word.head?, s.isDigit = true →
    ¬ Text.ofString "%" <:+ word

/-- A word. -/
structure Word where
  text : Text
  isWord : text.IsWord

/-- A word that no detail is written like. -/
structure Remark where
  text : Text
  isRemark : text.IsRemark

namespace ArrayLine

/-- A word in front of the level, such as `(read-only)`. -/
structure Marker extends Word where
  head_eq : text.head? = some (.char '(')

/-- A word that can name a level. -/
structure LevelName extends Word where
  head_ne : text.head? ≠ some (.char '(')
  keyword :
    text ∉ [Text.ofString "active", Text.ofString "inactive",
      Text.ofString "bitmap:"]

/-- Whether the array runs, and the level of an array that does. -/
inductive State where
  | active (markers : List Marker) (level : LevelName)
  | inactive

/-- A disk, with its index in brackets and its flags. -/
structure Device where
  name : Word
  bracket_notMem : .char '[' ∉ name.text
  index : Text
  index_solid : ∀ s ∈ index, s.isBlank = false
  flags : Text
  flags_solid : ∀ s ∈ flags, s.isBlank = false

/-- How many disks the array should have, and how many of them work. -/
structure Counts where
  total : Nat
  working : Nat

inductive Disk where
  | working
  | missing

/-- The disks of an array, of which there is at least one. -/
structure Health where
  first : Disk
  others : List Disk

/-- A picture of the progress. -/
structure Bar where
  symbols : Text
  symbols_mem : ∀ s ∈ symbols, s ∈ [.char '=', .char '>', .char '.']

structure Percentage where
  whole : Nat
  /-- The digits behind the decimal point, if there is one. -/
  fraction : Option Text
  isDigit_fraction : ∀ digits ∈ fraction, ∀ s ∈ digits, s.isDigit = true

/-- Why an operation has no percentage. -/
inductive Obstacle where
  | delayed
  | pending
  | remote

/-- A background operation. -/
inductive Announcement where
  /-- The operation, an equals sign, and the percentage. -/
  | spaced (operation : Operation) (percentage : Percentage)
  /-- The same in one word, which is not done for a check. -/
  | joined (operation : Operation) (hoperation : operation ≠ .check)
    (percentage : Percentage)
  /-- An operation that has no percentage. -/
  | waiting (operation : Operation) (obstacle : Obstacle)

end ArrayLine

/-- What a line says about an array. -/
structure ArrayLine where
  name : Word
  isArrayName_name : Report.isArrayName name.text = true
  state : ArrayLine.State
  devices : List ArrayLine.Device
  blocks : Nat
  version : Option Word
  counts : Option ArrayLine.Counts
  health : Option ArrayLine.Health
  bar : Option ArrayLine.Bar
  announcement : Option ArrayLine.Announcement
  /-- What is said about the bitmap. -/
  bitmap : Option (List Word)
  /-- The remarks in front of the version, the counts, the health, the bar, the
  announcement and the bitmap, if these are there. -/
  remarks : Fin 6 → List Remark

namespace ArrayLine

/-! ## The words of a line -/

def State.words : State → List Text
  | active markers level =>
    Text.ofString "active" :: (markers.map (·.text) ++ [level.text])
  | inactive => [Text.ofString "inactive"]

def Device.word (device : Device) : Text :=
  device.name.text ++ .char '[' :: (device.index ++ .char ']' :: device.flags)

def Counts.word (counts : Counts) : Text :=
  .char '[' :: (Numeral.ofNat counts.total ++
    .char '/' :: (Numeral.ofNat counts.working ++ [.char ']']))

def Disk.symbol : Disk → Symbol
  | working => .char 'U'
  | missing => .char '_'

def Health.text (health : Health) : Text :=
  health.first.symbol :: health.others.map Disk.symbol

def Health.word (health : Health) : Text :=
  .char '[' :: (health.text ++ [.char ']'])

def Bar.word (bar : Bar) : Text :=
  .char '[' :: (bar.symbols ++ [.char ']'])

/-- The decimal point and the digits behind it. -/
def Percentage.decimals (percentage : Percentage) : Text :=
  match percentage.fraction with
  | none => []
  | some digits => .char '.' :: digits

def Percentage.word (percentage : Percentage) : Text :=
  Numeral.ofNat percentage.whole ++ (percentage.decimals ++ [.char '%'])

def Obstacle.keyword : Obstacle → Text
  | delayed => "DELAYED"
  | pending => "PENDING"
  | remote => "REMOTE"

def Announcement.words : Announcement → List Text
  | spaced operation percentage =>
    [operation.keyword, Text.ofString "=", percentage.word]
  | joined operation _ percentage =>
    [operation.keyword ++ .char '=' :: percentage.word]
  | waiting operation obstacle =>
    [operation.keyword ++ .char '=' :: obstacle.keyword]

variable (line : ArrayLine)

def remarkWords (place : Fin 6) : List Text :=
  (line.remarks place).map Remark.text

def versionWords : List Text :=
  match line.version with
  | none => []
  | some version => [Text.ofString "super", version.text]

def announcementWords : List Text :=
  match line.announcement with
  | none => []
  | some announcement => announcement.words

def bitmapWords : List Text :=
  match line.bitmap with
  | none => []
  | some words => Text.ofString "bitmap:" :: words.map Word.text

/-- The words behind the disks. -/
def detailWords : List Text :=
  line.remarkWords 0 ++ (line.versionWords ++
    (line.remarkWords 1 ++ ((line.counts.map Counts.word).toList ++
      (line.remarkWords 2 ++ ((line.health.map Health.word).toList ++
        (line.remarkWords 3 ++ ((line.bar.map Bar.word).toList ++
          (line.remarkWords 4 ++ (line.announcementWords ++
            (line.remarkWords 5 ++ line.bitmapWords))))))))))

/-- The words of the line. -/
def logical : LogicalLine where
  name := line.name.text
  details :=
    Text.ofString ":" :: (line.state.words ++
      (line.devices.map Device.word ++
        (Numeral.ofNat line.blocks :: Text.ofString "blocks" ::
          line.detailWords)))

/-! ## What the words say -/

def State.activity : State → Activity
  | active _ _ => .active
  | inactive => .inactive

def State.level? : State → Option Text
  | active _ level => some level.text
  | inactive => none

def Obstacle.progress : Obstacle → Progress
  | delayed => .delayed
  | pending => .pending
  | remote => .remote

def Announcement.operation : Announcement → Operation
  | spaced operation _ => operation
  | joined operation _ _ => operation
  | waiting operation _ => operation

def Announcement.progress : Announcement → Progress
  | spaced _ percentage => .percent percentage.whole
  | joined _ _ percentage => .percent percentage.whole
  | waiting _ obstacle => obstacle.progress

/-- The status that the line gives to the array. -/
def status : ArrayStatus where
  name := line.name.text
  activity := line.state.activity
  level := line.state.level?
  health := line.health.map Health.text
  diskCount := ((line.counts.map Counts.total).getD 0 : Nat)
  members := line.devices.map (·.name.text)
  version := line.version.map Word.text
  operation := line.announcement.map Announcement.operation
  progress := line.announcement.map Announcement.progress

def Announcement.refusal? : Announcement → Option Numeral.TooLong
  | spaced _ percentage => Numeral.refusal? percentage.whole
  | joined _ _ percentage => Numeral.refusal? percentage.whole
  | waiting _ _ => none

/-- The first number of the line that has too many digits to be read. -/
def refusal? : Option Numeral.TooLong :=
  (line.counts.bind fun counts => Numeral.refusal? counts.total).or
    (line.announcement.bind Announcement.refusal?)

end ArrayLine
end RaidStatus

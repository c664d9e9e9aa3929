/-!
# The status file

The report is read from a file at a fixed path.  A file is more than what is
found at the path: it can be replaced by another one or be removed, and
whoever has it open goes on reading it.  Files are therefore told apart by
number, and the path leads to one of them, to a directory, or nowhere.
-/

namespace RaidStatus

/-- What is found at the path. -/
inductive PathEntry where
  | missing
  | directory
  /-- A file, by its number. -/
  | file (id : Nat)
  deriving DecidableEq, Repr

/-- The path of the report and all files that have ever been there. -/
structure FileSystem where
  /-- The contents of the files, in the order of their numbers. -/
  files : List (List UInt8) := []
  /-- What is found at the path. -/
  entry : PathEntry := .missing
  deriving DecidableEq, Repr

namespace FileSystem

/-- The contents of a file. -/
def contents (fs : FileSystem) (id : Nat) : List UInt8 :=
  fs.files[id]?.getD []

/-- The contents of the file at the path, if there is one. -/
def current? (fs : FileSystem) : Option (List UInt8) :=
  match fs.entry with
  | .file id => some (fs.contents id)
  | .missing | .directory => none

def replace (bytes : List UInt8) (fs : FileSystem) : FileSystem where
  files := fs.files ++ [bytes]
  entry := .file fs.files.length

/-- The file at the path gets new contents; it is created if nothing is there.
A directory has no contents to be changed. -/
def write (bytes : List UInt8) (fs : FileSystem) : FileSystem :=
  match fs.entry with
  | .file id => { fs with files := fs.files.set id bytes }
  | .missing => fs.replace bytes
  | .directory => fs

def remove (fs : FileSystem) : FileSystem :=
  { fs with entry := .missing }

/-- What is at the path makes way for a directory. -/
def makeDirectory (fs : FileSystem) : FileSystem :=
  { fs with entry := .directory }

/-- The path leads to no file that never existed. -/
def IsValid (fs : FileSystem) : Prop :=
  ∀ id, fs.entry = .file id → id < fs.files.length

theorem isValid_replace (bytes : List UInt8) (fs : FileSystem) :
    (fs.replace bytes).IsValid := by
  intro id hid
  simp only [replace, PathEntry.file.injEq] at hid
  simp [replace, ← hid]

theorem isValid_write {fs : FileSystem} (hvalid : fs.IsValid)
    (bytes : List UInt8) : (fs.write bytes).IsValid := by
  unfold write
  split
  · next id hentry =>
    intro other hother
    simpa using hvalid other hother
  · exact isValid_replace bytes fs
  · exact hvalid

theorem isValid_remove (fs : FileSystem) : fs.remove.IsValid := by
  intro id hid
  simp [remove] at hid

theorem isValid_makeDirectory (fs : FileSystem) :
    fs.makeDirectory.IsValid := by
  intro id hid
  simp [makeDirectory] at hid

/-- What is written can be read at the path, unless a directory is there. -/
theorem current?_write {fs : FileSystem} (hvalid : fs.IsValid)
    (hdirectory : fs.entry ≠ .directory) (bytes : List UInt8) :
    (fs.write bytes).current? = some bytes := by
  unfold write
  split
  · next id hentry =>
    simp [current?, contents, hentry, hvalid id hentry]
  · simp [replace, current?, contents]
  · next hentry => exact absurd hentry hdirectory

theorem current?_replace (bytes : List UInt8) (fs : FileSystem) :
    (fs.replace bytes).current? = some bytes := by
  simp [replace, current?, contents]

theorem contents_replace {fs : FileSystem} {id : Nat}
    (hid : id < fs.files.length) (bytes : List UInt8) :
    (fs.replace bytes).contents id = fs.contents id := by
  simp [replace, contents, List.getElem?_append_left hid]

end FileSystem
end RaidStatus

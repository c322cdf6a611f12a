import Bindery.Fault
import Bindery.Text.ByteName
import Bindery.WrittenPath

/-!
# Disks

The directories and files that a command finds and leaves behind. A file is known by the document it
holds. A path is followed step by step: every step must start in a directory, and two dots lead back
to the directory above. A disk keeps names as bytes and takes names and paths up to a greatest
length only; no path may hold the null character or half of a character that does not stand for a
byte. A file that cannot be written leaves the disk as it was; of directories that cannot all be
made, the first ones stay.
-/

namespace Bindery

/-- A place on a disk: the names on the way down from the root, as they are shown. -/
abbrev Place := List String

/-- What a file holds. -/
inductive FileContent where
  /-- A text that reads as a document. -/
  | document (v : Value)
  /-- A text that is no document. -/
  | unreadable (why : DocumentFault)
  deriving DecidableEq

/-- What stands at a place. -/
inductive DiskNode where
  /-- A directory. -/
  | directory
  /-- A file. -/
  | file (content : FileContent)
  deriving DecidableEq

/-- Directories and files, and where relative paths begin. -/
structure Disk where
  /-- The working directory; it exists, with everything above it. -/
  workingDirectory : Place
  /-- All other directories. -/
  directories : List Place := []
  /-- The files, in the order in which they were first written. -/
  files : List (Place × FileContent) := []

namespace Disk

/-- Whether a directory stands at a place. -/
def hasDirectory (d : Disk) (p : Place) : Bool :=
  p.isPrefixOf d.workingDirectory || d.directories.contains p

/-- What stands at a place. -/
def node? (d : Disk) (p : Place) : Option DiskNode :=
  if d.hasDirectory p then some .directory else (d.files.lookup p).map .file

/-- The names on the way down with one more; two dots lead back up, from the root to the root. -/
def step (here : List String) (name : String) : List String :=
  if name = ".." then here.dropLast else here ++ [name]

/-- The number of bytes of a name or a path. -/
def byteLength (s : String) : Nat := (Text.bytes s.toList).length

/-- The greatest length of a name, in bytes. -/
def longestName : Nat := 255

/-- The greatest length of a path, in bytes. -/
def longestPath : Nat := 4095

/-- Follows names from a place. What the last one leads to need not exist. -/
def follow (d : Disk) (here : Place) : List String → Except Fault Place
  | [] => .ok here
  | name :: rest =>
    match d.node? here with
    | some .directory =>
      if longestName < byteLength name then .error (.disk .tooLong)
      else d.follow (step here (Text.kept name)) rest
    | some (.file _) => .error (.disk .throughFile)
    | none => .error (.disk .missing)

/-- Where a path begins. -/
def start (d : Disk) (p : WrittenPath) : Place := if p.root = 0 then d.workingDirectory else []

/-- Names can be kept: they hold no half of a character that does not stand for a byte, and not the
null character. -/
def checkNames (names : List String) : Except Fault Unit :=
  let isLost (n : Nat) : Bool := Text.isHalfCode n && !Text.isByteHalf n
  if names.any fun name => (Text.codes name.toList).any isLost then .error (.disk .brokenPath)
  else if names.any fun name => name.toList.contains '\x00' then .error (.disk .illegalPath)
  else .ok ()

/-- The place a path leads to. -/
def place (d : Disk) (p : WrittenPath) : Except Fault Place := do
  checkNames p.components
  if longestPath < byteLength p.render then throw (.disk .tooLong)
  d.follow (d.start p) p.components

/-- Whether a path leads to something. Nothing can be said of a path that is too long. -/
def holds (d : Disk) (p : WrittenPath) : Except Fault Bool :=
  match d.place p with
  | .ok q => .ok (d.node? q).isSome
  | .error (.disk .tooLong) => .error (.disk .tooLong)
  | .error _ => .ok false

/-- Whether a path leads to a directory. -/
def isDirectory (d : Disk) (p : WrittenPath) : Bool :=
  match d.place p with
  | .ok q => d.node? q = some .directory
  | .error _ => false

/-- Whether a path leads to a directory, with its length counted as it is written. -/
def isDirectoryAt (d : Disk) (path : String) : Bool :=
  byteLength path ≤ longestPath && d.isDirectory (.ofString path)

/-- The document in the file that a path leads to. -/
def read (d : Disk) (p : WrittenPath) : Except Fault Value := do
  match d.node? (← d.place p) with
  | some (.file (.document v)) => return v
  | some (.file (.unreadable why)) => throw (.disk (.unreadable why))
  | some .directory => throw (.disk .isDirectory)
  | none => throw (.disk .missing)

/-- The absolute form of a path, in which two dots have been worked off as they are written, one
name after another. -/
def absolute (d : Disk) (p : WrittenPath) : Except Fault WrittenPath := do
  p.components.forM fun name => checkNames [name]
  return ⟨1, p.components.foldl step (d.start p)⟩

/-- Makes a directory, unless it is there, in a directory that must be there. -/
def makeDirectory (d : Disk) (p : WrittenPath) : Except Fault Disk := do
  let q ← d.place p
  match d.node? q with
  | some .directory => return d
  | some (.file _) => throw (.disk .isFile)
  | none => return { d with directories := d.directories ++ [q] }

/-- A directory that was to be made: the disk with it, or the disk as it was and why not. -/
def settle (d : Disk) : Except Fault Disk → Disk × Option Fault
  | .ok made => (made, none)
  | .error fault => (d, some fault)

/-- Makes the directory at the end of names, which are given in reverse, with everything that is
missing above it. What could be made stays when something cannot. -/
def makeUpTo (d : Disk) (root : Nat) : List String → Disk × Option Fault
  | [] => d.settle (d.makeDirectory ⟨root, []⟩)
  | name :: above =>
    let path : WrittenPath := ⟨root, (name :: above).reverse⟩
    match d.settle (d.makeDirectory path) with
    | (_, some (.disk .missing)) =>
      match d.makeUpTo root above with
      | (below, none) => below.settle (below.makeDirectory path)
      | failed => failed
    | settled => settled

/-- Makes a directory with everything that is missing above it. -/
def makeDirectories (d : Disk) (p : WrittenPath) : Disk × Option Fault :=
  d.makeUpTo p.root p.components.reverse

/-- The files after writing one; a file that is there keeps its position. -/
def putFile (p : Place) (content : FileContent) :
    List (Place × FileContent) → List (Place × FileContent)
  | [] => [(p, content)]
  | (q, c) :: rest => if q = p then (q, content) :: rest else (q, c) :: putFile p content rest

/-- Writes a file into a directory that is there. -/
def write (d : Disk) (p : WrittenPath) (content : FileContent) : Except Fault Disk := do
  let q ← d.place p
  match d.node? q with
  | some .directory => throw (.disk .isDirectory)
  | _ => return { d with files := putFile q content d.files }

/-- The files of a disk that another one does not have. -/
def filesBeyond (d older : Disk) : List (Place × FileContent) :=
  d.files.filter fun f => (older.files.lookup f.1).isNone

/-- Making a directory leaves the files alone. -/
theorem files_of_makeDirectory {d e : Disk} {p : WrittenPath}
    (h : d.makeDirectory p = .ok e) : e.files = d.files := by
  unfold makeDirectory at h
  cases hq : d.place p with
  | error fault => simp [hq, bind, Except.bind] at h
  | ok q =>
    simp only [hq, bind, Except.bind] at h
    split at h
    · cases h; rfl
    · cases h
    · cases h; rfl

/-- Making a directory leaves the files alone, also if it fails. -/
theorem files_settle_makeDirectory (d : Disk) (p : WrittenPath) :
    (d.settle (d.makeDirectory p)).1.files = d.files := by
  cases h : d.makeDirectory p with
  | ok made => exact files_of_makeDirectory h
  | error fault => rfl

/-- Making directories up to a place leaves the files alone. -/
theorem files_makeUpTo (d : Disk) (root : Nat) (above : List String) :
    (d.makeUpTo root above).1.files = d.files := by
  induction above with
  | nil => exact files_settle_makeDirectory d _
  | cons name above ih =>
    rw [makeUpTo]
    split
    · split
      · next below made =>
        rw [made] at ih
        exact (files_settle_makeDirectory below _).trans ih
      · exact ih
    · exact files_settle_makeDirectory d _

/-- Making directories leaves the files alone. -/
theorem files_makeDirectories (d : Disk) (p : WrittenPath) :
    (d.makeDirectories p).1.files = d.files :=
  files_makeUpTo d p.root p.components.reverse

/-- Reading back the file just written. -/
theorem lookup_putFile (p : Place) (content : FileContent) (fs : List (Place × FileContent)) :
    (putFile p content fs).lookup p = some content := by
  induction fs with
  | nil => simp [putFile]
  | cons f fs ih =>
    obtain ⟨q, c⟩ := f
    rw [putFile]
    split
    · next h => simp [h]
    · next h =>
      have h' : (p == q) = false := by simpa using fun he => h he.symm
      simpa [List.lookup_cons, h'] using ih

end Disk

end Bindery

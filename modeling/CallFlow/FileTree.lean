import CallFlow.Association
import CallFlow.Path

/-!
# Files and directories

The operations on files that a command is written with (`MonadFiles`), and a tree of files in
memory that they run on (`FileTree`). The tree knows the working directory and what lies below it;
the directories above it are there, but what they hold is seen only after it was written.
-/

namespace CallFlow

/-- Why an operation on a file fails. -/
inductive FileFault where
  | missing
  | isDirectory
  | notDirectory
  | alreadyExists
  deriving DecidableEq, Repr

/-- The operations on files. -/
class MonadFiles (m : Type → Type) where
  /-- The text of a file. -/
  readText : Path → m (Except FileFault String)
  /-- Makes a directory and the directories that lead to it, where they are not there yet. -/
  makeDirectories : Path → m (Except FileFault Unit)
  /-- Writes a file into a directory that is there. -/
  writeText : Path → String → m (Except FileFault Unit)

/-- A place in a tree: the names that lead to it from the working directory. Only leading names
are two points, which lead upwards. -/
abbrev Location := List String

/-- Files with their texts, and directories. -/
structure FileTree where
  directories : List Location
  files : List (Location × String)
  deriving Repr

namespace FileTree

/-- The place of the topmost directory. -/
def top : Location := ["/"]

/-- Whether a directory is at a place. -/
def isDirectory (t : FileTree) (place : Location) : Bool :=
  place.all (· = "..") || place = top || t.directories.contains place

/-- The text of the file at a place. -/
def file? (t : FileTree) (place : Location) : Option String :=
  Association.lookup? (· = ·) place t.files

/-- Why no directory is at a place. -/
def checkDirectory (t : FileTree) (place : Location) : Except FileFault Unit :=
  if t.isDirectory place then .ok ()
  else if (t.file? place).isSome then .error .notDirectory
  else .error .missing

/-- The place that a name leads to. -/
def step (place : Location) (name : String) : Location :=
  if name = ".." then
    if place = top then top
    else if place.all (· = "..") then place ++ [".."]
    else place.dropLast
  else place ++ [name]

/-- The place where names lead to. All of them but the last lead to directories. -/
def locateFrom (t : FileTree) : Location → List String → Except FileFault Location
  | place, [] => .ok place
  | place, name :: rest => do
    t.checkDirectory place
    t.locateFrom (step place name) rest

/-- The place where a path starts. -/
def origin (p : Path) : Location := if p.root = "" then [] else top

/-- The place where a path leads to. -/
def locate (t : FileTree) (p : Path) : Except FileFault Location := t.locateFrom (origin p) p.parts

/-- The text of the file that a path leads to. -/
def readText (t : FileTree) (p : Path) : Except FileFault String := do
  let place ← t.locate p
  if t.isDirectory place then .error .isDirectory
  else
    match t.file? place with
    | some text => .ok text
    | none => .error .missing

/-- The tree with the directory that a path leads to, if it leads to no file. -/
def makeDirectory (t : FileTree) (p : Path) : Except FileFault FileTree := do
  let place ← t.locate p
  if t.isDirectory place then .ok t
  else if (t.file? place).isSome then .error .alreadyExists
  else .ok { t with directories := t.directories ++ [place] }

/-- Makes the directories that names lead to behind others, one after the other. What was made
stays when a later one fails; a file on the way is no directory. -/
def makeAll (t : FileTree) (p : Path) : List String → FileTree × Except FileFault Unit
  | [] => (t, .ok ())
  | name :: rest =>
    let p := { p with parts := p.parts ++ [name] }
    match t.makeDirectory p with
    | .ok t => t.makeAll p rest
    | .error e => (t, .error (if e = .alreadyExists && !rest.isEmpty then .notDirectory else e))

/-- Makes the directories on a path. -/
def makeDirectories (t : FileTree) (p : Path) : FileTree × Except FileFault Unit :=
  t.makeAll ⟨p.root, []⟩ p.parts

/-- The tree with a file written. -/
def writeText (t : FileTree) (p : Path) (text : String) : Except FileFault FileTree := do
  let place ← t.locate p
  if t.isDirectory place then .error .isDirectory
  else .ok { t with files := Association.insert (· = ·) place text t.files }

/-- The tree with a file written and the directories on its path made. -/
def addFile (t : FileTree) (path text : String) : FileTree :=
  let p := Path.ofText path
  let made := (t.makeDirectories p.parent).1
  match made.writeText p text with
  | .ok t => t
  | .error _ => made

/-- The tree without files. -/
def empty : FileTree := ⟨[], []⟩

/-- The tree of files by their paths. -/
def ofFiles (files : List (String × String)) : FileTree :=
  files.foldl (fun t f => t.addFile f.1 f.2) empty

/-- The text of a place below the working directory. -/
def placeText (place : Location) : String := "/".intercalate place

/-- Whether a place is below the working directory. -/
def isBelow (place : Location) : Bool := place.head? ≠ some ".." && place.head? ≠ some "/"

instance : MonadFiles (StateM FileTree) where
  readText p := fun t => (t.readText p, t)
  makeDirectories p := fun t => let (t, r) := t.makeDirectories p; (r, t)
  writeText p text := fun t =>
    match t.writeText p text with
    | .ok t => (.ok (), t)
    | .error e => (.error e, t)

end FileTree

end CallFlow

import ThreeAddress.Files.Fault
import ThreeAddress.Files.Path

/-!
# File trees

The files and directories below a working directory. An entry is found by the names on the
way to it; a path is **walked** segment by segment, and every segment needs a directory to
start from.
-/

namespace ThreeAddress

/-- What can be at some place of a file tree. -/
inductive FileTree.Entry where
  | folder
  /-- A file, with its text if its bytes are one. -/
  | file (text? : Option String)
deriving DecidableEq, Repr, Inhabited

/-- Files and directories by the names that lead to them. -/
structure FileTree where
  entries : List (List String × FileTree.Entry) := []
deriving DecidableEq, Repr, Inhabited

namespace FileTree

/-- What is at the end of the names. -/
def get? (t : FileTree) (names : List String) : Option Entry :=
  if names.isEmpty then some .folder else t.entries.lookup names

/-- The tree with the entry at the end of the names. -/
def put (t : FileTree) (names : List String) (e : Entry) : FileTree :=
  ⟨(names, e) :: t.entries.filter (·.1 ≠ names)⟩

/-- The longest name in bytes. -/
def longestName : Nat := 255

/-- The names after one more segment. -/
def advance (names : List String) (segment : String) : List String :=
  if Path.isIdle segment then names
  else if segment = ".." then names.dropLast
  else names ++ [segment]

/-- The names that the segments lead to. -/
def walk (t : FileTree) (names : List String) : List String → Except FileFault (List String)
  | [] => .ok names
  | s :: rest =>
    match t.get? names with
    | none => .error .missing
    | some (.file _) => .error .notFolder
    | some .folder =>
      if s.utf8ByteSize ≤ longestName then t.walk (advance names s) rest
      else .error .nameTooLong

/-- Paths that lead nowhere whatever the tree holds: nothing above the working directory can
be reached. -/
def check (p : Path) : Except FileFault Unit :=
  if p.segments.any (·.contains '\x00') then .error .nulInName
  else if p.steps.isEmpty || p.parts.1 = .root then .error .missing
  else .ok ()

/-- The names that a path leads to from the working directory. -/
def resolve (t : FileTree) (p : Path) : Except FileFault (List String) := do
  check p
  t.walk [] p.segments

/-- What is at a path. -/
def entry (t : FileTree) (p : Path) : Except FileFault Entry := do
  match t.get? (← t.resolve p) with
  | some e => return e
  | none => throw .missing

/-- Whether there is a directory at the path. -/
def isFolder (t : FileTree) (p : Path) : Bool :=
  match t.entry p with
  | .ok .folder => true
  | _ => false

/-- The text of the file at the path. -/
def read (t : FileTree) (p : Path) : Except FileFault String := do
  match ← t.entry p with
  | .folder => throw .isFolder
  | .file none => throw .notText
  | .file (some s) => return s

/-- The names of all files below the directory at the end of `names`, read from there. -/
def filesBelow (t : FileTree) (names : List String) : List (List String) :=
  t.entries.filterMap fun (place, e) =>
    match e with
    | .folder => none
    | .file _ => if names.isPrefixOf place then some (place.drop names.length) else none

/-- The place for something new at a path, which needs a directory around it: the names that
lead there, or none if the path ends in dots. -/
def place (t : FileTree) (p : Path) : Except FileFault (Option (List String)) := do
  check p
  match p.segments.reverse.dropWhile (· == "") with
  | [] => throw .missing
  | s :: before =>
    if s == "." || s == ".." then
      let _ ← t.entry p
      return none
    else
      -- one more idle step, so that the last name before it has to be a directory
      let around ← t.walk [] (before.reverse ++ ["."])
      if s.utf8ByteSize ≤ longestName then return some (around ++ [s])
      else throw .nameTooLong

/-- The tree with a new directory at the path. -/
def makeFolder (t : FileTree) (p : Path) : Except FileFault FileTree := do
  match ← t.place p with
  | none => throw .occupied
  | some names =>
    match t.get? names with
    | some _ => throw .occupied
    | none => return t.put names .folder

/-- The tree with the text in the file at the path. -/
def write (t : FileTree) (p : Path) (s : String) : Except FileFault FileTree := do
  match ← t.place p with
  | none => throw .isFolder
  | some names =>
    if p.segments.getLast? = some "" || t.get? names = some .folder then throw .isFolder
    else return t.put names (.file (some s))

end FileTree

end ThreeAddress

import ThreeAddress.Files.Tree
import ThreeAddress.Log

/-!
# The world around a run

What a run reads and changes apart from its own results: files, the clock and the two output
channels. `World` lists the operations, and a `Session` is a world held in memory, where
everything that a run did can be looked up afterwards.
-/

namespace ThreeAddress

/-- What a run can do to the world around it. -/
class World (m : Type → Type) where
  readText : Path → m (Except FileFault String)
  writeText : Path → String → m (Except FileFault Unit)
  makeFolder : Path → m (Except FileFault Unit)
  isFolder : Path → m Bool
  /-- The names of all files below a directory, read from there. -/
  filesBelow : Path → m (List (List String))
  /-- The current time. -/
  now : m String
  /-- Writes a text to the output channel. -/
  print : String → m Unit
  /-- Writes a text to the error channel. -/
  complain : String → m Unit

/-- A world held in memory. -/
structure Session where
  tree : FileTree := {}
  clock : String := ""
  printed : String := ""
  complained : String := ""
deriving DecidableEq, Repr, Inhabited

namespace Session

/-- Tries to change the tree, which stays as it is if that fails. -/
def change (f : FileTree → Except FileFault FileTree) : StateM Session (Except FileFault Unit) :=
  fun s =>
    match f s.tree with
    | .ok tree => (.ok (), { s with tree })
    | .error e => (.error e, s)

instance : World (StateM Session) where
  readText p := return (← get).tree.read p
  writeText p text := change (·.write p text)
  makeFolder p := change (·.makeFolder p)
  isFolder p := return (← get).tree.isFolder p
  filesBelow p := return ((← get).tree.resolve p).toOption.elim [] (← get).tree.filesBelow
  now := return (← get).clock
  print text := modify fun s => { s with printed := s.printed ++ text }
  complain text := modify fun s => { s with complained := s.complained ++ text }

end Session

section

variable {m : Type → Type} [Monad m] [World m]

/-- Puts an entry into the log, if entries of its severity are shown. -/
def World.tell (shown : Severity) (e : LogEntry) : m Unit :=
  if e.severity.shownAt shown then World.complain (e.line ++ "\n") else return ()

/-- Makes the first directory, after those around it where they are missing. The directories
are given from the innermost on, and one that is there already is as good as a new one. -/
def makeFolders : List Path → m (Except FileFault Unit)
  | [] => return .ok ()
  | p :: around => do
    let kept (e : FileFault) : m (Except FileFault Unit) := do
      if e = .occupied && (← World.isFolder p) then return .ok () else return .error e
    match ← World.makeFolder p with
    | .ok () => return .ok ()
    | .error .missing =>
      match ← makeFolders around with
      | .error e => return .error e
      | .ok () =>
        match ← World.makeFolder p with
        | .ok () => return .ok ()
        | .error e => kept e
    | .error e => kept e

/-- Writes a file, with the directories that it lies in. -/
def writeWithFolders (p : Path) (text : String) : m (Except FileFault Unit) := do
  match ← makeFolders p.folders with
  | .error e => return .error e
  | .ok () => World.writeText p text

end

end ThreeAddress

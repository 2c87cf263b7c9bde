import Std.Time.DateTime.Timestamp
import ThreeAddress.Command.Clock
import ThreeAddress.Command.Run

/-!
# The program

The world of files and channels that the program is started in, and `main`.
-/

namespace ThreeAddress

/-- The number that the system gives to an error. -/
def errorCode? : IO.Error → Option UInt32
  | .alreadyExists _ code _ | .noFileOrDirectory _ code _ | .invalidArgument _ code _
  | .permissionDenied _ code _ | .resourceExhausted _ code _ | .inappropriateType _ code _
  | .noSuchThing _ code _ | .interrupted _ code _ => some code
  | .otherError code _ | .resourceBusy code _ | .resourceVanished code _
  | .unsupportedOperation code _ | .hardwareFault code _ | .unsatisfiedConstraints code _
  | .illegalOperation code _ | .protocolError code _ | .timeExpired code _ => some code
  | .unexpectedEof | .userError _ => none

/-- The fault that an error of the system stands for. -/
def FileFault.ofError (e : IO.Error) : FileFault :=
  match errorCode? e with
  | some 2 => .missing
  | some 17 => .occupied
  | some 20 => .notFolder
  | some 21 => .isFolder
  | some 36 => .nameTooLong
  | _ => .other (toString e)

/-- The value of an action, or the fault that stopped it. -/
def faulty {α : Type} (action : IO α) : IO (Except FileFault α) := do
  try
    return .ok (← action)
  catch e => return .error (.ofError e)

/-- The directory at a path. -/
def folderAt (p : Path) : IO.FS.DirEntry :=
  ⟨p.text, ""⟩

/-- The names of all files below a directory, read from there. -/
partial def listFiles (dir : IO.FS.DirEntry) : IO (List (List String)) := do
  let mut found := []
  for e in ← dir.root.readDir do
    if ← e.path.isDir then
      let below ← listFiles ⟨e.path, ""⟩
      found := found ++ below.map (e.fileName :: ·)
    else
      found := found ++ [[e.fileName]]
  return found

instance : World IO where
  readText p := do
    match ← faulty (IO.FS.readBinFile p.text) with
    | .error fault => return .error fault
    | .ok bytes =>
      match String.fromUTF8? bytes with
      | some text => return .ok text
      | none => return .error .notText
  writeText p text := faulty (IO.FS.writeFile p.text text)
  makeFolder p := faulty (IO.FS.createDir p.text)
  isFolder p := (folderAt p).root.isDir
  filesBelow p := do
    match ← faulty (listFiles (folderAt p)) with
    | .ok found => return found
    | .error _ => return []
  now := do
    let time ← Std.Time.Timestamp.now
    let nanos := time.toNanosecondsSinceUnixEpoch.val.toNat
    return Command.timeText (nanos / 1000000000) (nanos % 1000000000)
  print text := IO.print text
  complain text := IO.eprint text

end ThreeAddress

/-- Runs the program. -/
def main (args : List String) : IO UInt32 := do
  return UInt32.ofNat (← ThreeAddress.Command.run args)

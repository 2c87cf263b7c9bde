/-!
# File faults

Why a file or a directory cannot be read or written.
-/

namespace ThreeAddress

/-- Why an operation on a file failed. -/
inductive FileFault where
  /-- There is nothing at the path. -/
  | missing
  /-- There is something at the path already. -/
  | occupied
  /-- The path goes through something that is no directory. -/
  | notFolder
  /-- There is a directory at the path. -/
  | isFolder
  /-- A name of the path has too many bytes. -/
  | nameTooLong
  /-- A name of the path holds the character that ends a path. -/
  | nulInName
  /-- The bytes of the file are no text. -/
  | notText
  | other (message : String)
deriving DecidableEq, Repr, Inhabited

/-- What a message about the fault says. -/
def FileFault.text : FileFault → String
  | .missing => "No such file or directory (os error 2)"
  | .occupied => "File exists (os error 17)"
  | .notFolder => "Not a directory (os error 20)"
  | .isFolder => "Is a directory (os error 21)"
  | .nameTooLong => "File name too long (os error 36)"
  | .nulInName => "file name contained an unexpected NUL byte"
  | .notText => "stream did not contain valid UTF-8"
  | .other message => message

end ThreeAddress

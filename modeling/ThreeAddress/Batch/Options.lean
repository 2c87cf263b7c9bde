import ThreeAddress.Lowering.Options

/-!
# Batch options

What a user can choose about the conversion of a directory.
-/

namespace ThreeAddress.Batch

/-- The choices for converting a directory. -/
structure Options where
  /-- What the name of the output directory has after that of the input directory. -/
  outputSuffix : String := "_TAC"
  /-- Puts every listing between the tags of a PHP file. -/
  wrapTags : Bool := true
  /-- The number of files to convert at the same time; zero stands for any number. -/
  jobs : Nat := 0
  lower : Lowering.Options := {}
deriving DecidableEq, Repr, Inhabited

end ThreeAddress.Batch

import ThreeAddress.Files.World
import ThreeAddress.Source.Script

/-!
# Loading scripts

Scripts are read from files, and are named by the last name of their path.
-/

namespace ThreeAddress

/-- Reads the script at a path. -/
def Script.load {m : Type → Type} [Monad m] [World m] (p : Path) :
    m (Except MissingScript Script) := do
  match ← World.readText p with
  | .ok content => return .ok ⟨p.fileName?.getD "", p.text, content⟩
  | .error fault => return .error ⟨p.text, fault.text⟩

end ThreeAddress

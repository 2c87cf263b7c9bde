/-!
# Paths

A path is kept as it was written, as the list of the texts between its slashes. What it
means is the list of its **steps**: empty texts and single dots say nothing, apart from a
dot at the very start. Paths are compared, ordered and stripped by their steps, so two
spellings of one path are equal, while `text` gives back what was written.
-/

namespace ThreeAddress

/-- A file path as it was written. -/
structure Path where
  /-- The texts between the slashes. -/
  segments : List String
deriving DecidableEq, Repr, Inhabited

namespace Path

/-- The texts between the slashes. -/
def pieces : List Char → List (List Char)
  | [] => [[]]
  | c :: cs =>
    if c = '/' then [] :: pieces cs
    else
      match pieces cs with
      | [] => [[c]]
      | p :: ps => (c :: p) :: ps

/-- The path that is written so. -/
def ofText (s : String) : Path :=
  ⟨(pieces s.toList).map String.ofList⟩

/-- The path as it was written. -/
def text (p : Path) : String :=
  "/".intercalate p.segments

/-! ## Steps -/

/-- One step of a path, in the order in which paths are sorted. -/
inductive Step where
  | root
  /-- A dot at the start. -/
  | here
  | up
  | name (s : String)
deriving DecidableEq, Repr, Inhabited, Ord

/-- What a path starts with. -/
inductive Lead where
  | nothing
  | here
  | root
deriving DecidableEq, Repr, Inhabited

/-- The step that a path starts with, if it does not start with a name. -/
def Lead.steps : Lead → List Step
  | .nothing => []
  | .here => [.here]
  | .root => [.root]

/-- What the path starts with, and the segments after that. -/
def parts (p : Path) : Lead × List String :=
  match p.segments with
  | "" :: s :: rest => (.root, s :: rest)
  | "." :: rest => (.here, rest)
  | segments => (.nothing, segments)

/-- The path with the given start and the given segments after it. -/
def ofParts : Lead → List String → Path
  | .nothing, body => ⟨body⟩
  | .here, body => ⟨"." :: body⟩
  | .root, [] => ⟨["", ""]⟩
  | .root, body => ⟨"" :: body⟩

/-- Whether a segment after the start says nothing. -/
def isIdle (s : String) : Bool :=
  s == "" || s == "."

/-- The step of a segment after the start. -/
def step? (s : String) : Option Step :=
  if isIdle s then none
  else if s == ".." then some .up
  else some (.name s)

/-- What the path means. -/
def steps (p : Path) : List Step :=
  p.parts.1.steps ++ p.parts.2.filterMap step?

/-- Whether `p` comes no later than `q` in the order of steps. -/
def le (p q : Path) : Bool :=
  (compare p.steps q.steps).isLE

/-- Whether two paths mean the same. -/
def same (p q : Path) : Bool :=
  p.steps == q.steps

/-! ## Operations -/

/-- Without the idle segments at the end. -/
def trimEnd (body : List String) : List String :=
  (body.reverse.dropWhile isIdle).reverse

/-- The path `q`, read from the directory `p`. -/
def join (p q : Path) : Path :=
  if q.parts.1 = .root then q
  else if p.segments.getLast? = some "" then ⟨p.segments.dropLast ++ q.segments⟩
  else ⟨p.segments ++ q.segments⟩

/-- The last name of the path, unless it ends by going up. -/
def fileName? (p : Path) : Option String :=
  (trimEnd p.parts.2).getLast?.filter (· ≠ "..")

/-- What is left of some segments after the given names, which they must start with. -/
def dropNames : List String → List String → Option (List String)
  | [], body => some body
  | _ :: _, [] => none
  | n :: names, s :: body =>
    if isIdle s then dropNames (n :: names) body
    else if s = n then dropNames names body
    else none

/-- The path `p` as it reads from the directory `base`, where it starts with that. -/
def under? (p base : Path) : Option Path :=
  let (lead, body) := p.parts
  let (baseLead, baseBody) := base.parts
  if base.steps.isEmpty then some (ofParts lead (trimEnd body))
  else if lead = baseLead then
    (dropNames (baseBody.filter (!isIdle ·)) body).map fun rest =>
      ⟨trimEnd (rest.dropWhile isIdle)⟩
  else none

/-- The path with the given start and segments, then the paths around it, the innermost
first. The segments are given in reverse. -/
def outward (lead : Lead) : List String → List Path
  | [] => if lead = .here then [⟨["."]⟩] else []
  | s :: rest =>
    if isIdle s then outward lead rest
    else ofParts lead (s :: rest).reverse :: outward lead rest

/-- The directories that something at the path lies in, the innermost first. -/
def folders (p : Path) : List Path :=
  (outward p.parts.1 p.parts.2.reverse).drop 1

end Path

end ThreeAddress

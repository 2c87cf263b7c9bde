import ThreeAddress.Syntax.Build
import ThreeAddress.Text.Blank

/-!
# Declarations

Building functions, classes, interfaces and traits, and the parts that they share with
closures and anonymous classes.
-/

namespace ThreeAddress.Syntax

open Build

/-- The statements of a block. -/
def blockBody (block : Part) : Build (List Node) :=
  buildAll .statement (block.partsOf .statement)

/-- The statements of a block that may be missing. -/
def blockBody? (block : Option Part) : Build (Option (List Node)) :=
  Build.option (block.map blockBody)

/-- A name, split into its segments. -/
def nameNode (e : Extent) : Build Node :=
  let text := e.text
  nodeAt e (.qualifiedName ((text.splitOn "\\").filter (!·.isEmpty)) (e.chars.head? == some '\\'))

mutual

/-- The names of a list, or of a clause around a list. -/
def namesOf : Part → Build (List Node)
  | ⟨_, e, _, children⟩ => namesAmong e children

/-- The names among the parts of a rule that stands at `e`. -/
def namesAmong (e : Extent) : List Part → Build (List Node)
  | [] => return []
  | p :: ps => do
    let names ← if p.rule.isKeyword then pure []
      else if p.rule = .nameList then namesOf p
      else List.singleton <$> buildAmong .name e p
    return names ++ (← namesAmong e ps)

end

/-- The names that a declaration lists. -/
def nameList (ps : List Part) : Build (List Node) :=
  match (partOf? .implementsClause ps).or (partOf? .nameList ps) with
  | some names => namesOf names
  | none => return []

/-- The parent of a class. -/
def parentClass (ps : List Part) : Build (Option Node) :=
  Build.option ((partOf? .extendsClause ps).map fun clause =>
    buildFirst .qualifiedName clause.extent clause.parts)

/-- The members of a class, an interface or a trait. -/
def memberList (ps : List Part) : Build (List Node) :=
  match partOf? .classBody ps with
  | some body => buildAll .classMember body.parts
  | none => return []

/-- A member of a class. -/
def memberNode (e : Extent) : List Part → Build Node :=
  withFirst e fun p => buildAmong .classMember p.extent p

/-- The parameters of a function. -/
def paramList (ps : List Part) : Build (List Node) :=
  match partOf? .paramList ps with
  | some params => buildAll .param params.parts
  | none => return []

/-- The words of the modifiers that the given rule matched. -/
def modifierWords (r : Grammar.Rule) (ps : List Part) : List String :=
  (ps.filter (·.rule == r)).map (·.word)

/-- The declared name. -/
def declaredName (ps : List Part) : String :=
  ((partOf? .identifier ps).map (·.text)).getD ""

/-- Whether one of the parts is the mark of a reference. -/
def isByRef (ps : List Part) : Bool :=
  ps.any (·.rule == .byRef)

/-- A parameter; its type is written without blanks. -/
def paramNode (e : Extent) (ps : List Part) : Build Node :=
  match partOf? .variableName ps with
  | some v => do
    let default ← buildOption .expr (partOf? .expr ps)
    let typeHint := (partOf? .typeHint ps).map fun t => Text.withoutBlanks t.text
    nodeAt e (.param v.variableName default (isByRef ps) (ps.any (·.rule == .variadic)) typeHint)
  | none => failAt e (.lacking .parameterName)

/-- A function. -/
def functionNode (e : Extent) (ps : List Part) : Build Node := do
  let params ← paramList ps
  let body ← blockBody? (partOf? .block ps)
  nodeAt e (.functionDecl (declaredName ps) params (body.getD []) (isByRef ps))

/-- A class with a name. -/
def classNode (e : Extent) (ps : List Part) : Build Node := do
  let parent ← parentClass ps
  let interfaces ← nameList ps
  let members ← memberList ps
  nodeAt e (.classDecl (some (declaredName ps)) (modifierWords .classModifier ps) parent
    interfaces members)

/-- An interface. -/
def interfaceNode (e : Extent) (ps : List Part) : Build Node := do
  let parents ← nameList ps
  let members ← memberList ps
  nodeAt e (.interfaceDecl (declaredName ps) parents members)

/-- A trait. -/
def traitNode (e : Extent) (ps : List Part) : Build Node := do
  let members ← memberList ps
  nodeAt e (.traitDecl (declaredName ps) members)

/-- A method, without a body where it is abstract. -/
def methodNode (e : Extent) (ps : List Part) : Build Node := do
  let params ← paramList ps
  let body ← blockBody? (partOf? .block ps)
  nodeAt e (.methodDecl (declaredName ps) (modifierWords .memberModifier ps) params body
    (isByRef ps))

/-- The properties that one declaration lists. -/
def propertiesNode (e : Extent) (ps : List Part) : Build Node := do
  let props ← buildAll .propertyItem (ps.filter (·.rule == .propertyItem))
  nodeAt e (.propertyDecl (modifierWords .memberModifier ps) props)

/-- One property with its default value. -/
def propertyNode (e : Extent) (ps : List Part) : Build Node := do
  let name ← withFirst e (fun v => return v.variableName) ps
  let default ← buildOption .expr ps.tail.head?
  nodeAt e (.propertyItem name default)

/-- The constants that one declaration lists. -/
def constItems (ps : List Part) : Build (List Node) :=
  buildAll .constItem (ps.filter (·.rule == .constItem))

/-- The constants that one declaration of a class lists. -/
def classConstNode (e : Extent) (ps : List Part) : Build Node := do
  let items ← constItems ps
  nodeAt e (.classConst (modifierWords .memberModifier ps) items)

/-- One constant with its value. -/
def constItemNode (e : Extent) (ps : List Part) : Build Node := do
  let name ← withFirst e (fun name => return name.text) ps
  let value ← buildFirst .expr e ps.tail
  nodeAt e (.constItem name value)

/-- The traits that a class uses. -/
def traitUseNode (e : Extent) (ps : List Part) : Build Node := do
  let traits ← nameList ps
  nodeAt e (.traitUse traits)

end ThreeAddress.Syntax

import ThreeAddress.Lowering.Planned

/-!
# Plans of declarations

Functions, classes, interfaces and traits are a header line, their lowered body and a
closing brace. A closure and an anonymous class are values: **nothing of their bodies
surfaces** in the instructions around them.
-/

namespace ThreeAddress.Lowering

open Syntax (Kind)
open Plan

/-- One statement after the other. -/
def codeOf (ns : List Planned) : Plan :=
  all (ns.map Planned.code)

/-- The words of modifiers, each with a blank after it. -/
def modifierText (modifiers : List String) : String :=
  String.join (modifiers.map (· ++ " "))

/-- A parameter. -/
def param (n : Planned) : Plan :=
  match n.kind with
  | .param name default byRef variadic typeHint =>
    mark n.id ++ text (typeHint.elim "" (· ++ " ")) ++ textIf byRef "&" ++ textIf variadic "..."
      ++ text ("$" ++ name) ++ optionAfter " = " (default.map Planned.value)
  | _ => n.notStatement

/-- The parameters of a function, divided by commas. -/
def params (ns : List Planned) : Plan :=
  joined ", " (ns.map param)

/-- An argument of a call. -/
def argument (n : Planned) : Plan :=
  match n.kind with
  | .argument value unpack byRef name =>
    mark n.id ++ text (name.elim "" (· ++ ": ")) ++ textIf unpack "..." ++ textIf byRef "&"
      ++ value.value
  | _ => n.value

/-- The arguments of a call, divided by commas. -/
def arguments (ns : List Planned) : Plan :=
  joined ", " (ns.map argument)

/-- Names with all their segments, divided by commas. -/
def names (ns : List Planned) : Plan :=
  joined ", " (ns.map Planned.fullName)

/-- Names after a word, or nothing if there are no names. -/
def namesAfter (word : String) (ns : List Planned) : Plan :=
  if ns.isEmpty then nothing else text word ++ names ns

/-- The parents in the header of a class. -/
def classParents (parent : Option Planned) (interfaces : List Planned) : Plan :=
  optionAfter " extends " (parent.map Planned.fullName) ++ namesAfter " implements " interfaces

/-- One constant with its value. -/
def constItem (n : Planned) : Plan :=
  match n.kind with
  | .constItem name value => mark n.id ++ text (name ++ " = ") ++ value.value
  | _ => n.notStatement

/-- Constants with their values, divided by commas. -/
def constItems (ns : List Planned) : Plan :=
  joined ", " (ns.map constItem)

/-- A property with its default value, as a line of its own. -/
def property (modifiers : List String) (n : Planned) : Plan :=
  match n.kind with
  | .propertyItem name default =>
    let words := if modifiers.isEmpty then "var " else modifierText modifiers
    line (mark n.id ++ text (words ++ "$" ++ name)
      ++ optionAfter " = " (default.map Planned.value) ++ text ";")
  | _ => n.notStatement

/-- The header of a function. -/
def functionHeader (modifiers : List String) (name : String) (byRef : Bool)
    (ns : List Planned) : Plan :=
  text (modifierText modifiers ++ "function ") ++ textIf byRef "&" ++ text (name ++ "(")
    ++ params ns ++ text ")"

/-- A header with a body that no jump leaves. -/
def declarationBody (header : Plan) (body : List Planned) : Plan :=
  braced header (apart (codeOf body))

/-- The plan of a declaration. -/
def declarationPlan (k : Kind Planned) : Plan :=
  declared k.name <| match k with
    | .functionDecl name params body byRef =>
      declarationBody (functionHeader [] name byRef params) body
    | .classDecl name modifiers parent interfaces members =>
      declarationBody (text (modifierText modifiers ++ "class " ++ name.getD "")
        ++ classParents parent interfaces) members
    | .interfaceDecl name parents members =>
      declarationBody (text ("interface " ++ name) ++ namesAfter " extends " parents) members
    | .traitDecl name members => declarationBody (text ("trait " ++ name)) members
    | .methodDecl name modifiers params (some body) byRef =>
      declarationBody (functionHeader modifiers name byRef params) body
    | .methodDecl name modifiers params none byRef =>
      line (functionHeader modifiers name byRef params ++ text ";")
    | .propertyDecl modifiers props => all (props.map (property modifiers))
    | .classConst modifiers items =>
      line (text (modifierText modifiers ++ "const ") ++ constItems items ++ text ";")
    | .traitUse traits => line (text "use " ++ names traits ++ text ";")
    | _ => nothing

/-- The node as a declaration. -/
def Planned.declaration (n : Planned) : Plan :=
  if n.kind.isDeclaration then n.plan else n.notStatement

/-! ## Values with a body -/

/-- A variable that a closure captures. -/
def closureUse (n : Planned) : Plan :=
  match n.kind with
  | .closureUse captured byRef => mark n.id ++ textIf byRef "&" ++ captured.value
  | _ => n.notExpression

/-- The captured variables in the header of a closure. -/
def closureUses (ns : List Planned) : Plan :=
  if ns.isEmpty then nothing
  else text " use (" ++ joined ", " (ns.map closureUse) ++ text ")"

/-- A closure or an arrow function. -/
def closure (ps uses body : List Planned) (byRef isStatic arrow : Bool) : Plan :=
  closed (textIf isStatic "static " ++ text (if arrow then "fn " else "function ")
    ++ textIf byRef "&" ++ text "(" ++ params ps ++ text ")" ++ closureUses uses) (codeOf body)

/-- The node as a closure. -/
def Planned.closureText (n : Planned) : Plan :=
  match n.kind with
  | .closure .. => n.plan
  | _ => n.notExpression

/-- An instance of a class that is declared in place. Its arguments are evaluated in the
instructions around it. -/
def anonymousClass (n : Planned) (args : List Planned) : Plan :=
  match n.kind with
  | .classDecl _ _ parent interfaces members =>
    mark n.id ++ text "new class(" ++ arguments args ++ text ")"
      ++ classParents parent interfaces ++ closed nothing (codeOf members)
  | _ => n.notExpression

end ThreeAddress.Lowering

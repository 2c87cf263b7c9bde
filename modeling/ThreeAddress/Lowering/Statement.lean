import ThreeAddress.Lowering.Expression

/-!
# Plans of statements

Control structures become labels and jumps; what has no place in three-address code, such as
a switch or a handler, keeps its braces.
-/

namespace ThreeAddress.Lowering

open Syntax (Kind)
open Plan

/-- The expressions of one clause of a `for` head as statements. -/
def expressionsCode (ns : List Planned) : Plan :=
  all (ns.map Planned.expressionCode)

/-- A loop with a head. All conditions but the last one are barriers. -/
def forPlan (init conditions step body : List Planned) : Plan :=
  match conditions.getLast? with
  | some test =>
    forLoop (expressionsCode init) (all (conditions.dropLast.map fun c => barrier c.value))
      test.value (expressionsCode step) (codeOf body)
  | none => endless (expressionsCode init) (expressionsCode step) (codeOf body)

/-- What a loop over a collection binds. -/
def bindingPlan (key : Option Planned) (value : Planned) (byRef : Bool) : Plan :=
  unlessEmpty "" (ofOption (key.map Planned.value)) " => " ++ textIf byRef "&" ++ value.value

/-- A case of a switch. -/
def casePlan (n : Planned) : Plan :=
  match n.kind with
  | .caseClause (some test) body =>
    line (mark n.id ++ text "case " ++ test.value ++ text ":") ++ codeOf body ++ closeCase
  | .caseClause none body => line (mark n.id ++ text "default:") ++ codeOf body ++ closeCase
  | _ => n.notStatement

/-- A handler of a `try` statement. -/
def catchPlan (n : Planned) : Plan :=
  match n.kind with
  | .catchClause types caught body =>
    braced (mark n.id ++ text "catch (" ++ joined " | " (types.map Planned.name)
      ++ optionAfter " " (caught.map Planned.value) ++ text ")") (codeOf body)
  | _ => n.notStatement

/-- A static variable with its first value. -/
def staticVarPlan (n : Planned) : Plan :=
  match n.kind with
  | .staticVar name default =>
    mark n.id ++ name.value ++ optionAfter " = " (default.map Planned.value)
  | _ => n.notStatement

/-- A word with a blank after it, which may be missing. -/
def wordText (word : Option String) : String :=
  word.elim "" (· ++ " ")

/-- An imported name. -/
def useItemPlan (n : Planned) : Plan :=
  match n.kind with
  | .useItem kind name rename =>
    mark n.id ++ text (wordText kind) ++ name.fullName ++ text (rename.elim "" (" as " ++ ·))
  | _ => n.notStatement

/-- Imported names; the common part of grouped ones is lowered last. -/
def usePlan (group : Option Planned) (items : List Planned) : Plan :=
  let names := joined ", " (items.map useItemPlan)
  match group with
  | some group => shownBefore (group.fullName ++ text "\\\x7b") names ++ text "\x7d"
  | none => names

/-- The header of a namespace. -/
def namespaceHeader (name : Option Planned) : Plan :=
  text "namespace" ++ unlessEmpty " " (ofOption (name.map Planned.fullName)) ""

/-- The plan of a statement that declares nothing. -/
def statementPlan : Kind Planned → Plan
  | .script body | .block body => codeOf body
  | .expressionStmt expr => expr.expressionCode
  | .echo exprs => line (text "echo " ++ valueList exprs ++ text ";")
  | .returnStmt (some value) => line (text "return " ++ value.value ++ text ";")
  | .returnStmt none => line (text "return;")
  | .ifElse condition thenBranch none => ifThen condition.value (codeOf thenBranch)
  | .ifElse condition thenBranch (some elseBranch) =>
    ifThenElse condition.value (codeOf thenBranch) (codeOf elseBranch)
  | .whileLoop condition body => whileLoop condition.value (codeOf body)
  | .doWhile body condition => doWhile (codeOf body) condition.value
  | .forLoop init conditions step body => forPlan init conditions step body
  | .foreachLoop iterable key value byRef body =>
    foreachLoop iterable.value (bindingPlan key value byRef) (codeOf body)
  | .switch subject cases =>
    braced (text "switch (" ++ subject.value ++ text ")") (inSwitch (all (cases.map casePlan)))
  | .breakStmt levels => jump .leave levels
  | .continueStmt levels => jump .next levels
  | .tryCatch body catches finalBody =>
    braced (text "try") (codeOf body) ++ all (catches.map catchPlan)
      ++ ofOption (finalBody.map fun ns => braced (text "finally") (codeOf ns))
  | .throwStmt expr => line (text "throw " ++ expr.value ++ text ";")
  | .global vars => line (text "global " ++ valueList vars ++ text ";")
  | .staticStmt vars =>
    line (text "static " ++ joined ", " (vars.map staticVarPlan) ++ text ";")
  | .unset vars => line (text "unset(" ++ valueList vars ++ text ");")
  | .constStmt items => line (text "const " ++ constItems items ++ text ";")
  | .declare items =>
    line (text "declare(" ++ joined ", " (items.map fun n => compact (constItem n))
      ++ text ");")
  | .namespaceStmt name (some body) => braced (namespaceHeader name) (codeOf body)
  | .namespaceStmt name none => line (namespaceHeader name ++ text ";")
  | .useStmt kind group items =>
    line (text ("use " ++ wordText kind) ++ usePlan group items ++ text ";")
  | .goto target => emit (.goto target)
  | .label name => emit (.label name)
  | _ => nothing

end ThreeAddress.Lowering

import ThreeAddress.Proofs.Roles

/-!
# The parts of plans

A plan is put together from texts and from the plans of the children of its node, **each of
which it uses once** (`Made`). There are two uses of a plan, as a value and as code, and the
relation keeps them apart. `made_kindPlan` goes through the kinds of nodes: what holds of the
ways to put plans together is proved from it, without looking at a kind again.
-/

namespace ThreeAddress

namespace Syntax.Kind

variable {α : Type}

/-- Whether the kind is no assignment with an operation that cannot be assigned with. -/
def hasToken : Kind α → Bool
  | .assignOp op _ _ => op.assignToken?.isSome
  | _ => true

/-- Whether the kind is a label or a jump to one. -/
def isGoto : Kind α → Bool
  | .goto .. | .label .. => true
  | _ => false

end Syntax.Kind

namespace Lowering

open Syntax (Node Kind)

/-- What a plan is used for. -/
inductive Use where
  | value
  | code
deriving DecidableEq, Repr

/-- A plan with its use. -/
abbrev Part := Use × Plan

/-- Whether the value ends as a statement or a label does, by its last text. -/
def Plan.isEnded : Plan → Bool
  | .text s => s.toList.getLast? == some ';' || s.toList.getLast? == some ':'
  | .both _ q => q.isEnded
  | _ => false

/-- The headers of the blocks that a jump may leave. -/
inductive Plan.Leavable : Plan → Prop
  | switch {p : Plan} : Leavable (.text "switch (" ++ p ++ .text ")")
  | tryBody : Leavable (.text "try")
  | handler {id : Nat} {p q : Plan} : Leavable (.mark id ++ .text "catch (" ++ p ++ q ++ .text ")")
  | finalBody : Leavable (.text "finally")
  | space {name : Option Planned} : Leavable (namespaceHeader name)

/-- The plan is put together from the parts, each of which is used once. -/
inductive Made : Use → Plan → List Part → Prop
  | part {u : Use} {p : Plan} : Made u p [(u, p)]
  | asCode {p : Plan} {ps : List Part} : Made .value p ps → Made .code p ps
  | nothing {u : Use} : Made u .nothing []
  | text {s : String} : Made .value (.text s) []
  | append {u : Use} {p q : Plan} {ps qs : List Part} :
      Made u p ps → Made u q qs → Made u (p ++ q) (ps ++ qs)
  | shownBefore {p q : Plan} {ps qs : List Part} :
      Made .value p ps → Made .value q qs → Made .value (.shownBefore p q) (ps ++ qs)
  | unlessEmpty {before after : String} {p : Plan} {ps : List Part} :
      Made .value p ps → Made .value (.unlessEmpty before p after) ps
  | compact {p : Plan} {ps : List Part} : Made .value p ps → Made .value (.compact p) ps
  | bind {p : Plan} {ps : List Part} : Made .value p ps → Made .value (.bind p) ps
  | effects {p : Plan} {ps : List Part} : Made .value p ps → Made .value (.effects p) ps
  | line {p : Plan} {ps : List Part} : p.isEnded = true → Made .value p ps → Made .value (.line p) ps
  | valueLine {p : Plan} {ps : List Part} : Made .value p ps → Made .value (.valueLine p) ps
  | closed {p q : Plan} {ps qs : List Part} :
      Made .value p ps → Made .code q qs → Made .value (.closed p q) (ps ++ qs)
  /-- The arguments of an instantiation may stand inside the plan of its class. -/
  | instantiation {n : Planned} {args : List Planned} :
      Made .value (instantiation n args)
        ((.value, Lowering.instantiation n []) :: args.map fun m => (.value, argument m))
  | jump {j : Jump} {levels : Option Nat} : Made .code (.jump j levels) []
  | closeCase : Made .code .closeCase []
  | ifThen {p q : Plan} {ps qs : List Part} :
      Made .value p ps → Made .code q qs → Made .code (.ifThen p q) (ps ++ qs)
  | ifThenElse {p q r : Plan} {ps qs rs : List Part} :
      Made .value p ps → Made .code q qs → Made .code r rs →
      Made .code (.ifThenElse p q r) (ps ++ qs ++ rs)
  | whileLoop {p q : Plan} {ps qs : List Part} :
      Made .value p ps → Made .code q qs → Made .code (.whileLoop p q) (ps ++ qs)
  | doWhile {p q : Plan} {ps qs : List Part} :
      Made .code p ps → Made .value q qs → Made .code (.doWhile p q) (ps ++ qs)
  | barrier {p : Plan} {ps : List Part} : Made .value p ps → Made .code (.barrier p) ps
  | forLoop {i g c s b : Plan} {is gs cs ss bs : List Part} :
      Made .value i is → Made .code g gs → Made .value c cs → Made .value s ss →
      Made .code b bs → Made .code (.forLoop i g c s b) (is ++ gs ++ cs ++ ss ++ bs)
  | endless {i s b : Plan} {is ss bs : List Part} :
      Made .value i is → Made .value s ss → Made .code b bs →
      Made .code (.endless i s b) (is ++ ss ++ bs)
  | foreachLoop {i v b : Plan} {is vs bs : List Part} :
      Made .value i is → Made .value v vs → Made .code b bs →
      Made .code (.foreachLoop i v b) (is ++ vs ++ bs)
  | inSwitch {p : Plan} {ps : List Part} : Made .code p ps → Made .code (.inSwitch p) ps
  | apart {p : Plan} {ps : List Part} : Made .code p ps → Made .code (.apart p) ps
  | declared {kind : String} {p : Plan} {ps : List Part} :
      Made .code p ps → Made .code (.declared kind p) ps
  /-- A block that a jump may leave, or one that stands apart. -/
  | braced {p q : Plan} {ps qs : List Part} : p.Leavable ∨ (∃ r, q = .apart r) →
      Made .value p ps → Made .code q qs → Made .code (Plan.braced p q) (ps ++ qs)

/-- What the plan of a node in the role is used for. -/
def Role.use : Role → Use
  | .statement | .caseClause | .catchClause => .code
  | _ => .value

/-- The plans of the children in a field. -/
def fieldParts (x : Role × Syntax.Field Planned) : List Part :=
  x.2.children.map fun n => (x.1.use, n.as x.1)

/-- The plans of the children in some fields. -/
def slotParts : List (Role × Syntax.Field Planned) → List Part
  | [] => []
  | [x] => fieldParts x
  | x :: y :: xs => fieldParts x ++ slotParts (y :: xs)

/-- The plans of the children of a kind in their roles. -/
def parts (k : Kind Planned) : List Part :=
  slotParts (slots k)

theorem parts_eq (k : Kind Planned) :
    parts k = (placed k).map fun x => (x.1.use, x.2.as x.1) := by
  have step (xs : List (Role × Syntax.Field Planned)) : slotParts xs = xs.flatMap fieldParts := by
    fun_induction slotParts xs with
    | case1 => rfl
    | case2 x => simp
    | case3 x y xs ih => rw [List.flatMap_cons, ih]
  unfold parts placed
  rw [step, List.map_flatMap]
  simp only [List.map_map, Function.comp_def]
  rfl

namespace Made

theorem cast {u : Use} {p : Plan} {ps qs : List Part} (h : Made u p ps) (he : ps = qs) :
    Made u p qs :=
  he ▸ h

/-! ## Lists and options of plans -/

theorem all {u : Use} {f : Planned → Plan} (ns : List Planned) :
    Made u (Plan.all (ns.map f)) (ns.map fun n => (u, f n)) := by
  induction ns with
  | nil => exact .nothing
  | cons n ns ih => exact .append .part ih

theorem joined {s : String} {f : Planned → Plan} (ns : List Planned) :
    Made .value (Plan.joined s (ns.map f)) (ns.map fun n => (.value, f n)) := by
  induction ns with
  | nil => exact .nothing
  | cons n ns ih =>
    cases ns with
    | nil => exact .part
    | cons m ns => exact .append (.append .part .text) ih

theorem appendText {p : Plan} {s : String} {ps : List Part} (h : Made .value p ps) :
    Made .value (p ++ .text s) ps :=
  (h.append .text).cast (List.append_nil _)

theorem textIf {b : Bool} {s : String} : Made .value (Plan.textIf b s) [] := by
  cases b
  · exact .nothing
  · exact .text

theorem groupedIf {b : Bool} {p : Plan} {ps : List Part} (h : Made .value p ps) :
    Made .value (Plan.groupedIf b p) ps := by
  cases b with
  | false => exact h
  | true => exact .appendText (.append .text h)

theorem ofOption {f : Planned → Plan} (n : Option Planned) :
    Made .value (Plan.ofOption (n.map f)) (n.toList.map fun n => (.value, f n)) := by
  cases n
  · exact .nothing
  · exact .part

theorem optionAfter {s : String} {f : Planned → Plan} (n : Option Planned) :
    Made .value (Plan.optionAfter s (n.map f)) (n.toList.map fun n => (.value, f n)) := by
  cases n
  · exact .nothing
  · exact .append .text .part

/-! ## Parts that several kinds share -/

theorem codeOf (ns : List Planned) :
    Made .code (codeOf ns) (fieldParts (.statement, .nodes ns)) :=
  .all ns

theorem namesAfter {word : String} (ns : List Planned) :
    Made .value (namesAfter word ns) (fieldParts (.fullName, .nodes ns)) := by
  cases ns with
  | nil => exact .nothing
  | cons n ns => exact .append .text (.joined (n :: ns))

theorem classParents (parent : Option Planned) (interfaces : List Planned) :
    Made .value (classParents parent interfaces)
      (fieldParts (.fullName, .node? parent) ++ fieldParts (.fullName, .nodes interfaces)) :=
  .append (.optionAfter parent) (.namesAfter interfaces)

theorem functionHeader {modifiers : List String} {name : String} {byRef : Bool}
    (ns : List Planned) :
    Made .value (functionHeader modifiers name byRef ns) (fieldParts (.param, .nodes ns)) :=
  .appendText (.append (.append (.append .text .textIf) .text) (.joined ns))

theorem declarationBody {header : Plan} {ps : List Part} (h : Made .value header ps)
    (body : List Planned) :
    Made .code (declarationBody header body) (ps ++ fieldParts (.statement, .nodes body)) :=
  .braced (.inr ⟨_, rfl⟩) h (.apart (.codeOf body))

theorem closureUses (ns : List Planned) :
    Made .value (closureUses ns) (fieldParts (.closureUse, .nodes ns)) := by
  cases ns with
  | nil => exact .nothing
  | cons n ns => exact .appendText (.append .text (.joined (n :: ns)))

theorem arrayItems (items : List (Option Planned)) :
    Made .value (arrayItems items) (fieldParts (.arrayItem, .slots items)) := by
  have head (n : Option Planned) (ns : List (Option Planned)) :
      fieldParts (.arrayItem, .slots (n :: ns))
        = (n.toList.map fun n => (.value, arrayItem n)) ++ fieldParts (.arrayItem, .slots ns) := by
    cases n <;> rfl
  induction items with
  | nil => exact .nothing
  | cons n ns ih =>
    rw [head]
    cases ns with
    | nil => exact (Made.ofOption n).cast (List.append_nil _).symm
    | cons m ns => exact .append (.appendText (.ofOption n)) ih

theorem compacted {s : String} (items : List Planned) :
    Made .value (Plan.joined s (items.map fun n => .compact (constItem n)))
      (fieldParts (.constItem, .nodes items)) := by
  induction items with
  | nil => exact .nothing
  | cons n ns ih =>
    cases ns with
    | nil => exact .compact .part
    | cons m ns => exact .append (.appendText (.compact .part)) ih

/-- All conditions of a loop with a head but the last one are barriers. -/
theorem forPlan (init conditions step body : List Planned) :
    Made .code (forPlan init conditions step body)
      (parts (.forLoop init conditions step body)) := by
  unfold Lowering.forPlan
  cases hlast : conditions.getLast? with
  | none =>
    obtain rfl := List.getLast?_eq_none_iff.mp hlast
    exact (Made.endless (.all init) (.all step) (.codeOf body)).cast (List.append_assoc ..)
  | some test =>
    obtain ⟨before, rfl⟩ := List.getLast?_eq_some_iff.mp hlast
    rw [List.dropLast_concat]
    have barriers : Made .code (Plan.all (before.map fun c => .barrier c.value))
        (before.map fun c => (.value, c.value)) := by
      clear hlast
      induction before with
      | nil => exact .nothing
      | cons c cs ih => exact .append (.barrier .part) ih
    refine (Made.forLoop (.all init) barriers .part (.all step) (.codeOf body)).cast ?_
    show _ = init.map _ ++ ((before ++ [test]).map _ ++ (step.map _ ++ _))
    simp only [List.map_append, List.append_assoc]
    rfl

end Made

/-! ## Kinds -/

theorem made_expressionPlan {t : Tag} {k : Kind Planned} (h : k.isExpression)
    (htoken : k.hasToken) : Made .value (expressionPlan t k) (parts k) := by
  cases k with
  | identifier | qualifiedName | integer | float | string | magicConst | var => exact .text
  | interpolated ps | shellExec ps => exact .appendText (.append .text (.all ps))
  | variableVariable n =>
    show Made .value (variableVariable n) _
    unfold variableVariable
    split
    · exact .append .text .part
    · exact .append .text .part
    · exact .appendText (.append .text .part)
  | constFetch n => exact .part
  | classConstFetch owner n => exact .append (.appendText .part) .part
  | propertyFetch object property nullsafe => exact .append (.appendText .part) .part
  | staticPropertyFetch owner property => exact .append (.appendText .part) .part
  | arrayDimFetch base index => exact .appendText (.append (.appendText .part) (.ofOption index))
  | assign target value => exact .append (.appendText .part) .part
  | assignRef target value => exact .append (.appendText .part) .part
  | assignOp op target value =>
    cases op <;> first
      | exact .append (.appendText .part) .part
      | exact absurd htoken Bool.false_ne_true
  | binaryOp left op right =>
    exact .append (.appendText (.groupedIf .part)) (.groupedIf .part)
  | unaryOp op n =>
    show Made .value (unary op n) _
    unfold unary
    split
    · exact .appendText (.groupedIf .part)
    · exact .append .text (.groupedIf .part)
  | cast type n => exact .append .text (.groupedIf .part)
  | ternary condition thenExpr elseExpr =>
    cases thenExpr with
    | none => exact .appendText (.append (.appendText (.append .text .part)) .part)
    | some n =>
      exact .cast (.appendText (.append (.appendText (.append (.appendText (.append .text .part))
        .part)) .part)) rfl
  | instanceOf n owner => exact .append (.appendText .part) .part
  | call callee args => exact .bind (.appendText (.append (.appendText .part) (.joined args)))
  | methodCall object method args nullsafe =>
    exact .cast (.bind (.appendText (.append (.appendText (.append (.appendText .part) .part))
      (.joined args)))) rfl
  | staticCall owner method args =>
    exact .cast (.bind (.appendText (.append (.appendText (.append (.appendText .part) .part))
      (.joined args)))) rfl
  | new owner args => exact .instantiation
  | array items => exact .appendText (.append .text (.arrayItems items))
  | list items => exact .appendText (.append .text (.arrayItems items))
  | isset vars => exact .appendText (.append .text (.joined vars))
  | empty n | eval n => exact .appendText (.append .text .part)
  | exit n =>
    cases n with
    | none => exact .text
    | some n => exact .appendText (.append .text .part)
  | clone n | print n | yieldFrom n => exact .append .text .part
  | yield value =>
    cases value with
    | none => exact .text
    | some n => exact .append .text .part
  | inclusion way n => exact .line rfl (.appendText (.append .text .part))
  | closure ps uses body byRef isStatic arrow =>
    refine (Made.closed (.append (.appendText (.append (.append (.append (.append .textIf .text)
      .textIf) .text) (.joined ps))) (.closureUses uses)) (.codeOf body)).cast ?_
    exact List.append_assoc ..
  | _ => exact absurd h Bool.false_ne_true

theorem made_declarationPlan {k : Kind Planned} (h : k.isDeclaration) :
    Made .code (declarationPlan k) (parts k) := by
  refine .declared ?_
  cases k with
  | functionDecl name ps body byRef => exact .declarationBody (.functionHeader ps) body
  | classDecl name modifiers parent interfaces members =>
    exact (Made.declarationBody (.append .text (.classParents parent interfaces)) members).cast
      (List.append_assoc (fieldParts (.fullName, .node? parent)) _ _)
  | interfaceDecl name parents members =>
    exact .declarationBody (.append .text (.namesAfter parents)) members
  | traitDecl name members => exact .declarationBody .text members
  | methodDecl name modifiers ps body byRef =>
    cases body with
    | none =>
      exact (Made.asCode (.line rfl (.appendText (.functionHeader ps)))).cast
        (List.append_nil _).symm
    | some body => exact .declarationBody (.functionHeader ps) body
  | propertyDecl modifiers props => exact .asCode (.all props)
  | classConst modifiers items =>
    exact .asCode (.line rfl (.appendText (.append .text (.joined items))))
  | traitUse traits => exact .asCode (.line rfl (.appendText (.append .text (.joined traits))))
  | _ => exact absurd h Bool.false_ne_true

theorem made_statementPlan {k : Kind Planned} (h : k.isStatement) (hd : ¬ k.isDeclaration)
    (hgoto : ¬ k.isGoto) : Made .code (statementPlan k) (parts k) := by
  cases k with
  | script body | block body => exact .codeOf body
  | expressionStmt n => exact .asCode .part
  | echo ns | global ns | unset ns =>
    exact .asCode (.line rfl (.appendText (.append .text (.joined ns))))
  | returnStmt value =>
    cases value with
    | none => exact .asCode (.line rfl .text)
    | some n => exact .asCode (.line rfl (.appendText (.append .text .part)))
  | ifElse condition thenBranch elseBranch =>
    cases elseBranch with
    | none => exact (Made.ifThen .part (.codeOf thenBranch)).cast (List.append_nil _).symm
    | some elseBranch =>
      exact (Made.ifThenElse .part (.codeOf thenBranch) (.codeOf elseBranch)).cast
        (List.append_assoc ..)
  | whileLoop condition body => exact .whileLoop .part (.codeOf body)
  | doWhile body condition => exact .doWhile (.codeOf body) .part
  | forLoop init conditions step body => exact .forPlan init conditions step body
  | foreachLoop iterable key value byRef body =>
    refine (Made.foreachLoop .part (.append (.append (.unlessEmpty (.ofOption key)) .textIf)
      .part) (.codeOf body)).cast ?_
    show [_] ++ (_ ++ [] ++ [_]) ++ _ = [_] ++ (_ ++ ([_] ++ _))
    simp only [List.append_nil, List.append_assoc]
    rfl
  | switch subject cases =>
    exact .braced (.inl .switch) (.appendText (.append .text .part)) (.inSwitch (.all cases))
  | breakStmt levels | continueStmt levels => exact .jump
  | tryCatch body catches finalBody =>
    have handled : Made .code (Plan.braced (.text "try") (codeOf body)
        ++ Plan.all (catches.map catchPlan)) (fieldParts (.statement, .nodes body)
          ++ fieldParts (.catchClause, .nodes catches)) :=
      .append (.braced (.inl .tryBody) .text (.codeOf body)) (.all catches)
    cases finalBody with
    | none => exact (handled.append .nothing).cast (List.append_assoc ..)
    | some ns =>
      exact (handled.append (.braced (.inl .finalBody) .text (.codeOf ns))).cast
        (List.append_assoc ..)
  | throwStmt n => exact .asCode (.line rfl (.appendText (.append .text .part)))
  | staticStmt ns | constStmt ns =>
    exact .asCode (.line rfl (.appendText (.append .text (.joined ns))))
  | declare items =>
    exact .asCode (.line rfl (.appendText (.append .text (.compacted items))))
  | namespaceStmt name body =>
    have header : Made .value (namespaceHeader name) (fieldParts (.fullName, .node? name)) :=
      .append .text (.unlessEmpty (.ofOption name))
    cases body with
    | none => exact (Made.asCode (.line rfl (.appendText header))).cast (List.append_nil _).symm
    | some body => exact .braced (.inl .space) header (.codeOf body)
  | useStmt kind group items =>
    have names : Made .value (usePlan group items) (parts (.useStmt kind group items)) := by
      cases group with
      | none => exact .joined items
      | some n => exact .appendText (.shownBefore (.appendText .part) (.joined items))
    exact (Made.asCode (.line rfl (.appendText (.append .text names)))).cast rfl
  | inlineHtml | nop => exact .nothing
  | goto | label => exact absurd rfl hgoto
  | functionDecl | classDecl | interfaceDecl | traitDecl | methodDecl | propertyDecl
  | classConst | traitUse => exact absurd rfl hd
  | _ => exact absurd h Bool.false_ne_true

/-- **The plan of a node is made of the plans of its children.** -/
theorem made_kindPlan {t : Tag} {k : Kind Planned} (hgoto : ¬ k.isGoto) (htoken : k.hasToken) :
    (k.isExpression → Made .value (kindPlan t k) (parts k)) ∧
      (k.isStatement → Made .code (kindPlan t k) (parts k)) := by
  unfold kindPlan
  by_cases he : k.isExpression
  · rw [if_pos he]
    exact ⟨fun _ => made_expressionPlan he htoken, fun _ => .asCode (made_expressionPlan he htoken)⟩
  · rw [if_neg he]
    refine ⟨fun h => absurd h he, fun hs => ?_⟩
    by_cases hd : k.isDeclaration
    · rw [if_pos hd]
      exact made_declarationPlan hd
    · rw [if_neg hd]
      exact made_statementPlan hs hd hgoto

theorem kindPlan_eq_emit {t : Tag} {k : Kind Planned} (h : k.isGoto) :
    ¬ k.isExpression ∧ ∃ i, kindPlan t k = .emit i ∧ ∀ s, i ≠ .text s := by
  cases k with
  | goto | label => exact ⟨Bool.false_ne_true, _, rfl, by rintro s ⟨⟩⟩
  | _ => cases h

theorem kindPlan_eq_fail {t : Tag} {k : Kind Planned} (h : ¬ k.hasToken) :
    ∃ e, kindPlan t k = .fail e := by
  cases k with
  | assignOp op target value =>
    cases op <;> first
      | exact absurd rfl h
      | exact ⟨_, rfl⟩
  | _ => exact absurd rfl h

end Lowering

end ThreeAddress

import Mathlib.Data.List.ReduceOption
import ThreeAddress.Syntax.Node

/-!
# Syntax trees, bottom-up

What a fold does to the children of a kind, field by field, and the nodes of a tree.
`Node.subtree` lists a node and all nodes inside it, and **a property that passes from the
children of a node to the node holds of every tree** (`Node.induction_on_children`).
-/

namespace ThreeAddress.Syntax

variable {β : Type}

/-- Replaces the children in a field by their results. -/
def Field.fold (f : Node → Kind β → β) : Field Node → Field β
  | .node n => .node (n.fold f)
  | .nodes ns => .nodes (Node.foldAll f ns)
  | .node? n => .node? (Node.foldOption f n)
  | .nodes? ns => .nodes? (Node.foldBody f ns)
  | .slots ns => .slots (Node.foldSlots f ns)
  | .text s => .text s
  | .text? s => .text? s
  | .texts s => .texts s
  | .flag b => .flag b
  | .number? n => .number? n
  | .integer n => .integer n
  | .float x => .float x
  | .word s => .word s

/-- Replaces the children of a kind. -/
def Kind.map {α : Type} (f : α → β) : Kind α → Kind β
  | .script body => .script (body.map f)
  | .identifier name => .identifier name
  | .qualifiedName parts fullyQualified => .qualifiedName parts fullyQualified
  | .integer value => .integer value
  | .float value => .float value
  | .string value => .string value
  | .interpolated parts => .interpolated (parts.map f)
  | .stringPart value => .stringPart value
  | .shellExec parts => .shellExec (parts.map f)
  | .magicConst name => .magicConst name
  | .var name => .var name
  | .variableVariable expr => .variableVariable (f expr)
  | .constFetch name => .constFetch (f name)
  | .classConstFetch owner name => .classConstFetch (f owner) (f name)
  | .propertyFetch object property nullsafe =>
    .propertyFetch (f object) (f property) nullsafe
  | .staticPropertyFetch owner property => .staticPropertyFetch (f owner) (f property)
  | .arrayDimFetch base index => .arrayDimFetch (f base) (index.map f)
  | .assign target value => .assign (f target) (f value)
  | .assignRef target value => .assignRef (f target) (f value)
  | .assignOp op target value => .assignOp op (f target) (f value)
  | .binaryOp left op right => .binaryOp (f left) op (f right)
  | .unaryOp op expr => .unaryOp op (f expr)
  | .cast type expr => .cast type (f expr)
  | .ternary condition thenExpr elseExpr =>
    .ternary (f condition) (thenExpr.map f) (f elseExpr)
  | .instanceOf expr owner => .instanceOf (f expr) (f owner)
  | .call callee args => .call (f callee) (args.map f)
  | .methodCall object method args nullsafe =>
    .methodCall (f object) (f method) (args.map f) nullsafe
  | .staticCall owner method args => .staticCall (f owner) (f method) (args.map f)
  | .argument value unpack byRef name => .argument (f value) unpack byRef name
  | .new owner args => .new (f owner) (args.map f)
  | .array items => .array (items.map (Option.map f))
  | .list items => .list (items.map (Option.map f))
  | .arrayItem key value byRef unpack => .arrayItem (key.map f) (f value) byRef unpack
  | .isset vars => .isset (vars.map f)
  | .empty expr => .empty (f expr)
  | .exit expr => .exit (expr.map f)
  | .eval expr => .eval (f expr)
  | .clone expr => .clone (f expr)
  | .print expr => .print (f expr)
  | .inclusion way expr => .inclusion way (f expr)
  | .yield value => .yield (value.map f)
  | .yieldFrom expr => .yieldFrom (f expr)
  | .closure params uses body byRef isStatic arrow =>
    .closure (params.map f) (uses.map f) (body.map f) byRef isStatic arrow
  | .closureUse captured byRef => .closureUse (f captured) byRef
  | .param name default byRef variadic typeHint =>
    .param name (default.map f) byRef variadic typeHint
  | .expressionStmt expr => .expressionStmt (f expr)
  | .echo exprs => .echo (exprs.map f)
  | .returnStmt value => .returnStmt (value.map f)
  | .block statements => .block (statements.map f)
  | .ifElse condition thenBranch elseBranch =>
    .ifElse (f condition) (thenBranch.map f) (elseBranch.map (List.map f))
  | .whileLoop condition body => .whileLoop (f condition) (body.map f)
  | .doWhile body condition => .doWhile (body.map f) (f condition)
  | .forLoop init conditions step body =>
    .forLoop (init.map f) (conditions.map f) (step.map f) (body.map f)
  | .foreachLoop iterable key value byRef body =>
    .foreachLoop (f iterable) (key.map f) (f value) byRef (body.map f)
  | .switch subject cases => .switch (f subject) (cases.map f)
  | .caseClause test body => .caseClause (test.map f) (body.map f)
  | .breakStmt levels => .breakStmt levels
  | .continueStmt levels => .continueStmt levels
  | .tryCatch body catches finalBody =>
    .tryCatch (body.map f) (catches.map f) (finalBody.map (List.map f))
  | .catchClause types caught body =>
    .catchClause (types.map f) (caught.map f) (body.map f)
  | .throwStmt expr => .throwStmt (f expr)
  | .global vars => .global (vars.map f)
  | .staticStmt vars => .staticStmt (vars.map f)
  | .staticVar declared default => .staticVar (f declared) (default.map f)
  | .unset vars => .unset (vars.map f)
  | .constStmt items => .constStmt (items.map f)
  | .constItem name value => .constItem name (f value)
  | .declare items => .declare (items.map f)
  | .namespaceStmt name body => .namespaceStmt (name.map f) (body.map (List.map f))
  | .useStmt kind group items => .useStmt kind (group.map f) (items.map f)
  | .useItem kind name rename => .useItem kind (f name) rename
  | .goto target => .goto target
  | .label name => .label name
  | .inlineHtml value => .inlineHtml value
  | .nop => .nop
  | .functionDecl name params body byRef =>
    .functionDecl name (params.map f) (body.map f) byRef
  | .classDecl name modifiers parent interfaces members =>
    .classDecl name modifiers (parent.map f) (interfaces.map f) (members.map f)
  | .interfaceDecl name parents members =>
    .interfaceDecl name (parents.map f) (members.map f)
  | .traitDecl name members => .traitDecl name (members.map f)
  | .methodDecl name modifiers params body byRef =>
    .methodDecl name modifiers (params.map f) (body.map (List.map f)) byRef
  | .propertyDecl modifiers props => .propertyDecl modifiers (props.map f)
  | .propertyItem name default => .propertyItem name (default.map f)
  | .classConst modifiers items => .classConst modifiers (items.map f)
  | .traitUse traits => .traitUse (traits.map f)

theorem Kind.map_map {α γ : Type} (f : α → β) (g : β → γ) (k : Kind α) :
    (k.map f).map g = k.map (g ∘ f) := by
  cases k <;> simp only [Kind.map, List.map_map, Option.map_map, List.map_comp_map,
    Option.map_comp_map, Function.comp_apply]

/-- Replaces the children in a field. -/
def Field.map {α : Type} (f : α → β) : Field α → Field β
  | .node n => .node (f n)
  | .nodes ns => .nodes (ns.map f)
  | .node? n => .node? (n.map f)
  | .nodes? ns => .nodes? (ns.map (List.map f))
  | .slots ns => .slots (ns.map (Option.map f))
  | .text s => .text s
  | .text? s => .text? s
  | .texts s => .texts s
  | .flag b => .flag b
  | .number? n => .number? n
  | .integer n => .integer n
  | .float x => .float x
  | .word s => .word s

theorem Field.map_congr {α : Type} {f g : α → β} {x : Field α}
    (h : ∀ c ∈ x.children, f c = g c) : x.map f = x.map g := by
  cases x with
  | node c => exact congrArg Field.node (h c List.mem_cons_self)
  | nodes cs => exact congrArg Field.nodes (List.map_congr_left h)
  | node? c =>
    exact congrArg Field.node? (Option.map_congr fun a ha => h a (Option.mem_toList.mpr ha))
  | nodes? cs =>
    cases cs with
    | none => rfl
    | some cs => exact congrArg (Field.nodes? ∘ some) (List.map_congr_left h)
  | slots cs =>
    exact congrArg Field.slots (List.map_congr_left fun x hx => Option.map_congr fun c hc =>
      h c (List.reduceOption_mem_iff.mpr (hc ▸ hx)))
  | _ => rfl

theorem Kind.map_congr {α : Type} {f g : α → β} {k : Kind α}
    (h : ∀ c ∈ k.children, f c = g c) : k.map f = k.map g := by
  have hfields : k.fields.map (fun x => x.2.map f) = k.fields.map (fun x => x.2.map g) :=
    List.map_congr_left fun x hx =>
      Field.map_congr fun c hc => h c (List.mem_flatMap.mpr ⟨x, hx, hc⟩)
  cases k <;> simp only [Kind.fields, Field.map, Kind.map, List.map_cons, List.map_nil,
    List.cons.injEq, Field.node.injEq, Field.nodes.injEq, Field.node?.injEq, Field.nodes?.injEq,
    Field.slots.injEq] at hfields ⊢ <;> simp only [hfields]
namespace Node

variable (f : Node → Kind β → β)

theorem foldAll_eq_map (ns : List Node) : foldAll f ns = ns.map (fold f) := by
  induction ns with
  | nil => rfl
  | cons n ns ih => exact congrArg (n.fold f :: ·) ih

theorem foldOption_eq_map (n : Option Node) : foldOption f n = n.map (fold f) := by
  cases n <;> rfl

theorem foldSlots_eq_map (ns : List (Option Node)) :
    foldSlots f ns = ns.map (Option.map (fold f)) := by
  induction ns with
  | nil => rfl
  | cons n ns ih =>
    show foldOption f n :: foldSlots f ns = _
    rw [ih, foldOption_eq_map, List.map_cons]

theorem foldBody_eq_map (ns : Option (List Node)) :
    foldBody f ns = ns.map (List.map (fold f)) := by
  cases ns with
  | none => rfl
  | some ns => exact congrArg some (foldAll_eq_map f ns)

/-- A fold looks at a node and at the results of its children. -/
theorem fold_eq (n : Node) : n.fold f = f n (foldKind f n.kind) := by
  cases n
  rfl

/-- A fold of a kind replaces its children by their results. -/
theorem foldKind_eq_map (k : Kind Node) : foldKind f k = k.map (fold f) := by
  have hall (ns : List Node) : ns.map (fold f) = foldAll f ns := (foldAll_eq_map f ns).symm
  have hoption (n : Option Node) : n.map (fold f) = foldOption f n := (foldOption_eq_map f n).symm
  have hslots (ns : List (Option Node)) : ns.map (Option.map (fold f)) = foldSlots f ns :=
    (foldSlots_eq_map f ns).symm
  have hbody (ns : Option (List Node)) : ns.map (List.map (fold f)) = foldBody f ns :=
    (foldBody_eq_map f ns).symm
  cases k <;> simp only [Kind.map, hall, hoption, hslots, hbody] <;> rfl

/-- A fold keeps the fields of a kind in place. -/
theorem fields_foldKind (k : Kind Node) :
    (foldKind f k).fields = k.fields.map fun x => (x.1, x.2.fold f) := by
  cases k <;> rfl

end Node

theorem Field.children_fold (f : Node → Kind β → β) (x : Field Node) :
    (x.fold f).children = x.children.map (Node.fold f) := by
  cases x with
  | nodes ns => exact Node.foldAll_eq_map f ns
  | node? n => cases n <;> rfl
  | nodes? ns =>
    cases ns with
    | none => rfl
    | some ns => exact Node.foldAll_eq_map f ns
  | slots ns =>
    show (Node.foldSlots f ns).reduceOption = _
    rw [Node.foldSlots_eq_map, List.reduceOption_map]
    rfl
  | _ => rfl

namespace Node

/-- The children after a fold are the results of the children before it. -/
theorem children_foldKind (f : Node → Kind β → β) (k : Kind Node) :
    (foldKind f k).children = k.children.map (fold f) := by
  unfold Kind.children
  rw [fields_foldKind, List.flatMap_map, List.map_flatMap]
  simp only [Field.children_fold]

/-- The tree without the numbers and the places of its nodes. -/
def bare (n : Node) : Node :=
  n.fold fun _ k => ⟨0, k, none, none⟩

/-! ## The nodes of a tree -/

/-- A node and all nodes inside it, each before its children. -/
def subtree (n : Node) : List Node :=
  n.fold fun n k => n :: k.children.flatten

/-- The numbers of a node and of all nodes inside it. -/
def ids (n : Node) : List Nat :=
  n.subtree.map Node.id

theorem subtree_eq (n : Node) : n.subtree = n :: n.kind.children.flatMap subtree := by
  unfold subtree
  rw [fold_eq, children_foldKind, List.flatMap_def]

theorem ids_eq (n : Node) : n.ids = n.id :: n.kind.children.flatMap ids := by
  unfold ids
  rw [subtree_eq, List.map_cons, List.map_flatMap]

theorem mem_subtree_self (n : Node) : n ∈ n.subtree := by
  rw [subtree_eq]
  exact List.mem_cons_self

theorem id_mem_ids (n : Node) : n.id ∈ n.ids :=
  List.mem_map_of_mem n.mem_subtree_self

theorem subtree_subset_of_mem_children {m n : Node} (h : m ∈ n.kind.children) :
    m.subtree ⊆ n.subtree := by
  intro x hx
  rw [subtree_eq n]
  exact List.mem_cons_of_mem _ (List.mem_flatMap.mpr ⟨m, h, hx⟩)

theorem length_subtree_lt {m n : Node} (h : m ∈ n.kind.children) :
    m.subtree.length < n.subtree.length := by
  have hle : m.subtree.length ≤ (n.kind.children.flatMap subtree).length :=
    (List.sublist_flatten_of_mem (List.mem_map_of_mem h)).length_le
  rw [subtree_eq n, List.length_cons]
  omega

/-- **Induction over trees**: a property that a node has whenever its children have it holds
of all nodes. -/
theorem induction_on_children {P : Node → Prop}
    (step : ∀ n : Node, (∀ m ∈ n.kind.children, P m) → P n) (n : Node) : P n := by
  induction hk : n.subtree.length using Nat.strongRecOn generalizing n with
  | _ k ih =>
    subst hk
    exact step n fun m hm => ih _ (length_subtree_lt hm) m rfl

/-- What lies inside a node lies inside all nodes around it. -/
theorem subtree_subset_of_mem {m n : Node} (h : m ∈ n.subtree) : m.subtree ⊆ n.subtree := by
  induction n using induction_on_children with
  | step n ih =>
    rw [subtree_eq] at h
    rcases List.mem_cons.mp h with rfl | h
    · exact List.Subset.refl _
    · obtain ⟨x, hx, hm⟩ := List.mem_flatMap.mp h
      exact List.Subset.trans (ih x hx hm) (subtree_subset_of_mem_children hx)

end Node

end ThreeAddress.Syntax

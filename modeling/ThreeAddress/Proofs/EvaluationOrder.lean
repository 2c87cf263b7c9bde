import ThreeAddress.Proofs.Entering

/-!
# The order of evaluation

The nodes of an expression in the order in which they are evaluated: operands from left to right,
and a node after its operands (`Node.evaluation`). Where the text for a node ends, in the value
or in a line before it, is the layout of its plan, and **the layout of a plan follows the order of
evaluation** of the tree (`layout_as`): what leaves a line of its own does so in this order, and
so does what stays in the value.
-/

namespace ThreeAddress

namespace Syntax

open scoped List

variable {α : Type}

/-- Whether a line of its own is written for the kind, before the value that it is a part of. -/
def Kind.hoists : Kind α → Bool
  | .inclusion .. => true
  | k => k.isCall

theorem Kind.hoists_of_isCall {k : Kind α} (h : k.isCall) : k.hoists := by
  cases k <;> first | rfl | exact h

/-- Whether the kind changes something where it stands: an assignment, or a step of a counter. -/
def Kind.actsInPlace : Kind α → Bool
  | .assign .. | .assignRef .. | .assignOp .. => true
  | .unaryOp .preInc _ | .unaryOp .preDec _ | .unaryOp .postInc _ | .unaryOp .postDec _ => true
  | _ => false

/-- Whether the kind has an effect besides its value. -/
def Kind.acts (k : Kind α) : Bool :=
  k.hoists || k.actsInPlace

/-- Whether the kind declares a class. -/
def Kind.isClass : Kind α → Bool
  | .classDecl .. => true
  | _ => false

/-- Whether the kind is a closure. -/
def Kind.isClosure : Kind α → Bool
  | .closure .. => true
  | _ => false

namespace Node

/-- Whether the node makes an instance of a class that is declared in place. -/
def declaresClass (n : Node) : Bool :=
  match n.kind with
  | .new owner _ => owner.kind.isClass
  | _ => false

/-- The children of a node that are evaluated before it, in their order. The body of a closure is
not evaluated with it, of a class only the parents are, and the arguments for an instance of a
class that is declared in place come before the class. -/
def operands (n : Node) : Kind α → List α
  | .closure .. => []
  | .classDecl _ _ parent interfaces _ => parent.toList ++ interfaces
  | .new owner args => if n.declaresClass then args ++ [owner] else owner :: args
  | k => k.children

/-- The nodes that are evaluated with a node, each after its operands. -/
def evaluation (n : Node) : List Node :=
  n.fold fun n k => (n.operands k).flatten ++ [n]

theorem operands_foldKind {β : Type} (f : Node → Kind β → β) (n : Node) (k : Kind Node) :
    n.operands (foldKind f k) = (n.operands k).map (fold f) := by
  cases k with
  | closure => rfl
  | classDecl name modifiers parent interfaces members =>
    show (foldOption f parent).toList ++ foldAll f interfaces = (parent.toList ++ interfaces).map _
    rw [foldOption_eq_map, foldAll_eq_map, List.map_append, Option.toList_map]
  | new owner args =>
    show (if n.declaresClass then foldAll f args ++ [owner.fold f] else _ :: foldAll f args) = _
    rw [foldAll_eq_map]
    unfold operands
    split <;> simp
  | _ => exact children_foldKind f _

theorem evaluation_eq (n : Node) :
    n.evaluation = (n.operands n.kind).flatMap evaluation ++ [n] := by
  unfold evaluation
  rw [fold_eq, operands_foldKind, List.flatMap_def]

/-- Only children are evaluated before a node, and each of them once. -/
theorem operands_subperm (n : Node) : n.operands n.kind <+~ n.kind.children := by
  obtain ⟨id, k, location, span⟩ := n
  cases k with
  | closure => exact List.nil_subperm
  | classDecl name modifiers parent interfaces members =>
    have hparents : parent.toList ++ interfaces <+~ parent.toList ++ (interfaces ++ (members ++ [])) := by
      rw [← List.append_assoc]
      exact (List.sublist_append_left _ _).subperm
    exact hparents
  | new owner args =>
    have hperm (b : Bool) : (if b then args ++ [owner] else owner :: args).Perm
        (owner :: (args ++ [])) := by
      rw [List.append_nil]
      cases b with
      | false => exact .refl _
      | true => exact List.perm_append_comm
    exact (hperm _).subperm
  | _ => exact List.Subperm.refl _

theorem mem_children_of_mem_operands {n m : Node} (h : m ∈ n.operands n.kind) :
    m ∈ n.kind.children :=
  n.operands_subperm.subset h

theorem operands_eq_children {n : Node} (hclosure : ¬ n.kind.isClosure) (hclass : ¬ n.kind.isClass)
    (hnew : ¬ n.declaresClass) : n.operands n.kind = n.kind.children := by
  obtain ⟨id, k, location, span⟩ := n
  cases k with
  | closure => exact absurd rfl hclosure
  | classDecl => exact absurd rfl hclass
  | new owner args =>
    show (if _ then _ else owner :: args) = owner :: (args ++ [])
    rw [if_neg hnew, List.append_nil]
  | _ => rfl

/-- Whether the number is that of a node in the tree whose kind has the property. -/
def hasNumber (n : Node) (p : Kind Node → Bool) (id : Nat) : Bool :=
  ((n.subtree.filter (p ·.kind)).map Node.id).contains id

/-- Among nodes that are all different, a kind is told by the number. -/
theorem hasNumber_eq {n m : Node} {p : Kind Node → Bool} (hids : n.ids.Nodup)
    (hm : m ∈ n.subtree) : n.hasNumber p m.id = p m.kind := by
  unfold hasNumber
  rw [Bool.eq_iff_iff, List.contains_iff_mem, List.mem_map]
  constructor
  · rintro ⟨m', hm', hid⟩
    obtain ⟨hm', hp⟩ := List.mem_filter.mp hm'
    rwa [List.inj_on_of_nodup_map hids hm' hm hid] at hp
  · exact fun hp => ⟨m, List.mem_filter.mpr ⟨hm, hp⟩, rfl⟩

theorem exists_new_of_declaresClass {n : Node} (h : n.declaresClass) :
    ∃ owner args, n.kind = .new owner args ∧ owner.kind.isClass := by
  unfold declaresClass at h
  split at h
  · next owner args hk => exact ⟨owner, args, hk, h⟩
  · cases h

end Node

end Syntax

namespace Lowering

open Syntax (Node Kind)

/-! ## Layouts -/

/-- Where the texts for nodes end: in the value, or in one of the lines before it. A line may be
the line of a node. -/
structure Layout where
  value : List Nat := []
  lines : List (List Nat × Option Nat) := []
  /-- Whether all is told: no part of the plan has a form that only statements have, and what
  counts in the value has text of its own. -/
  total : Bool := true

namespace Layout

instance : Append Layout :=
  ⟨fun a b => ⟨a.value ++ b.value, a.lines ++ b.lines, a.total && b.total⟩⟩

/-- One layout after the other. -/
def concat (ls : List Layout) : Layout :=
  ⟨ls.flatMap value, ls.flatMap lines, ls.all total⟩

/-- The value as a line. -/
def asLine (l : Layout) : Layout :=
  ⟨[], l.lines ++ [(l.value, none)], l.total⟩

/-- A node, if it counts. -/
def note (E : Nat → Bool) (id : Nat) : List Nat :=
  if E id then [id] else []

/-- The text for a node ends. If it is a line of its own, that is the last line. -/
def ended (E : Nat → Bool) (id : Nat) (hoists : Bool) (l : Layout) : Layout :=
  if hoists then
    { l with lines := l.lines.dropLast ++
        l.lines.getLast?.toList.map fun x => (x.1 ++ note E id, some id) }
  else { l with value := l.value ++ note E id }

/-- A condition for the layout to tell all. -/
def checked (b : Bool) (l : Layout) : Layout :=
  { l with total := l.total && b }

theorem checked_true (l : Layout) : l.checked true = l := by
  unfold checked
  rw [Bool.and_true]

theorem append_def (a b : Layout) :
    a ++ b = ⟨a.value ++ b.value, a.lines ++ b.lines, a.total && b.total⟩ :=
  rfl

theorem append_empty (l : Layout) : l ++ {} = l := by
  rw [append_def, List.append_nil, List.append_nil, Bool.and_true]

theorem empty_append (l : Layout) : {} ++ l = l :=
  rfl

theorem concat_singleton (l : Layout) : concat [l] = l := by
  unfold concat
  rw [List.flatMap_singleton, List.flatMap_singleton, List.all_cons, List.all_nil, Bool.and_true]

theorem concat_append (ls ls' : List Layout) : concat (ls ++ ls') = concat ls ++ concat ls' := by
  unfold concat
  rw [List.flatMap_append, List.flatMap_append, List.all_append]
  rfl

theorem concat_cons (l : Layout) (ls : List Layout) : concat (l :: ls) = l ++ concat ls :=
  rfl

theorem ended_asLine (E : Nat → Bool) (id : Nat) (l : Layout) :
    l.asLine.ended E id true = ⟨[], l.lines ++ [(l.value ++ note E id, some id)], l.total⟩ := by
  unfold ended asLine
  rw [if_pos rfl, List.dropLast_concat, List.getLast?_concat]
  rfl

/-- A node that does not count leaves nothing. -/
theorem ended_of_not {E : Nat → Bool} {id : Nat} (h : E id = false) (l : Layout) :
    l.ended E id false = l := by
  unfold ended note
  rw [if_neg Bool.false_ne_true, h, if_neg Bool.false_ne_true, List.append_nil]

theorem total_of_checked {E : Nat → Bool} {l : Layout} {id : Nat} {hoists b : Bool}
    (h : ((l.ended E id hoists).checked b).total) : l.total ∧ b = true := by
  obtain ⟨htotal, hb⟩ := Bool.and_eq_true_iff.mp h
  cases hoists <;> exact ⟨htotal, hb⟩

end Layout

namespace Plan

/-- Whether the plan ends with a line of its own. -/
def hoists : Plan → Bool
  | .bind _ | .line _ => true
  | _ => false

/-- Whether the plan writes some text of its own. -/
def speaks : Plan → Bool
  | .text s => !s.isEmpty
  | .both p q => p.speaks || q.speaks
  | _ => false

/-- Outside of the nodes in it, the plan is text. -/
def isInline : Plan → Bool
  | .nothing | .text _ | .mark _ | .fail _ | .guarded _ _ | .expression _ _ => true
  | .both p q => p.isInline && q.isInline
  | .unlessEmpty _ p _ => p.isInline
  | _ => false

/-- The layout of a plan that is used in an expression. The nodes that count are told by `E`. -/
def layout (E : Nat → Bool) : Plan → Layout
  | .nothing | .text _ | .mark _ | .fail _ | .closed _ _ => {}
  | .both p q => p.layout E ++ q.layout E
  | .guarded id p =>
    ((p.layout E).ended E id p.hoists).checked (!E id || p.hoists || p.speaks)
  | .expression t p =>
    ((p.layout E).ended E t.id p.hoists).checked (!E t.id || p.hoists || p.speaks)
  | .unlessEmpty _ p _ => p.layout E
  | .bind p | .line p => (p.layout E).asLine
  | _ => { total := false }

theorem hoists_eq_false_of_isInline {p : Plan} (h : p.isInline) : p.hoists = false := by
  cases p with
  | bind | line => cases h
  | _ => rfl

theorem isInline_joined {s : String} {ps : List Plan} (h : ∀ p ∈ ps, p.isInline) :
    (joined s ps).isInline := by
  fun_induction joined s ps with
  | case1 => rfl
  | case2 p => exact h p List.mem_cons_self
  | case3 p q ps ih =>
    obtain ⟨hp, hps⟩ := List.forall_mem_cons.mp h
    show (p.isInline && true && (joined s (q :: ps)).isInline) = true
    rw [hp, ih hps]
    rfl

theorem layout_joined {E : Nat → Bool} {s : String} (ps : List Plan) :
    (joined s ps).layout E = Layout.concat (ps.map (layout E)) := by
  fun_induction joined s ps with
  | case1 => rfl
  | case2 p => exact (Layout.concat_singleton _).symm
  | case3 p q ps ih =>
    show p.layout E ++ {} ++ (joined s (q :: ps)).layout E = _
    rw [Layout.append_empty, ih]
    rfl

end Plan

open Plan

variable {E : Nat → Bool}

theorem layout_arguments (args : List Planned) :
    (arguments args).layout E = Layout.concat (args.map fun m => (argument m).layout E) := by
  unfold arguments
  rw [layout_joined, List.map_map]
  rfl

/-- **A plan that is text outside of its parts is laid out like its parts**, in their order. -/
theorem Made.layout_eq {u : Use} {p : Plan} {ps : List Part} (h : Made u p ps) (hp : p.isInline) :
    p.layout E = Layout.concat (ps.map fun x => x.2.layout E) := by
  induction h with
  | part => exact (Layout.concat_singleton _).symm
  | asCode _ ih => exact ih hp
  | nothing | text => rfl
  | @append u p q ps qs _ _ ihp ihq =>
    obtain ⟨hp, hq⟩ := Bool.and_eq_true_iff.mp hp
    rw [List.map_append, Layout.concat_append, ← ihp hp, ← ihq hq]
    rfl
  | unlessEmpty _ ih => exact ih hp
  | @instantiation n args =>
    rw [List.map_cons, List.map_map, Layout.concat_cons]
    have hargs := layout_arguments (E := E) args
    obtain ⟨id, k, location, span, plan⟩ := n
    cases k with
    | classDecl => exact absurd (Bool.and_eq_true_iff.mp hp).2 Bool.false_ne_true
    | _ =>
      have named (l : Layout) : ({} ++ l ++ {} ++ (arguments args).layout E ++ {} : Layout)
          = ({} ++ l ++ {} ++ {} ++ {} : Layout) ++ (arguments args).layout E := by
        simp only [Layout.append_empty]
      exact (named _).trans (congrArg _ hargs)
  | _ => exact absurd hp Bool.false_ne_true

/-! ## Roles -/

/-- Whether a child in the role can be evaluated with its parent. -/
def Role.isOperand : Role → Bool
  | .value | .name | .fullName | .member | .constant | .instantiated | .argument | .arrayItem
  | .stringPart => true
  | _ => false

namespace Plan

@[simp] theorem speaks_text (s : String) : (text s).speaks = !s.isEmpty := rfl

@[simp] theorem speaks_append (p q : Plan) : (p ++ q).speaks = (p.speaks || q.speaks) := rfl

@[simp] theorem isInline_nothing : nothing.isInline = true := rfl

@[simp] theorem isInline_fail (e : LoweringError) : (fail e).isInline = true := rfl

@[simp] theorem isInline_text (s : String) : (text s).isInline = true := rfl

@[simp] theorem isInline_mark (id : Nat) : (mark id).isInline = true := rfl

@[simp] theorem isInline_append (p q : Plan) : (p ++ q).isInline = (p.isInline && q.isInline) :=
  rfl

@[simp] theorem isInline_unlessEmpty (s t : String) (p : Plan) :
    (unlessEmpty s p t).isInline = p.isInline :=
  rfl

@[simp] theorem isInline_textIf (b : Bool) (s : String) : (textIf b s).isInline = true := by
  cases b <;> rfl

@[simp] theorem isInline_groupedIf (b : Bool) (p : Plan) :
    (groupedIf b p).isInline = p.isInline := by
  cases b <;> simp [groupedIf]

@[simp] theorem isInline_all {f : Planned → Plan} (hf : ∀ n, (f n).isInline) (ns : List Planned) :
    (all (ns.map f)).isInline = true := by
  induction ns with
  | nil => rfl
  | cons n ns ih => simp [all, hf, ih]

@[simp] theorem isInline_ofOption {f : Planned → Plan} (hf : ∀ n, (f n).isInline)
    (n : Option Planned) : (ofOption (n.map f)).isInline = true := by
  cases n with
  | none => rfl
  | some n => exact hf n

end Plan

namespace Planned

variable (n : Planned)

@[simp] theorem isInline_value : n.value.isInline = true := by
  unfold value
  split <;> rfl

@[simp] theorem isInline_name : n.name.isInline = true := by
  unfold name
  split
  · rfl
  · rfl
  · exact n.isInline_value

@[simp] theorem isInline_fullName : n.fullName.isInline = true := by
  unfold fullName
  split
  · rfl
  · exact n.isInline_name

@[simp] theorem isInline_member : n.member.isInline = true := by
  unfold member
  split <;> simp

end Planned

section

variable (n : Planned)

@[simp] theorem isInline_constantName : (constantName n).isInline = true := by
  unfold constantName
  split <;> simp [Planned.notExpression]

@[simp] theorem isInline_argument : (argument n).isInline = true := by
  unfold argument
  split <;> simp

@[simp] theorem isInline_arrayItem : (arrayItem n).isInline = true := by
  unfold arrayItem
  split <;> simp

@[simp] theorem isInline_stringPart : (stringPart n).isInline = true := by
  unfold stringPart
  split <;> simp

end

@[simp] theorem isInline_arguments (args : List Planned) : (arguments args).isInline = true :=
  isInline_joined (List.forall_mem_map.mpr fun m _ => isInline_argument m)

theorem isInline_instantiation {n : Planned} (hn : ¬ n.kind.isClass) (args : List Planned) :
    (instantiation n args).isInline := by
  unfold instantiation
  split
  · next h => exact absurd (h ▸ rfl) hn
  · simp

theorem isInline_classParents (parent : Option Planned) (interfaces : List Planned) :
    (classParents parent interfaces).isInline := by
  have hnames : (names interfaces).isInline := 
    isInline_joined (List.forall_mem_map.mpr fun m _ => m.isInline_fullName)
  unfold classParents namesAfter
  cases parent <;> split <;> simp [optionAfter, hnames]

theorem isInline_as {n : Planned} {r : Role} (hr : r.isOperand)
    (hn : r = .instantiated → ¬ n.kind.isClass) : (n.as r).isInline := by
  cases r with
  | value => exact n.isInline_value
  | name => exact n.isInline_name
  | fullName => exact n.isInline_fullName
  | member => exact n.isInline_member
  | constant => exact isInline_constantName n
  | instantiated => exact isInline_instantiation (hn rfl) []
  | argument => exact isInline_argument n
  | arrayItem => exact isInline_arrayItem n
  | stringPart => exact isInline_stringPart n
  | _ => exact absurd hr Bool.false_ne_true

/-! ## Kinds -/

theorem isInline_expressionPlan {t : Tag} {k : Kind Planned} (hk : ¬ k.hoists)
    (hclosure : ¬ k.isClosure) (hnew : ∀ owner args, k = .new owner args → ¬ owner.kind.isClass) :
    (expressionPlan t k).isInline := by
  have hvalues (ns : List Planned) : (valueList ns).isInline = true :=
    isInline_joined (List.forall_mem_map.mpr fun m _ => m.isInline_value)
  have hitems (items : List (Option Planned)) : (arrayItems items).isInline = true :=
    isInline_joined (List.forall_mem_map.mpr fun m _ => isInline_ofOption isInline_arrayItem m)
  cases k with
  | variableVariable n =>
    show (variableVariable n).isInline = true
    unfold variableVariable
    split <;> simp
  | assignOp op target value =>
    simp only [expressionPlan]
    split <;> simp
  | unaryOp op n =>
    show (unary op n).isInline = true
    unfold unary unaryOperand
    split <;> simp
  | ternary condition thenExpr elseExpr =>
    cases thenExpr <;> simp [expressionPlan, conditional]
  | exit n | yield n => cases n <;> simp [expressionPlan]
  | new owner args => exact isInline_instantiation (hnew owner args rfl) args
  | closure => exact absurd rfl hclosure
  | call | methodCall | staticCall | inclusion => exact absurd rfl hk
  | _ => simp [expressionPlan, interpolation, binary, unaryOperand, hvalues, hitems]

/-- The plan of what leaves a line of its own: a call is bound to a temporary. -/
theorem made_hoisted {t : Tag} {k : Kind Planned} (h : k.hoists) :
    ∃ p, kindPlan t k = (if k.isCall then .bind p else .line p) ∧ p.isInline ∧
      Made .value p (parts k) := by
  cases k with
  | call callee args =>
    exact ⟨_, rfl, by simp, .appendText (.append (.appendText .part) (.joined args))⟩
  | methodCall object method args nullsafe =>
    exact ⟨_, rfl, by simp, .cast (.appendText (.append (.appendText (.append (.appendText .part)
      .part)) (.joined args))) rfl⟩
  | staticCall owner method args =>
    exact ⟨_, rfl, by simp, .cast (.appendText (.append (.appendText (.append (.appendText .part)
      .part)) (.joined args))) rfl⟩
  | inclusion way n => exact ⟨_, rfl, by simp, .appendText (.append .text .part)⟩
  | _ => cases h

/-- Whether a node of the category can be evaluated with its parent. -/
def Category.isOperand : Category → Bool
  | .expression | .name | .assignment | .argument | .arrayItem | .stringPart => true
  | _ => false

theorem isOperand_category {α : Type} {k : Kind α} (h : k.isExpression) :
    (category k).isOperand := by
  rw [← category_isValue] at h
  cases hc : category k <;> rw [hc] at h <;> first | rfl | cases h

/-- What a node that is evaluated with its parent holds is evaluated with it. -/
theorem isOperand_slots {α : Type} {k : Kind α} (hclosure : ¬ k.isClosure)
    (hk : (category k).isOperand) : ((slots k).all fun x => x.1.isOperand) = true := by
  cases k with
  | closure => exact absurd rfl hclosure
  | _ => first | rfl | exact nomatch hk

theorem isOperand_of_mem_placed {α : Type} {k : Kind α} (hclosure : ¬ k.isClosure)
    (hk : (category k).isOperand) {x : Role × α} (hx : x ∈ placed k) : x.1.isOperand := by
  obtain ⟨y, hy, hx⟩ := List.mem_flatMap.mp hx
  obtain ⟨m, -, rfl⟩ := List.mem_map.mp hx
  exact List.all_eq_true.mp (isOperand_slots hclosure hk) y hy

/-! ## Trees -/

/-- The layout of the text for a node, after the layout of its operands. -/
def Layout.settled (E : Nat → Bool) (n : Node) (l : Layout) : Layout :=
  (if n.kind.hoists then l.asLine else l).ended E n.id n.kind.hoists

/-- The layout of the text for a tree, along its evaluation. -/
def treeLayout (E : Nat → Bool) (n : Node) : Layout :=
  n.fold fun n k => (Layout.concat (n.operands k)).settled E n

theorem treeLayout_eq (n : Node) :
    treeLayout E n = (Layout.concat ((n.operands n.kind).map (treeLayout E))).settled E n := by
  unfold treeLayout
  rw [Node.fold_eq, Node.operands_foldKind]

/-- In every role in which it is evaluated with its parent, the node is laid out like its tree. -/
def LaidOut (E : Nat → Bool) (n : Node) : Prop :=
  ∀ r : Role, r.isOperand → ((planned n).as r).Sound → ((planned n).as r).layout E = treeLayout E n

theorem kind_planned (n : Node) : (planned n).kind = n.kind.map planned :=
  congrArg Planned.kind (planned_eq n)

theorem hoists_planned (n : Node) : (planned n).kind.hoists = n.kind.hoists := by
  rw [kind_planned]
  cases n.kind <;> rfl

theorem actsInPlace_planned (n : Node) :
    (planned n).kind.actsInPlace = n.kind.actsInPlace := by
  rw [kind_planned]
  cases n.kind with
  | unaryOp op _ => cases op <;> rfl
  | _ => rfl

theorem isClass_planned (n : Node) : (planned n).kind.isClass = n.kind.isClass := by
  rw [kind_planned]
  cases n.kind <;> rfl

theorem isClosure_planned (n : Node) : (planned n).kind.isClosure = n.kind.isClosure := by
  rw [kind_planned]
  cases n.kind <;> rfl

theorem isExpression_planned (n : Node) : (planned n).kind.isExpression = n.kind.isExpression := by
  rw [kind_planned]
  cases n.kind <;> rfl

/-- The text of a closure ends no other text. -/
theorem kindPlan_closure {t : Tag} {k : Kind Planned} (h : k.isClosure) :
    ∃ p q, kindPlan t k = .closed p q := by
  cases k with
  | closure => exact ⟨_, _, rfl⟩
  | _ => cases h

theorem closure_stays {n : Node} (h : n.kind.isClosure) :
    n.kind.hoists = false ∧ n.operands n.kind = [] := by
  obtain ⟨id, k, location, span⟩ := n
  cases k with
  | closure => exact ⟨rfl, rfl⟩
  | _ => cases h

theorem not_isClass_of_isExpression {α : Type} {k : Kind α} (h : k.isExpression) :
    ¬ k.isClass := by
  cases k with
  | classDecl => cases h
  | _ => exact Bool.false_ne_true

theorem isInline_plan {n : Node} (he : n.kind.isExpression) (hh : ¬ n.kind.hoists)
    (hclosure : ¬ n.kind.isClosure) (hnew : ¬ n.declaresClass) : (planned n).plan.isInline := by
  rw [planned_plan]
  unfold kindPlan
  rw [if_pos ((isExpression_planned n).trans he)]
  refine isInline_expressionPlan (by rwa [hoists_planned]) (by rwa [isClosure_planned]) ?_
  intro owner args hk hc
  obtain ⟨id, k, location, span⟩ := n
  rw [kind_planned] at hk
  cases k with
  | new owner' args' =>
    cases hk
    rw [isClass_planned] at hc
    exact hnew hc
  | _ => cases hk

/-- The arguments for an instance of a class that is declared in place come before it. -/
theorem layout_anonymousClass {n : Planned} (hn : n.kind.isClass) (args : List Planned) :
    (instantiation n args).layout E
      = Layout.concat (args.map fun m => (argument m).layout E) ++ (instantiation n []).layout E := by
  rw [← layout_arguments]
  obtain ⟨id, k, location, span, plan⟩ := n
  cases k with
  | classDecl name modifiers parent interfaces members =>
    show ({} ++ {} ++ (arguments args).layout E ++ {} ++ (classParents parent interfaces).layout E
        ++ {} : Layout) = (arguments args).layout E ++ ({} ++ {} ++ {} ++ {}
          ++ (classParents parent interfaces).layout E ++ {} : Layout)
    simp only [Layout.append_empty, Layout.empty_append]
  | _ => cases hn

section

variable {n : Node} (ih : ∀ m ∈ n.kind.children, LaidOut E m)
include ih

/-- Children whose plans do not fail are laid out like their trees. -/
theorem layout_parts (hroles : ∀ x ∈ placed n.kind, x.1.isOperand)
    (h : ∀ x ∈ parts (planned n).kind, x.2.Sound) :
    Layout.concat ((parts (planned n).kind).map fun x => x.2.layout E)
      = Layout.concat (n.kind.children.map (treeLayout E)) := by
  rw [parts_planned] at h ⊢
  rw [← map_snd_placed, List.map_map, List.map_map]
  refine congrArg Layout.concat (List.map_congr_left fun x hx => ?_)
  have hchild : x.2 ∈ n.kind.children := by
    rw [← map_snd_placed]
    exact List.mem_map_of_mem hx
  exact ih x.2 hchild x.1 (hroles x hx) (h _ (List.mem_map_of_mem hx))

/-- The plan of an instance of a class that is declared in place. -/
theorem layout_plan_of_declaresClass (hnew : n.declaresClass) (h : (planned n).plan.Sound) :
    (planned n).plan.hoists = false ∧
      (planned n).plan.layout E = Layout.concat ((n.operands n.kind).map (treeLayout E)) := by
  obtain ⟨owner, args, hk, hclass⟩ := Node.exists_new_of_declaresClass hnew
  have hchildren : n.kind.children = owner :: args := by
    rw [hk]
    exact congrArg (owner :: ·) (List.append_nil args)
  rw [hchildren] at ih
  obtain ⟨howner, hargs⟩ := List.forall_mem_cons.mp ih
  have hplan : (planned n).plan = instantiation (planned owner) (args.map planned) := by
    rw [planned_plan, kind_planned, hk]
    rfl
  rw [hplan] at h ⊢
  obtain ⟨hsound, hsounds⟩ := sound_of_instantiation h
  have hoperands : n.operands n.kind = args ++ [owner] := by
    rw [hk]
    exact if_pos hnew
  rw [← isClass_planned] at hclass
  refine ⟨?_, ?_⟩
  · generalize planned owner = m at hclass
    obtain ⟨id, k, location, span, plan⟩ := m
    cases k with
    | classDecl => rfl
    | _ => cases hclass
  · rw [layout_anonymousClass hclass, hoperands, List.map_append, Layout.concat_append,
      List.map_map]
    have hlast : (instantiation (planned owner) []).layout E = treeLayout E owner :=
      howner .instantiated rfl hsound
    rw [hlast, List.map_singleton, Layout.concat_singleton]
    refine congrArg (Layout.concat · ++ _) (List.map_congr_left fun m hm => ?_)
    exact hargs m hm .argument rfl (hsounds _ (List.mem_map_of_mem hm))

/-- The plan of what leaves a line of its own. -/
theorem layout_plan_of_hoists (hh : n.kind.hoists) (hroles : ∀ x ∈ placed n.kind, x.1.isOperand)
    (h : (planned n).plan.Sound) :
    (planned n).plan.hoists = true ∧
      (planned n).plan.layout E = (Layout.concat (n.kind.children.map (treeLayout E))).asLine := by
  obtain ⟨p, hp, hinline, hmade⟩ :=
    made_hoisted (t := (planned n).tag) ((hoists_planned n).trans hh)
  rw [planned_plan, hp] at h ⊢
  have hsound : p.Sound := by
    split at h <;> exact h
  rw [← layout_parts ih hroles (hmade.sound_parts hsound), ← hmade.layout_eq hinline]
  split <;> exact ⟨rfl, rfl⟩

/-- The plan of what stays in the value. -/
theorem layout_plan_of_isInline (he : n.kind.isExpression)
    (hroles : ∀ x ∈ placed n.kind, x.1.isOperand) (hinline : (planned n).plan.isInline)
    (h : (planned n).plan.Sound) :
    (planned n).plan.layout E = Layout.concat (n.kind.children.map (treeLayout E)) := by
  rw [← isExpression_planned] at he
  have htoken : (planned n).kind.hasToken := by
    by_contra ht
    obtain ⟨e, he⟩ := kindPlan_eq_fail (t := (planned n).tag) ht
    rw [planned_plan, he] at h
    exact h
  have hmade : Made .value (planned n).plan (parts (planned n).kind) := by
    rw [planned_plan]
    unfold kindPlan
    rw [if_pos he]
    exact made_expressionPlan he htoken
  rw [hmade.layout_eq hinline, layout_parts ih hroles (hmade.sound_parts h)]

/-- **The plan of an expression is laid out like its operands**, and what leaves a line of its own
leaves it after them. -/
theorem layout_plan (he : n.kind.isExpression) (h : (planned n).plan.Sound) :
    (planned n).plan.hoists = n.kind.hoists ∧
      (planned n).plan.layout E
        = let l := Layout.concat ((n.operands n.kind).map (treeLayout E))
          if n.kind.hoists then l.asLine else l := by
  by_cases hnew : n.declaresClass
  · obtain ⟨owner, args, hk, -⟩ := Node.exists_new_of_declaresClass hnew
    have hstays : n.kind.hoists = false := by
      rw [hk]
      rfl
    rw [hstays]
    exact layout_plan_of_declaresClass ih hnew h
  by_cases hclosure : n.kind.isClosure
  · obtain ⟨hstays, hnone⟩ := closure_stays hclosure
    obtain ⟨p, q, hpq⟩ := kindPlan_closure (t := (planned n).tag)
      ((isClosure_planned n).trans hclosure)
    rw [planned_plan, hpq, hstays, hnone]
    exact ⟨rfl, rfl⟩
  have hroles : ∀ x ∈ placed n.kind, x.1.isOperand :=
    fun x hx => isOperand_of_mem_placed hclosure (isOperand_category he) hx
  have hclass : ¬ n.kind.isClass := not_isClass_of_isExpression he
  rw [Node.operands_eq_children hclosure hclass hnew]
  by_cases hh : n.kind.hoists
  · rw [hh]
    exact layout_plan_of_hoists ih hh hroles h
  · have hinline : (planned n).plan.isInline := isInline_plan he hh hclosure hnew
    rw [Bool.not_eq_true] at hh
    rw [hh]
    exact ⟨hoists_eq_false_of_isInline hinline, layout_plan_of_isInline ih he hroles hinline h⟩

end

/-- The nodes of the tree that count have effects. -/
def Counted (E : Nat → Bool) (n : Node) : Prop :=
  ∀ m ∈ n.subtree, E m.id → m.kind.acts

theorem Counted.child {n m : Node} (h : Counted E n) (hm : m ∈ n.kind.children) : Counted E m :=
  fun x hx => h x (Node.subtree_subset_of_mem_children hm hx)

/-- Names leave nothing. -/
theorem treeLayout_name {n : Node} (hk : category n.kind = .name) (hE : E n.id = false) :
    treeLayout E n = {} := by
  rw [treeLayout_eq]
  obtain ⟨id, k, location, span⟩ := n
  cases k with
  | identifier | qualifiedName => exact Layout.ended_of_not hE {}
  | _ => cases hk

theorem layout_name {n : Planned} (hn : n.plan = kindPlan n.tag n.kind)
    (hk : category n.kind = .name) (hE : E n.id = false) {r : Role} (hr : r.isOperand) :
    (n.as r).layout E = {} := by
  have hended (b : Bool) :
      (({} : Layout).ended E n.id false).checked (!E n.id || false || b) = {} := by
    rw [Layout.ended_of_not hE, hE]
    rfl
  have hbetween (b : Bool) : ({} ++ (({} : Layout).ended E n.id false).checked
      (!E n.id || false || b) ++ {} : Layout) = {} := by
    rw [hended]
    rfl
  obtain ⟨id, k, location, span, plan⟩ := n
  obtain rfl : plan = kindPlan ⟨id, k.name, location, span⟩ k := hn
  cases k with
  | identifier | qualifiedName =>
    cases r with
    | value | name | fullName | member | argument | arrayItem => exact hended _
    | stringPart => exact hbetween _
    | instantiated => exact congrArg (fun l : Layout => l ++ {} ++ {}) (hbetween _)
    | constant => rfl
    | _ => cases hr
  | _ => cases hk

theorem isExpression_of_acts {α : Type} {k : Kind α} (h : k.acts) :
    k.isExpression ∧ category k ≠ .name := by
  cases k with
  | call | methodCall | staticCall | inclusion | assign | assignRef | assignOp | unaryOp =>
    exact ⟨rfl, nofun⟩
  | _ => cases h

/-- What acts in place has an operator. -/
theorem speaks_of_actsInPlace {t : Tag} {k : Kind Planned} (hk : k.actsInPlace)
    (h : (kindPlan t k).Sound) : (kindPlan t k).speaks := by
  have between {s : String} (hs : s ≠ "") (p q : Plan) : (p ++ text s ++ q).speaks := by
    simp [hs]
  cases k with
  | assign target value => exact between (s := " = ") (by decide) target.value value.value
  | assignRef target value => exact between (s := " = &") (by decide) target.value value.value
  | assignOp op target value =>
    have hplan : kindPlan t (.assignOp op target value)
        = expressionPlan t (.assignOp op target value) := rfl
    rw [hplan, expressionPlan] at h ⊢
    cases htoken : op.assignToken? with
    | none =>
      rw [htoken] at h
      exact absurd h id
    | some token => exact between (by simp) target.value value.value
  | unaryOp op n =>
    have htoken : op.token ≠ "" := by cases op <;> decide
    show (unary op n).speaks = true
    unfold unary
    split <;> simp [htoken]
  | _ => cases hk

/-- What acts leaves a line or some text. -/
theorem speaks_plan {n : Node} (hhoists : (planned n).plan.hoists = n.kind.hoists)
    (hacts : E n.id → n.kind.acts) (h : (planned n).plan.Sound) :
    (!E (planned n).id || (planned n).plan.hoists || (planned n).plan.speaks) = true := by
  rw [planned_id, hhoists]
  cases hid : E n.id with
  | false => rfl
  | true =>
    obtain hh | hp := Bool.or_eq_true_iff.mp (hacts hid)
    · rw [hh]
      rfl
    · rw [← actsInPlace_planned] at hp
      rw [planned_plan] at h ⊢
      rw [speaks_of_actsInPlace hp h, Bool.or_true]

/-- How an operand that adds no level counts. -/
theorem category_of_isOperand {r : Role} {c : Category} (hr : r.isOperand) :
    (r.standing c = .guarded → c = .name) ∧
    (r.standing c = .marked → c = .name ∨ c.isValue = false ∧
      ((r = .instantiated ∧ c = .classDecl) ∨ (r ≠ .instantiated ∧ c.isOperand))) := by
  cases r with
  | value | name | fullName | member | constant | instantiated | argument | arrayItem
  | stringPart => cases c <;> decide
  | _ => cases hr

/-- A node that neither leaves a line nor counts is laid out like its operands. -/
theorem treeLayout_of_not {n : Node} (hn : ¬ n.kind.isExpression) (hE : E n.id = false) :
    treeLayout E n = Layout.concat ((n.operands n.kind).map (treeLayout E)) := by
  have hstays : n.kind.hoists = false := by
    cases hk : n.kind with
    | call | methodCall | staticCall | inclusion => exact absurd (by rw [hk]; rfl) hn
    | _ => rfl
  rw [treeLayout_eq]
  unfold Layout.settled
  rw [hstays]
  exact Layout.ended_of_not hE _

/-- Of a class that is declared in place, the parents are laid out. -/
theorem layout_instantiated_class {n : Node} (ih : ∀ m ∈ n.kind.children, LaidOut E m)
    (hk : n.kind.isClass) (h : ((planned n).as .instantiated).Sound) :
    ((planned n).as .instantiated).layout E
      = Layout.concat ((n.operands n.kind).map (treeLayout E)) := by
  obtain ⟨id, k, location, span⟩ := n
  cases k with
  | classDecl name modifiers parent interfaces members =>
    have hmade := Made.classParents (parent.map planned) (interfaces.map planned)
    rw [planned_eq] at h ⊢
    have hparts : fieldParts (.fullName, .node? (parent.map planned))
        ++ fieldParts (.fullName, .nodes (interfaces.map planned))
          = (parent.toList ++ interfaces).map fun m => (.value, (planned m).as .fullName) := by
      show List.map _ (parent.map planned).toList ++ List.map _ (interfaces.map planned) = _
      rw [Option.toList_map, List.map_map, List.map_map, List.map_append]
      rfl
    rw [hparts] at hmade
    have hsounds := hmade.sound_parts h.1.2
    show ({} ++ {} ++ {} ++ {} ++ (classParents (parent.map planned)
      (interfaces.map planned)).layout E ++ {} : Layout) = _
    simp only [Layout.append_empty, Layout.empty_append]
    rw [hmade.layout_eq (isInline_classParents _ _), List.map_map]
    refine congrArg Layout.concat (List.map_congr_left fun m hm => ?_)
    have hchild : m ∈ parent.toList ++ (interfaces ++ (members ++ [])) := by
      rw [← List.append_assoc]
      exact List.mem_append_left _ hm
    exact ih m hchild .fullName rfl (hsounds _ (List.mem_map_of_mem hm))
  | _ => cases hk

/-- A part of its parent is laid out like its children. -/
theorem operands_of_part {n : Node} (hn : ¬ n.kind.isExpression)
    (hc : (category n.kind).isOperand) :
    ¬ n.kind.isClosure ∧ n.operands n.kind = n.kind.children := by
  obtain ⟨id, k, location, span⟩ := n
  cases k with
  | closure | new => exact absurd rfl hn
  | classDecl => cases hc
  | _ => exact ⟨Bool.false_ne_true, rfl⟩

/-- **An operand is laid out along its evaluation**, whatever its role. -/
theorem layout_as (n : Node) (hE : Counted E n) : LaidOut E n := by
  induction n using Node.induction_on_children with
  | step n ih =>
    intro r hr hsound
    have ih : ∀ m ∈ n.kind.children, LaidOut E m := fun m hm => ih m hm (hE.child hm)
    have hacts : E n.id → n.kind.acts := hE n n.mem_subtree_self
    have hother (h : ¬ (n.kind.isExpression ∧ category n.kind ≠ .name)) : E n.id = false :=
      Bool.not_eq_true _ ▸ fun hid => h (isExpression_of_acts (hacts hid))
    by_cases hname : category n.kind = .name
    · have hid := hother fun h => h.2 hname
      rw [treeLayout_name hname hid]
      exact layout_name (planned_plan n) (by rwa [category_planned]) (by rwa [planned_id]) hr
    have hu : r.use = .value := by
      cases r <;> first | rfl | cases hr
    cases stands (planned_plan n) r with
    | level hs hm =>
      rw [standing_planned] at hs
      have he : n.kind.isExpression := isExpression_of_level hu hs
      have hinline : ((planned n).as r).isInline := isInline_as hr fun _ => by
        rw [isClass_planned]
        exact not_isClass_of_isExpression he
      have hleveled := hm.sound_parts hsound _ List.mem_cons_self
      have hlayout := hm.layout_eq (E := E) hinline
      rw [hu] at hleveled hlayout
      obtain ⟨hhoists, hplan⟩ := layout_plan ih he hleveled
      rw [hlayout, List.map_singleton, Layout.concat_singleton, treeLayout_eq]
      show (((planned n).plan.layout E).ended E (planned n).id (planned n).plan.hoists).checked
        (!E (planned n).id || (planned n).plan.hoists || (planned n).plan.speaks) = _
      rw [speaks_plan hhoists hacts hleveled, Layout.checked_true, hhoists, hplan, planned_id]
      rfl
    | guarded hs =>
      rw [standing_planned] at hs
      exact absurd ((category_of_isOperand hr).1 hs) hname
    | marked hs hm =>
      rw [standing_planned] at hs
      obtain h | ⟨hvalue, hcases⟩ := (category_of_isOperand hr).2 hs
      · exact absurd h hname
      have hn : ¬ n.kind.isExpression := by
        rw [← category_isValue, hvalue]
        exact Bool.false_ne_true
      rw [treeLayout_of_not hn (hother fun h => hn h.1)]
      obtain ⟨rfl, hc⟩ | ⟨hr', hc⟩ := hcases
      · have hclass : n.kind.isClass := by
          cases hk : n.kind <;> rw [hk] at hc <;> first | rfl | cases hc
        exact layout_instantiated_class ih hclass hsound
      · obtain ⟨hclosure, hoperands⟩ := operands_of_part hn hc
        have hroles : ∀ x ∈ placed n.kind, x.1.isOperand :=
          fun x hx => isOperand_of_mem_placed hclosure hc hx
        have hsounds := (List.forall_mem_cons.mp (hm.sound_parts hsound)).2
        rw [hm.layout_eq (isInline_as hr fun h => absurd h hr'), List.map_cons, Layout.concat_cons,
          layout_parts ih hroles hsounds, hoperands]
        rfl
    | wrong hs hm hps =>
      exact (hm.sound_parts hsound _ (List.mem_append_right _ List.mem_cons_self)).elim

theorem total_treeLayout (n : Node) : (treeLayout E n).total := by
  induction n using Node.induction_on_children with
  | step n ih =>
    have hoperands : (Layout.concat ((n.operands n.kind).map (treeLayout E))).total := by
      refine List.all_eq_true.mpr (List.forall_mem_map.mpr fun m hm => ?_)
      exact ih m (Node.mem_children_of_mem_operands hm)
    rw [treeLayout_eq]
    unfold Layout.settled Layout.ended
    split <;> exact hoperands

/-- **The lines of a tree are those of the nodes that leave one**, in the order of evaluation. -/
theorem lines_treeLayout (n : Node) :
    (treeLayout E n).lines.map Prod.snd
      = (n.evaluation.filter (·.kind.hoists)).map fun m => some m.id := by
  induction n using Node.induction_on_children with
  | step n ih =>
    rw [treeLayout_eq, Node.evaluation_eq, List.filter_append, List.map_append]
    have hoperands : (Layout.concat ((n.operands n.kind).map (treeLayout E))).lines.map Prod.snd
        = (((n.operands n.kind).flatMap Node.evaluation).filter (·.kind.hoists)).map
          fun m => some m.id := by
      unfold Layout.concat
      rw [List.map_flatMap, List.flatMap_map, List.filter_flatMap, List.map_flatMap]
      exact List.flatMap_congr fun m hm => ih m (Node.mem_children_of_mem_operands hm)
    rw [← hoperands]
    unfold Layout.settled
    cases hh : n.kind.hoists with
    | false =>
      rw [List.filter_singleton, hh]
      exact (List.append_nil _).symm
    | true =>
      rw [if_pos rfl, Layout.ended_asLine, List.filter_singleton, hh, List.map_append]
      rfl

end Lowering

end ThreeAddress

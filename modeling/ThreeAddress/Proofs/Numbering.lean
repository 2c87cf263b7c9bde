import ThreeAddress.Proofs.Coupling

/-!
# The numbers and places of nodes

Node numbers serve the guard against lowering a node twice, and nothing else; the places of nodes
are shown by errors alone. `Twins` are a planned node and its counterpart, which **in every role
have the same plan under the veil**; every node has a twin that is planned under the veil
(`unveils`). So two trees without repeated numbers that are equal but for them are lowered alike
(`listing_eq_of_unnumbered_eq`).
-/

namespace ThreeAddress

/-- The tree with all its nodes under one number. -/
def Syntax.Node.unnumbered (n : Node) : Node :=
  n.fold fun n k => ⟨0, k, n.location, n.span⟩

namespace Lowering

open Syntax (Node Kind)

variable {v : Veil}

/-! ## Plans under a veil -/

namespace Plan

@[simp] theorem veiled_append (p q : Plan) : (p ++ q).veiled v = p.veiled v ++ q.veiled v :=
  rfl

@[simp] theorem veiled_all (ps : List Plan) : (all ps).veiled v = all (ps.map (veiled v)) := by
  induction ps with
  | nil => rfl
  | cons p ps ih => exact congrArg (p.veiled v ++ ·) ih

@[simp] theorem veiled_joined (s : String) (ps : List Plan) :
    (joined s ps).veiled v = joined s (ps.map (veiled v)) := by
  fun_induction joined s ps with
  | case1 | case2 => rfl
  | case3 p q ps ih => exact congrArg (p.veiled v ++ text s ++ ·) ih

@[simp] theorem veiled_textIf (b : Bool) (s : String) : (textIf b s).veiled v = textIf b s := by
  cases b <;> rfl

@[simp] theorem veiled_ofOption (p : Option Plan) :
    (ofOption p).veiled v = ofOption (p.map (veiled v)) := by
  cases p <;> rfl

@[simp] theorem veiled_optionAfter (s : String) (p : Option Plan) :
    (optionAfter s p).veiled v = optionAfter s (p.map (veiled v)) := by
  cases p <;> rfl

@[simp] theorem veiled_groupedIf (b : Bool) (p : Plan) :
    (groupedIf b p).veiled v = groupedIf b (p.veiled v) := by
  cases b <;> rfl

@[simp] theorem veiled_braced (p q : Plan) :
    (braced p q).veiled v = braced (p.veiled v) (q.veiled v) :=
  rfl

end Plan

@[simp] theorem veiled_error (t : Tag) (c : LoweringError.Cause) :
    ((t.veiled v).error c).veiled v = (t.error c).veiled v := by
  simp [LoweringError.veiled, Tag.error, Tag.veiled]

/-! ## Twins -/

/-- A planned node and its counterpart: they are of the same kind, and in every role they have the
same plan under the veil. -/
structure Twins (v : Veil) where
  left : Planned
  right : Planned
  kind : Kind (Planned × Planned)
  left_kind : left.kind = kind.map Prod.fst
  right_kind : right.kind = kind.map Prod.snd
  as : ∀ r : Role, (left.as r).veiled v = (right.as r).veiled v

namespace Twins

variable (x : Twins v)

@[simp] theorem code : x.left.code.veiled v = x.right.code.veiled v := x.as .statement
@[simp] theorem value : x.left.value.veiled v = x.right.value.veiled v := x.as .value
@[simp] theorem effect : x.left.expressionCode.veiled v = x.right.expressionCode.veiled v :=
  x.as .effect
@[simp] theorem name : x.left.name.veiled v = x.right.name.veiled v := x.as .name
@[simp] theorem fullName : x.left.fullName.veiled v = x.right.fullName.veiled v := x.as .fullName
@[simp] theorem member : x.left.member.veiled v = x.right.member.veiled v := x.as .member
@[simp] theorem constant : (constantName x.left).veiled v = (constantName x.right).veiled v :=
  x.as .constant
@[simp] theorem argument :
    (Lowering.argument x.left).veiled v = (Lowering.argument x.right).veiled v := x.as .argument
@[simp] theorem arrayItem :
    (Lowering.arrayItem x.left).veiled v = (Lowering.arrayItem x.right).veiled v := x.as .arrayItem
@[simp] theorem stringPart :
    (Lowering.stringPart x.left).veiled v = (Lowering.stringPart x.right).veiled v :=
  x.as .stringPart
@[simp] theorem param : (Lowering.param x.left).veiled v = (Lowering.param x.right).veiled v :=
  x.as .param
@[simp] theorem closureUse :
    (Lowering.closureUse x.left).veiled v = (Lowering.closureUse x.right).veiled v :=
  x.as .closureUse
@[simp] theorem constItem :
    (Lowering.constItem x.left).veiled v = (Lowering.constItem x.right).veiled v := x.as .constItem
@[simp] theorem staticVar :
    (staticVarPlan x.left).veiled v = (staticVarPlan x.right).veiled v := x.as .staticVar
@[simp] theorem property (modifiers : List String) :
    (Lowering.property modifiers x.left).veiled v
      = (Lowering.property modifiers x.right).veiled v :=
  x.as (.property modifiers)
@[simp] theorem useItem : (useItemPlan x.left).veiled v = (useItemPlan x.right).veiled v :=
  x.as .useItem
@[simp] theorem caseClause : (casePlan x.left).veiled v = (casePlan x.right).veiled v :=
  x.as .caseClause
@[simp] theorem catchClause : (catchPlan x.left).veiled v = (catchPlan x.right).veiled v :=
  x.as .catchClause

@[simp] theorem needsGroup : x.left.needsGroup = x.right.needsGroup := by
  funext outer onRight
  unfold Planned.needsGroup
  rw [x.left_kind, x.right_kind]
  cases x.kind <;> rfl

@[simp] theorem needsGroupUnderUnary :
    x.left.needsGroupUnderUnary = x.right.needsGroupUnderUnary := by
  unfold Planned.needsGroupUnderUnary
  rw [x.left_kind, x.right_kind]
  cases x.kind <;> rfl

@[simp] theorem variableVariable :
    (Lowering.variableVariable x.left).veiled v = (Lowering.variableVariable x.right).veiled v := by
  have hvalue := x.value
  unfold Lowering.variableVariable
  rw [x.left_kind, x.right_kind]
  cases x.kind <;> simp [Kind.map, hvalue]

/-- Instantiations with the same arguments. -/
@[simp] theorem instantiation (args : List (Twins v)) :
    (Lowering.instantiation x.left (args.map left)).veiled v
      = (Lowering.instantiation x.right (args.map right)).veiled v := by
  have hname := x.name
  have hargs : (arguments (args.map left)).veiled v = (arguments (args.map right)).veiled v := by
    simp [arguments, Function.comp_def]
  have hnone := x.as .instantiated
  unfold Planned.as Lowering.instantiation anonymousClass at hnone
  unfold Lowering.instantiation anonymousClass
  rw [x.left_kind, x.right_kind] at hnone ⊢
  generalize x.kind = k at hnone ⊢
  cases k with
  | classDecl =>
    obtain ⟨hfront, hbody⟩ := Plan.both.inj hnone
    obtain ⟨hfront, hparents⟩ := Plan.both.inj hfront
    obtain ⟨hfront, -⟩ := Plan.both.inj hfront
    obtain ⟨hmark, -⟩ := Plan.both.inj hfront
    exact congrArg₂ Plan.both (congrArg₂ Plan.both (congrArg₂ Plan.both
      (congrArg₂ Plan.both hmark hargs) rfl) hparents) hbody
  | _ =>
    exact congrArg₂ Plan.both (congrArg₂ Plan.both (congrArg₂ Plan.both
      (congrArg₂ Plan.both rfl hname) rfl) hargs) rfl

end Twins

/-! ## Kinds -/

section

variable (k : Kind (Twins v)) (t : Tag)

theorem veiled_expressionPlan :
    (expressionPlan t (k.map Twins.left)).veiled v
      = (expressionPlan (t.veiled v) (k.map Twins.right)).veiled v := by
  cases k with
  | exit n | yield n => cases n <;> simp [Kind.map, expressionPlan]
  | ternary c n e => cases n <;> simp [Kind.map, expressionPlan, conditional]
  | assignOp op => cases h : op.assignToken? <;> simp [Kind.map, expressionPlan, h, Plan.veiled]
  | unaryOp op =>
    cases h : op.followsOperand <;> simp [Kind.map, expressionPlan, unary, h, unaryOperand]
  | closure _ uses =>
    cases uses <;> simp [Kind.map, expressionPlan, closure, Plan.veiled, params, closureUses,
      codeOf, Function.comp_def]
  | _ =>
    simp [Kind.map, expressionPlan, interpolation, binary, unaryOperand, arguments, arrayItems,
      valueList, Plan.veiled, Function.comp_def]

theorem veiled_declarationPlan :
    (declarationPlan (k.map Twins.left)).veiled v
      = (declarationPlan (k.map Twins.right)).veiled v := by
  cases k with
  | methodDecl _ _ _ body =>
    cases body <;> simp [Kind.map, declarationPlan, declarationBody, functionHeader, params,
      codeOf, Plan.veiled, Kind.name, Function.comp_def]
  | classDecl _ _ _ interfaces | interfaceDecl _ interfaces =>
    cases interfaces <;> simp [Kind.map, declarationPlan, declarationBody, classParents,
      namesAfter, names, codeOf, Plan.veiled, Kind.name, Function.comp_def]
  | _ =>
    simp [Kind.map, declarationPlan, declarationBody, functionHeader, params, codeOf, names,
      constItems, Plan.veiled, Kind.name, Function.comp_def]

theorem veiled_statementPlan :
    (statementPlan (k.map Twins.left)).veiled v
      = (statementPlan (k.map Twins.right)).veiled v := by
  cases k with
  | returnStmt n => cases n <;> simp [Kind.map, statementPlan, Plan.veiled]
  | ifElse _ _ body =>
    cases body <;> simp [Kind.map, statementPlan, codeOf, Plan.veiled, Function.comp_def]
  | namespaceStmt name body =>
    cases body <;> simp [Kind.map, statementPlan, namespaceHeader, codeOf, Plan.veiled,
      Function.comp_def]
  | useStmt _ group =>
    cases group <;> simp [Kind.map, statementPlan, usePlan, Plan.veiled, Function.comp_def]
  | forLoop init conditions step body =>
    simp only [Kind.map, statementPlan, forPlan, List.getLast?_map, ← List.map_dropLast]
    cases conditions.getLast? <;>
      simp [expressionsCode, codeOf, Plan.veiled, Function.comp_def]
  | _ =>
    simp [Kind.map, statementPlan, codeOf, valueList, constItems, bindingPlan, Plan.veiled,
      Function.comp_def]

/-- **Kinds whose children are twins have the same plan under the veil.** -/
theorem veiled_kindPlan :
    (kindPlan t (k.map Twins.left)).veiled v
      = (kindPlan (t.veiled v) (k.map Twins.right)).veiled v := by
  have hexpression : (k.map Twins.left).isExpression = (k.map Twins.right).isExpression := by
    cases k <;> rfl
  have hdeclaration : (k.map Twins.left).isDeclaration = (k.map Twins.right).isDeclaration := by
    cases k <;> rfl
  unfold kindPlan
  rw [hexpression, hdeclaration]
  split
  · exact veiled_expressionPlan k t
  split
  · exact veiled_declarationPlan k
  · exact veiled_statementPlan k

end

/-! ## Roles -/

/-- Nodes of one kind, whose children are twins, have the same plan in every role. -/
theorem veiled_as_of_kind {x y : Planned} {k : Kind (Twins v)} (hx : x.kind = k.map Twins.left)
    (hy : y.kind = k.map Twins.right) (htag : x.tag.veiled v = y.tag.veiled v)
    (hplan : x.plan.veiled v = y.plan.veiled v) (r : Role) :
    (x.as r).veiled v = (y.as r).veiled v := by
  have hid : v.number x.id = v.number y.id := congrArg Tag.id htag
  have hname : x.kind.name = y.kind.name := congrArg Tag.kind htag
  have herror (c : LoweringError.Cause) : (x.tag.error c).veiled v = (y.tag.error c).veiled v := by
    rw [← veiled_error, htag, veiled_error]
  have hnotExpression : x.notExpression.veiled v = y.notExpression.veiled v := by
    simp only [Planned.notExpression, Plan.veiled, herror, hname]
  have hnotStatement : x.notStatement.veiled v = y.notStatement.veiled v := by
    simp only [Planned.notStatement, Plan.veiled, herror, hname]
  have hvalue : x.value.veiled v = y.value.veiled v := by
    have hk : x.kind.isExpression = y.kind.isExpression := by
      rw [hx, hy]
      cases k <;> rfl
    unfold Planned.value
    rw [hk]
    split
    · exact congrArg₂ Plan.expression htag hplan
    · exact hnotExpression
  have hnamed : x.name.veiled v = y.name.veiled v := by
    unfold Planned.name
    rw [hx, hy]
    cases k with
    | identifier | qualifiedName => exact congrArg₂ Plan.guarded hid hplan
    | _ => exact hvalue
  have hmark : (Plan.mark x.id).veiled v = (Plan.mark y.id).veiled v := congrArg Plan.mark hid
  cases r with
  | value => exact hvalue
  | name => exact hnamed
  | statement =>
    have hk : x.kind.isStatement = y.kind.isStatement := by
      rw [hx, hy]
      cases k <;> rfl
    show x.code.veiled v = y.code.veiled v
    unfold Planned.code
    rw [hk]
    split
    · exact congrArg₂ Plan.statement htag hplan
    · exact hnotStatement
  | effect =>
    unfold Planned.as Planned.expressionCode
    rw [hx, hy]
    cases k with
    | assign | assignRef => simp [Kind.map, Plan.veiled, hid, hplan]
    | call | methodCall | staticCall => exact congrArg Plan.effects hvalue
    | _ => exact congrArg Plan.valueLine hvalue
  | fullName =>
    unfold Planned.as Planned.fullName
    rw [hx, hy]
    cases k with
    | qualifiedName => simp [Kind.map, Plan.veiled, hid]
    | _ => exact hnamed
  | member =>
    unfold Planned.as Planned.member
    rw [hx, hy]
    cases k with
    | identifier | qualifiedName | var => exact hnamed
    | _ => exact congrArg₂ Plan.both (congrArg₂ Plan.both rfl hnamed) rfl
  | constant =>
    unfold Planned.as constantName
    rw [hx, hy]
    cases k with
    | identifier | qualifiedName => simp [Kind.map, hmark]
    | _ => exact congrArg₂ Plan.both hmark hnotExpression
  | instantiated =>
    unfold Planned.as instantiation anonymousClass
    rw [hx, hy]
    cases k with
    | classDecl _ _ _ interfaces =>
      cases interfaces <;> simp [Kind.map, arguments, classParents, namesAfter, names, codeOf,
        Plan.veiled, Function.comp_def, hid]
    | _ => exact congrArg₂ Plan.both (congrArg₂ Plan.both (congrArg₂ Plan.both
        (congrArg₂ Plan.both rfl hnamed) rfl) rfl) rfl
  | argument =>
    unfold Planned.as argument
    rw [hx, hy]
    cases k with
    | argument => simp [Kind.map, hmark]
    | _ => exact hvalue
  | arrayItem =>
    unfold Planned.as arrayItem
    rw [hx, hy]
    cases k with
    | arrayItem => simp [Kind.map, Plan.veiled, hid, Function.comp_def]
    | _ => exact hvalue
  | stringPart =>
    unfold Planned.as stringPart
    rw [hx, hy]
    cases k with
    | stringPart => simp [Kind.map, hmark]
    | var => exact hvalue
    | _ => exact congrArg₂ Plan.both (congrArg₂ Plan.both rfl hvalue) rfl
  | param =>
    unfold Planned.as param
    rw [hx, hy]
    cases k with
    | param => simp [Kind.map, hmark, Function.comp_def]
    | _ => exact hnotStatement
  | closureUse =>
    unfold Planned.as closureUse
    rw [hx, hy]
    cases k with
    | closureUse => simp [Kind.map, hmark]
    | _ => exact hnotExpression
  | constItem =>
    unfold Planned.as constItem
    rw [hx, hy]
    cases k with
    | constItem => simp [Kind.map, hmark]
    | _ => exact hnotStatement
  | staticVar =>
    unfold Planned.as staticVarPlan
    rw [hx, hy]
    cases k with
    | staticVar => simp [Kind.map, hmark, Function.comp_def]
    | _ => exact hnotStatement
  | property modifiers =>
    unfold Planned.as property
    rw [hx, hy]
    cases k with
    | propertyItem => simp [Kind.map, Plan.veiled, hid, Function.comp_def]
    | _ => exact hnotStatement
  | useItem =>
    unfold Planned.as useItemPlan
    rw [hx, hy]
    cases k with
    | useItem => simp [Kind.map, hmark]
    | _ => exact hnotStatement
  | caseClause =>
    unfold Planned.as casePlan
    rw [hx, hy]
    cases k with
    | caseClause test =>
      cases test <;> simp [Kind.map, Plan.veiled, codeOf, hid, Function.comp_def]
    | _ => exact hnotStatement
  | catchClause =>
    unfold Planned.as catchPlan
    rw [hx, hy]
    cases k with
    | catchClause => simp [Kind.map, codeOf, hmark, Function.comp_def]
    | _ => exact hnotStatement

theorem name_map {α β : Type} (f : α → β) (k : Kind α) : (k.map f).name = k.name := by
  cases k <;> rfl

theorem veiled_eq (v : Veil) (n : Node) : n.veiled v =
    ⟨v.number n.id, n.kind.map (Node.veiled v), v.place n.location, v.place n.span⟩ := by
  unfold Node.veiled
  rw [Node.fold_eq, Node.foldKind_eq_map]

/-- In every role, the node has the same plan as it has under the veil. -/
def Unveils (v : Veil) (n : Node) : Prop :=
  ∀ r : Role, ((planned n).as r).veiled v = ((planned (n.veiled v)).as r).veiled v

/-- A node and the same node under the veil. -/
def Twins.ofNode (n : Node) (h : Unveils v n) : Twins v where
  left := planned n
  right := planned (n.veiled v)
  kind := n.kind.map fun c => (planned c, planned (c.veiled v))
  left_kind := by
    rw [planned_eq, Kind.map_map]
    rfl
  right_kind := by
    rw [planned_eq, veiled_eq, Kind.map_map, Kind.map_map]
    rfl
  as := h

/-- A node twice. -/
def Twins.refl (n : Node) : Twins v where
  left := planned n
  right := planned n
  kind := n.kind.map fun c => (planned c, planned c)
  left_kind := by
    rw [planned_eq, Kind.map_map]
    rfl
  right_kind := by
    rw [planned_eq, Kind.map_map]
    rfl
  as _ := rfl

open Classical in
/-- **In every role, a node has the same plan as it has under the veil**, but for what the veil
hides. -/
theorem unveils (v : Veil) (n : Node) : Unveils v n := by
  induction n using Node.induction_on_children with
  | step n ih =>
    let twin (m : Node) : Twins v := if h : Unveils v m then .ofNode m h else .refl m
    have hleft : (n.kind.map twin).map Twins.left = n.kind.map planned := by
      rw [Kind.map_map]
      refine Kind.map_congr fun m _ => ?_
      show (dite _ _ _ : Twins v).left = _
      split <;> rfl
    have hright : (n.kind.map twin).map Twins.right = (n.kind.map (Node.veiled v)).map planned := by
      rw [Kind.map_map, Kind.map_map]
      refine Kind.map_congr fun m hm => ?_
      exact congrArg Twins.right (dif_pos (ih m hm))
    refine fun r => veiled_as_of_kind (k := n.kind.map twin) ?_ ?_ ?_ ?_ r
    · rw [planned_eq, hleft]
    · rw [planned_eq, veiled_eq, hright]
    · rw [planned_eq, planned_eq, veiled_eq]
      simp [Planned.tag, Tag.veiled, name_map]
    · rw [planned_eq, planned_eq, veiled_eq]
      simp only [← hleft, ← hright, veiled_kindPlan]
      simp [tagOf, Tag.veiled, name_map]

/-! ## Trees but for their numbers and places -/

theorem listing_eq_map (n : Node) (o : Options) :
    listing n o = ((planned n).code.run.outcome { options := o }).1.map
      fun a => ⟨a.effects⟩ := by
  show ((lowerScript n).outcome { options := o }).1 = _
  unfold lowerScript
  rw [Lower.outcome_bind]
  cases (planned n).code.run.outcome { options := o } with
  | mk r c => cases r <;> rfl

/-- The listing of a syntax tree whose nodes are all let in. -/
def unguardedListing (n : Node) (o : Options) : Except LoweringError Listing :=
  (((planned n).code.runWith Lower.enterAlways).outcome { options := o }).1.map fun a => ⟨a.effects⟩

/-- A tree without repeated numbers is lowered as if all its nodes were let in. -/
theorem listing_eq_unguardedListing {n : Node} {o : Options} (hids : n.ids.Nodup) :
    listing n o = unguardedListing n o := by
  have hagree := Plan.agree_runWith (fun _ _ => Lower.outcome_enter_of_not_mem)
    Lower.letsIn_enterAlways (planned n).code { options := o } (fresh_code hids)
  rw [listing_eq_map]
  exact congrArg (Except.map (fun a : Lowered => (⟨a.effects⟩ : Listing)) ∘ Prod.fst) hagree.1

/-- The listing of a syntax tree: if the veil hides the numbers, all nodes are let in. -/
def listingUnder (v : Veil) (n : Node) (o : Options) : Except LoweringError Listing :=
  if v.numbers then listing n o else unguardedListing n o

/-- **What a veil hides does not show** but in the place of an error: trees that are equal under it
are lowered alike. -/
theorem listingUnder_eq {m n : Node} (h : m.veiled v = n.veiled v) (o : Options) :
    (listingUnder v m o).mapError (LoweringError.veiled v)
      = (listingUnder v n o).mapError (LoweringError.veiled v) := by
  let s : Coupling := ⟨v, o, o, rfl⟩
  let lowered (p : Plan) : Except LoweringError Listing :=
    ((p.runWith s.enter).outcome { options := o }).1.map fun a => ⟨a.effects⟩
  have hlisting (k : Node) : listingUnder v k o = lowered (planned k).code := by
    show ite _ _ _ = (((planned k).code.runWith (ite _ _ _)).outcome { options := o }).1.map _
    split
    · exact listing_eq_map k o
    · rfl
  have hveiled (p : Plan) : (lowered p).mapError (LoweringError.veiled v)
      = (lowered (p.veiled v)).mapError (LoweringError.veiled v) :=
    ((Plan.coupled_runWith (s := s) (p.steady_of_eq rfl)) { options := o } { options := o }
      ⟨rfl, rfl, rfl, rfl, rfl, rfl, fun _ => rfl⟩).1.mapError_map_eq _
  have hplan : (planned m).code.veiled v = (planned n).code.veiled v := calc
    _ = (planned (m.veiled v)).code.veiled v := unveils v m .statement
    _ = (planned (n.veiled v)).code.veiled v := by rw [h]
    _ = _ := (unveils v n .statement).symm
  rw [hlisting m, hlisting n, hveiled, hplan, ← hveiled]

/-- **Node numbers do not show.** Trees that are equal but for the numbers of their nodes, each
without repeated numbers, are lowered to the same listing or fail with the same error. -/
theorem listing_eq_of_unnumbered_eq {m n : Node} (h : m.unnumbered = n.unnumbered)
    (hm : m.ids.Nodup) (hn : n.ids.Nodup) (o : Options) : listing m o = listing n o := by
  have hsame := listingUnder_eq (v := ⟨false, true⟩) (m := m) (n := n) h o
  have hid (x : Except LoweringError Listing) : x.mapError (.veiled ⟨false, true⟩) = x := by
    cases x <;> rfl
  rw [hid, hid] at hsame
  rw [listing_eq_unguardedListing hm, listing_eq_unguardedListing hn]
  exact hsame

/-- `plainCall` with its nodes numbered the other way round. -/
def renumberedCall : Node :=
  let argument := ⟨0, .argument ⟨2, .var "a", none, none⟩ false false none, none, none⟩
  let call := ⟨3, .call ⟨1, .qualifiedName ["f"] false, none, none⟩ [argument], none, none⟩
  ⟨5, .script [⟨4, .expressionStmt call, none, none⟩], none, none⟩

theorem listing_renumberedCall :
    plainCall.unnumbered = renumberedCall.unnumbered ∧ plainCall.ids.Nodup ∧
    renumberedCall.ids.Nodup ∧ plainCall.ids ≠ renumberedCall.ids ∧
    ∀ o, listing plainCall o = listing renumberedCall o := by
  have h : plainCall.unnumbered = renumberedCall.unnumbered := rfl
  have hm : plainCall.ids.Nodup := by decide
  have hn : renumberedCall.ids.Nodup := by decide
  exact ⟨h, hm, hn, by decide, listing_eq_of_unnumbered_eq h hm hn⟩

end Lowering

end ThreeAddress

import ThreeAddress.Proofs.Parts

/-!
# Standings

How a node counts in a role: as a level of its own, as a name or an assignment that is
skipped the second time, or as a part of its parent. `stands` says for every role what the
plan of a node is made of, and **what passes from parts to plans holds of every node in every
role** (`Inherited.as`).
-/

namespace ThreeAddress.Lowering

open Syntax (Node Kind)

/-- How a node counts in a role. -/
inductive Standing where
  /-- It adds a level. -/
  | level
  /-- It adds none, and is skipped if it was met before. -/
  | guarded
  /-- It belongs to its parent. -/
  | marked
  /-- It has no meaning there. -/
  | wrong
deriving DecidableEq, Repr

/-- What roles tell kinds by. -/
inductive Category where
  | statement
  | classDecl
  | expression
  | name
  | assignment
  | argument
  | arrayItem
  | stringPart
  | param
  | closureUse
  | constItem
  | staticVar
  | propertyItem
  | useItem
  | caseClause
  | catchClause
deriving DecidableEq, Repr

/-- The category of a kind. -/
def category {α : Type} : Kind α → Category
  | .classDecl .. => .classDecl
  | .identifier .. | .qualifiedName .. => .name
  | .assign .. | .assignRef .. => .assignment
  | .argument .. => .argument
  | .arrayItem .. => .arrayItem
  | .stringPart .. => .stringPart
  | .param .. => .param
  | .closureUse .. => .closureUse
  | .constItem .. => .constItem
  | .staticVar .. => .staticVar
  | .propertyItem .. => .propertyItem
  | .useItem .. => .useItem
  | .caseClause .. => .caseClause
  | .catchClause .. => .catchClause
  | k => if k.isExpression then .expression else .statement

/-- Whether a category stands for a value. -/
def Category.isValue : Category → Bool
  | .expression | .name | .assignment => true
  | _ => false

/-- Whether any value can stand in the role. -/
def Role.takesValue : Role → Bool
  | .value | .effect | .name | .fullName | .member | .instantiated | .argument | .arrayItem
  | .stringPart => true
  | _ => false

/-- How a node of the category counts in the role. -/
def Role.standing : Role → Category → Standing
  | .statement, .statement | .statement, .classDecl => .level
  | .effect, .assignment => .guarded
  | .name, .name | .fullName, .name | .member, .name | .instantiated, .name => .guarded
  | .instantiated, .classDecl | .constant, .name | .argument, .argument
  | .arrayItem, .arrayItem | .stringPart, .stringPart | .param, .param
  | .closureUse, .closureUse | .constItem, .constItem | .staticVar, .staticVar
  | .property _, .propertyItem | .useItem, .useItem | .caseClause, .caseClause
  | .catchClause, .catchClause => .marked
  | r, c => if r.takesValue && c.isValue then .level else .wrong

/-- How a kind counts in a role. -/
def standing {α : Type} (r : Role) (k : Kind α) : Standing :=
  r.standing (category k)

theorem category_foldKind {β : Type} (f : Node → Kind β → β) (k : Kind Node) :
    category (Node.foldKind f k) = category k := by
  cases k <;> rfl

theorem standing_value {α : Type} (k : Kind α) :
    standing .value k = if k.isExpression then .level else .wrong := by
  cases k <;> rfl

theorem standing_statement {α : Type} (k : Kind α) :
    standing .statement k = if k.isStatement then .level else .wrong := by
  cases k <;> rfl

/-- The node one level down, in the use of the role. -/
def Planned.leveled (n : Planned) : Use → Plan
  | .value => .expression n.tag n.plan
  | .code => .statement n.tag n.plan

/-- What the plan of a node in a role is made of. -/
inductive Stands (n : Planned) (r : Role) : Prop
  | level : standing r n.kind = .level → Made r.use (n.as r) [(r.use, n.leveled r.use)] →
      Stands n r
  | guarded {p : Plan} : standing r n.kind = .guarded → r.use = .value →
      Made .value (n.as r) [(.value, .guarded n.id p)] → Made .value p (parts n.kind) → Stands n r
  | marked : standing r n.kind = .marked →
      Made r.use (n.as r) ((.value, .mark n.id) :: parts n.kind) → Stands n r
  | wrong {e : LoweringError} {ps : List Part} : standing r n.kind = .wrong →
      Made r.use (n.as r) (ps ++ [(r.use, .fail e)]) → ps.Sublist [(.value, .mark n.id)] →
      Stands n r

namespace Stands

theorem ofFail {n : Planned} {r : Role} {e : LoweringError} (hs : standing r n.kind = .wrong)
    (h : n.as r = .fail e) : Stands n r :=
  @Stands.wrong n r e [] hs (h ▸ .part) (List.nil_sublist _)

/-- A role in which a node is used as in another one, but for the text around it. -/
theorem wrap {n : Planned} {r r' : Role} (h : Stands n r)
    (hs : standing r' n.kind = standing r n.kind) (hu : r'.use = r.use)
    (hw : ∀ ps, Made r.use (n.as r) ps → Made r.use (n.as r') ps) : Stands n r' := by
  cases h with
  | level hr hm => exact .level (hs.trans hr) (hu ▸ hw _ hm)
  | guarded hr hv hm hp => exact .guarded (hs.trans hr) (hu.trans hv) (hv ▸ hw _ (hv ▸ hm)) hp
  | marked hr hm => exact .marked (hs.trans hr) (hu ▸ hw _ hm)
  | wrong hr hm hps => exact .wrong (hs.trans hr) (hu ▸ hw _ hm) hps

theorem same {n : Planned} {r r' : Role} (h : Stands n r)
    (hs : standing r' n.kind = standing r n.kind) (hu : r'.use = r.use)
    (he : n.as r' = n.as r) : Stands n r' :=
  h.wrap hs hu fun _ hm => he ▸ hm

theorem statement (n : Planned) : Stands n .statement := by
  have hs := standing_statement n.kind
  have he : n.as .statement
      = if n.kind.isStatement then .statement n.tag n.plan else n.notStatement := rfl
  by_cases h : n.kind.isStatement
  · rw [if_pos h] at hs he
    exact .level hs (he ▸ .part)
  · rw [if_neg h] at hs he
    exact .ofFail hs he

theorem value (n : Planned) : Stands n .value := by
  have hs := standing_value n.kind
  have he : n.as .value
      = if n.kind.isExpression then .expression n.tag n.plan else n.notExpression := rfl
  by_cases h : n.kind.isExpression
  · rw [if_pos h] at hs he
    exact .level hs (he ▸ .part)
  · rw [if_neg h] at hs he
    exact .ofFail hs he

theorem name {n : Planned} (hn : n.plan = kindPlan n.tag n.kind) : Stands n .name := by
  obtain ⟨id, k, location, span, plan⟩ := n
  obtain rfl : plan = kindPlan ⟨id, k.name, location, span⟩ k := hn
  cases k with
  | identifier | qualifiedName => exact .guarded rfl rfl .part .text
  | _ => exact (value _).same rfl rfl rfl

theorem fullName {n : Planned} (hn : n.plan = kindPlan n.tag n.kind) : Stands n .fullName := by
  obtain ⟨id, k, location, span, plan⟩ := n
  cases k with
  | qualifiedName => exact .guarded rfl rfl .part .text
  | _ => exact (name hn).same rfl rfl rfl

theorem member {n : Planned} (hn : n.plan = kindPlan n.tag n.kind) : Stands n .member := by
  obtain ⟨id, k, location, span, plan⟩ := n
  cases k with
  | identifier | qualifiedName | var => exact (name hn).same rfl rfl rfl
  | _ => exact (name hn).wrap rfl rfl fun _ hm => .appendText (.append .text hm)

theorem effect {n : Planned} (hn : n.plan = kindPlan n.tag n.kind) : Stands n .effect := by
  obtain ⟨id, k, location, span, plan⟩ := n
  obtain rfl : plan = kindPlan ⟨id, k.name, location, span⟩ k := hn
  cases k with
  | assign | assignRef =>
    exact .guarded rfl rfl .part (.line rfl (.appendText (.append (.appendText .part) .part)))
  | call | methodCall | staticCall => exact (value _).wrap rfl rfl fun _ hm => .effects hm
  | _ => exact (value _).wrap rfl rfl fun _ hm => .valueLine hm

theorem constant (n : Planned) : Stands n .constant := by
  obtain ⟨id, k, location, span, plan⟩ := n
  cases k with
  | identifier | qualifiedName => exact .marked rfl (.appendText .part)
  | _ => exact .wrong rfl (.append .part .part) (.refl _)

theorem instantiated {n : Planned} (hn : n.plan = kindPlan n.tag n.kind) :
    Stands n .instantiated := by
  obtain ⟨id, k, location, span, plan⟩ := n
  cases k with
  | classDecl _ _ parent interfaces members =>
    refine .marked rfl (.cast (.append (.append (.appendText (.append (.appendText .part) .nothing))
      (.classParents parent interfaces)) (.closed .nothing (.codeOf members))) ?_)
    exact congrArg (_ :: ·) (List.append_assoc (fieldParts (.fullName, .node? parent)) _ _)
  | _ =>
    exact (name hn).wrap rfl rfl fun _ hm =>
      .appendText (.cast (.append (.appendText (.append .text hm)) .nothing) (List.append_nil _))

theorem argument (n : Planned) : Stands n .argument := by
  obtain ⟨id, k, location, span, plan⟩ := n
  cases k with
  | argument =>
    exact .marked rfl (.append (.append (.append (.appendText .part) .textIf) .textIf) .part)
  | _ => exact (value _).same rfl rfl rfl

theorem arrayItem (n : Planned) : Stands n .arrayItem := by
  obtain ⟨id, k, location, span, plan⟩ := n
  cases k with
  | arrayItem key =>
    refine .marked rfl (.cast (.append (.append (.append (.append .part
      (.unlessEmpty (.ofOption key))) .textIf) .textIf) .part) ?_)
    simp only [List.append_nil]
    rfl
  | _ => exact (value _).same rfl rfl rfl

theorem stringPart (n : Planned) : Stands n .stringPart := by
  obtain ⟨id, k, location, span, plan⟩ := n
  cases k with
  | stringPart => exact .marked rfl (.appendText .part)
  | var => exact (value _).same rfl rfl rfl
  | _ => exact (value _).wrap rfl rfl fun _ hm => .appendText (.append .text hm)

theorem param (n : Planned) : Stands n .param := by
  obtain ⟨id, k, location, span, plan⟩ := n
  cases k with
  | param _ default =>
    exact .marked rfl (.append (.appendText (.append (.append (.appendText .part) .textIf)
      .textIf)) (.optionAfter default))
  | _ => exact .ofFail rfl rfl

theorem closureUse (n : Planned) : Stands n .closureUse := by
  obtain ⟨id, k, location, span, plan⟩ := n
  cases k with
  | closureUse => exact .marked rfl (.append (.append .part .textIf) .part)
  | _ => exact .ofFail rfl rfl

theorem constItem (n : Planned) : Stands n .constItem := by
  obtain ⟨id, k, location, span, plan⟩ := n
  cases k with
  | constItem => exact .marked rfl (.append (.appendText .part) .part)
  | _ => exact .ofFail rfl rfl

theorem staticVar (n : Planned) : Stands n .staticVar := by
  obtain ⟨id, k, location, span, plan⟩ := n
  cases k with
  | staticVar _ default =>
    exact .marked rfl (.append (.append .part .part) (.optionAfter default))
  | _ => exact .ofFail rfl rfl

theorem property (modifiers : List String) (n : Planned) : Stands n (.property modifiers) := by
  obtain ⟨id, k, location, span, plan⟩ := n
  cases k with
  | propertyItem _ default =>
    exact .marked rfl (.line rfl (.appendText (.append (.appendText .part) (.optionAfter default))))
  | _ => exact .ofFail rfl rfl

theorem useItem (n : Planned) : Stands n .useItem := by
  obtain ⟨id, k, location, span, plan⟩ := n
  cases k with
  | useItem => exact .marked rfl (.appendText (.append (.appendText .part) .part))
  | _ => exact .ofFail rfl rfl

theorem caseClause (n : Planned) : Stands n .caseClause := by
  obtain ⟨id, k, location, span, plan⟩ := n
  cases k with
  | caseClause test body =>
    cases test with
    | none =>
      exact .marked rfl (.cast (.append (.append (.asCode (.line rfl (.appendText .part)))
        (.codeOf body)) .closeCase) (List.append_nil _))
    | some test =>
      exact .marked rfl (.cast (.append (.append (.asCode (.line rfl (.appendText (.append
        (.appendText .part) .part)))) (.codeOf body)) .closeCase) (List.append_nil _))
  | _ => exact .ofFail rfl rfl

theorem catchClause (n : Planned) : Stands n .catchClause := by
  obtain ⟨id, k, location, span, plan⟩ := n
  cases k with
  | catchClause types caught body =>
    refine .marked rfl (.cast (.braced (.inl .handler) (.appendText (.append (.append (.appendText .part)
      (.joined types)) (.optionAfter caught))) (.codeOf body)) ?_)
    exact congrArg (_ :: ·) (List.append_assoc ..)
  | _ => exact .ofFail rfl rfl

end Stands

/-- **What a node becomes in a role is made of the plans of its children.** -/
theorem stands {n : Planned} (hn : n.plan = kindPlan n.tag n.kind) : ∀ r : Role, Stands n r
  | .statement => .statement n
  | .value => .value n
  | .effect => .effect hn
  | .name => .name hn
  | .fullName => .fullName hn
  | .member => .member hn
  | .constant => .constant n
  | .instantiated => .instantiated hn
  | .argument => .argument n
  | .arrayItem => .arrayItem n
  | .stringPart => .stringPart n
  | .param => .param n
  | .closureUse => .closureUse n
  | .constItem => .constItem n
  | .staticVar => .staticVar n
  | .property modifiers => .property modifiers n
  | .useItem => .useItem n
  | .caseClause => .caseClause n
  | .catchClause => .catchClause n

/-! ## Planned nodes -/

theorem planned_eq (n : Node) : planned n
    = ⟨n.id, n.kind.map planned, n.location, n.span, kindPlan (tagOf n) (n.kind.map planned)⟩ := by
  conv_lhs => unfold planned
  rw [Node.fold_eq, Node.foldKind_eq_map]
  rfl

theorem name_foldKind {β : Type} (f : Node → Kind β → β) (k : Kind Node) :
    (Node.foldKind f k).name = k.name := by
  cases k <;> rfl

theorem isGoto_foldKind {β : Type} (f : Node → Kind β → β) (k : Kind Node) :
    (Node.foldKind f k).isGoto = k.isGoto := by
  cases k <;> rfl

theorem planned_tag (n : Node) : (planned n).tag = tagOf n := by
  unfold planned
  rw [Node.fold_eq]
  exact congrArg (Tag.mk n.id · n.location n.span) (name_foldKind _ n.kind)

theorem planned_plan (n : Node) :
    (planned n).plan = kindPlan (planned n).tag (planned n).kind := by
  rw [planned_tag]
  unfold planned
  rw [Node.fold_eq]

theorem planned_id (n : Node) : (planned n).id = n.id := by
  unfold planned
  rw [Node.fold_eq]

theorem category_planned (n : Node) : category (planned n).kind = category n.kind := by
  unfold planned
  rw [Node.fold_eq]
  exact category_foldKind _ n.kind

theorem isGoto_planned (n : Node) : (planned n).kind.isGoto = n.kind.isGoto := by
  unfold planned
  rw [Node.fold_eq]
  exact isGoto_foldKind _ n.kind

theorem parts_planned (n : Node) :
    parts (planned n).kind = (placed n.kind).map fun x => (x.1.use, (planned x.2).as x.1) := by
  rw [parts_eq]
  conv_lhs => unfold planned; rw [Node.fold_eq]
  rw [placed_foldKind, List.map_map]
  rfl

theorem category_isValue {α : Type} (k : Kind α) : (category k).isValue = k.isExpression := by
  cases k <;> rfl

/-- A node that adds a level as a value is an expression. -/
theorem isExpression_of_level {α : Type} {r : Role} {k : Kind α} (hu : r.use = .value)
    (h : standing r k = .level) : k.isExpression := by
  rw [← category_isValue]
  unfold standing at h
  generalize category k = c at h ⊢
  cases r with
  | statement | caseClause | catchClause => exact nomatch hu
  | _ => cases c <;> first | rfl | exact nomatch h

/-- A node that adds a level as code is a statement. -/
theorem isStatement_of_level {α : Type} {r : Role} {k : Kind α} (hu : r.use = .code)
    (h : standing r k = .level) : k.isStatement := by
  cases r with
  | statement =>
    rw [standing_statement] at h
    by_contra hs
    rw [if_neg hs] at h
    cases h
  | caseClause | catchClause =>
    unfold standing at h
    generalize category k = c at h
    cases c <;> cases h
  | _ => cases hu

/-- A property of plans that passes from parts to what is made of them, as long as the nodes
have numbers that `S` allows. -/
structure Inherited (S : Nat → Prop) (P : Use → Plan → Prop) : Prop where
  made {u : Use} {p : Plan} {ps : List Part} : Made u p ps → (∀ x ∈ ps, P x.1 x.2) → P u p
  mark {u : Use} {id : Nat} : S id → P u (.mark id)
  fail {u : Use} {e : LoweringError} : P u (.fail e)
  guarded {id : Nat} {p : Plan} : S id → P .value p → P .value (.guarded id p)
  expression {t : Tag} {p : Plan} : S t.id → P .value p → P .value (.expression t p)
  statement {t : Tag} {p : Plan} : S t.id → P .code p → P .code (.statement t p)

namespace Inherited

variable {S : Nat → Prop} {P : Use → Plan → Prop}

/-- The plan of a node has what its parts have. -/
theorem kindPlan (hP : Inherited S P) {t : Tag} {k : Kind Planned}
    (hgoto : k.isGoto → ∀ i, (∀ s, i ≠ .text s) → P .code (.emit i))
    (hparts : ∀ x ∈ parts k, P x.1 x.2) :
    (k.isExpression → P .value (kindPlan t k)) ∧ (k.isStatement → P .code (kindPlan t k)) := by
  by_cases hg : k.isGoto
  · obtain ⟨hne, i, hi, htext⟩ := kindPlan_eq_emit (t := t) hg
    exact ⟨fun h => absurd h hne, fun _ => hi ▸ hgoto hg i htext⟩
  · by_cases ht : k.hasToken
    · obtain ⟨hv, hs⟩ := made_kindPlan (t := t) hg ht
      exact ⟨fun h => hP.made (hv h) hparts, fun h => hP.made (hs h) hparts⟩
    · obtain ⟨e, he⟩ := kindPlan_eq_fail (t := t) ht
      rw [he]
      exact ⟨fun _ => hP.fail, fun _ => hP.fail⟩

/-- **What is inherited holds of every node in every role.** -/
theorem as (hP : Inherited S P) (n : Node) (hids : ∀ i ∈ n.ids, S i)
    (hgoto : ∀ m ∈ n.subtree, m.kind.isGoto → ∀ i, (∀ s, i ≠ .text s) → P .code (.emit i))
    (r : Role) : P r.use ((planned n).as r) := by
  induction n using Node.induction_on_children generalizing r with
  | step n ih =>
    have hid : S (planned n).id := by
      rw [planned_id]
      exact hids n.id n.id_mem_ids
    have hparts : ∀ x ∈ parts (planned n).kind, P x.1 x.2 := by
      rw [parts_planned]
      intro x hx
      obtain ⟨y, hy, rfl⟩ := List.mem_map.mp hx
      have hchild : y.2 ∈ n.kind.children := by
        rw [← map_snd_placed]
        exact List.mem_map_of_mem hy
      have hsub := Node.subtree_subset_of_mem_children hchild
      exact ih y.2 hchild (fun i hi => hids i (List.map_subset _ hsub hi))
        (fun m hm => hgoto m (hsub hm)) y.1
    have hemit : (planned n).kind.isGoto → ∀ i, (∀ s, i ≠ .text s) → P .code (.emit i) :=
      fun h => hgoto n n.mem_subtree_self (isGoto_planned n ▸ h)
    obtain ⟨hvalue, hcode⟩ := hP.kindPlan (t := (planned n).tag) hemit hparts
    rw [← planned_plan] at hvalue hcode
    cases stands (planned_plan n) r with
    | level hs hm =>
      refine hP.made hm (List.forall_mem_singleton.mpr ?_)
      cases hu : r.use with
      | value => exact hP.expression hid (hvalue (isExpression_of_level hu hs))
      | code => exact hP.statement hid (hcode (isStatement_of_level hu hs))
    | guarded hs hu hm hp =>
      rw [hu]
      exact hP.made hm (List.forall_mem_singleton.mpr (hP.guarded hid (hP.made hp hparts)))
    | marked hs hm => exact hP.made hm (List.forall_mem_cons.mpr ⟨hP.mark hid, hparts⟩)
    | wrong hs hm hps =>
      refine hP.made hm (List.forall_mem_append.mpr ⟨fun x hx => ?_,
        List.forall_mem_singleton.mpr hP.fail⟩)
      obtain rfl := List.mem_singleton.mp (hps.subset hx)
      exact hP.mark hid

end Inherited

end ThreeAddress.Lowering

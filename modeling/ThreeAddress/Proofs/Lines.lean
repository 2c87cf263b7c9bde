import ThreeAddress.Proofs.OneLine
import ThreeAddress.Proofs.Runs
import ThreeAddress.Proofs.Standing

/-!
# Lines

A tree whose names stand on one line (`Node.Legible`) has plans whose texts do (`fine_planned`),
and **a plan of such texts writes one line an instruction** (`Plan.Runs.oneLine`): the values that
it joins, the temporaries and the labels never hold a line break.
-/

namespace ThreeAddress

open Text (OneLine)

namespace Syntax

/-- The texts in a field that stand for themselves. -/
def Field.names {α : Type} : Field α → List String
  | .text s => [s]
  | .text? s => s.toList
  | .texts ss => ss
  | _ => []

/-- The names and other words that a kind holds. The text of a string is no word: it is written
as a literal. -/
def Kind.words {α : Type} : Kind α → List String
  | .string _ | .stringPart _ | .inlineHtml _ => []
  | k => k.fields.flatMap fun (_, f) => f.names

/-- Everything in the field has the property for texts or for children. -/
def Field.All {α : Type} (W : String → Prop) (C : α → Prop) : Field α → Prop
  | .node c => C c
  | .nodes cs => ∀ c ∈ cs, C c
  | .node? c => ∀ x ∈ c, C x
  | .nodes? cs => ∀ x ∈ cs.getD [], C x
  | .slots cs => ∀ x ∈ cs.reduceOption, C x
  | .text s => W s
  | .text? s => ∀ x ∈ s, W x
  | .texts ss => ∀ x ∈ ss, W x
  | _ => True

/-- Everything in the fields has the property for texts or for children. -/
def allFields {α : Type} (W : String → Prop) (C : α → Prop) : List (String × Field α) → Prop
  | [] => True
  | [f] => f.2.All W C
  | f :: fs => f.2.All W C ∧ allFields W C fs

/-- All words and all children of the kind have their properties, field by field. -/
def Kind.All {α : Type} (W : String → Prop) (C : α → Prop) : Kind α → Prop
  | .string _ | .stringPart _ | .inlineHtml _ => True
  | k => allFields W C k.fields

theorem Field.all_of {α : Type} {W : String → Prop} {C : α → Prop} {f : Field α}
    (hw : ∀ s ∈ f.names, W s) (hc : ∀ c ∈ f.children, C c) : f.All W C := by
  cases f with
  | node c => exact hc c List.mem_cons_self
  | text s => exact hw s List.mem_cons_self
  | node? c => exact fun x hx => hc x (Option.mem_toList.mpr hx)
  | text? s => exact fun x hx => hw x (Option.mem_toList.mpr hx)
  | nodes | nodes? | slots => exact hc
  | texts => exact hw
  | _ => exact trivial

theorem allFields_of {α : Type} {W : String → Prop} {C : α → Prop}
    {fs : List (String × Field α)} (h : ∀ f ∈ fs, f.2.All W C) : allFields W C fs := by
  fun_induction allFields W C fs with
  | case1 => exact trivial
  | case2 f => exact h f List.mem_cons_self
  | case3 f fs _ ih =>
    obtain ⟨hf, hfs⟩ := List.forall_mem_cons.mp h
    exact ⟨hf, ih hfs⟩

theorem Kind.all_of {α : Type} {W : String → Prop} {C : α → Prop} {k : Kind α}
    (hw : ∀ s ∈ k.words, W s) (hc : ∀ c ∈ k.children, C c) : k.All W C := by
  have hall (hw : ∀ s ∈ k.fields.flatMap (fun f => f.2.names), W s) : allFields W C k.fields :=
    allFields_of fun f hf => Field.all_of (fun s hs => hw s (List.mem_flatMap.mpr ⟨f, hf, hs⟩))
      fun c h => hc c (List.mem_flatMap.mpr ⟨f, hf, h⟩)
  cases k with
  | string | stringPart | inlineHtml => exact trivial
  | _ => exact hall hw

/-- All words in the tree stand on one line. -/
inductive Node.Legible : Node → Prop
  | intro {n : Node} : (∀ s ∈ n.kind.words, OneLine s) → (∀ c ∈ n.kind.children, Legible c) →
      Legible n

end Syntax

namespace Lowering

open Syntax (Node Kind)

/-- All texts of the plan stand on one line. -/
@[simp] def Plan.OneLine : Plan → Prop
  | .nothing | .mark _ | .fail _ | .jump _ _ | .closeCase => True
  | .text s => Text.OneLine s
  | .emit i => Text.OneLine i.line
  | .unlessEmpty before p after => Text.OneLine before ∧ p.OneLine ∧ Text.OneLine after
  | .guarded _ p | .expression _ p | .statement _ p | .compact p | .bind p | .effects p | .line p
  | .valueLine p | .barrier p | .inSwitch p | .apart p | .declared _ p => p.OneLine
  | .both p q | .shownBefore p q | .closed p q | .ifThen p q | .whileLoop p q | .doWhile p q =>
    p.OneLine ∧ q.OneLine
  | .ifThenElse p q r | .endless p q r | .foreachLoop p q r => p.OneLine ∧ q.OneLine ∧ r.OneLine
  | .forLoop i g c s b => i.OneLine ∧ g.OneLine ∧ c.OneLine ∧ s.OneLine ∧ b.OneLine

instance (s : String) : Decidable (Plan.text s).OneLine :=
  inferInstanceAs (Decidable (Text.OneLine s))

namespace Plan

@[simp] theorem oneLine_append {p q : Plan} : (p ++ q).OneLine ↔ p.OneLine ∧ q.OneLine :=
  Iff.rfl

@[simp] theorem oneLine_all {ps : List Plan} : (all ps).OneLine ↔ ∀ p ∈ ps, p.OneLine := by
  induction ps with
  | nil => simp [all]
  | cons p ps ih => simp [all, ih]

theorem oneLine_joined {divider : String} {ps : List Plan} (hd : Text.OneLine divider)
    (h : ∀ p ∈ ps, p.OneLine) : (joined divider ps).OneLine := by
  fun_induction joined divider ps with
  | case1 => exact trivial
  | case2 p => exact h p List.mem_cons_self
  | case3 p q ps ih =>
    obtain ⟨hp, hps⟩ := List.forall_mem_cons.mp h
    exact ⟨⟨hp, hd⟩, ih hps⟩

@[simp] theorem oneLine_textIf {b : Bool} {s : String} (hs : Text.OneLine s) :
    (textIf b s).OneLine := by
  unfold textIf
  split
  · exact hs
  · exact trivial

@[simp] theorem oneLine_ofOption {p : Option Plan} :
    (ofOption p).OneLine ↔ ∀ q ∈ p, q.OneLine := by
  cases p <;> simp [ofOption]

theorem oneLine_braced {header body : Plan} (hh : header.OneLine) (hb : body.OneLine) :
    (braced header body).OneLine :=
  ⟨⟨⟨hh, (by decide : (text " \x7b").OneLine)⟩, hb⟩, (by decide : (text "\x7d").OneLine)⟩

@[simp] theorem oneLine_groupedIf {b : Bool} {p : Plan} : (groupedIf b p).OneLine ↔ p.OneLine := by
  unfold groupedIf
  split
  · simp +decide
  · exact Iff.rfl

end Plan

/-! ## Plans of nodes -/

/-- The words that the role itself brings stand on one line. -/
def Role.OneLine : Role → Prop
  | .property modifiers => ∀ s ∈ modifiers, Text.OneLine s
  | _ => True

/-- In every role the texts of the node's plan stand on one line. -/
def Planned.Fine (n : Planned) : Prop :=
  ∀ r : Role, r.OneLine → (n.as r).OneLine

namespace Planned.Fine

variable {n : Planned}

@[simp] theorem value (h : n.Fine) : n.value.OneLine := h .value trivial
@[simp] theorem code (h : n.Fine) : n.code.OneLine := h .statement trivial
@[simp] theorem expressionCode (h : n.Fine) : n.expressionCode.OneLine := h .effect trivial
@[simp] theorem name (h : n.Fine) : n.name.OneLine := h .name trivial
@[simp] theorem fullName (h : n.Fine) : n.fullName.OneLine := h .fullName trivial
@[simp] theorem member (h : n.Fine) : n.member.OneLine := h .member trivial
@[simp] theorem constant (h : n.Fine) : (constantName n).OneLine := h .constant trivial

end Planned.Fine

section

variable {ns : List Planned}

theorem oneLine_joined_as {divider : String} (r : Role) (hr : r.OneLine)
    (hd : Text.OneLine divider) (h : ∀ n ∈ ns, n.Fine) :
    (Plan.joined divider (ns.map (·.as r))).OneLine := by
  refine Plan.oneLine_joined hd fun p hp => ?_
  obtain ⟨n, hn, rfl⟩ := List.mem_map.mp hp
  exact h n hn r hr

theorem oneLine_all_as (r : Role) (hr : r.OneLine) (h : ∀ n ∈ ns, n.Fine) :
    (Plan.all (ns.map (·.as r))).OneLine := by
  refine Plan.oneLine_all.mpr fun p hp => ?_
  obtain ⟨n, hn, rfl⟩ := List.mem_map.mp hp
  exact h n hn r hr

theorem oneLine_ofOption_value {n : Option Planned} (h : ∀ m ∈ n, m.Fine) :
    (Plan.ofOption (n.map Planned.value)).OneLine := by
  cases n with
  | none => exact trivial
  | some m => exact (h m rfl).value

theorem oneLine_optionAfter_value {before : String} {n : Option Planned} (hb : OneLine before)
    (h : ∀ m ∈ n, m.Fine) : (Plan.optionAfter before (n.map Planned.value)).OneLine := by
  cases n with
  | none => exact trivial
  | some m => exact ⟨hb, (h m rfl).value⟩

@[simp] theorem oneLine_codeOf (h : ∀ n ∈ ns, n.Fine) : (codeOf ns).OneLine :=
  oneLine_all_as .statement trivial h

@[simp] theorem oneLine_expressionsCode (h : ∀ n ∈ ns, n.Fine) : (expressionsCode ns).OneLine :=
  oneLine_all_as .effect trivial h

@[simp] theorem oneLine_valueList (h : ∀ n ∈ ns, n.Fine) : (valueList ns).OneLine :=
  oneLine_joined_as .value trivial (by decide) h

@[simp] theorem oneLine_params (h : ∀ n ∈ ns, n.Fine) : (params ns).OneLine :=
  oneLine_joined_as .param trivial (by decide) h

@[simp] theorem oneLine_arguments (h : ∀ n ∈ ns, n.Fine) : (arguments ns).OneLine :=
  oneLine_joined_as .argument trivial (by decide) h

@[simp] theorem oneLine_constItems (h : ∀ n ∈ ns, n.Fine) : (constItems ns).OneLine :=
  oneLine_joined_as .constItem trivial (by decide) h

@[simp] theorem oneLine_names (h : ∀ n ∈ ns, n.Fine) : (names ns).OneLine :=
  oneLine_joined_as .fullName trivial (by decide) h

@[simp] theorem oneLine_namesAfter {word : String} (hw : Text.OneLine word)
    (h : ∀ n ∈ ns, n.Fine) : (namesAfter word ns).OneLine := by
  unfold namesAfter
  split
  · exact trivial
  · exact ⟨hw, oneLine_names h⟩

@[simp] theorem oneLine_classParents {parent : Option Planned} (hp : ∀ n ∈ parent, n.Fine)
    (h : ∀ n ∈ ns, n.Fine) : (classParents parent ns).OneLine := by
  refine ⟨?_, oneLine_namesAfter (by decide) h⟩
  cases parent with
  | none => exact trivial
  | some n => exact ⟨by decide, (hp n rfl).fullName⟩

@[simp] theorem oneLine_closureUses (h : ∀ n ∈ ns, n.Fine) : (closureUses ns).OneLine := by
  unfold closureUses
  split
  · exact trivial
  · exact ⟨⟨by decide, oneLine_joined_as .closureUse trivial (by decide) h⟩, by decide⟩

@[simp] theorem oneLine_interpolation {quote : String} (hq : Text.OneLine quote)
    (h : ∀ n ∈ ns, n.Fine) : (interpolation quote ns).OneLine :=
  ⟨⟨hq, oneLine_all_as .stringPart trivial h⟩, hq⟩

@[simp] theorem oneLine_arrayItems {items : List (Option Planned)}
    (h : ∀ n ∈ items.reduceOption, n.Fine) : (arrayItems items).OneLine := by
  refine Plan.oneLine_joined (by decide) fun p hp => ?_
  obtain ⟨item, hitem, rfl⟩ := List.mem_map.mp hp
  cases item with
  | none => exact trivial
  | some n => exact h n (List.reduceOption_mem_iff.mpr hitem) .arrayItem trivial

theorem oneLine_modifierText {modifiers : List String} (h : ∀ s ∈ modifiers, Text.OneLine s) :
    Text.OneLine (modifierText modifiers) := by
  refine Text.oneLine_join fun s hs => ?_
  obtain ⟨word, hword, rfl⟩ := List.mem_map.mp hs
  exact Text.oneLine_append.mpr ⟨h word hword, by decide⟩

@[simp] theorem oneLine_wordText {word : Option String} (h : ∀ s ∈ word, Text.OneLine s) :
    Text.OneLine (wordText word) := by
  cases word with
  | none => decide
  | some s => exact Text.oneLine_append.mpr ⟨h s rfl, by decide⟩

@[simp] theorem oneLine_nameText {parts : List String} {fullyQualified : Bool}
    (h : ∀ s ∈ parts, Text.OneLine s) :
    Text.OneLine (Planned.nameText parts fullyQualified) := by
  refine Text.oneLine_append.mpr ⟨?_, Text.oneLine_intercalate (by decide) h⟩
  split <;> decide

end

@[simp] theorem oneLine_binaryToken (op : Syntax.BinaryOperator) : Text.OneLine op.token := by
  cases op <;> decide

@[simp] theorem oneLine_unaryToken (op : Syntax.UnaryOperator) : Text.OneLine op.token := by
  cases op <;> decide

@[simp] theorem oneLine_castToken (type : Syntax.CastType) : Text.OneLine type.token := by
  cases type <;> decide

@[simp] theorem oneLine_inclusionKeyword (way : Syntax.Inclusion) : Text.OneLine way.keyword := by
  cases way <;> decide

@[simp] theorem oneLine_arrow (nullsafe : Bool) : Text.OneLine (arrow nullsafe) := by
  cases nullsafe <;> decide

theorem oneLine_assignToken {op : Syntax.BinaryOperator} :
    ∀ s ∈ op.assignToken?, Text.OneLine s := by
  cases op <;> decide

theorem oneLine_between {token : String} (h : OneLine token) : OneLine (" " ++ token ++ " ") :=
  Text.oneLine_append.mpr ⟨Text.oneLine_append.mpr ⟨by decide, h⟩, by decide⟩

@[simp] theorem oneLine_unaryOperand {n : Planned} (h : n.Fine) : (unaryOperand n).OneLine :=
  Plan.oneLine_groupedIf.mpr h.value

@[simp] theorem oneLine_unary {op : Syntax.UnaryOperator} {n : Planned} (h : n.Fine) :
    (unary op n).OneLine := by
  unfold unary
  split <;> simp [h]

@[simp] theorem oneLine_conditional {condition elseExpr : Planned} {thenExpr : Option Planned}
    (hc : condition.Fine) (ht : ∀ n ∈ thenExpr, n.Fine) (he : elseExpr.Fine) :
    (conditional condition thenExpr elseExpr).OneLine := by
  cases thenExpr with
  | none => simp +decide [conditional, hc, he]
  | some n => simp +decide [conditional, hc, he, ht n rfl]

@[simp] theorem oneLine_variableVariable {n : Planned} (h : n.Fine) :
    (variableVariable n).OneLine := by
  unfold variableVariable
  split <;> simp +decide [h]

@[simp] theorem oneLine_instantiation {owner : Planned} {args : List Planned} (h : owner.Fine)
    (hargs : ∀ n ∈ args, n.Fine) : (instantiation owner args).OneLine := by
  have hnone : (instantiation owner []).OneLine := h .instantiated trivial
  unfold instantiation at hnone ⊢
  split at hnone
  · rename_i hk
    simp only [anonymousClass, hk, Plan.oneLine_append] at hnone ⊢
    exact ⟨⟨⟨⟨hnone.1.1.1.1, oneLine_arguments hargs⟩, hnone.1.1.2⟩, hnone.1.2⟩, hnone.2⟩
  · exact ⟨⟨hnone.1.1, oneLine_arguments hargs⟩, hnone.2⟩

@[simp] theorem oneLine_closure {ps uses body : List Planned} {byRef isStatic arrow : Bool}
    (hps : ∀ n ∈ ps, n.Fine) (huses : ∀ n ∈ uses, n.Fine) (hbody : ∀ n ∈ body, n.Fine) :
    (closure ps uses body byRef isStatic arrow).OneLine := by
  have hword : Text.OneLine (if arrow then "fn " else "function ") := by
    split <;> decide
  simp +decide [closure, hword, oneLine_params hps, oneLine_closureUses huses,
    oneLine_codeOf hbody]

theorem oneLine_binary {left right : Planned} {op : Syntax.BinaryOperator} (hl : left.Fine)
    (hr : right.Fine) : (binary left op right).OneLine := by
  refine ⟨⟨Plan.oneLine_groupedIf.mpr hl.value, ?_⟩, Plan.oneLine_groupedIf.mpr hr.value⟩
  exact oneLine_between (oneLine_binaryToken op)

theorem oneLine_expressionPlan {t : Tag} {k : Kind Planned} (h : k.All OneLine Planned.Fine) :
    (expressionPlan t k).OneLine := by
  cases k with
  | identifier | magicConst => exact h
  | qualifiedName parts =>
    show OneLine (parts.getLast?.getD "")
    cases hlast : parts.getLast? with
    | none => decide
    | some s => exact h.1 s (List.mem_of_getLast? hlast)
  | integer n => exact Text.oneLine_repr_int n
  | float x => exact Text.oneLine_layout x
  | string s => exact Text.oneLine_literal s
  | interpolated | shellExec => exact oneLine_interpolation (by decide) h
  | var => exact Text.oneLine_append.mpr ⟨by decide, h⟩
  | variableVariable => exact oneLine_variableVariable h
  | constFetch => exact Planned.Fine.constant h
  | classConstFetch | staticPropertyFetch => exact ⟨⟨h.1.name, by decide⟩, h.2.member⟩
  | propertyFetch => exact ⟨⟨h.1.value, oneLine_arrow _⟩, h.2.1.member⟩
  | arrayDimFetch _ index =>
    exact ⟨⟨⟨h.1.value, by decide⟩, oneLine_ofOption_value h.2⟩, by decide⟩
  | assign | assignRef => exact ⟨⟨h.1.value, by decide⟩, h.2.value⟩
  | assignOp op target value =>
    unfold expressionPlan
    cases hop : op.assignToken? with
    | none => simp [hop]
    | some token =>
      simp only [hop]
      exact ⟨⟨h.2.1.value, oneLine_between (oneLine_assignToken token hop)⟩, h.2.2.value⟩
  | binaryOp => exact oneLine_binary h.1 h.2.2
  | unaryOp => exact oneLine_unary h.2
  | cast type =>
    exact ⟨Text.oneLine_append.mpr ⟨oneLine_castToken type, by decide⟩, oneLine_unaryOperand h.2⟩
  | ternary => exact oneLine_conditional h.1 h.2.1 h.2.2
  | instanceOf => exact ⟨⟨h.1.value, by decide⟩, h.2.name⟩
  | call => exact ⟨⟨⟨h.1.name, by decide⟩, oneLine_arguments h.2⟩, by decide⟩
  | methodCall =>
    exact ⟨⟨⟨⟨⟨h.1.value, oneLine_arrow _⟩, h.2.1.member⟩, by decide⟩,
      oneLine_arguments h.2.2.1⟩, by decide⟩
  | staticCall =>
    exact ⟨⟨⟨⟨⟨h.1.name, by decide⟩, h.2.1.member⟩, by decide⟩, oneLine_arguments h.2.2⟩,
      by decide⟩
  | new => exact oneLine_instantiation h.1 h.2
  | array | list => exact ⟨⟨by decide, oneLine_arrayItems h⟩, by decide⟩
  | isset => exact ⟨⟨by decide, oneLine_valueList h⟩, by decide⟩
  | empty | eval => exact ⟨⟨by decide, Planned.Fine.value h⟩, by decide⟩
  | clone | print | yieldFrom => exact ⟨by decide, Planned.Fine.value h⟩
  | exit expr =>
    cases expr with
    | none => exact (by decide : (Plan.text "exit").OneLine)
    | some n => exact ⟨⟨by decide, (h n rfl).value⟩, by decide⟩
  | yield expr =>
    cases expr with
    | none => exact (by decide : (Plan.text "yield").OneLine)
    | some n => exact ⟨by decide, (h n rfl).value⟩
  | inclusion way =>
    exact ⟨⟨Text.oneLine_append.mpr ⟨oneLine_inclusionKeyword way, by decide⟩, h.2.value⟩,
      by decide⟩
  | closure => exact oneLine_closure h.1 h.2.1 h.2.2.1
  | _ => exact trivial

@[simp] theorem oneLine_declarationBody {header : Plan} {body : List Planned}
    (hh : header.OneLine) (h : ∀ n ∈ body, n.Fine) : (declarationBody header body).OneLine :=
  Plan.oneLine_braced hh (oneLine_codeOf h)

@[simp] theorem oneLine_functionHeader {modifiers : List String} {name : String} {byRef : Bool}
    {ps : List Planned} (hm : ∀ s ∈ modifiers, OneLine s) (hn : OneLine name)
    (h : ∀ n ∈ ps, n.Fine) : (functionHeader modifiers name byRef ps).OneLine := by
  simp +decide [functionHeader, oneLine_modifierText hm, hn, oneLine_params h]

theorem oneLine_declarationPlan {k : Kind Planned} (h : k.All OneLine Planned.Fine) :
    (declarationPlan k).OneLine := by
  cases k with
  | functionDecl name ps body =>
    exact oneLine_declarationBody (oneLine_functionHeader (List.forall_mem_nil _) h.1 h.2.1) h.2.2.1
  | classDecl name =>
    have hname : OneLine (name.getD "") := by
      cases name with
      | none => decide
      | some s => exact h.1 s rfl
    refine oneLine_declarationBody ⟨?_, oneLine_classParents h.2.2.1 h.2.2.2.1⟩ h.2.2.2.2
    exact Text.oneLine_append.mpr ⟨Text.oneLine_append.mpr
      ⟨oneLine_modifierText h.2.1, by decide⟩, hname⟩
  | interfaceDecl =>
    exact oneLine_declarationBody ⟨Text.oneLine_append.mpr ⟨by decide, h.1⟩,
      oneLine_namesAfter (by decide) h.2.1⟩ h.2.2
  | traitDecl =>
    exact oneLine_declarationBody (Text.oneLine_append.mpr ⟨by decide, h.1⟩) h.2
  | methodDecl name modifiers ps body byRef =>
    have hheader : (functionHeader modifiers name byRef ps).OneLine :=
      oneLine_functionHeader h.2.1 h.1 h.2.2.1
    cases body with
    | none => exact ⟨hheader, by decide⟩
    | some ns => exact oneLine_declarationBody hheader h.2.2.2.1
  | propertyDecl modifiers => exact oneLine_all_as (.property modifiers) h.1 h.2
  | classConst =>
    exact ⟨⟨Text.oneLine_append.mpr ⟨oneLine_modifierText h.1, by decide⟩,
      oneLine_constItems h.2⟩, by decide⟩
  | traitUse => exact ⟨⟨by decide, oneLine_names h⟩, by decide⟩
  | _ => exact trivial

theorem oneLine_forPlan {init conditions step body : List Planned} (hi : ∀ n ∈ init, n.Fine)
    (hc : ∀ n ∈ conditions, n.Fine) (hs : ∀ n ∈ step, n.Fine) (hb : ∀ n ∈ body, n.Fine) :
    (forPlan init conditions step body).OneLine := by
  unfold forPlan
  split
  · rename_i test htest
    refine ⟨oneLine_expressionsCode hi, Plan.oneLine_all.mpr fun p hp => ?_,
      (hc test (List.mem_of_getLast? htest)).value, oneLine_expressionsCode hs, oneLine_codeOf hb⟩
    obtain ⟨c, hmem, rfl⟩ := List.mem_map.mp hp
    exact (hc c (List.dropLast_subset _ hmem)).value
  · exact ⟨oneLine_expressionsCode hi, oneLine_expressionsCode hs, oneLine_codeOf hb⟩

theorem oneLine_bindingPlan {key : Option Planned} {value : Planned} {byRef : Bool}
    (hk : ∀ n ∈ key, n.Fine) (hv : value.Fine) : (bindingPlan key value byRef).OneLine :=
  ⟨⟨⟨by decide, oneLine_ofOption_value hk, by decide⟩, Plan.oneLine_textIf (by decide)⟩,
    hv.value⟩

theorem oneLine_usePlan {group : Option Planned} {items : List Planned}
    (hg : ∀ n ∈ group, n.Fine) (hi : ∀ n ∈ items, n.Fine) : (usePlan group items).OneLine := by
  have hitems := oneLine_joined_as .useItem trivial (by decide : Text.OneLine ", ") hi
  cases group with
  | none => exact hitems
  | some n => exact ⟨⟨⟨(hg n rfl).fullName, by decide⟩, hitems⟩, by decide⟩

theorem oneLine_namespaceHeader {name : Option Planned} (h : ∀ n ∈ name, n.Fine) :
    (namespaceHeader name).OneLine := by
  cases name with
  | none => simp +decide [namespaceHeader]
  | some n => simp +decide [namespaceHeader, h n rfl]

theorem oneLine_statementPlan {k : Kind Planned} (h : k.All OneLine Planned.Fine) :
    (statementPlan k).OneLine := by
  cases k with
  | script | block => exact oneLine_codeOf h
  | expressionStmt => exact Planned.Fine.expressionCode h
  | echo | global | unset => exact ⟨⟨by decide, oneLine_valueList h⟩, by decide⟩
  | constStmt => exact ⟨⟨by decide, oneLine_constItems h⟩, by decide⟩
  | throwStmt => exact ⟨⟨by decide, Planned.Fine.value h⟩, by decide⟩
  | whileLoop => exact ⟨h.1.value, oneLine_codeOf h.2⟩
  | doWhile => exact ⟨oneLine_codeOf h.1, h.2.value⟩
  | forLoop => exact oneLine_forPlan h.1 h.2.1 h.2.2.1 h.2.2.2
  | foreachLoop =>
    exact ⟨h.1.value, oneLine_bindingPlan h.2.1 h.2.2.1, oneLine_codeOf h.2.2.2.2⟩
  | returnStmt value =>
    cases value with
    | none => exact (by decide : (Plan.text "return;").OneLine)
    | some n => exact ⟨⟨by decide, (h n rfl).value⟩, by decide⟩
  | ifElse _ _ elseBranch =>
    cases elseBranch with
    | none => exact ⟨h.1.value, oneLine_codeOf h.2.1⟩
    | some n => exact ⟨h.1.value, oneLine_codeOf h.2.1, oneLine_codeOf h.2.2⟩
  | switch =>
    exact Plan.oneLine_braced ⟨⟨by decide, h.1.value⟩, by decide⟩
      (oneLine_all_as .caseClause trivial h.2)
  | tryCatch _ _ finalBody =>
    refine ⟨⟨Plan.oneLine_braced (by decide) (oneLine_codeOf h.1),
      oneLine_all_as .catchClause trivial h.2.1⟩, ?_⟩
    cases finalBody with
    | none => exact trivial
    | some ns => exact Plan.oneLine_braced (by decide) (oneLine_codeOf h.2.2)
  | staticStmt =>
    exact ⟨⟨by decide, oneLine_joined_as .staticVar trivial (by decide) h⟩, by decide⟩
  | declare =>
    refine ⟨⟨by decide, Plan.oneLine_joined (by decide) fun p hp => ?_⟩, by decide⟩
    obtain ⟨n, hn, rfl⟩ := List.mem_map.mp hp
    exact h n hn .constItem trivial
  | namespaceStmt _ body =>
    have hheader := oneLine_namespaceHeader h.1
    cases body with
    | none => exact ⟨hheader, by decide⟩
    | some ns => exact Plan.oneLine_braced hheader (oneLine_codeOf h.2)
  | useStmt =>
    exact ⟨⟨Text.oneLine_append.mpr ⟨by decide, oneLine_wordText h.1⟩,
      oneLine_usePlan h.2.1 h.2.2⟩, by decide⟩
  | goto => exact Text.oneLine_append.mpr ⟨Text.oneLine_append.mpr ⟨by decide, h⟩, by decide⟩
  | label => exact Text.oneLine_append.mpr ⟨h, by decide⟩
  | _ => exact trivial

theorem oneLine_kindPlan {t : Tag} {k : Kind Planned} (h : k.All OneLine Planned.Fine) :
    (kindPlan t k).OneLine := by
  unfold kindPlan
  split
  · exact oneLine_expressionPlan h
  split
  · exact oneLine_declarationPlan h
  · exact oneLine_statementPlan h

/-- A node whose words and children are fine is fine. -/
theorem Planned.fine_of_kind {n : Planned} (hn : n.plan = kindPlan n.tag n.kind)
    (h : n.kind.All OneLine Planned.Fine) : n.Fine := by
  have hplan : n.plan.OneLine := hn ▸ oneLine_kindPlan h
  have hvalue : n.value.OneLine := by
    unfold Planned.value
    split
    · exact hplan
    · exact trivial
  have hname : n.name.OneLine := by
    unfold Planned.name
    split
    · exact hplan
    · exact hplan
    · exact hvalue
  intro r hr
  cases r with
  | statement =>
    show n.code.OneLine
    unfold Planned.code
    split
    · exact hplan
    · exact trivial
  | value => exact hvalue
  | effect =>
    show n.expressionCode.OneLine
    unfold Planned.expressionCode
    split
    · exact ⟨hplan, by decide⟩
    · exact ⟨hplan, by decide⟩
    all_goals exact hvalue
  | name => exact hname
  | fullName =>
    show n.fullName.OneLine
    unfold Planned.fullName
    split
    · rename_i hk
      rw [hk] at h
      exact oneLine_nameText h.1
    · exact hname
  | member =>
    show n.member.OneLine
    unfold Planned.member
    split
    · exact hname
    · exact hname
    · exact hname
    · exact ⟨⟨by decide, hname⟩, by decide⟩
  | constant =>
    refine ⟨trivial, ?_⟩
    split
    · rename_i hk
      rw [hk] at h
      exact oneLine_nameText h.1
    · rename_i hk
      rw [hk] at h
      exact h
    · exact trivial
  | instantiated =>
    show (instantiation n []).OneLine
    unfold instantiation
    split
    · rename_i hk
      rw [hk] at h
      unfold anonymousClass
      rw [hk]
      exact ⟨⟨⟨⟨⟨trivial, by decide⟩, trivial⟩, by decide⟩, oneLine_classParents h.2.2.1 h.2.2.2.1⟩,
        trivial, oneLine_codeOf h.2.2.2.2⟩
    · exact ⟨⟨⟨⟨by decide, hname⟩, by decide⟩, trivial⟩, by decide⟩
  | argument =>
    show (argument n).OneLine
    unfold argument
    split
    · rename_i name hk
      rw [hk] at h
      refine ⟨⟨⟨⟨trivial, ?_⟩, Plan.oneLine_textIf (by decide)⟩, Plan.oneLine_textIf (by decide)⟩,
        h.1.value⟩
      cases name with
      | none => exact Text.oneLine_empty
      | some s => exact Text.oneLine_append.mpr ⟨h.2.2.2 s rfl, by decide⟩
    · exact hvalue
  | arrayItem =>
    show (arrayItem n).OneLine
    unfold arrayItem
    split
    · rename_i key value byRef unpack hk
      rw [hk] at h
      refine ⟨⟨⟨⟨trivial, by decide, ?_, by decide⟩, Plan.oneLine_textIf (by decide)⟩,
        Plan.oneLine_textIf (by decide)⟩, h.2.1.value⟩
      exact oneLine_ofOption_value h.1
    · exact hvalue
  | stringPart =>
    show (stringPart n).OneLine
    unfold stringPart
    split
    · exact ⟨trivial, Text.oneLine_escapeFragment _⟩
    · exact hvalue
    · exact ⟨⟨by decide, hvalue⟩, by decide⟩
  | param =>
    show (param n).OneLine
    unfold param
    split
    · rename_i typeHint hk
      rw [hk] at h
      refine ⟨⟨⟨⟨⟨trivial, ?_⟩, Plan.oneLine_textIf (by decide)⟩, Plan.oneLine_textIf (by decide)⟩,
        Text.oneLine_append.mpr ⟨by decide, h.1⟩⟩, oneLine_optionAfter_value (by decide) h.2.1⟩
      cases typeHint with
      | none => exact Text.oneLine_empty
      | some s => exact Text.oneLine_append.mpr ⟨h.2.2.2.2 s rfl, by decide⟩
    · exact trivial
  | closureUse =>
    show (closureUse n).OneLine
    unfold closureUse
    split
    · rename_i hk
      rw [hk] at h
      exact ⟨⟨trivial, Plan.oneLine_textIf (by decide)⟩, h.1.value⟩
    · exact trivial
  | constItem =>
    show (constItem n).OneLine
    unfold constItem
    split
    · rename_i hk
      rw [hk] at h
      exact ⟨⟨trivial, Text.oneLine_append.mpr ⟨h.1, by decide⟩⟩, h.2.value⟩
    · exact trivial
  | staticVar =>
    show (staticVarPlan n).OneLine
    unfold staticVarPlan
    split
    · rename_i hk
      rw [hk] at h
      exact ⟨⟨trivial, h.1.value⟩, oneLine_optionAfter_value (by decide) h.2⟩
    · exact trivial
  | property modifiers =>
    show (property modifiers n).OneLine
    unfold property
    split
    · rename_i hk
      rw [hk] at h
      have hwords : OneLine (if modifiers.isEmpty then "var " else modifierText modifiers) := by
        split
        · decide
        · exact oneLine_modifierText hr
      exact ⟨⟨⟨trivial, Text.oneLine_append.mpr ⟨Text.oneLine_append.mpr ⟨hwords, by decide⟩,
        h.1⟩⟩, oneLine_optionAfter_value (by decide) h.2⟩, by decide⟩
    · exact trivial
  | useItem =>
    show (useItemPlan n).OneLine
    unfold useItemPlan
    split
    · rename_i rename hk
      rw [hk] at h
      refine ⟨⟨⟨trivial, oneLine_wordText h.1⟩, h.2.1.fullName⟩, ?_⟩
      cases rename with
      | none => exact Text.oneLine_empty
      | some s => exact Text.oneLine_append.mpr ⟨by decide, h.2.2 s rfl⟩
    · exact trivial
  | caseClause =>
    show (casePlan n).OneLine
    unfold casePlan
    split
    · rename_i test body hk
      rw [hk] at h
      exact ⟨⟨⟨⟨⟨trivial, by decide⟩, (h.1 test rfl).value⟩, by decide⟩, oneLine_codeOf h.2⟩, trivial⟩
    · rename_i hk
      rw [hk] at h
      exact ⟨⟨⟨trivial, by decide⟩, oneLine_codeOf h.2⟩, trivial⟩
    · exact trivial
  | catchClause =>
    show (catchPlan n).OneLine
    unfold catchPlan
    split
    · rename_i hk
      rw [hk] at h
      exact Plan.oneLine_braced ⟨⟨⟨⟨trivial, by decide⟩,
        oneLine_joined_as .name trivial (by decide) h.1⟩,
          oneLine_optionAfter_value (by decide) h.2.1⟩, by decide⟩ (oneLine_codeOf h.2.2)
    · exact trivial

theorem words_foldKind {β : Type} (f : Node → Kind β → β) (k : Kind Node) :
    (Node.foldKind f k).words = k.words := by
  cases k <;> rfl

/-- **The texts in the plans of a legible tree stand on one line.** -/
theorem fine_planned {n : Node} (h : n.Legible) : (planned n).Fine := by
  induction h with
  | @intro n hwords _ ih =>
    refine Planned.fine_of_kind (planned_plan n) (Kind.all_of ?_ ?_)
    · unfold planned
      rw [Node.fold_eq]
      exact (words_foldKind _ n.kind).symm ▸ hwords
    · intro c hc
      have hc : c ∈ n.kind.children.map planned := by
        unfold planned at hc ⊢
        rw [Node.fold_eq] at hc
        exact (Node.children_foldKind _ n.kind) ▸ hc
      obtain ⟨m, hm, rfl⟩ := List.mem_map.mp hc
      exact ih m hm

/-! ## Runs -/

/-- The labels that a jump may go to stand on one line. -/
def Frame.OneLine : Frame → Prop
  | .loop breakTo continueTo => Text.OneLine breakTo ∧ Text.OneLine continueTo
  | .switch => True

theorem Labels.oneLine_start (n : Nat) : Text.OneLine (Labels.ofNat n).start :=
  Text.oneLine_append.mpr ⟨by decide, Text.oneLine_repr_nat n⟩

theorem Labels.oneLine_stop (n : Nat) : Text.OneLine (Labels.ofNat n).stop :=
  Text.oneLine_append.mpr ⟨Labels.oneLine_start n, by decide⟩

theorem oneLine_temporary (n : Nat) : Text.OneLine (temporary n) :=
  Text.oneLine_append.mpr ⟨by decide, Text.oneLine_repr_nat n⟩

/-- Every instruction is written on one line. -/
def CodeOneLine (code : List Instruction) : Prop :=
  ∀ i ∈ code, Text.OneLine i.line

@[simp] theorem codeOneLine_nil : CodeOneLine [] :=
  List.forall_mem_nil _

@[simp] theorem codeOneLine_append {c d : List Instruction} :
    CodeOneLine (c ++ d) ↔ CodeOneLine c ∧ CodeOneLine d :=
  List.forall_mem_append

@[simp] theorem codeOneLine_cons {i : Instruction} {c : List Instruction} :
    CodeOneLine (i :: c) ↔ Text.OneLine i.line ∧ CodeOneLine c :=
  List.forall_mem_cons

/-- A fixed text after another one changes nothing. -/
theorem oneLine_append_left {s t : String} (ht : Text.OneLine t) :
    Text.OneLine (s ++ t) ↔ Text.OneLine s :=
  Text.oneLine_append.trans (and_iff_left ht)

/-- A fixed text before another one changes nothing. -/
theorem oneLine_append_right {s t : String} (hs : Text.OneLine s) :
    Text.OneLine (s ++ t) ↔ Text.OneLine t :=
  Text.oneLine_append.trans (and_iff_right hs)

@[simp] theorem oneLine_label {s : String} :
    Text.OneLine (Instruction.label s).line ↔ Text.OneLine s :=
  oneLine_append_left (by decide)

@[simp] theorem oneLine_goto {s : String} :
    Text.OneLine (Instruction.goto s).line ↔ Text.OneLine s :=
  (oneLine_append_left (by decide)).trans (oneLine_append_right (by decide))

@[simp] theorem oneLine_ifGoto {c s : String} :
    Text.OneLine (Instruction.ifGoto c s).line ↔ Text.OneLine c ∧ Text.OneLine s := by
  refine (oneLine_append_left (by decide)).trans (Text.oneLine_append.trans (and_congr_left' ?_))
  exact (oneLine_append_left (by decide)).trans (oneLine_append_right (by decide))

@[simp] theorem oneLine_foreach {i b s : String} : Text.OneLine (Instruction.foreach i b s).line ↔
    (Text.OneLine i ∧ Text.OneLine b) ∧ Text.OneLine s := by
  refine (oneLine_append_left (by decide)).trans (Text.oneLine_append.trans (and_congr_left' ?_))
  refine (oneLine_append_left (by decide)).trans (Text.oneLine_append.trans (and_congr_left' ?_))
  exact (oneLine_append_left (by decide)).trans (oneLine_append_right (by decide))

@[simp] theorem oneLine_text {s : String} :
    Text.OneLine (Instruction.text s).line ↔ Text.OneLine s :=
  Iff.rfl

/-- The value and every instruction are written on one line. -/
structure Lowered.OneLine (a : Lowered) : Prop where
  value : Text.OneLine a.value
  effects : CodeOneLine a.effects

theorem Lowered.OneLine.ofCode {code : List Instruction} (h : CodeOneLine code) :
    (Lowered.ofCode code).OneLine :=
  ⟨Text.oneLine_empty, h⟩

theorem oneLine_inBraces {code : List Instruction} (h : CodeOneLine code) :
    Text.OneLine (inBraces code) := by
  unfold inBraces
  split
  · decide
  · refine Text.oneLine_append.mpr ⟨Text.oneLine_append.mpr ⟨by decide, ?_⟩, by decide⟩
    refine Text.oneLine_intercalate (by decide) fun s hs => ?_
    obtain ⟨i, hi, rfl⟩ := List.mem_map.mp hs
    exact h i hi

theorem compactChars_subset (cs : List Char) : compactChars cs ⊆ cs := by
  fun_induction compactChars cs with
  | case1 cs ih => exact List.cons_subset.mpr ⟨by simp, fun c hc => by simp [ih hc]⟩
  | case2 c cs _ ih => exact List.cons_subset_cons c ih
  | case3 => exact List.Subset.refl _

theorem oneLine_jump {c : Context} (hc : ∀ f ∈ c.frames, f.OneLine) (j : Jump)
    (levels : Option Nat) : Text.OneLine (c.jump j levels).line := by
  unfold Context.jump
  split
  · rename_i hframe
    have hlabels := hc _ (List.mem_of_getElem? hframe)
    rw [oneLine_goto]
    cases j with
    | leave => exact hlabels.1
    | next => exact hlabels.2
  · decide
  · have hkeyword : Text.OneLine j.keyword := by
      cases j <;> decide
    split <;> simp +decide [hkeyword]

/-- The frames inside a loop. -/
theorem oneLine_loop {fs : List Frame} {m n : Nat} (h : ∀ f ∈ fs, f.OneLine) :
    ∀ f ∈ Frame.loop (Labels.ofNat m).stop (Labels.ofNat n).start :: fs, f.OneLine :=
  List.forall_mem_cons.mpr ⟨⟨Labels.oneLine_stop m, Labels.oneLine_start n⟩, h⟩

open Labels in
/-- **A plan whose texts stand on one line writes one line an instruction.** -/
theorem Plan.Runs.oneLine {p : Plan} {c c' : Context} {a : Lowered} (h : Plan.Runs p c a c')
    (hp : p.OneLine) (hc : ∀ f ∈ c.frames, f.OneLine) : a.OneLine := by
  induction h with
  | nothing | mark | guardedAgain | expressionAgain | statementAgain =>
    exact ⟨Text.oneLine_empty, codeOneLine_nil⟩
  | text => exact ⟨hp, codeOneLine_nil⟩
  | guarded _ _ ih | expression _ _ _ ih | statement _ _ _ ih | declared _ ih => exact ih hp hc
  | inSwitch _ ih => exact ih hp (List.forall_mem_cons.mpr ⟨trivial, hc⟩)
  | apart _ ih => exact ih hp (List.forall_mem_nil _)
  | effects _ ih => exact .ofCode (ih hp hc).effects
  | both h _ iha ihb =>
    have ha := iha hp.1 hc
    have hb := ihb hp.2 (h.frames_eq ▸ hc)
    exact ⟨Text.oneLine_append.mpr ⟨ha.value, hb.value⟩,
      codeOneLine_append.mpr ⟨ha.effects, hb.effects⟩⟩
  | shownBefore h _ ihb iha =>
    have hb := ihb hp.2 hc
    have ha := iha hp.1 (h.frames_eq ▸ hc)
    exact ⟨Text.oneLine_append.mpr ⟨ha.value, hb.value⟩,
      codeOneLine_append.mpr ⟨hb.effects, ha.effects⟩⟩
  | unlessEmpty _ ih =>
    have ha := ih hp.2.1 hc
    unfold Lowered.wrapped
    split
    · exact ha
    · exact ⟨Text.oneLine_append.mpr ⟨Text.oneLine_append.mpr ⟨hp.1, ha.value⟩, hp.2.2⟩, ha.effects⟩
  | compact _ ih =>
    have ha := ih hp hc
    refine ⟨ha.value.subset ?_, ha.effects⟩
    rw [String.toList_ofList]
    exact compactChars_subset _
  | bind _ ih =>
    have ha := ih hp hc
    refine ⟨oneLine_temporary _, codeOneLine_append.mpr ⟨ha.effects, ?_⟩⟩
    simp +decide [oneLine_temporary, ha.value]
  | closed h _ iha ihb =>
    have ha := iha hp.1 hc
    have hb := ihb hp.2 (List.forall_mem_nil _)
    exact ⟨Text.oneLine_append.mpr ⟨ha.value,
      oneLine_inBraces (codeOneLine_append.mpr ⟨ha.effects, hb.effects⟩)⟩, codeOneLine_nil⟩
  | line _ ih =>
    have ha := ih hp hc
    exact .ofCode (codeOneLine_append.mpr ⟨ha.effects, List.forall_mem_singleton.mpr ha.value⟩)
  | valueLine _ ih =>
    have ha := ih hp hc
    unfold Lowered.asValueLine
    split
    · exact .ofCode ha.effects
    · exact .ofCode (by simp +decide [ha.effects, ha.value])
  | emit => exact .ofCode (List.forall_mem_singleton.mpr hp)
  | jump => exact .ofCode (List.forall_mem_singleton.mpr (oneLine_jump hc _ _))
  | closeCase =>
    refine .ofCode ?_
    split
    · exact codeOneLine_nil
    · exact List.forall_mem_singleton.mpr (by decide)
  | ifThen h _ iha ihb =>
    have ha := iha hp.1 hc
    have hb := ihb hp.2 (h.frames_eq ▸ hc)
    refine .ofCode ?_
    simp [Shape.ifThen, Shape.test, ha.value, ha.effects, hb.effects, oneLine_start, oneLine_stop]
  | ifThenElse h h' _ iha ihb ihd =>
    have ha := iha hp.1 hc
    have hb := ihb hp.2.1 (h.frames_eq ▸ hc)
    have hd := ihd hp.2.2 (h'.frames_eq ▸ h.frames_eq ▸ hc)
    refine .ofCode ?_
    simp [Shape.ifThenElse, Shape.test, ha.value, ha.effects, hb.effects, hd.effects,
      oneLine_start, oneLine_stop]
  | whileLoop h _ iha ihb =>
    have ha := iha hp.1 hc
    have hb := ihb hp.2 (oneLine_loop (h.frames_eq ▸ hc))
    refine .ofCode ?_
    simp [Shape.whileLoop, Shape.test, ha.value, ha.effects, hb.effects, oneLine_start,
      oneLine_stop]
  | doWhile h _ ihb iha =>
    have hb := ihb hp.1 (oneLine_loop hc)
    have ha := iha hp.2 hc
    refine .ofCode ?_
    simp [Shape.doWhile, ha.value, ha.effects, hb.effects, oneLine_start, oneLine_stop]
  | barrier h iha =>
    have ha := iha hp hc
    have hjump := oneLine_jump (h.frames_eq ▸ hc) .leave none
    refine .ofCode ?_
    simp [Shape.barrier, ha.value, ha.effects, hjump, oneLine_stop]
  | forLoop hi _ ht _ _ ihi ihg iha ihb ihs =>
    have hinit := ihi hp.1 hc
    have hframes : ∀ f ∈ Context.frames _, f.OneLine := hi.frames_eq ▸ hc
    have hg := ihg hp.2.1 (oneLine_loop hframes)
    have ha := iha hp.2.2.1 hframes
    have hframes' : ∀ f ∈ Context.frames _, f.OneLine := ht.frames_eq ▸ hframes
    have hb := ihb hp.2.2.2.2 (oneLine_loop hframes')
    have hs := ihs hp.2.2.2.1 hframes'
    refine .ofCode ?_
    simp [Shape.forLoop, Shape.test, hinit.effects, hg.effects, ha.value, ha.effects, hb.effects,
      hs.effects, oneLine_start, oneLine_stop]
  | endless hi _ _ ihi ihb ihs =>
    have hinit := ihi hp.1 hc
    have hframes : ∀ f ∈ Context.frames _, f.OneLine := hi.frames_eq ▸ hc
    have hb := ihb hp.2.2 (oneLine_loop hframes)
    have hs := ihs hp.2.1 hframes
    refine .ofCode ?_
    simp [Shape.forLoop, hinit.effects, hb.effects, hs.effects, oneLine_start, oneLine_stop]
  | foreachLoop hi hv _ ihi ihv ihb =>
    have ha := ihi hp.1 hc
    have hframes : ∀ f ∈ Context.frames _, f.OneLine := hi.frames_eq ▸ hc
    have hbinding := ihv hp.2.1 hframes
    have hb := ihb hp.2.2 (oneLine_loop (hv.frames_eq ▸ hframes))
    refine .ofCode ?_
    simp [Shape.foreachLoop, ha.value, ha.effects, hbinding.value, hbinding.effects, hb.effects,
      oneLine_start, oneLine_stop]

end Lowering

end ThreeAddress

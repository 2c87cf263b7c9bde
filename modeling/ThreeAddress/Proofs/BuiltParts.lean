import ThreeAddress.Proofs.Shape
import ThreeAddress.Proofs.Stock
import ThreeAddress.Proofs.Tokens

/-!
# Parts that are well built

Every rule of the grammar that stands for a node makes it for one role (`nodeRole?`). A part is
well built if it makes the node of its rule, its children come as its rule says, and they are
well built in turn (`WellBuilt`). What a rule makes of its parts then follows from **which parts
there are and in which order** (`PartsOf`).
-/

namespace ThreeAddress.Syntax

open Grammar (Rule)
open Lowering (Role placed)
open Stock

/-- The role that the node of a rule is made for. -/
def nodeRole? : Rule → Option Role
  | .identifier | .qualifiedName | .groupPrefix | .variableName | .expr | .operand | .parenExpr
  | .braceExpr | .braceInterp | .memberName | .classRef | .varVar | .closure | .arrowFn
  | .newExpr | .dynamicClass | .issetExpr | .emptyExpr | .exitExpr | .evalExpr | .listExpr
  | .arrayLong | .arrayLiteral | .magicConst | .float | .integer | .stringSingle | .stringDouble
  | .heredoc | .nowdoc | .shellExec | .simpleInterp => some .value
  | .quotedText | .heredocText | .backtickText => some .stringPart
  | .closureUse => some .closureUse
  | .arrayItem => some .arrayItem
  | .argument => some .argument
  | .script | .inlineHtml | .statement | .ifStmt | .whileStmt | .doStmt | .forStmt | .foreachStmt
  | .switchStmt | .tryStmt | .expressionStmt | .echoStmt | .returnStmt | .breakStmt
  | .continueStmt | .globalStmt | .staticStmt | .unsetStmt | .throwStmt | .namespaceStmt
  | .useStmt | .constStmt | .declareStmt | .gotoStmt | .labelStmt | .inlineHtmlStmt | .nopStmt
  | .functionDecl | .classDecl | .interfaceDecl | .traitDecl | .classMember | .traitUse
  | .classConst | .methodDecl | .propertyDecl => some .statement
  | .caseClause => some .caseClause
  | .catchClause => some .catchClause
  | .staticItem => some .staticVar
  | .useItem | .useGroupItem => some .useItem
  | .constItem => some .constItem
  | .param => some .param
  | .propertyItem => some (.property [])
  | _ => none

/-- Whether the rule stands for a node that can stand in the role. -/
def givesNode (q : Rule) (r : Role) : Bool :=
  (nodeRole? q).any (·.serves r)

/-- The part makes the node of its rule out of well-built children. -/
inductive WellBuilt : Part → Prop
  | intro {p : Part} :
      (p.rule.definition.mode ≠ .atomic →
        p.rule.definition.body.Yields (fun r c => c.rule = r) p.children) →
      p.rule.Spelled p.extent.chars → (∀ c ∈ p.children, WellBuilt c) →
      (∀ r ∈ nodeRole? p.rule, Makes p.value r) → WellBuilt p

/-- The part is a well-built match of the rule. -/
structure Built (q : Rule) (p : Part) : Prop where
  rule : p.rule = q
  well : WellBuilt p

/-- The parts, without keywords, are those of a match of the rule. -/
def PartsOf (q : Rule) (ps : List Part) : Prop :=
  ∃ children, ps = children.filter (!·.rule.isKeyword) ∧ q.definition.body.Yields Built children

namespace PartsOf

variable {q : Rule} {ps : List Part}

/-- **The parts come in the order of the rule.** -/
theorem order (h : PartsOf q ps) :
    q.definition.body.FollowedBy (!·.isKeyword) Built (· = []) ps := by
  obtain ⟨children, rfl, hshape⟩ := h
  rw [← List.append_nil (children.filter _)]
  exact hshape.followedBy (!·.isKeyword) (fun r p hp => hp.rule) rfl

/-- All parts are of rules that the rule calls. -/
theorem built (h : PartsOf q ps) {P : Part → Prop}
    (hP : ∀ r ∈ q.definition.body.calls, r.isKeyword = false → ∀ p, Built r p → P p) :
    ∀ p ∈ ps, P p := by
  obtain ⟨children, rfl, hshape⟩ := h
  intro p hp
  obtain ⟨hmem, hkeyword⟩ := List.mem_filter.mp hp
  refine hshape.forall_mem (Q := fun p => p.rule.isKeyword = false → P p) ?_ p hmem
    (by simpa using hkeyword)
  exact fun r hr p hp hkeyword => hP r hr (hp.rule ▸ hkeyword) p hp

/-- Up to some rules, all parts are of the one rule that the rule calls. -/
theorem allExcept (h : PartsOf q ps) (rs : List Rule) (x : Rule)
    (hx : q.definition.body.calls.all (fun r => r.isKeyword || (rs.contains r || r == x)) = true) :
    ∀ p ∈ ps, p.rule ∉ rs → Built x p := by
  refine h.built fun r hr hkeyword p hp hother => ?_
  have hr := List.all_eq_true.mp hx r hr
  rw [← hp.rule] at hr hkeyword
  rw [hkeyword, Bool.false_or, List.contains_eq_mem, decide_eq_false hother, Bool.false_or,
    beq_iff_eq, hp.rule] at hr
  exact hr ▸ hp

/-- All parts are of the one rule that the rule calls. -/
theorem all (h : PartsOf q ps) (x : Rule)
    (hx : q.definition.body.calls.all (fun r => r.isKeyword || r == x) = true) :
    ∀ p ∈ ps, Built x p :=
  fun p hp => h.allExcept [] x hx p hp List.not_mem_nil

theorem well (h : PartsOf q ps) : ∀ p ∈ ps, WellBuilt p :=
  h.built fun _ _ _ _ hp => hp.well

/-- A part that the rule requires is found. -/
theorem partOf?_eq_some (h : PartsOf q ps) (x : Rule)
    (hx : (!x.isKeyword && q.definition.body.requires x) = true) :
    ∃ p, partOf? x ps = some p ∧ Built x p := by
  obtain ⟨children, rfl, hshape⟩ := h
  obtain ⟨hkeyword, hrequires⟩ := Bool.and_eq_true_iff.mp hx
  obtain ⟨p, hmem, hp⟩ := hshape.exists_mem hrequires
  have hmem : p ∈ children.filter (!·.rule.isKeyword) :=
    List.mem_filter.mpr ⟨hmem, by rw [hp.rule]; exact hkeyword⟩
  cases hfind : partOf? x (children.filter (!·.rule.isKeyword)) with
  | none => simpa [hp.rule] using List.find?_eq_none.mp hfind p hmem
  | some c =>
    refine ⟨c, rfl, by simpa using List.find?_some hfind, ?_⟩
    exact hshape.forall_mem (Q := WellBuilt) (fun _ _ _ h => h.well) c
      (List.mem_filter.mp (List.mem_of_find?_eq_some hfind)).1

end PartsOf

namespace Built

variable {q : Rule} {p : Part} {r : Role}

theorem makes (h : Built q p) (hr : givesNode q r = true) : Makes p.value r := by
  obtain ⟨rfl, ⟨-, -, -, hmakes⟩⟩ := h
  obtain ⟨r', hr', hserves⟩ := Option.any_eq_true .. |>.mp hr
  exact (hmakes r' hr').serving hserves

theorem spelled (h : Built q p) : q.Spelled p.extent.chars := by
  obtain ⟨rfl, ⟨-, hspelled, -, -⟩⟩ := h
  exact hspelled

theorem children (h : Built q p) (hmode : q.definition.mode ≠ .atomic) :
    q.definition.body.Yields Built p.children := by
  obtain ⟨rfl, ⟨hshape, -, hchildren, -⟩⟩ := h
  exact (hshape hmode).mono fun r c hc hrule => ⟨hrule, hchildren c hc⟩

/-- All children are of the one rule that the rule calls. -/
theorem children_all (h : Built q p) (hmode : q.definition.mode ≠ .atomic) (x : Rule)
    (hx : q.definition.body.calls.all (· == x) = true) : ∀ c ∈ p.children, Built x c := by
  refine (h.children hmode).forall_mem fun r hr c hc => ?_
  exact beq_iff_eq.mp (List.all_eq_true.mp hx r hr) ▸ hc

theorem parts (h : Built q p) (hmode : q.definition.mode ≠ .atomic) : PartsOf q p.parts :=
  ⟨p.children, rfl, h.children hmode⟩

end Built

/-! ## Parts that are looked up -/

variable {ps : List Part}

theorem built_of_partOf? (h : ∀ p ∈ ps, WellBuilt p) {x : Rule} :
    ∀ p ∈ partOf? x ps, Built x p :=
  fun p hp => ⟨by simpa using List.find?_some hp, h p (List.mem_of_find?_eq_some hp)⟩

theorem built_of_filter (h : ∀ p ∈ ps, WellBuilt p) (x : Rule) :
    ∀ p ∈ ps.filter (·.rule == x), Built x p := by
  intro p hp
  obtain ⟨hmem, hrule⟩ := List.mem_filter.mp hp
  exact ⟨beq_iff_eq.mp hrule, h p hmem⟩

/-- Parts that repeat one rule. -/
theorem built_of_many {P : Rule → Prop} {x : Rule}
    (h : ∀ p ∈ ps, ∃ q ∈ [x], P q ∧ Built q p) : ∀ p ∈ ps, Built x p := by
  intro p hp
  obtain ⟨q, hq, -, hp⟩ := h p hp
  exact List.mem_singleton.mp hq ▸ hp

/-- Parts that repeat one rule and may end with another one: the last one is found by not being of
the first rule. -/
theorem built_of_clauses {x y : Rule} {cs later : List Part} (hcs : ∀ p ∈ cs, Built x p)
    (hlater : ∀ p ∈ later, Built y p) :
    (∀ p ∈ cs ++ later, WellBuilt p) ∧ ∀ p ∈ (cs ++ later).find? (·.rule != x), Built y p := by
  have hclauses : ∀ p ∈ cs ++ later, Built x p ∨ Built y p :=
    List.forall_mem_append.mpr ⟨fun p hp => .inl (hcs p hp), fun p hp => .inr (hlater p hp)⟩
  refine ⟨fun p hp => (hclauses p hp).elim (·.well) (·.well), fun p hp => ?_⟩
  refine (hclauses p (List.mem_of_find?_eq_some hp)).resolve_left fun hwrong => ?_
  simpa [hwrong.rule] using List.find?_some hp

/-! ## Nodes of parts -/

variable {q : Rule} {p : Part} {r : Role}

theorem makes_buildAs (h : Built q p) (hr : givesNode q r = true) : Makes (buildAs q p) r := by
  unfold buildAs
  rw [if_pos h.rule]
  exact h.makes hr

/-- A part of one of several rules, all of which are expected. -/
theorem makes_buildAmong {what : Expected} {e : Extent} {qs : List Rule}
    (h : ∃ q ∈ qs, Built q p)
    (hqs : qs.all (fun q => decide (q ∈ what.rules) && givesNode q r) = true) :
    Makes (buildAmong what e p) r := by
  obtain ⟨q, hq, h⟩ := h
  obtain ⟨hrules, hr⟩ := Bool.and_eq_true_iff.mp (List.all_eq_true.mp hqs q hq)
  unfold buildAmong
  rw [if_pos (h.rule ▸ of_decide_eq_true hrules)]
  exact h.makes hr

theorem makes_buildFirst {e : Extent} (h : Built q p) (hr : givesNode q r = true) :
    Makes (buildFirst q e (p :: ps)) r :=
  makes_buildAs h hr

theorem makesAll_buildAll (h : ∀ p ∈ ps, Built q p) (hr : givesNode q r = true) :
    MakesAll (buildAll q ps) r := by
  refine (After.mapM fun p hp => makes_buildAs (h p hp) hr).covered fun ns => ?_
  rw [← List.map_eq_flatMap]
  exact .refl _

theorem makesOption_buildOption {p : Option Part} (h : ∀ c ∈ p, Built q c)
    (hr : givesNode q r = true) : MakesOption (buildOption q p) r := by
  refine makesOption_option fun b hb => ?_
  obtain ⟨c, hc, rfl⟩ := Option.mem_map.mp hb
  exact makes_buildAs (h c hc) hr

end ThreeAddress.Syntax

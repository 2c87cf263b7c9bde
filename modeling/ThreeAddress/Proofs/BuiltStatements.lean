import ThreeAddress.Proofs.BuiltAtoms

/-!
# Statements are well built

The rules of statements make statements: their parts are taken one after the other, as the rule
lists them, and a block in the place of a body is its statements. With the rules of declarations
and expressions, **every rule makes its node out of well-built parts** (`makes_buildRule`).
-/

namespace ThreeAddress.Syntax

open Grammar (Rule)
open Lowering (Role placed slots)
open Stock

variable {e : Extent} {ps : List Part}

/-! ## Blocks and scripts -/

theorem makes_statementNode (h : PartsOf .statement ps) :
    Makes (statementNode e ps) .statement := by
  obtain ⟨p, _, rfl, ⟨q, hq, hp⟩, -⟩ := h.order.choice rfl
  have hrules : ∀ q ∈ (Rule.definition .statement).body.calls, q ≠ .block →
      q ∈ Expected.statement.rules ∧ givesNode q .statement = true := by
    decide +kernel
  unfold statementNode
  by_cases hblock : q = .block
  · subst hblock
    simp only [withFirst, hp.rule, if_true]
    exact .step (makesAll_blockBody hp) fun body =>
      .nodeAt rfl (.of_eq (by simp [placed, slots, Field.children]))
  · obtain ⟨hmem, hr⟩ := hrules q hq hblock
    simp only [withFirst, hp.rule, if_neg hblock]
    exact makes_buildAmong ⟨q, List.mem_singleton_self q, hp⟩ (by simp [hmem, hr])

theorem makes_scriptNode (h : ∀ p ∈ ps, WellBuilt p) : Makes (scriptNode e ps) .statement := by
  have hparts : ∀ p ∈ ps.filter (fun p => p.rule == .statement || p.rule == .inlineHtml),
      Makes p.value .statement := by
    intro p hp
    obtain ⟨hmem, hrule⟩ := List.mem_filter.mp hp
    obtain hrule | hrule := Bool.or_eq_true_iff.mp hrule
    · exact Built.makes ⟨beq_iff_eq.mp hrule, h p hmem⟩ rfl
    · exact Built.makes ⟨beq_iff_eq.mp hrule, h p hmem⟩ rfl
  exact .step (After.mapM hparts) fun body => .nodeAt rfl (.of_eq (by
    simp [placed, slots, Field.children, List.map_eq_flatMap]))

/-! ## Conditionals -/

/-- What a clause with a condition leaves in stock. -/
def ElseIf.stock (c : ElseIf) : Stock :=
  (.value, c.condition) :: c.body.map fun n => (.statement, n)

theorem after_elseIfClause {p : Part} (h : Built .elseifClause p) :
    After [] (elseIfClause p) ElseIf.stock := by
  obtain ⟨condition, _, hparts, hcondition, body, _, rfl, hbody, -⟩ := (h.parts nofun).order
  unfold elseIfClause
  rw [hparts]
  exact .step (makes_buildFirst (r := .value) hcondition rfl) fun condition =>
    .step (makes_buildFirst hbody rfl).body fun body => .pure (.refl _)

theorem after_elseBody {clause : Option Part} (h : ∀ p ∈ clause, Built .elseClause p) :
    After [] (elseBody clause) bodyStock := by
  refine after_optionBody fun b hb => ?_
  obtain ⟨p, hp, rfl⟩ := Option.mem_map.mp hb
  obtain ⟨body, _, hparts, hbody, -⟩ := ((h p hp).parts nofun).order
  rw [hparts]
  exact .map (makes_buildFirst hbody rfl).body fun n => .refl _

/-- **The clauses end up nested**: the conditionals of a chain take their parts out of the stock
from its end. -/
theorem after_nestElse {z : Stock} (cs : List ElseIf) (last : Option (List Node)) :
    After (z ++ (cs.flatMap ElseIf.stock ++ bodyStock last)) (cs.foldrM nestElse last)
      fun branch => z ++ bodyStock branch := by
  induction cs generalizing z with
  | nil => exact .pure (.refl _)
  | cons c cs ih =>
    rw [List.foldrM_cons]
    refine .bind (f := fun branch => (z ++ c.stock) ++ bodyStock branch)
      (.convert (.of_eq ?_) (ih (z := z ++ c.stock))) fun branch => ?_
    · simp [List.append_assoc]
    · refine .bind (.read fun file => .node (z := z) (r := .statement) rfl (.of_eq ?_)) fun n =>
        .pure (.refl _)
      simp [placed, slots, Field.children, ElseIf.stock, bodyStock]

theorem makes_ifNode (h : PartsOf .ifStmt ps) : Makes (ifNode e ps) .statement := by
  obtain ⟨condition, _, rfl, hcondition, body, _, rfl, hbody, elseIfs, later, rfl, helseIfs,
    hlast⟩ := h.order
  have hlater : ∀ p ∈ later, Built .elseClause p := by
    obtain rfl | ⟨clause, _, rfl, hclause, rfl⟩ := hlast
    · exact nofun
    · exact List.forall_mem_singleton.mpr hclause
  obtain ⟨hwell, helse⟩ := built_of_clauses (built_of_many helseIfs) hlater
  refine .step (makes_buildFirst (r := .value) hcondition rfl) fun condition =>
    .step (makes_buildFirst hbody rfl).body fun body => ?_
  refine .step (After.mapM fun p hp => after_elseIfClause (built_of_filter hwell _ p hp))
    fun clauses => .step (after_elseBody helse) fun last => ?_
  refine .bind (.convert (.of_eq (List.append_assoc ..).symm) (after_nestElse clauses last))
    fun branch => .nodeAt rfl (.of_eq ?_)
  simp [placed, slots, Field.children, bodyStock]

/-- No statement is a keyword. -/
theorem filter_statements {body : List Part} (h : ∀ p ∈ body, Built .statement p) :
    body.filter (!·.rule.isKeyword) = body := by
  refine List.filter_eq_self.mpr fun p hp => ?_
  rw [(h p hp).rule]
  rfl

theorem makes_testedCase {word test : Part} {body : List Part}
    (hword : Built (.keyword .caseKw) word) (htest : Built .expr test)
    (hbody : ∀ p ∈ body, Built .statement p) :
    Makes (caseNode e (word :: test :: body)
      ((word :: test :: body).filter (!·.rule.isKeyword))) .caseClause := by
  have hcase : (word :: test :: body).any (·.rule == .keyword .caseKw) = true := by
    simp [hword.rule]
  have hparts : (word :: test :: body).filter (!·.rule.isKeyword) = test :: body := by
    rw [List.filter_cons_of_neg (by simp [hword.rule, Rule.isKeyword]),
      List.filter_cons_of_pos (by simp [htest.rule, Rule.isKeyword]), filter_statements hbody]
  unfold caseNode
  rw [if_pos hcase, hparts]
  exact .step (makes_buildFirst (r := .value) htest rfl) fun test =>
    .step (makesAll_buildAll (r := .statement) hbody rfl) fun body =>
      .nodeAt rfl (.of_eq (by simp [placed, slots, Field.children]))

theorem makes_defaultCase {word : Part} {body : List Part}
    (hword : Built (.keyword .defaultKw) word) (hbody : ∀ p ∈ body, Built .statement p) :
    Makes (caseNode e (word :: body) ((word :: body).filter (!·.rule.isKeyword))) .caseClause := by
  have hdefault : ¬ (word :: body).any (·.rule == .keyword .caseKw) = true := by
    have hnone : ∀ p ∈ body, p.rule ≠ .keyword .caseKw := fun p hp => by
      rw [(hbody p hp).rule]
      nofun
    simpa [hword.rule] using hnone
  have hparts : (word :: body).filter (!·.rule.isKeyword) = body := by
    rw [List.filter_cons_of_neg (by simp [hword.rule, Rule.isKeyword]), filter_statements hbody]
  unfold caseNode
  rw [if_neg hdefault, hparts]
  exact .step (makesAll_buildAll (r := .statement) hbody rfl) fun body =>
    .nodeAt rfl (.of_eq (by simp [placed, slots, Field.children]))

theorem makes_caseNode {children : List Part}
    (h : (Rule.definition .caseClause).body.Yields Built children) :
    Makes (caseNode e children (children.filter (!·.rule.isKeyword))) .caseClause := by
  have hfull : children.filter (fun _ => true) ++ [] = children := by simp
  have horder : (Rule.definition .caseClause).body.FollowedBy (fun _ => true) Built (· = [])
      children := hfull ▸ h.followedBy (fun _ => true) (fun r p hp => hp.rule) rfl
  obtain ⟨word, _, rfl, hword, test, _, rfl, htest,
      ⟨body, _, rfl, hbody, rfl⟩ | ⟨body, _, rfl, hbody, rfl⟩⟩ |
    ⟨word, _, rfl, hword, ⟨body, _, rfl, hbody, rfl⟩ | ⟨body, _, rfl, hbody, rfl⟩⟩ := horder
  all_goals rw [List.append_nil]
  · exact makes_testedCase hword htest (built_of_many hbody)
  · exact makes_testedCase hword htest (built_of_many hbody)
  · exact makes_defaultCase hword (built_of_many hbody)
  · exact makes_defaultCase hword (built_of_many hbody)

theorem makes_switchNode (h : PartsOf .switchStmt ps) : Makes (switchNode e ps) .statement := by
  obtain ⟨subject, _, rfl, hsubject, cases, _, rfl, hcases, rfl⟩ := h.order
  rw [List.append_nil]
  exact .step (makes_buildFirst (r := .value) hsubject rfl) fun subject =>
    .step (makesAll_buildAll (r := .caseClause) (built_of_many hcases) rfl) fun cases =>
      .nodeAt rfl (.of_eq (by simp [placed, slots, Field.children]))

/-! ## Loops -/

theorem makes_whileNode (h : PartsOf .whileStmt ps) : Makes (whileNode e ps) .statement := by
  obtain ⟨condition, _, rfl, hcondition, body, _, rfl, hbody, -⟩ := h.order
  exact .step (makes_buildFirst (r := .value) hcondition rfl) fun condition =>
    .step (makes_buildFirst hbody rfl).body fun body =>
      .nodeAt rfl (.of_eq (by simp [placed, slots, Field.children]))

theorem makes_doWhileNode (h : PartsOf .doStmt ps) : Makes (doWhileNode e ps) .statement := by
  obtain ⟨body, _, rfl, hbody, condition, _, rfl, hcondition, -⟩ := h.order
  exact .step (makes_buildFirst hbody rfl).body fun body =>
    .step (makes_buildFirst (r := .value) hcondition rfl) fun condition =>
      .nodeAt rfl (.of_eq (by simp [placed, slots, Field.children]))

theorem makesAll_forClause {p : Part} (h : Built .forClause p) {r : Role}
    (hr : givesNode .expr r = true) : MakesAll (forClause p) r :=
  makesAll_buildAll (built_of_filter (h.parts nofun).well .expr) hr

theorem makes_forNode (h : PartsOf .forStmt ps) : Makes (forNode e ps) .statement := by
  obtain ⟨init, _, rfl, hinit, conditions, _, rfl, hconditions, step, _, rfl, hstep, body, _, rfl,
    hbody, -⟩ := h.order
  exact .step (makesAll_forClause (r := .effect) hinit rfl) fun init =>
    .step (makesAll_forClause (r := .value) hconditions rfl) fun conditions =>
    .step (makesAll_forClause (r := .effect) hstep rfl) fun step =>
    .step (makes_buildFirst hbody rfl).body fun body =>
      .nodeAt rfl (.of_eq (by simp [placed, slots, Field.children]))

/-- What a binding leaves in stock. -/
def Binding.stock (b : Binding) : Stock :=
  b.key.toList.map (fun n => (Role.value, n)) ++ [(.value, b.value)]

theorem after_keyedBinding {keyed : Part} (h : Built .foreachValue keyed) (key : Node) :
    After [(.value, key)] (keyedBinding key keyed) Binding.stock := by
  obtain ⟨value, hvalue, hbuilt⟩ := (h.parts nofun).partOf?_eq_some .expr rfl
  unfold keyedBinding
  rw [hvalue]
  exact .step (makes_buildAs (r := .value) hbuilt rfl) fun n => .pure (.refl _)

theorem after_foreachBinding {p : Part} (h : Built .foreachBinding p) :
    After [] (foreachBinding p) Binding.stock := by
  unfold foreachBinding
  obtain ⟨mark, _, hparts, hmark, value, _, rfl, hvalue, -⟩ | ⟨first, _, hparts, hfirst, hrest⟩ :=
    (h.parts nofun).order
  · simp only [hparts, withFirst, hmark.rule, if_true, List.tail_cons]
    exact .step (makes_buildFirst (r := .value) hvalue rfl) fun n => .pure (.refl _)
  · simp only [hparts, withFirst, hfirst.rule, reduceCtorEq, if_false, List.tail_cons]
    refine .step (makes_buildAs (r := .value) hfirst rfl) fun n => ?_
    obtain rfl | ⟨keyed, _, rfl, hkeyed, -⟩ := hrest
    · exact .pure (.refl _)
    · exact after_keyedBinding hkeyed n

theorem makes_foreachNode (h : PartsOf .foreachStmt ps) : Makes (foreachNode e ps) .statement := by
  obtain ⟨iterable, _, rfl, hiterable, binding, _, rfl, hbinding, body, _, rfl, hbody, -⟩ := h.order
  exact .step (makes_buildFirst (r := .value) hiterable rfl) fun iterable =>
    .step (after_foreachBinding hbinding) fun binding =>
    .step (makes_buildFirst hbody rfl).body fun body =>
      .nodeAt rfl (.of_eq (by simp [placed, slots, Field.children, Binding.stock]))

/-- A jump may name how many loops it leaves; a number that is no depth is refused. -/
theorem after_jumpLevels : After [] (jumpLevels e ps) fun _ => [] := by
  unfold jumpLevels
  split
  · exact .pure (.refl _)
  · split
    · exact .pure (.refl _)
    · rename_i hnone
      exact .failAt hnone

/-! ## Other statements -/

theorem makes_catchNode (h : ∀ p ∈ ps, WellBuilt p) : Makes (catchNode e ps) .catchClause :=
  .step (makesAll_buildAll (r := .name) (built_of_filter h .qualifiedName) rfl) fun types =>
    .step (makesOption_buildOption (r := .value) (built_of_partOf? h) rfl) fun caught =>
    .step (after_blockBody? (built_of_partOf? h)) fun body =>
      .nodeAt rfl (.of_eq (by simp [placed, slots, Field.children, bodyStock]))

theorem after_finallyBody {clause : Option Part} (h : ∀ p ∈ clause, Built .finallyClause p) :
    After [] (Build.option (clause.map finallyBody)) bodyStock := by
  refine after_optionBody fun b hb => ?_
  obtain ⟨p, hp, rfl⟩ := Option.mem_map.mp hb
  obtain ⟨block, _, hparts, hblock, -⟩ := ((h p hp).parts nofun).order
  unfold finallyBody
  rw [hparts]
  exact makesAll_blockBody hblock

theorem makes_tryNode (h : PartsOf .tryStmt ps) : Makes (tryNode e ps) .statement := by
  obtain ⟨block, _, rfl, hblock, catches, later, rfl, hcatches, hlast⟩ := h.order
  have hlater : ∀ p ∈ later, Built .finallyClause p := by
    obtain rfl | ⟨clause, _, rfl, hclause, rfl⟩ := hlast
    · exact nofun
    · exact List.forall_mem_singleton.mpr hclause
  obtain ⟨hwell, hfinally⟩ := built_of_clauses (built_of_many hcatches) hlater
  exact .step (makesAll_blockBody hblock) fun body =>
    .step (makesAll_buildAll (r := .catchClause) (built_of_filter hwell _) rfl) fun catches =>
    .step (after_finallyBody hfinally) fun last =>
      .nodeAt rfl (.of_eq (by simp [placed, slots, Field.children, bodyStock]))

theorem makes_staticVarNode (h : PartsOf .staticItem ps) :
    Makes (staticVarNode e ps) .staticVar := by
  obtain ⟨declared, rest, rfl, hdeclared, hrest⟩ := h.order
  have hdefault : ∀ p ∈ rest.head?, Built .expr p := by
    obtain rfl | ⟨default, _, rfl, hdefault, -⟩ := hrest
    · exact nofun
    · exact fun p hp => Option.some.inj hp ▸ hdefault
  exact .step (makes_buildFirst (r := .value) hdeclared rfl) fun declared =>
    .step (makesOption_buildOption (r := .value) hdefault rfl) fun default =>
      .nodeAt rfl (.of_eq (by simp [placed, slots, Field.children]))

theorem makes_namespaceNode (h : ∀ p ∈ ps, WellBuilt p) : Makes (namespaceNode e ps) .statement :=
  .step (makesOption_buildOption (r := .fullName) (built_of_partOf? h) rfl) fun name =>
    .step (after_blockBody? (built_of_partOf? h)) fun body =>
      .nodeAt rfl (.of_eq (by simp [placed, slots, Field.children, bodyStock]))

/-- What is imported: a name that stands alone or in a part of its own, under any kind. -/
theorem makes_imported {kind : Option String} {p : Part} {later : List Part}
    (h : Built .qualifiedName p ∨ Built .useItem p) :
    Makes (do
      let inner ← withFirst e
        (fun q => return if q.rule = .useItem then q.parts else p :: later) (p :: later)
      let name ← buildFirst .qualifiedName e inner
      Build.nodeAt e (.useItem kind name (inner.tail.head?.map (·.text)))) .useItem := by
  have hinner : ∃ name rest, (if p.rule = .useItem then p.parts else p :: later) = name :: rest ∧
      Built .qualifiedName name := by
    obtain h | h := h
    · exact ⟨p, later, if_neg (by rw [h.rule]; nofun), h⟩
    · obtain ⟨name, rest, hparts, hname, -⟩ := (h.parts nofun).order
      exact ⟨name, rest, by rw [if_pos h.rule, hparts], hname⟩
  obtain ⟨name, rest, hparts, hname⟩ := hinner
  simp only [withFirst, hparts, pure_bind]
  exact .step (makes_buildFirst (r := .fullName) hname rfl) fun name => .nodeAt rfl (.refl _)

theorem makes_useItemNode (h : PartsOf .useItem ps ∨ PartsOf .useGroupItem ps) :
    Makes (useItemNode e ps) .useItem := by
  unfold useItemNode
  obtain h | h := h
  · obtain ⟨name, rest, rfl, hname, -⟩ := h.order
    simp only [List.head?_cons, Option.filter, hname.rule]
    exact makes_imported (.inl hname)
  · obtain ⟨item, rest, rfl, hitem, -⟩ | ⟨word, _, rfl, hword, item, rest, rfl, hitem, -⟩ := h.order
    · simp only [List.head?_cons, Option.filter, hitem.rule]
      exact makes_imported (.inr hitem)
    · simp only [List.head?_cons, Option.filter, hword.rule]
      exact makes_imported (.inr hitem)

theorem makes_useNode (h : PartsOf .useStmt ps) : Makes (useNode e ps) .statement := by
  unfold useNode
  split
  · rename_i grouped hgrouped
    have hparts := (built_of_partOf? h.well grouped hgrouped).parts nofun
    have hitems : ∀ p ∈ grouped.parts.filter (·.rule != .groupPrefix), Built .useGroupItem p := by
      intro p hp
      obtain ⟨hmem, hrule⟩ := List.mem_filter.mp hp
      exact hparts.allExcept [.groupPrefix] .useGroupItem (by decide) p hmem (by simpa using hrule)
    exact .step (makesOption_buildOption (r := .fullName) (built_of_partOf? hparts.well) rfl)
      fun common => .step (makesAll_buildAll (r := .useItem) hitems rfl) fun items =>
        .nodeAt rfl (.of_eq (by simp [placed, slots, Field.children]))
  · rename_i hnone
    -- without a group, what is not a kind is an item
    have hitems : ∀ p ∈ ps.filter (·.rule != .useKind), Built .useItem p := by
      intro p hp
      obtain ⟨hmem, hrule⟩ := List.mem_filter.mp hp
      have hkind : p.rule ≠ .useKind := by simpa using hrule
      have hgroup : p.rule ≠ .useGroup := by simpa using List.find?_eq_none.mp hnone p hmem
      exact h.allExcept [.useKind, .useGroup] .useItem (by decide) p hmem
        (by simp [hkind, hgroup])
    exact .step (makesAll_buildAll (r := .useItem) hitems rfl) fun items =>
      .nodeAt rfl (.of_eq (by simp [placed, slots, Field.children]))

theorem makes_labelNode {kind : String → Kind Node} (h : ps ≠ [])
    (hkind : ∀ name, After.suits .statement (kind name) = true ∧ placed (kind name) = []) :
    Makes (labelNode kind e ps) .statement := by
  cases ps with
  | nil => exact absurd rfl h
  | cons p ps =>
    exact .step (After.pure (f := fun _ => []) (.refl _)) fun name =>
      .nodeAt (hkind name).1 (.of_eq (hkind name).2)

/-! ## All rules -/

/-- Some rules start with an expression. -/
theorem makes_firstExpr {q : Rule} {r : Role} (h : PartsOf q ps)
    (hq : q ∈ [Rule.parenExpr, .braceInterp, .emptyExpr, .evalExpr, .expressionStmt, .throwStmt])
    (hr : givesNode .expr r = true) : Makes (buildFirst .expr e ps) r := by
  simp only [List.mem_cons, List.not_mem_nil, or_false] at hq
  obtain rfl | rfl | rfl | rfl | rfl | rfl := hq
  all_goals
    obtain ⟨value, _, rfl, hvalue, -⟩ := h.order
    exact makes_buildFirst hvalue hr

theorem makesAll_list (h : ∀ p ∈ ps, WellBuilt p) :
    MakesAll (buildAll .expr (ps.filter (·.rule == .expr))) .value :=
  makesAll_buildAll (built_of_filter h .expr) rfl

theorem makesOption_headExpr {q : Rule} (h : PartsOf q ps)
    (hq : q.definition.body.calls.all (fun r => r.isKeyword || r == .expr) = true) :
    MakesOption (buildOption .expr ps.head?) .value :=
  makesOption_buildOption (fun p hp => h.all .expr hq p (List.mem_of_mem_head? hp)) rfl

/-- **Every rule makes its node out of well-built parts.** -/
theorem makes_buildRule {r : Rule} {children : List Part}
    (hshape : r.definition.mode ≠ .atomic → r.definition.body.Yields Built children)
    (hspelled : r.Spelled e.chars) :
    (nodeRole? r).elim True (Makes (buildRule r e children)) := by
  have hparts (hmode : r.definition.mode ≠ .atomic) :
      PartsOf r (children.filter (!·.rule.isKeyword)) :=
    ⟨children, rfl, hshape hmode⟩
  have hwell (hmode : r.definition.mode ≠ .atomic) : ∀ p ∈ children, WellBuilt p :=
    (hshape hmode).forall_mem fun _ _ _ h => h.well
  cases r with
  | identifier | variableName | magicConst | stringSingle | nowdoc =>
    exact After.nodeAt (r := .value) rfl (.refl _)
  | qualifiedName | groupPrefix => exact After.nodeAt (r := .value) rfl (.refl _)
  | inlineHtml | inlineHtmlStmt | nopStmt => exact After.nodeAt (r := .statement) rfl (.refl _)
  | quotedText | heredocText | backtickText => exact After.nodeAt (r := .stringPart) rfl (.refl _)
  | expr => exact makes_expressionNode (hshape (by decide))
  | operand => exact makes_operandNode (hparts (by decide))
  | parenExpr | braceInterp => exact makes_firstExpr (hparts (by decide)) (by decide) rfl
  | braceExpr => exact makes_memberNameNode (.inr (hparts (by decide)))
  | memberName => exact makes_memberNameNode (.inl (hparts (by decide)))
  | classRef => exact makes_classRefNode (hparts (by decide))
  | varVar => exact makes_variableVariableNode (hparts (by decide))
  | closure | arrowFn => exact makes_closureNode (hwell (by decide))
  | closureUse => exact makes_closureUseNode (hparts (by decide))
  | newExpr => exact makes_newNode (hparts (by decide))
  | dynamicClass => exact makes_dynamicClassNode (hparts (by decide))
  | issetExpr =>
    exact .step (makesAll_buildAll (r := .value) ((hparts (by decide)).all .expr rfl) rfl) fun vars =>
      .nodeAt rfl (.of_eq (by simp [placed, slots, Field.children]))
  | emptyExpr | evalExpr =>
    exact .step (makes_firstExpr (r := .value) (hparts (by decide)) (by decide) rfl) fun n =>
      .nodeAt rfl (.refl _)
  | exitExpr =>
    exact .step (makesOption_headExpr (hparts (by decide)) rfl) fun n =>
      .nodeAt rfl (.of_eq (by simp [placed, slots, Field.children]))
  | listExpr =>
    exact .step (after_arrayItemsIn (.inl (hparts (by decide)))) fun items =>
      .nodeAt rfl (.of_eq (by simp [placed, slots, Field.children]))
  | arrayLong =>
    exact .step (after_arrayItemsIn (.inr (.inl (hparts (by decide))))) fun items =>
      .nodeAt rfl (.of_eq (by simp [placed, slots, Field.children]))
  | arrayLiteral =>
    exact .step (after_arrayItemsIn (.inr (.inr (hparts (by decide))))) fun items =>
      .nodeAt rfl (.of_eq (by simp [placed, slots, Field.children]))
  | arrayItem => exact makes_arrayItemNode (hparts (by decide))
  | argument => exact makes_argumentNode (hparts (by decide))
  | float => exact makes_floatNode hspelled
  | integer => exact makes_integerNode
  | stringDouble | heredoc => exact makes_doubleQuotedNode (hparts (by decide)).well
  | shellExec =>
    exact .step (makesAll_stringParts (hparts (by decide)).well) fun parts =>
      .nodeAt rfl (.of_eq (by simp [placed, slots, Field.children]))
  | simpleInterp => exact makes_simpleInterpolationNode (hparts (by decide))
  | script => exact makes_scriptNode (hparts (by decide)).well
  | statement => exact makes_statementNode (hparts (by decide))
  | ifStmt => exact makes_ifNode (hparts (by decide))
  | whileStmt => exact makes_whileNode (hparts (by decide))
  | doStmt => exact makes_doWhileNode (hparts (by decide))
  | forStmt => exact makes_forNode (hparts (by decide))
  | foreachStmt => exact makes_foreachNode (hparts (by decide))
  | switchStmt => exact makes_switchNode (hparts (by decide))
  | caseClause => exact makes_caseNode (hshape (by decide))
  | tryStmt => exact makes_tryNode (hparts (by decide))
  | catchClause => exact makes_catchNode (hparts (by decide)).well
  | expressionStmt =>
    exact .step (makes_firstExpr (r := .effect) (hparts (by decide)) (by decide) rfl) fun n =>
      .nodeAt rfl (.refl _)
  | throwStmt =>
    exact .step (makes_firstExpr (r := .value) (hparts (by decide)) (by decide) rfl) fun n =>
      .nodeAt rfl (.refl _)
  | echoStmt | unsetStmt =>
    exact .step (makesAll_list (hparts (by decide)).well) fun list =>
      .nodeAt rfl (.of_eq (by simp [placed, slots, Field.children]))
  | returnStmt =>
    exact .step (makesOption_headExpr (hparts (by decide)) rfl) fun n =>
      .nodeAt rfl (.of_eq (by simp [placed, slots, Field.children]))
  | breakStmt | continueStmt =>
    exact .step after_jumpLevels fun levels => .nodeAt rfl (.refl _)
  | globalStmt =>
    exact .step (makesAll_buildAll (r := .value) ((hparts (by decide)).all .variableName rfl) rfl)
      fun vars => .nodeAt rfl (.of_eq (by simp [placed, slots, Field.children]))
  | staticStmt =>
    exact .step (makesAll_buildAll (r := .staticVar) ((hparts (by decide)).all .staticItem rfl) rfl)
      fun vars => .nodeAt rfl (.of_eq (by simp [placed, slots, Field.children]))
  | staticItem => exact makes_staticVarNode (hparts (by decide))
  | namespaceStmt => exact makes_namespaceNode (hparts (by decide)).well
  | useStmt => exact makes_useNode (hparts (by decide))
  | useItem => exact makes_useItemNode (.inl (hparts (by decide)))
  | useGroupItem => exact makes_useItemNode (.inr (hparts (by decide)))
  | constStmt | declareStmt =>
    exact .step (makesAll_constItems (hparts (by decide)).well) fun items =>
      .nodeAt rfl (.of_eq (by simp [placed, slots, Field.children]))
  | constItem => exact makes_constItemNode (hparts (by decide))
  | gotoStmt | labelStmt =>
    obtain ⟨name, _, hname, -⟩ := (hparts (by decide)).order
    exact makes_labelNode (by rw [hname]; exact List.cons_ne_nil _ _) fun name => ⟨rfl, rfl⟩
  | functionDecl => exact makes_functionNode (hparts (by decide)).well
  | param => exact makes_paramNode (hparts (by decide))
  | classDecl => exact makes_classNode (hparts (by decide)).well
  | interfaceDecl => exact makes_interfaceNode (hparts (by decide)).well
  | traitDecl => exact makes_traitNode (hparts (by decide)).well
  | classMember => exact makes_memberNode (hparts (by decide))
  | traitUse => exact makes_traitUseNode (hparts (by decide)).well
  | classConst => exact makes_classConstNode (hparts (by decide)).well
  | methodDecl => exact makes_methodNode (hparts (by decide)).well
  | propertyDecl => exact makes_propertiesNode (hparts (by decide)).well
  | propertyItem => exact makes_propertyNode (hparts (by decide))
  | _ => trivial

end ThreeAddress.Syntax

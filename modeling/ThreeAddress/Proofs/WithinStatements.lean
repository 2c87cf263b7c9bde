import ThreeAddress.Proofs.Levels
import ThreeAddress.Proofs.WithinExpressions
import ThreeAddress.Proofs.Parsed

/-!
# Statements within a number of levels

How far down the nodes of statements go, builder by builder, and from the builders of all rules:
**the syntax tree of a parse tree is legible and has no more levels than it** (`supplied_annotate`).
-/

namespace ThreeAddress.Syntax

open Grammar (Rule ParseTree)
open Lowering (Role)
open Text (OneLine)
open Build Node

variable {m : Nat} {p : Part} {ps : List Part} {e : Extent}

/-! ## Blocks and scripts -/

/-- The statements of a block lie within the levels of the block. -/
theorem within_bodyOf {n : Node} (h : n.Within .statement m) :
    ∀ x ∈ bodyOf n, x.Within .statement m := by
  unfold bodyOf
  split
  · rename_i statements hk
    intro x hx
    refine h.placed (.statement, x) ?_
    rw [hk]
    exact List.mem_append_left _ (List.mem_map_of_mem hx)
  · exact List.forall_mem_singleton.mpr h

theorem ensures_statementNode (h : ∀ p ∈ ps, Supplied m p) :
    (statementNode e ps).Ensures (Within .statement (m + 1)) := by
  refine ensures_withFirst h fun p hp => .ite (fun _ => ?_) fun _ => ensures_buildAmong hp rfl
  exact (ensures_blockBody hp).bind fun body hbody =>
    ensures_nodeAt (List.forall_mem_nil _) hbody

theorem ensures_scriptNode (h : ∀ p ∈ ps, Supplied m p) :
    (scriptNode e ps).Ensures (Within .statement (m + 1)) := by
  refine Ensures.bind (P := fun body : List Node => ∀ n ∈ body, n.Within .statement m)
    (.mapM fun p hp => ?_) fun body hbody => ensures_nodeAt (List.forall_mem_nil _) hbody
  obtain ⟨hmem, hrule⟩ := List.mem_filter.mp hp
  obtain hrule | hrule := Bool.or_eq_true_iff.mp hrule
  · exact (h p hmem).value (beq_iff_eq.mp hrule) rfl
  · exact (h p hmem).value (beq_iff_eq.mp hrule) rfl

/-- The body of a control structure. -/
theorem ensures_body (h : ∀ p ∈ ps, Supplied m p) :
    (buildFirst .statement e ps).Ensures fun n => ∀ x ∈ bodyOf n, x.Within .statement m :=
  (ensures_buildFirst h rfl).mono fun _ hn => within_bodyOf hn

/-! ## Conditionals and loops -/

theorem ensures_elseIfClause (h : Supplied m p) :
    (elseIfClause p).Ensures fun c =>
      c.condition.Within .value m ∧ ∀ n ∈ c.body, n.Within .statement m :=
  (ensures_buildFirst h.parts rfl).bind fun _ hcondition =>
    (ensures_body (supplied_tail h.parts)).bind fun _ hbody => .pure ⟨hcondition, hbody⟩

theorem ensures_elseBody {clause : Option Part} (h : ∀ p ∈ clause, Supplied m p) :
    (elseBody clause).Ensures fun ns => ∀ n ∈ ns.getD [], n.Within .statement m := by
  refine .optionList fun b hb => ?_
  obtain ⟨p, hp, rfl⟩ := Option.mem_map.mp hb
  exact (ensures_body (h p hp).parts).map fun n hn => hn

/-- **Every clause of a chain adds a level** to the ones after it. -/
theorem ensures_nestElse {cs : List ElseIf} {last : Option (List Node)}
    (hcs : ∀ c ∈ cs, c.condition.Within .value m ∧ ∀ n ∈ c.body, n.Within .statement m)
    (hlast : ∀ n ∈ last.getD [], n.Within .statement m) :
    (cs.foldrM nestElse last).Ensures fun ns =>
      ∀ n ∈ ns.getD [], n.Within .statement (m + cs.length) := by
  induction cs with
  | nil => exact .pure hlast
  | cons c cs ih =>
    obtain ⟨⟨hcondition, hbody⟩, hcs⟩ := List.forall_mem_cons.mp hcs
    rw [List.foldrM_cons]
    refine (ih hcs).bind fun rest hrest =>
      Ensures.bind (P := Within .statement (m + cs.length + 1)) ?_ fun n hn =>
        .pure (List.forall_mem_singleton.mpr hn)
    refine ensures_nodeAt (List.forall_mem_nil _) ⟨?_, ?_, hrest⟩
    · exact hcondition.mono (Nat.le_add_right _ _)
    · exact fun n hn => (hbody n hn).mono (Nat.le_add_right _ _)

theorem ensures_ifNode (h : ∀ p ∈ ps, Supplied m p) :
    (ifNode e ps).Ensures (Within .statement (m + ps.countP (·.rule == .elseifClause) + 1)) := by
  refine (ensures_buildFirst h rfl).bind fun condition hcondition =>
    (ensures_body (supplied_tail h)).bind fun body hbody => ?_
  refine .bind ((Ensures.mapM fun p hp => ensures_elseIfClause
      (supplied_filter (supplied_drop h 2) _ p hp)).and (.mapM_length _ _))
    fun cs ⟨hcs, hlength⟩ => ?_
  refine (ensures_elseBody fun p hp => h p (List.mem_of_mem_drop (List.mem_of_find?_eq_some hp))).bind
    fun last hlast => (ensures_nestElse hcs hlast).bind fun elseBranch helse => ?_
  have hle : cs.length ≤ ps.countP (·.rule == .elseifClause) := by
    rw [hlength, ← List.countP_eq_length_filter]
    exact (List.drop_sublist 2 ps).countP_le
  refine ensures_nodeAt (List.forall_mem_nil _) ⟨?_, ?_, ?_⟩
  · exact hcondition.mono (Nat.le_add_right _ _)
  · exact fun n hn => (hbody n hn).mono (Nat.le_add_right _ _)
  · exact fun n hn => (helse n hn).mono (Nat.add_le_add_left hle m)

theorem ensures_caseNode {children : List Part} (h : ∀ p ∈ ps, Supplied m p) :
    (caseNode e children ps).Ensures (Within .caseClause m) := by
  refine .ite (fun _ => ?_) fun _ => ?_
  · exact (ensures_buildFirst h rfl).bind fun test htest =>
      (ensures_buildAll (supplied_tail h) rfl).bind fun body hbody =>
        ensures_nodeAt (List.forall_mem_nil _) ⟨fun x hx => Option.some.inj hx ▸ htest, hbody⟩
  · exact (ensures_buildAll h rfl).bind fun body hbody =>
      ensures_nodeAt (List.forall_mem_nil _) ⟨nofun, hbody⟩

theorem ensures_switchNode (h : ∀ p ∈ ps, Supplied m p) :
    (switchNode e ps).Ensures (Within .statement (m + 1)) :=
  (ensures_buildFirst h rfl).bind fun _ hsubject =>
    (ensures_buildAll (supplied_tail h) rfl).bind fun _ hcases =>
      ensures_nodeAt (List.forall_mem_nil _) ⟨hsubject, hcases⟩

theorem ensures_whileNode (h : ∀ p ∈ ps, Supplied m p) :
    (whileNode e ps).Ensures (Within .statement (m + 1)) :=
  (ensures_buildFirst h rfl).bind fun _ hcondition =>
    (ensures_body (supplied_tail h)).bind fun _ hbody =>
      ensures_nodeAt (List.forall_mem_nil _) ⟨hcondition, hbody⟩

theorem ensures_doWhileNode (h : ∀ p ∈ ps, Supplied m p) :
    (doWhileNode e ps).Ensures (Within .statement (m + 1)) :=
  (ensures_body h).bind fun _ hbody =>
    (ensures_buildFirst (supplied_tail h) rfl).bind fun _ hcondition =>
      ensures_nodeAt (List.forall_mem_nil _) ⟨hbody, hcondition⟩

theorem ensures_forClause (h : ∀ p ∈ ps, Supplied m p) {r : Role} (hr : r.takesValue = true) :
    (withFirst e forClause ps).Ensures fun ns => ∀ n ∈ ns, n.Within r m :=
  ensures_withFirst h fun _ hp => (ensures_buildAll (hp.partsOf .expr) rfl).mono
    fun _ hns n hn => (hns n hn).value_as hr

theorem ensures_forNode (h : ∀ p ∈ ps, Supplied m p) :
    (forNode e ps).Ensures (Within .statement (m + 1)) :=
  (ensures_forClause h (r := .effect) rfl).bind fun _ hinit =>
    (ensures_forClause (supplied_tail h) (r := .value) rfl).bind fun _ hconditions =>
      (ensures_forClause (supplied_drop h 2) (r := .effect) rfl).bind fun _ hstep =>
        (ensures_body (supplied_drop h 3)).bind fun _ hbody =>
          ensures_nodeAt (List.forall_mem_nil _) ⟨hinit, hconditions, hstep, hbody⟩

/-- What is bound lies within so many levels. -/
def Binding.Within (m : Nat) (b : Binding) : Prop :=
  (∀ n ∈ b.key, n.Within .value m) ∧ b.value.Within .value m

theorem ensures_keyedBinding {key : Node} (hkey : key.Within .value m) (h : Supplied m p) :
    (keyedBinding key p).Ensures (Binding.Within m) := by
  unfold keyedBinding
  split
  · rename_i value hvalue
    exact (ensures_buildAs (supplied_partOf? h.parts value hvalue) rfl).bind fun n hn =>
      .pure ⟨fun x hx => Option.some.inj hx ▸ hkey, hn⟩
  · exact .failAt

theorem ensures_foreachBinding (h : Supplied m p) :
    (foreachBinding p).Ensures (Binding.Within m) := by
  refine ensures_withFirst h.parts fun first hfirst => .ite (fun _ => ?_) fun _ => ?_
  · exact (ensures_buildFirst (supplied_tail h.parts) rfl).bind fun value hvalue =>
      .pure ⟨nofun, hvalue⟩
  · refine (ensures_buildAs hfirst rfl).bind fun value hvalue => ?_
    split
    · rename_i keyed rest htail
      exact ensures_keyedBinding hvalue
        (supplied_tail h.parts keyed (htail ▸ List.mem_cons_self))
    · exact .pure ⟨nofun, hvalue⟩

theorem ensures_foreachNode (h : ∀ p ∈ ps, Supplied m p) :
    (foreachNode e ps).Ensures (Within .statement (m + 1)) :=
  (ensures_buildFirst h rfl).bind fun _ hiterable =>
    (ensures_withFirst (supplied_tail h) fun _ => ensures_foreachBinding).bind fun _ hb =>
      (ensures_body (supplied_drop h 2)).bind fun _ hbody =>
        ensures_nodeAt (List.forall_mem_nil _) ⟨hiterable, hb.1, hb.2, hbody⟩

/-! ## Other statements -/

theorem ensures_names {q : Rule} (h : ∀ p ∈ ps, Supplied m p)
    (hq : q = .qualifiedName ∨ q = .groupPrefix) :
    (buildAll q ps).Ensures fun ns => ∀ n ∈ ns, n.IsName :=
  .mapM fun p hp => ensures_buildAs_name (h p hp) hq

theorem ensures_name? {q : Rule} {name : Option Part} (h : ∀ p ∈ name, Supplied m p)
    (hq : q = .qualifiedName ∨ q = .groupPrefix) :
    (buildOption q name).Ensures fun n => ∀ x ∈ n, x.IsName := by
  refine .option fun b hb => ?_
  obtain ⟨p, hp, rfl⟩ := Option.mem_map.mp hb
  exact ensures_buildAs_name (h p hp) hq

/-- A variable that is caught adds its own level. -/
theorem ensures_catchNode (h : ∀ p ∈ ps, Supplied m p) :
    (catchNode e ps).Ensures (Within .catchClause (m + ps.countP (·.rule == .variableName))) := by
  refine (ensures_names (supplied_filter h _) (.inl rfl)).bind fun types htypes => ?_
  refine Ensures.bind (P := fun n : Option Node => ∀ x ∈ n,
      x.Within .value (m + ps.countP (·.rule == .variableName))) ?_ fun caught hcaught =>
    (ensures_blockBody? (supplied_partOf? h)).bind fun body hbody =>
      ensures_nodeAt (List.forall_mem_nil _) ⟨within_names htypes _ rfl, hcaught, ?_⟩
  · refine .option fun b hb => ?_
    obtain ⟨p, hp, rfl⟩ := Option.mem_map.mp hb
    have hcount : 1 ≤ ps.countP (·.rule == .variableName) :=
      List.countP_pos_iff.mpr
        ⟨p, List.mem_of_find?_eq_some hp, beq_iff_eq.mpr (rule_of_partOf? hp)⟩
    exact (ensures_buildAs (supplied_partOf? h p hp) rfl).mono fun n hn =>
      hn.mono (Nat.add_le_add_left hcount m)
  · exact fun n hn => (hbody n hn).mono (Nat.le_add_right _ _)

theorem ensures_tryNode (h : ∀ p ∈ ps, Supplied m p) :
    (tryNode e ps).Ensures (Within .statement (m + 1)) := by
  refine (ensures_withFirst h fun _ => ensures_blockBody).bind fun body hbody =>
    (ensures_buildAll (supplied_filter (supplied_tail h) _) rfl).bind fun catches hcatches => ?_
  refine Ensures.bind (P := fun ns : Option (List Node) => ∀ n ∈ ns.getD [], n.Within .statement m)
    (.optionList fun b hb => ?_) fun finalBody hfinal =>
      ensures_nodeAt (List.forall_mem_nil _) ⟨hbody, hcatches, hfinal⟩
  obtain ⟨clause, hclause, rfl⟩ := Option.mem_map.mp hb
  exact ensures_withFirst (supplied_tail h clause (List.mem_of_find?_eq_some hclause)).parts
    fun _ => ensures_blockBody

theorem ensures_staticVarNode (h : ∀ p ∈ ps, Supplied m p) :
    (staticVarNode e ps).Ensures (Within .staticVar (m + 1)) := by
  refine (ensures_buildFirst h rfl).bind fun declared hdeclared =>
    (ensures_buildOption (supplied_head? (supplied_tail h)) rfl).bind fun default hdefault =>
      ensures_nodeAt (List.forall_mem_nil _) ⟨hdeclared, ?_⟩
  exact fun x hx => (hdefault x hx).mono (Nat.le_succ m)

theorem ensures_namespaceNode (h : ∀ p ∈ ps, Supplied m p) :
    (namespaceNode e ps).Ensures (Within .statement (m + 1)) :=
  (ensures_name? (supplied_partOf? h) (.inl rfl)).bind fun _ hname =>
    (ensures_blockBody? (supplied_partOf? h)).bind fun _ hbody =>
      ensures_nodeAt (List.forall_mem_nil _) ⟨within_name? hname m rfl, hbody⟩

theorem oneLine_importKind (h : ∀ p ∈ ps, Supplied m p) : ∀ s ∈ importKind ps, OneLine s := by
  intro s hs
  obtain ⟨p, hp, rfl⟩ := Option.mem_map.mp hs
  exact (supplied_partOf? h p hp).word (by rw [rule_of_partOf? hp]; rfl)

/-- What is imported: its parts are words, in a part of its own or not. -/
theorem ensures_imported {kind : Option String} (hkind : ∀ s ∈ kind, OneLine s)
    (h : ∀ p ∈ ps, Supplied m p) (hwords : ∀ p ∈ ps.head?,
      ∀ c ∈ if p.rule = .useItem then p.parts else ps, c.rule.isWord = true) :
    (do
      let inner ← withFirst e (fun p => return if p.rule = .useItem then p.parts else ps) ps
      let name ← buildFirst .qualifiedName e inner
      Build.nodeAt e (.useItem kind name (inner.tail.head?.map (·.text))) : Build Node).Ensures
      (Within .useItem m) := by
  refine Ensures.bind (P := fun inner : List Part =>
      (∀ p ∈ inner, Supplied m p) ∧ ∀ p ∈ inner, p.rule.isWord = true) ?_ fun inner hinner => ?_
  · cases ps with
    | nil => exact .failAt
    | cons p ps =>
      refine .pure ⟨?_, hwords p rfl⟩
      split
      · exact (h p List.mem_cons_self).parts
      · exact h
  · obtain ⟨hinner, hwords⟩ := hinner
    refine (ensures_withFirst hinner fun p hp => ensures_buildAs_name hp (.inl rfl)).bind
      fun name hname => ensures_nodeAt (forall_words ⟨hkind, ?_, trivial⟩) (hname.within m rfl)
    intro s hs
    obtain ⟨c, hc, rfl⟩ := Option.mem_map.mp hs
    have hc := List.mem_of_mem_tail (List.mem_of_mem_head? hc)
    exact (hinner c hc).text (hwords c hc)

theorem isWord_useItem (h : PartsOf .useItem ps) : ∀ p ∈ ps, p.rule.isWord = true := by
  have hcalls : ∀ q ∈ (Rule.definition .useItem).body.calls, q.isWord = true := by
    decide
  exact h.built fun q hq _ p hp => hp.rule ▸ hcalls q hq

theorem ensures_useItemNode (h : ∀ p ∈ ps, Supplied m p)
    (hps : PartsOf .useItem ps ∨ PartsOf .useGroupItem ps) :
    (useItemNode e ps).Ensures (Within .useItem m) := by
  refine ensures_imported (fun s hs => ?_) (fun p hp => ?_) ?_
  · obtain ⟨p, hp, rfl⟩ := Option.mem_map.mp hs
    obtain ⟨hp, hrule⟩ := Option.filter_eq_some_iff.mp hp
    exact (supplied_head? h p hp).word (by rw [beq_iff_eq.mp hrule]; rfl)
  · split at hp
    · exact supplied_tail h p hp
    · exact h p hp
  · have hitem {item : Part} {rest : List Part} (hitem : Built .useItem item) :
        ∀ p ∈ (item :: rest).head?, ∀ c ∈ if p.rule = .useItem then p.parts else item :: rest,
          c.rule.isWord = true := by
      intro p hp
      obtain rfl := Option.some.inj hp
      rw [if_pos hitem.rule]
      exact isWord_useItem (hitem.parts nofun)
    obtain hps | hps := hps
    · have hwords := isWord_useItem hps
      obtain ⟨name, rest, rfl, hname, -⟩ := hps.order
      intro p hp
      simp only [List.head?_cons, Option.filter, hname.rule] at hp ⊢
      obtain rfl := Option.some.inj hp
      rwa [if_neg (by rw [hname.rule]; nofun)]
    · obtain ⟨item, rest, rfl, hbuilt, -⟩ | ⟨word, _, rfl, hword, item, rest, rfl, hbuilt, -⟩ :=
        hps.order
      · simp only [List.head?_cons, Option.filter, hbuilt.rule]
        exact hitem hbuilt
      · simp only [List.head?_cons, Option.filter, hword.rule]
        exact hitem hbuilt

theorem ensures_useNode (h : ∀ p ∈ ps, Supplied m p) :
    (useNode e ps).Ensures (Within .statement (m + 1)) := by
  have hkind := forall_words (α := Node) (k := .useStmt (importKind ps) none [])
    ⟨oneLine_importKind h, trivial⟩
  unfold useNode
  split
  · rename_i grouped hgrouped
    have hparts := (supplied_partOf? h grouped hgrouped).parts
    exact (ensures_name? (supplied_partOf? hparts) (.inr rfl)).bind fun common hcommon =>
      (ensures_buildAll (supplied_filter hparts _) rfl).bind fun items hitems =>
        ensures_nodeAt hkind ⟨within_name? hcommon m rfl, hitems⟩
  · exact (ensures_buildAll (supplied_filter h _) rfl).bind fun items hitems =>
      ensures_nodeAt hkind ⟨nofun, hitems⟩

theorem ensures_labelNode {kind : String → Kind Node} (h : ∀ p ∈ ps, Supplied m p)
    (hword : ∀ p ∈ ps.head?, p.rule.isWord = true)
    (hkind : ∀ name, OneLine name → (kind name).Ready m) :
    (labelNode kind e ps).Ensures (Within .statement (m + 1)) :=
  (ensures_firstText h hword fun _ => Supplied.text).bind fun name hname =>
    (hkind name hname).nodeAt

/-! ## All rules -/

/-- The head of the parts of a rule that starts with a word. -/
theorem isWord_head {p : Part} {q : Rule} {rest : List Part} (h : Built q p) (hq : q.isWord = true) :
    ∀ c ∈ (p :: rest).head?, c.rule.isWord = true :=
  fun _ hc => Option.some.inj hc ▸ h.rule ▸ hq

theorem countP_rules (f : Rule → Bool) (ps : List Part) :
    (ps.map (·.rule)).countP f = ps.countP (fun p => f p.rule) :=
  List.countP_map

theorem oneLine_variable (h : OneLine e.text) :
    OneLine (String.ofList (e.chars.dropWhile (· == '$'))) := by
  refine h.subset ?_
  rw [Extent.text, String.toList_ofList, String.toList_ofList]
  exact (List.dropWhile_sublist _).subset

/-- **Every rule makes its node within the levels of its parts and its own.** -/
theorem ensures_buildRule {r : Rule} {children : List Part}
    (hshape : r.definition.mode ≠ .atomic → r.definition.body.Yields Built children)
    (hchildren : ∀ p ∈ children, Supplied m p) (hword : r.isWord = true → OneLine e.text) :
    (placeOf? r).elim True fun role => (buildRule r e children).Ensures
      (Within role (m + r.weight (children.map (·.rule)) + bare r)) := by
  have hparts (hmode : r.definition.mode ≠ .atomic) :
      PartsOf r (children.filter (!·.rule.isKeyword)) :=
    ⟨children, rfl, hshape hmode⟩
  have h : ∀ p ∈ children.filter (!·.rule.isKeyword), Supplied m p := supplied_filter hchildren _
  have hlength : (children.map (·.rule)).countP (!·.isKeyword)
      = (children.filter (!·.rule.isKeyword)).length := by
    rw [countP_rules (!·.isKeyword), List.countP_eq_length_filter]
  cases r with
  | identifier | magicConst =>
    exact ensures_nodeAt (r := .value) (m := m) (List.forall_mem_singleton.mpr (hword rfl)) trivial
  | variableName =>
    exact ensures_nodeAt (r := .value) (m := m)
      (List.forall_mem_singleton.mpr (oneLine_variable (hword rfl))) trivial
  | stringSingle | nowdoc => exact ensures_nodeAt (r := .value) (List.forall_mem_nil _) trivial
  | qualifiedName | groupPrefix =>
    refine (ensures_nameNode (hword rfl)).mono fun n hn => ⟨hn.legible, ?_⟩
    rw [hn.height_eq]
    exact Nat.le_add_left 1 m
  | inlineHtml | inlineHtmlStmt | nopStmt =>
    exact ensures_nodeAt (r := .statement) (m := m) (List.forall_mem_nil _) trivial
  | quotedText | heredocText | backtickText =>
    exact ensures_nodeAt (r := .stringPart) (m := m) (List.forall_mem_nil _) trivial
  | expr =>
    show (expressionNode e children).Ensures
      (Within .value (m + (1 + (children.map (·.rule)).countP Rule.isOperator)))
    rw [countP_rules]
    exact ensures_expressionNode hchildren
  | operand =>
    show (operandNode e _).Ensures
      (Within .value (m + ((children.map (·.rule)).countP (!·.isKeyword) - 1) + 1))
    rw [hlength]
    exact ensures_operandNode h
  | dynamicClass =>
    show (dynamicClassNode e _).Ensures
      (Within .value (m + (children.map (·.rule)).countP (!·.isKeyword)))
    rw [hlength]
    exact ensures_dynamicClassNode h
  | simpleInterp =>
    show (simpleInterpolationNode e _).Ensures
      (Within .value (m + (children.map (·.rule)).countP (!·.isKeyword)))
    rw [hlength]
    refine ensures_simpleInterpolationNode h fun p hp hrule => ?_
    have hbuilt : Built .interpProp p := ⟨hrule, (hparts nofun).well p hp⟩
    obtain ⟨key, rest, heq, hkey, -⟩ := (hbuilt.parts nofun).order
    exact heq ▸ isWord_head hkey rfl
  | parenExpr | braceInterp => exact ensures_buildFirst (r := .value) h rfl
  | braceExpr | memberName => exact ensures_memberNameNode h
  | classRef => exact ensures_classRefNode h
  | varVar => exact ensures_variableVariableNode h
  | closure =>
    refine ensures_closureNode (k := 0) hchildren ?_
    obtain ⟨p, hmem, hp⟩ := (hshape nofun).exists_mem (r := .block) rfl
    rw [if_pos]
    exact List.find?_isSome.mpr ⟨p, hmem, beq_iff_eq.mpr hp.rule⟩
  | arrowFn =>
    refine ensures_closureNode (k := 1) hchildren ?_
    split <;> decide
  | closureUse => exact ensures_closureUseNode h
  | newExpr => exact ensures_newNode h
  | issetExpr =>
    exact (ensures_buildAll h rfl).bind fun vars hvars =>
      ensures_nodeAt (List.forall_mem_nil _) hvars
  | emptyExpr | evalExpr =>
    exact (ensures_buildFirst h rfl).bind fun n hn => ensures_nodeAt (List.forall_mem_nil _) hn
  | exitExpr =>
    exact (ensures_buildOption (supplied_head? h) rfl).bind fun n hn =>
      ensures_nodeAt (List.forall_mem_nil _) hn
  | listExpr | arrayLong | arrayLiteral =>
    exact (ensures_arrayItemsIn h).bind fun items hitems =>
      ensures_nodeAt (List.forall_mem_nil _) hitems
  | arrayItem => exact ensures_arrayItemNode h
  | argument =>
    refine ensures_argumentNode h fun p hp hrule => ?_
    have hbuilt : Built .namedArg p := ⟨hrule, (hparts nofun).well p hp⟩
    obtain ⟨label, rest, heq, hlabel, -⟩ := (hbuilt.parts nofun).order
    exact heq ▸ isWord_head hlabel rfl
  | float => exact ensures_floatNode
  | integer => exact ensures_integerNode
  | stringDouble | heredoc => exact ensures_doubleQuotedNode h
  | shellExec =>
    exact (ensures_stringParts h).bind fun parts hps => ensures_nodeAt (List.forall_mem_nil _) hps
  | script => exact ensures_scriptNode h
  | statement => exact ensures_statementNode h
  | ifStmt =>
    refine (ensures_ifNode h).mono fun n hn => hn.mono (Nat.succ_le_succ (Nat.add_le_add_left ?_ m))
    show _ ≤ (children.map (·.rule)).countP (· == .elseifClause)
    rw [countP_rules]
    exact List.filter_sublist.countP_le
  | whileStmt => exact ensures_whileNode h
  | doStmt => exact ensures_doWhileNode h
  | forStmt => exact ensures_forNode h
  | foreachStmt => exact ensures_foreachNode h
  | switchStmt => exact ensures_switchNode h
  | caseClause => exact ensures_caseNode h
  | tryStmt => exact ensures_tryNode h
  | catchClause =>
    refine (ensures_catchNode h).mono fun n hn => hn.mono (Nat.add_le_add_left ?_ m)
    show _ ≤ (children.map (·.rule)).countP (· == .variableName)
    rw [countP_rules]
    exact List.filter_sublist.countP_le
  | expressionStmt =>
    exact (ensures_buildFirst h rfl).bind fun n hn =>
      ensures_nodeAt (List.forall_mem_nil _) (hn.value_as rfl)
  | throwStmt =>
    exact (ensures_buildFirst h rfl).bind fun n hn => ensures_nodeAt (List.forall_mem_nil _) hn
  | echoStmt | unsetStmt =>
    exact (ensures_buildAll (supplied_filter h _) rfl).bind fun ns hns =>
      ensures_nodeAt (List.forall_mem_nil _) hns
  | returnStmt =>
    exact (ensures_buildOption (supplied_head? h) rfl).bind fun n hn =>
      ensures_nodeAt (List.forall_mem_nil _) hn
  | breakStmt | continueStmt =>
    exact .bind (P := fun _ => True) (fun _ _ _ _ _ => trivial) fun levels _ =>
      ensures_nodeAt (List.forall_mem_nil _) trivial
  | globalStmt =>
    exact (ensures_buildAll h rfl).bind fun vars hvars =>
      ensures_nodeAt (List.forall_mem_nil _) hvars
  | staticStmt =>
    exact (ensures_buildAll h rfl).bind fun vars hvars =>
      ensures_nodeAt (List.forall_mem_nil _) hvars
  | staticItem => exact ensures_staticVarNode h
  | namespaceStmt => exact ensures_namespaceNode h
  | useStmt => exact ensures_useNode h
  | useItem => exact ensures_useItemNode h (.inl (hparts nofun))
  | useGroupItem => exact ensures_useItemNode h (.inr (hparts nofun))
  | constStmt | declareStmt =>
    exact (ensures_constItems h).bind fun items hitems =>
      ensures_nodeAt (List.forall_mem_nil _) hitems
  | constItem =>
    obtain ⟨name, rest, heq, hname, -⟩ := (hparts nofun).order
    exact ensures_constItemNode h (heq ▸ isWord_head hname rfl)
  | gotoStmt | labelStmt =>
    obtain ⟨name, rest, heq, hname, -⟩ := (hparts nofun).order
    exact ensures_labelNode h (heq ▸ isWord_head hname rfl) fun s hs =>
      ⟨List.forall_mem_singleton.mpr hs, trivial⟩
  | functionDecl => exact ensures_functionNode h
  | param => exact ensures_paramNode h
  | classDecl => exact ensures_classNode h
  | interfaceDecl => exact ensures_interfaceNode h
  | traitDecl => exact ensures_traitNode h
  | classMember => exact ensures_memberNode h
  | traitUse => exact ensures_traitUseNode h
  | classConst => exact ensures_classConstNode h
  | methodDecl => exact ensures_methodNode h
  | propertyDecl => exact ensures_propertiesNode h
  | propertyItem =>
    obtain ⟨name, rest, heq, hname, -⟩ := (hparts nofun).order
    exact ensures_propertyNode h (heq ▸ isWord_head hname rfl)
  | _ => trivial

/-- **The parts of a tree are supplied within its levels.** -/
theorem supplied_annotate {t : ParseTree} (hgrown : Grammar.Grown t) (hlegible : Grammar.Legible t) :
    Supplied t.levels (t.annotate buildRule) := by
  induction hgrown with
  | @intro t hshape _ hts ih =>
    obtain ⟨r, e, ts⟩ := t
    obtain ⟨hword, hlegible⟩ := hlegible
    have hchildren : ∀ p ∈ ParseTree.annotateAll buildRule ts,
        Supplied (ParseTree.levelsOfAll ts) p ∧ WellBuilt p := by
      rw [ParseTree.annotateAll_eq_map]
      intro p hp
      obtain ⟨t, ht, rfl⟩ := List.mem_map.mp hp
      exact ⟨(ih t ht (hlegible t ht)).mono (ParseTree.levels_le_of_mem ht),
        wellBuilt_annotate (hts t ht)⟩
    have hyields (hmode : r.definition.mode ≠ .atomic) :
        r.definition.body.Yields Built (ParseTree.annotateAll buildRule ts) := by
      refine Grammar.Pattern.Yields.mono (P := fun r p => p.rule = r) ?_
        fun q p hp hrule => ⟨hrule, (hchildren p hp).2⟩
      rw [ParseTree.annotateAll_eq_map]
      refine (hshape hmode).map fun q t _ hrule => ?_
      rw [ParseTree.rule_annotate]
      exact hrule
    have hrules : (ParseTree.annotateAll buildRule ts).map (·.rule) = ts.map (·.rule) := by
      rw [ParseTree.annotateAll_eq_map, List.map_map]
      exact List.map_congr_left fun t _ => ParseTree.rule_annotate _ t
    refine .intro hword (fun role hrole => ?_) ?_ fun p hp => (hchildren p hp).1.mono ?_
    · have hbuild := ensures_buildRule (e := e) hyields (fun p hp => (hchildren p hp).1) hword
      rw [show placeOf? r = some role from hrole, hrules,
        Nat.add_comm (ParseTree.levelsOfAll ts)] at hbuild
      exact hbuild
    · rintro (rfl | rfl)
      · exact ensures_nameNode (hword rfl)
      · exact ensures_nameNode (hword rfl)
    · exact Nat.le_add_left _ _

/-- **The syntax tree of a matched text is legible and has no more levels than the parse tree.** -/
theorem ensures_buildTree {text : String} {t : ParseTree} (h : Grammar.parse text = .tree t) :
    (buildTree t).Ensures (Within .statement t.levels) := by
  obtain ⟨hrule, hgrown⟩ := Grammar.parse_grown h
  refine (supplied_annotate hgrown (Grammar.parse_legible h)).value (q := .script) ?_ rfl
  rw [ParseTree.rule_annotate, hrule]

end ThreeAddress.Syntax

import ThreeAddress.Proofs.BuiltDeclarations
import ThreeAddress.Proofs.Grouping

/-!
# Expressions are well built

The rules of expressions make values out of values. **Operands and operators alternate** as the
rule of expressions says, so they have a tree; every operator of it has its entry in the table of
its rule. An operand is a value after every access to it, because a name that is no value yet
becomes one as soon as it is used as one (`asValue`).
-/

namespace ThreeAddress.Syntax

open Grammar (Rule)
open Lowering (Role placed slots)
open Stock

variable {e : Extent} {ps : List Part}

/-! ## Operators -/

/-- A cast names a type. -/
theorem castType_of_built {op : Part} (h : Built .cast op) :
    ∃ type, op.children.head?.bind (fun p => CastType.ofWord? p.text) = some type := by
  obtain ⟨_, _, hchildren, rfl, _, _, rfl, ⟨type, rfl, htype⟩, rfl⟩ := h.children nofun
  rw [hchildren]
  exact Option.isSome_iff_exists.mp htype.spelled

theorem prefixKind_eq_ok {op : Part} (hcast : op.rule = .cast →
      ∃ type, op.children.head?.bind (fun p => CastType.ofWord? p.text) = some type)
    (hop : ∃ power, affixOf op.rule = .before power) (x : Node) :
    ∃ k, prefixKind op x = .ok k ∧ After.suits .value k = true ∧ placed k = [(.value, x)] := by
  obtain ⟨power, hop⟩ := hop
  unfold prefixKind
  generalize hq : op.rule = q at hop
  cases q with
  | cast =>
    obtain ⟨type, htype⟩ := hcast hq
    simp only [htype]
    exact ⟨_, rfl, rfl, rfl⟩
  | preInc | preDec | opNeg | opPos | opNot | opBitNot | opSilence | opClone | opPrint | opYield
  | opYieldFrom | opInclude => exact ⟨_, rfl, rfl, rfl⟩
  | _ => cases hop

theorem after_prefixNode {op : Part} (h : WellBuilt op)
    (hop : ∃ power, affixOf op.rule = .before power) (x : Node) :
    After [(.value, x)] (prefixNode op x) fun n => [(.value, n)] := by
  obtain ⟨k, hk, hr, hplaced⟩ := prefixKind_eq_ok (fun hq => castType_of_built ⟨hq, h⟩) hop x
  unfold prefixNode
  rw [hk]
  exact .read fun file => .node (z := []) hr (hplaced ▸ .refl _)

theorem after_postfixNode {op : Part} (h : WellBuilt op)
    (hop : ∃ power, affixOf op.rule = .after power) (x : Node) :
    After [(.value, x)] (postfixNode x op) fun n => [(.value, n)] := by
  obtain ⟨power, hop⟩ := hop
  refine .read fun file => MakesKind.node ?_
  unfold postfixKind
  generalize hq : op.rule = q at hop
  cases q with
  | postInc | postDec => exact .pure rfl (.refl _)
  | instanceofOp =>
    have hop : Built .instanceofOp op := ⟨hq, h⟩
    obtain ⟨owner, _, hparts, howner, -⟩ := (hop.parts nofun).order
    rw [hparts]
    exact .step (makes_buildFirst (r := .name) howner rfl) fun owner => .pure rfl (.refl _)
  | _ => cases hop

/-- An assignment whose token is not the equals sign alone names an operation. -/
theorem makesKind_opAssign {op : Part} (hop : Built .opAssign op) (x y : Node) :
    MakesKind [(.value, x), (.value, y)] (if op.text = "=" then return .assign x y
      else match assignedOperator? op with
        | some o => return .assignOp o x y
        | none => infixKind.unknown x op y .compoundAssignment) .value := by
  obtain htext | ⟨o, ho, htoken⟩ := hop.spelled
  · have htext : op.text = "=" := congrArg String.ofList htext
    rw [if_pos htext]
    exact .pure rfl (.refl _)
  · split
    · exact .pure rfl (.refl _)
    · rw [show assignedOperator? op = some o from ho]
      exact .pure htoken (.refl _)

theorem after_infixNode {op : Part} (h : WellBuilt op)
    (hop : ∃ power right, affixOf op.rule = .between power right) (x y : Node) :
    After [(.value, x), (.value, y)] (infixNode x op y) fun n => [(.value, n)] := by
  obtain ⟨power, right, hop⟩ := hop
  have known (hspelled : (BinaryOperator.ofToken? op.text).isSome = true) :
      MakesKind [(.value, x), (.value, y)] (match BinaryOperator.ofToken? op.text with
        | some o => return .binaryOp x o y
        | none => infixKind.unknown x op y .binaryOperator) .value := by
    obtain ⟨o, ho⟩ := Option.isSome_iff_exists.mp hspelled
    rw [ho]
    exact .pure rfl (.refl _)
  refine MakesKind.node ?_
  unfold infixKind
  generalize hq : op.rule = q at hop
  have hbuilt : Built q op := ⟨hq, h⟩
  cases q with
  | opAssignRef => exact .pure rfl (.refl _)
  | opTernary =>
    -- the middle is built last and stands between the others
    refine .step (makesOption_buildOption (r := .value) (fun p hp =>
      hbuilt.children_all nofun .expr rfl p (List.mem_of_mem_head? hp)) rfl) fun middle =>
        .pure rfl (.of_perm ?_)
    exact (List.perm_append_singleton _ _).symm.cons _
  | opAssign => exact makesKind_opAssign hbuilt x y
  | opCoalesce | opBoolOr | opBoolAnd | opEquality | opCompare | opShift | opPow | opBitOr
  | opBitXor | opBitAnd | opConcat | opAdditive | opMultiplicative | opOrKw | opXorKw | opAndKw =>
    exact known hbuilt.spelled
  | _ => cases hop

/-- The part is a well-built token of an expression. -/
def IsToken (p : Part) : Prop :=
  WellBuilt p ∧ (affixOf p.rule = .operand → p.rule = .operand)

/-- **A tree of operators over values is a value.** -/
theorem makes_operatorTree {t : OperatorTree Part} (h : t.Uses (affixOf ·.rule) IsToken) :
    Makes t.build .value := by
  induction t with
  | leaf p =>
    obtain ⟨hoperand, hp, hrule⟩ := h
    exact makes_buildAs ⟨hrule hoperand, hp⟩ rfl
  | before op t ih =>
    obtain ⟨⟨hop, hbuilt, -⟩, ht⟩ := h
    exact .step (ih ht) fun x => after_prefixNode hbuilt hop x
  | after t op ih =>
    obtain ⟨ht, hop, hbuilt, -⟩ := h
    exact .step (ih ht) fun x => after_postfixNode hbuilt hop x
  | between l op r ihl ihr =>
    obtain ⟨hl, ⟨hop, hbuilt, -⟩, hr⟩ := h
    exact .step (After.both (ihl hl) (ihr hr)) fun z => after_infixNode hbuilt hop z.1 z.2

/-! ## Runs of operands and operators -/

section

open OperatorTree (Alternates)

theorem alternates_before {xs later : List Part}
    (h : ∀ p ∈ xs, ∃ power, affixOf p.rule = .before power)
    (hlater : Alternates (affixOf ·.rule) false later) :
    Alternates (affixOf ·.rule) false (xs ++ later) := by
  induction xs with
  | nil => exact hlater
  | cons p xs ih =>
    obtain ⟨⟨power, hp⟩, hxs⟩ := List.forall_mem_cons.mp h
    exact .before hp (ih hxs)

theorem alternates_after {xs later : List Part}
    (h : ∀ p ∈ xs, ∃ power, affixOf p.rule = .after power)
    (hlater : Alternates (affixOf ·.rule) true later) :
    Alternates (affixOf ·.rule) true (xs ++ later) := by
  induction xs with
  | nil => exact hlater
  | cons p xs ih =>
    obtain ⟨⟨power, hp⟩, hxs⟩ := List.forall_mem_cons.mp h
    exact .after hp (ih hxs)

section

variable {P : Rule → Part → Prop} (hP : ∀ r p, P r p → p.rule = r)

include hP

/-- An operand with the operators before and after it. -/
theorem alternates_operand {before after later : List Part} {operand : Part}
    (hbefore : (Grammar.Pattern.many Grammar.prefixOperator).Yields P before)
    (hoperand : P .operand operand)
    (hafter : (Grammar.Pattern.many Grammar.postfixOperator).Yields P after)
    (hlater : Alternates (affixOf ·.rule) true later) :
    Alternates (affixOf ·.rule) false (before ++ ([operand] ++ (after ++ later))) := by
  have hleft : ∀ q ∈ Grammar.prefixOperator.calls, ∃ power, affixOf q = .before power := by
    simp [Grammar.prefixOperator, Grammar.Pattern.firstOf, Grammar.Pattern.calls, affixOf]
  have hright : ∀ q ∈ Grammar.postfixOperator.calls, ∃ power, affixOf q = .after power := by
    simp [Grammar.postfixOperator, Grammar.Pattern.firstOf, Grammar.Pattern.calls, affixOf]
  refine alternates_before (hbefore.forall_mem fun q hq p hp => hP q p hp ▸ hleft q hq)
    (.operand (congrArg affixOf (hP _ _ hoperand)) ?_)
  show Alternates (affixOf ·.rule) true (after ++ later)
  exact alternates_after (hafter.forall_mem fun q hq p hp => hP q p hp ▸ hright q hq) hlater

/-- **Operands and operators alternate in an expression.** -/
theorem alternates_expr {run : List Part} (h : (Rule.definition .expr).body.Yields P run) :
    Alternates (affixOf ·.rule) false run := by
  have hbetween : ∀ q ∈ Grammar.infixOperator.calls,
      ∃ power right, affixOf q = .between power right := by
    simp [Grammar.infixOperator, Grammar.Pattern.firstOf, Grammar.Pattern.calls, affixOf]
  obtain ⟨before, _, rfl, hbefore, _, _, rfl, ⟨operand, rfl, hoperand⟩, after, _, rfl, hafter, yss,
    rfl, hyss⟩ := h
  refine alternates_operand hP hbefore hoperand hafter ?_
  -- every link is an operator and one more operand with the operators around it
  induction yss with
  | nil => exact .done
  | cons ys yss ih =>
    obtain ⟨hys, hlinks⟩ := List.forall_mem_cons.mp hyss
    obtain ⟨ops, _, rfl, hops, before, _, rfl, hbefore, _, after, rfl, ⟨operand, rfl, hoperand⟩,
      hafter⟩ := hys
    obtain ⟨op, rfl, q, hq, hop⟩ := hops.choice (fun _ => true) rfl
    obtain ⟨power, right, haffix⟩ := hbetween q hq
    simp only [List.flatten_cons, List.append_assoc]
    exact .between (hP q op hop ▸ haffix)
      (alternates_operand hP hbefore hoperand hafter (ih hlinks))

end

/-- What is no operator in an expression is an operand. -/
theorem eq_operand_of_affixOf :
    ∀ q ∈ (Rule.definition .expr).body.calls, affixOf q = .operand → q = .operand := by
  decide +kernel

theorem makes_expressionNode {run : List Part}
    (h : (Rule.definition .expr).body.Yields Built run) : Makes (expressionNode e run) .value := by
  have htokens : ∀ p ∈ run, IsToken p := by
    refine h.forall_mem fun q hq p hp => ⟨hp.well, fun haffix => ?_⟩
    rw [hp.rule] at haffix ⊢
    exact eq_operand_of_affixOf q hq haffix
  obtain ⟨t, ht, huses⟩ := OperatorTree.ofTokens?_uses (alternates_expr (fun _ _ => Built.rule) h) htokens
  unfold expressionNode
  rw [ht]
  exact makes_operatorTree huses

end

/-! ## Operands -/

/-- A name that is used as a value becomes one. -/
theorem after_asValue {z : Stock} (n : Node) :
    After (z ++ [(.value, n)]) (asValue n) fun m => z ++ [(.value, m)] := by
  unfold asValue
  split
  · rename_i hk
    refine .node rfl (.append (.refl z) ⟨fun h => ?_, fun h => ?_, .refl _⟩)
    · obtain ⟨-, ht, hc⟩ := h _ List.mem_cons_self
      exact List.forall_mem_singleton.mpr ⟨by rw [hk]; nofun, ht, hc⟩
    · exact List.forall_mem_singleton.mpr (h (.value, n) List.mem_cons_self)
  · exact .pure (.refl _)

namespace Access

/-- The access is made of well-built parts. -/
def Sound : Access → Prop
  | .call p => Built .callArgs p
  | .index p => Built .dimAccess p
  | .member p => isMember p.rule = true ∧ WellBuilt p
  | .method p args => (isMember p.rule = true ∧ WellBuilt p) ∧ Built .callArgs args
  | .other _ => False

theorem sound_ofPart {p : Part} (h : ∃ q ∈ Grammar.accessor.calls, Built q p) :
    (ofPart p).Sound := by
  obtain ⟨q, hq, h⟩ := h
  have hmember : ∀ q ∈ Grammar.accessor.calls, q ≠ .callArgs → q ≠ .dimAccess →
      isMember q = true := by
    decide +kernel
  unfold ofPart
  split
  · exact ⟨‹_›, h.well⟩
  · exact ⟨‹_›, h.well⟩
  · rename_i hcall hindex
    have hp : isMember p.rule = true := hmember _ (h.rule ▸ hq) hcall hindex
    rw [if_pos hp]
    exact ⟨hp, h.well⟩

theorem sound_ofParts {ps : List Part} (h : ∀ p ∈ ps, ∃ q ∈ Grammar.accessor.calls, Built q p) :
    ∀ a ∈ ofParts ps, a.Sound := by
  fun_induction ofParts ps with
  | case1 => exact nofun
  | case2 p => exact List.forall_mem_singleton.mpr (sound_ofPart (h p List.mem_cons_self))
  | case3 p args rest hmethod ih =>
    obtain ⟨⟨_, _, hp⟩, h⟩ := List.forall_mem_cons.mp h
    obtain ⟨⟨_, _, hargs⟩, h⟩ := List.forall_mem_cons.mp h
    obtain ⟨hmember, hcall⟩ := Bool.and_eq_true_iff.mp hmethod
    exact List.forall_mem_cons.mpr
      ⟨⟨⟨hmember, hp.well⟩, beq_iff_eq.mp hcall, hargs.well⟩, ih h⟩
  | case4 p q rest _ ih =>
    obtain ⟨hp, h⟩ := List.forall_mem_cons.mp h
    exact List.forall_mem_cons.mpr ⟨sound_ofPart hp, ih h⟩

/-- A member has a name. -/
theorem makes_nameIn {p : Part} (hrule : isMember p.rule = true) (h : WellBuilt p) :
    Makes (nameIn e p.parts) .member := by
  generalize hq : p.rule = q at hrule
  have hp : Built q p := ⟨hq, h⟩
  cases q with
  | propAccess | nullsafeAccess =>
    obtain ⟨name, _, hparts, hname, -⟩ := (hp.parts nofun).order
    rw [hparts]
    exact makes_buildAmong ⟨_, List.mem_singleton_self _, hname⟩ rfl
  | staticMember =>
    obtain ⟨name, _, hparts, hname, -⟩ | ⟨name, _, hparts, hname, -⟩ |
        ⟨name, _, hparts, hname, -⟩ :=
      (hp.parts nofun).order
    all_goals
      rw [hparts]
      exact makes_buildAmong ⟨_, List.mem_singleton_self _, hname⟩ rfl
  | _ => cases hrule

/-- The role of what a member is taken of. -/
def ownerRole (p : Part) : Role :=
  if p.rule = .staticMember then .name else .value

theorem after_owner {z : Stock} (p : Part) (base : Node) :
    After (z ++ [(.value, base)]) (owner p base) fun m => z ++ [(ownerRole p, m)] := by
  unfold owner ownerRole
  split
  · exact .pure (.append (.refl z) (.role rfl))
  · exact after_asValue base

theorem suits_memberKind (p : Part) (base member : Node) :
    After.suits .value (memberKind p base member) = true ∧
      placed (memberKind p base member) = [(ownerRole p, base), (.member, member)] := by
  unfold memberKind ownerRole
  split
  · rename_i hrule
    rw [if_pos hrule]
    split <;> exact ⟨rfl, rfl⟩
  · rename_i hrule
    rw [if_neg hrule]
    exact ⟨rfl, rfl⟩

theorem suits_methodKind (p : Part) (base member : Node) (args : List Node) :
    After.suits .value (methodKind p base member args) = true ∧
      placed (methodKind p base member args)
        = (ownerRole p, base) :: (.member, member) :: args.map fun n => (.argument, n) := by
  unfold methodKind ownerRole
  split
  · rename_i hrule
    rw [if_pos hrule]
    exact ⟨rfl, congrArg (_ :: _ :: ·) (List.append_nil _)⟩
  · rename_i hrule
    rw [if_neg hrule]
    exact ⟨rfl, congrArg (_ :: _ :: ·) (List.append_nil _)⟩

theorem makesAll_args {p : Part} (h : Built .callArgs p) :
    MakesAll (buildAll .argument p.parts) .argument :=
  makesAll_buildAll ((h.parts nofun).all .argument rfl) rfl

theorem makesOption_index {p : Part} (h : Built .dimAccess p) :
    MakesOption (buildOption .expr p.children.head?) .value :=
  makesOption_buildOption (fun c hc =>
    h.children_all nofun .expr rfl c (List.mem_of_mem_head? hc)) rfl

theorem makesKind {a : Access} (ha : a.Sound) (base : Node) :
    MakesKind [(.value, base)] (a.kind e base) .value := by
  cases a with
  | call p =>
    exact .step (makesAll_args ha) fun args => .pure rfl (.append (.role rfl) (.ended _))
  | index p =>
    refine .step (makesOption_index ha) fun index => ?_
    refine .convert (.of_perm List.perm_append_comm) (.bind (after_asValue base) fun m =>
      .pure rfl (.of_perm ?_))
    exact List.append_nil (index.toList.map fun n => (Role.value, n)) ▸ List.perm_append_comm
  | member p =>
    refine .step (makes_nameIn ha.1 ha.2) fun member => ?_
    refine .convert (.of_perm List.perm_append_comm) (.bind (after_owner p base) fun m => ?_)
    obtain ⟨hr, hk⟩ := suits_memberKind p m member
    exact .pure hr (hk ▸ .of_perm (.swap ..))
  | method p args =>
    obtain ⟨⟨hmember, hp⟩, hargs⟩ := ha
    refine .step (makes_nameIn hmember hp) fun member => ?_
    refine .convert (.of_perm List.perm_append_comm) (.bind (after_owner p base) fun m => ?_)
    refine .step (makesAll_args hargs) fun args => ?_
    obtain ⟨hr, hk⟩ := suits_methodKind p m member args
    exact .pure hr (hk ▸ .of_perm (.swap ..))
  | other p => exact ha.elim

end Access

/-- What an operand starts with is a value. -/
theorem makes_operandNode (h : PartsOf .operand ps) : Makes (operandNode e ps) .value := by
  obtain ⟨start, _, rfl, hstart, accesses, _, rfl, haccesses, rfl⟩ :=
    (show Grammar.atom.FollowedBy _ Built _ ps from h.order).choice rfl
  refine .step (makes_buildAmong (r := .value) hstart (by decide +kernel)) fun n => ?_
  have hsound : ∀ a ∈ Access.ofParts (accesses ++ []), a.Sound := by
    refine Access.sound_ofParts fun p hp => ?_
    obtain ⟨q, hq, -, hp⟩ := haccesses p (by simpa using hp)
    exact ⟨q, hq, hp⟩
  exact .bind (.foldlM (fun a ha m => .read fun _ => (Access.makesKind (hsound a ha) m).node) n)
    fun m => after_asValue (z := []) m

end ThreeAddress.Syntax

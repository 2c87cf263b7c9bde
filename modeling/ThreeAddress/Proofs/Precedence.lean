import ThreeAddress.Proofs.BuiltExpressions
import ThreeAddress.Proofs.WithinExpressions

/-!
# Precedence

An expression is a flat run of operands and operators, of the shape that its rule gives. **The fold
takes the whole run and fails nowhere** (`expressionNode_grouped`): the tree that it makes has the
tokens of the run in their order, and is grouped as the table of powers says. That a run is folded
at all is a matter of its shape; that every operator of it can be built is a matter of its text,
which the grammar has read as one that is in the tables.

The operands stand for themselves here: of an operand it is only said that it can be built.
-/

namespace ThreeAddress.Grammar

/-- What one of the patterns leaves is left by their choice. -/
theorem Pattern.Yields.firstOf {α : Type} {P : Rule → α → Prop} {ps : List Pattern} {q : Pattern}
    {xs : List α} (hq : q ∈ ps) (h : q.Yields P xs) : (Pattern.firstOf ps).Yields P xs := by
  induction ps with
  | nil => cases hq
  | cons p ps ih =>
    cases ps with
    | nil => exact List.mem_singleton.mp hq ▸ h
    | cons p' ps =>
      obtain rfl | hq := List.mem_cons.mp hq
      · exact .inl h
      · exact .inr (ih hq)

end ThreeAddress.Grammar

namespace ThreeAddress.Syntax

open Grammar (Rule)

namespace Build

variable {α β : Type}

/-- Building succeeds in every file, from every number on. -/
def Succeeds (b : Build α) : Prop :=
  ∀ file next, ∃ a next', b.Gives file next a next'

theorem Succeeds.pure (a : α) : (Pure.pure a : Build α).Succeeds :=
  fun _ next => ⟨a, next, gives_pure.mpr ⟨rfl, rfl⟩⟩

theorem Succeeds.node (kind : Kind Node) (location : Option Location) (span : Option Span) :
    (node kind location span).Succeeds :=
  fun _ next => ⟨_, next + 1, gives_node.mpr ⟨rfl, rfl⟩⟩

theorem Succeeds.bind {b : Build α} {f : α → Build β} (hb : b.Succeeds)
    (hf : ∀ a, (f a).Succeeds) : (b >>= f).Succeeds := by
  intro file next
  obtain ⟨a, next₁, ha⟩ := hb file next
  obtain ⟨c, next₂, hc⟩ := hf a file next₁
  exact ⟨c, next₂, gives_bind.mpr ⟨a, next₁, ha, hc⟩⟩

theorem Succeeds.read {f : String → Build β} (hf : ∀ file, (f file).Succeeds) :
    (MonadReaderOf.read >>= f : Build β).Succeeds :=
  bind (fun file next => ⟨file, next, gives_read.mpr ⟨rfl, rfl⟩⟩) hf

theorem Succeeds.both {a : Build α} {b : Build β} (ha : a.Succeeds) (hb : b.Succeeds) :
    (both a b).Succeeds := by
  intro file next
  obtain ⟨x, next₁, hx⟩ := ha file next
  obtain ⟨y, next₂, hy⟩ := hb file next₁
  exact ⟨(x, y), next₂, gives_both.mpr ⟨next₁, hx, hy⟩⟩

end Build

/-! ## Trees that are grouped -/

namespace OperatorTree

variable {α : Type} {affix : α → Affix}

/-- The power of the root, if it stands between two sides. -/
def link? (affix : α → Affix) : OperatorTree α → Option Nat
  | .between _ op _ => some (affix op).pull
  | _ => none

/-- At every operator between two sides, another one on its left binds tighter, or equally on a
level that groups from the left, and one on its right binds tighter, or equally on a level that
groups from the right. -/
def Grouped (affix : α → Affix) : OperatorTree α → Prop
  | .leaf _ => True
  | .before _ t | .after t _ => t.Grouped affix
  | .between l op r =>
    l.Grouped affix ∧ r.Grouped affix ∧ ∃ power right, affix op = .between power right ∧
      (∀ p ∈ l.link? affix, power < p ∨ power = p ∧ right = false) ∧
      ∀ p ∈ r.link? affix, power < p ∨ power = p ∧ right = true

theorem between_mem_openEnd (affix : α → Affix) (l r : OperatorTree α) (op : α) :
    .between l op (affix op).hold ∈ (between l op r).openEnd affix :=
  List.mem_append_right _ (List.mem_singleton_self _)

/-- **A tree that fits is grouped**, where all operators of one power group from the same side. -/
theorem grouped_of_fits
    (hlevel : ∀ a b p g g', affix a = .between p g → affix b = .between p g' → g = g')
    {w : Nat} {t : OperatorTree α} (h : t.Fits affix w) : t.Grouped affix := by
  induction t generalizing w with
  | leaf a => trivial
  | before op t ih => exact ih h.2
  | after t op ih =>
    obtain ⟨-, -, ht, -⟩ := h
    exact ih ht
  | between l op r ihl ihr =>
    obtain ⟨⟨power, right, hop⟩, -, hl, hopen, hr⟩ := h
    rw [hop] at hopen hr
    refine ⟨ihl hl, ihr hr, power, right, hop, fun p hp => ?_, fun p hp => ?_⟩
    · -- the operator on the left was closed by this one
      cases l with
      | between l' op' r' =>
        obtain ⟨⟨p', right', hop'⟩, hpos, -⟩ := hl
        obtain rfl := Option.some.inj hp
        have hclosed : power ≤ (affix op').hold :=
          hopen _ (between_mem_openEnd affix l' r' op')
        rw [hop'] at hclosed hpos ⊢
        simp only [Affix.hold, Affix.pull] at hclosed hpos ⊢
        by_cases heq : power = p'
        · subst heq
          obtain rfl := hlevel op op' power right right' hop hop'
          refine .inr ⟨rfl, ?_⟩
          cases right with
          | false => rfl
          | true =>
            rw [if_pos rfl] at hclosed
            omega
        · left
          split at hclosed <;> omega
      | _ => cases hp
    · -- the operator on the right took its left side from this one
      cases r with
      | between l' op' r' =>
        obtain ⟨⟨p', right', hop'⟩, htakes, -⟩ := hr
        obtain rfl := Option.some.inj hp
        rw [hop'] at htakes ⊢
        simp only [Affix.hold, Affix.pull] at htakes ⊢
        cases right with
        | false => exact .inl htakes
        | true =>
          rw [if_pos rfl] at htakes
          exact (Nat.lt_or_eq_of_le (by omega : power ≤ p')).imp id fun heq => ⟨heq, rfl⟩
      | _ => cases hp

end OperatorTree

/-- The operators of one power group from the same side. -/
theorem groupsRight_of_affixOf {r : Rule} {power : Nat} {right : Bool}
    (h : affixOf r = .between power right) : right = [70, 80, 90, 240].contains power := by
  unfold affixOf at h
  split at h <;> cases h <;> rfl

/-! ## Tokens that the grammar reads -/

open Build

/-- A token of an expression. An operand can be built, and of an operator the grammar has read the
text; what stands inside a token can be built, too. -/
structure IsTokenOf (r : Rule) (p : Part) : Prop where
  rule : p.rule = r
  operand : r = .operand → p.value.Succeeds
  read : r ≠ .operand → r.Takes p.extent
  /-- The word between the parentheses. -/
  cast : r = .cast → ∃ type later, p.children = type :: later ∧ Rule.Takes .castType type.extent
  /-- The class after the keyword. -/
  owner : r = .instanceofOp → (buildFirst .classRef p.extent p.parts).Succeeds
  /-- What stands between the question mark and the colon. -/
  middle : r = .opTernary → (buildOption .expr p.children.head?).Succeeds

namespace IsTokenOf

variable {r : Rule} {op : Part}

theorem succeeds_prefixNode (h : IsTokenOf r op) (hop : ∃ power, affixOf r = .before power)
    (x : Node) : (prefixNode op x).Succeeds := by
  have hcast (hq : op.rule = .cast) :
      ∃ type, op.children.head?.bind (fun p => CastType.ofWord? p.text) = some type := by
    obtain ⟨type, later, hchildren, htype⟩ := h.cast (h.rule.symm.trans hq)
    rw [hchildren]
    exact Option.isSome_iff_exists.mp htype.spelled
  obtain ⟨k, hk, -⟩ := prefixKind_eq_ok hcast (h.rule.symm ▸ hop) x
  unfold prefixNode
  rw [hk]
  exact .read fun file => Succeeds.node _ _ _

theorem succeeds_postfixNode (h : IsTokenOf r op) (hop : ∃ power, affixOf r = .after power)
    (x : Node) : (postfixNode x op).Succeeds := by
  obtain ⟨power, hop⟩ := hop
  refine .read fun file => .bind ?_ fun kind => .node _ _ _
  unfold postfixKind
  rw [h.rule]
  cases r with
  | postInc | postDec => exact .pure _
  | instanceofOp => exact (h.owner rfl).bind fun owner => .pure _
  | _ => cases hop

/-- The token of an assignment is the equals sign, or an operation with one. -/
theorem succeeds_opAssign (h : IsTokenOf .opAssign op) (x y : Node) :
    (infixKind x op y).Succeeds := by
  unfold infixKind
  rw [h.rule]
  dsimp only
  split
  · exact .pure _
  · rename_i hne
    obtain htext | ⟨o, ho, -⟩ := (h.read nofun).spelled
    · exact absurd (congrArg String.ofList htext) hne
    · rw [show assignedOperator? op = some o from ho]
      exact .pure _

/-- An operator that is in the table of tokens. -/
theorem succeeds_binary (hknown : (BinaryOperator.ofToken? op.text).isSome = true)
    (hassign : op.rule ≠ .opAssign) (href : op.rule ≠ .opAssignRef)
    (hternary : op.rule ≠ .opTernary) (x y : Node) : (infixKind x op y).Succeeds := by
  obtain ⟨o, ho⟩ := Option.isSome_iff_exists.mp hknown
  unfold infixKind
  split
  · contradiction
  · contradiction
  · contradiction
  · rw [ho]
    exact .pure _

theorem succeeds_infixNode (h : IsTokenOf r op)
    (hop : ∃ power right, affixOf r = .between power right) (x y : Node) :
    (infixNode x op y).Succeeds := by
  obtain ⟨power, right, hop⟩ := hop
  refine .bind ?_ fun kind => .node _ _ _
  cases r with
  | opAssign => exact h.succeeds_opAssign x y
  | opAssignRef =>
    unfold infixKind
    rw [h.rule]
    exact .pure _
  | opTernary =>
    unfold infixKind
    rw [h.rule]
    exact (h.middle rfl).bind fun middle => .pure _
  | opCoalesce | opBoolOr | opBoolAnd | opEquality | opCompare | opShift | opPow | opBitOr
  | opBitXor | opBitAnd | opConcat | opAdditive | opMultiplicative | opOrKw | opXorKw | opAndKw =>
    refine succeeds_binary (h.read (by decide)).spelled ?_ ?_ ?_ x y <;>
    · rw [h.rule]
      decide
  | _ => cases hop

end IsTokenOf

/-- **A tree of tokens can be built.** -/
theorem succeeds_build {t : OperatorTree Part}
    (h : t.Uses (affixOf ·.rule) fun p => ∃ r, IsTokenOf r p ∧ (affixOf r = .operand → r = .operand)) :
    t.build.Succeeds := by
  induction t with
  | leaf p =>
    obtain ⟨hoperand, r, hp, hr⟩ := h
    obtain rfl := hr (hp.rule ▸ hoperand)
    unfold OperatorTree.build buildAs
    rw [if_pos hp.rule]
    exact hp.operand rfl
  | before op t ih =>
    obtain ⟨⟨hop, r, hr, -⟩, ht⟩ := h
    exact (ih ht).bind fun x => hr.succeeds_prefixNode (hr.rule ▸ hop) x
  | after t op ih =>
    obtain ⟨ht, hop, r, hr, -⟩ := h
    exact (ih ht).bind fun x => hr.succeeds_postfixNode (hr.rule ▸ hop) x
  | between l op r ihl ihr =>
    obtain ⟨hl, ⟨hop, q, hq, -⟩, hr⟩ := h
    exact ((ihl hl).both (ihr hr)).bind fun z => hq.succeeds_infixNode (hq.rule ▸ hop) z.1 z.2

/-! ## Expressions -/

/-- **The fold loses nothing and goes by the table.** A run of tokens of the shape that the rule of
expressions gives is folded into a tree with the tokens of the run in their order, which is grouped
by the powers of its operators, and the expression is built from this tree without a failure. -/
theorem expressionNode_grouped {run : List Part}
    (h : (Rule.definition .expr).body.Yields IsTokenOf run) (e : Extent) :
    ∃ t, OperatorTree.ofTokens? (fun p : Part => affixOf p.rule) run = some t ∧ t.tokens = run ∧
      t.Grouped (fun p => affixOf p.rule) ∧ expressionNode e run = t.build ∧
      t.build.Succeeds := by
  obtain ⟨t, ht, huses⟩ := OperatorTree.ofTokens?_uses
    (P := fun p => ∃ r, IsTokenOf r p ∧ (affixOf r = .operand → r = .operand))
    (alternates_expr (fun _ _ => IsTokenOf.rule) h)
    (h.forall_mem fun q hq p hp => ⟨q, hp, eq_operand_of_affixOf q hq⟩)
  obtain ⟨hfits, htokens⟩ :=
    OperatorTree.fits_of_ofTokens? (fun p : Part => affixOf_positive p.rule) ht
  have hgrouped := OperatorTree.grouped_of_fits (fun a b p g g' ha hb =>
    (groupsRight_of_affixOf ha).trans (groupsRight_of_affixOf hb).symm) hfits
  refine ⟨t, ht, htokens, hgrouped, ?_, succeeds_build huses⟩
  unfold expressionNode
  rw [ht]

/-- An operator with its text. -/
def operatorPart (r : Rule) (text : String) : Part :=
  ⟨r, ⟨.ofText text, (Cursor.ofText text).forward text.length⟩, failAt default .malformed, []⟩

/-- The variable as an operand. -/
def variablePart (x : String) : Part :=
  ⟨.operand, default, node (.var x) none none, []⟩

/-- `-$a ** $b + $c` -/
def negatedPower : List Part :=
  [operatorPart .opNeg "-", variablePart "a", operatorPart .opPow "**", variablePart "b",
    operatorPart .opAdditive "+", variablePart "c"]

theorem expressionNode_negatedPower :
    (Rule.definition .expr).body.Yields IsTokenOf negatedPower ∧
    ∃ t, OperatorTree.ofTokens? (fun p : Part => affixOf p.rule) negatedPower = some t ∧
      t.tokens = negatedPower ∧ t.Grouped (fun p => affixOf p.rule) ∧
      (expressionNode default negatedPower).Succeeds := by
  have hoperand (x : String) : IsTokenOf .operand (variablePart x) :=
    ⟨rfl, fun _ => .node _ _ _, nofun, nofun, nofun, nofun⟩
  have hneg : IsTokenOf .opNeg (operatorPart .opNeg "-") :=
    ⟨rfl, nofun, fun _ => ⟨1, ⟨.spaced, .none⟩, ⟨.ofText "-", [], .none⟩, _, _, rfl, rfl, rfl⟩,
      nofun, nofun, nofun⟩
  have hpow : IsTokenOf .opPow (operatorPart .opPow "**") :=
    ⟨rfl, nofun, fun _ => ⟨1, ⟨.spaced, .none⟩, ⟨.ofText "**", [], .none⟩, _, _, rfl, rfl, rfl⟩,
      nofun, nofun, nofun⟩
  have hadd : IsTokenOf .opAdditive (operatorPart .opAdditive "+") :=
    ⟨rfl, nofun, fun _ => ⟨1, ⟨.spaced, .none⟩, ⟨.ofText "+", [], .none⟩, _, _, rfl, rfl, rfl⟩,
      nofun, nofun, nofun⟩
  have hnone (q : Grammar.Pattern) : (Grammar.Pattern.many q).Yields IsTokenOf [] :=
    ⟨[], rfl, nofun⟩
  have hbefore : (Grammar.Pattern.many Grammar.prefixOperator).Yields IsTokenOf
      [operatorPart .opNeg "-"] :=
    ⟨[[_]], rfl, List.forall_mem_singleton.mpr
      (.firstOf (q := .rule .opNeg) (by simp) ⟨_, rfl, hneg⟩)⟩
  have hlinks : (Grammar.Pattern.many (.sequence [Grammar.infixOperator,
      .many Grammar.prefixOperator, .rule .operand, .many Grammar.postfixOperator])).Yields
      IsTokenOf (negatedPower.drop 2) :=
    ⟨[[operatorPart .opPow "**", variablePart "b"], [operatorPart .opAdditive "+", variablePart "c"]],
      rfl, List.forall_mem_cons.mpr
        ⟨⟨[_], _, rfl, .firstOf (q := .rule .opPow) (by simp) ⟨_, rfl, hpow⟩, [], _, rfl, hnone _,
          [_], [], rfl, ⟨_, rfl, hoperand "b"⟩, hnone _⟩,
        List.forall_mem_singleton.mpr
          ⟨[_], _, rfl, .firstOf (q := .rule .opAdditive) (by simp) ⟨_, rfl, hadd⟩, [], _, rfl,
            hnone _, [_], [], rfl, ⟨_, rfl, hoperand "c"⟩, hnone _⟩⟩⟩
  have hrun : (Rule.definition .expr).body.Yields IsTokenOf negatedPower :=
    ⟨[_], _, rfl, hbefore, [_], _, rfl, ⟨_, rfl, hoperand "a"⟩, [], _, rfl, hnone _, hlinks⟩
  obtain ⟨t, ht, htokens, hgrouped, hbuild, hsucceeds⟩ := expressionNode_grouped hrun default
  exact ⟨hrun, t, ht, htokens, hgrouped, hbuild ▸ hsucceeds⟩

end ThreeAddress.Syntax

import ThreeAddress.Proofs.Grouping
import ThreeAddress.Proofs.Within

/-!
# Expressions and declarations within a number of levels

How far down the nodes of expressions and declarations go, builder by builder: each adds the level
of its own node to the levels of its parts, a run of operators one for every operator
(`ensures_expressionNode`), and an operand one for every access (`ensures_operandNode`).
-/

namespace ThreeAddress.Syntax

open Grammar (Rule)
open Lowering (Role slots)
open Text (OneLine)
open Build Node

variable {m : Nat} {p : Part} {ps : List Part} {e : Extent}

/-! ## Declarations -/

theorem ensures_blockBody (h : Supplied m p) :
    (blockBody p).Ensures fun ns => ∀ n ∈ ns, n.Within .statement m :=
  ensures_buildAll (h.partsOf .statement) rfl

theorem ensures_blockBody? {block : Option Part} (h : ∀ p ∈ block, Supplied m p) :
    (blockBody? block).Ensures fun ns => ∀ n ∈ ns.getD [], n.Within .statement m := by
  refine .optionList fun b hb => ?_
  obtain ⟨p, hp, rfl⟩ := Option.mem_map.mp hb
  exact ensures_blockBody (h p hp)

theorem ensures_nameNode (h : OneLine e.text) : (nameNode e).Ensures IsName := by
  refine .nodeAt fun id location span => ⟨.intro (forall_words ⟨fun s hs => ?_, trivial⟩)
    (List.forall_mem_nil _), rfl⟩
  exact Text.oneLine_of_mem_splitOn h (List.mem_filter.mp hs).1

theorem ensures_namesAmong (h : ∀ p ∈ ps, Supplied m p)
    (hof : ∀ p ∈ ps, (namesOf p).Ensures fun ns => ∀ n ∈ ns, n.IsName) :
    (namesAmong e ps).Ensures fun ns => ∀ n ∈ ns, n.IsName := by
  induction ps with
  | nil => exact .pure (List.forall_mem_nil _)
  | cons p ps ih =>
    obtain ⟨hp, hps⟩ := List.forall_mem_cons.mp h
    obtain ⟨hpof, hpsof⟩ := List.forall_mem_cons.mp hof
    have hjoin : ∀ names : List Node, (∀ n ∈ names, n.IsName) →
        (do return names ++ (← namesAmong e ps) : Build (List Node)).Ensures
          fun ns => ∀ n ∈ ns, n.IsName := by
      refine fun names hnames => (ih hps hpsof).bind fun rest hrest => .pure ?_
      exact List.forall_mem_append.mpr ⟨hnames, hrest⟩
    unfold namesAmong
    refine .ite (fun _ => .bind (.pure (List.forall_mem_nil _)) hjoin) fun _ =>
      .ite (fun _ => hpof.bind hjoin) fun _ => .bind ?_ hjoin
    refine Ensures.map (P := IsName) (.ite (fun hmem => ?_) fun _ => .failAt) fun n hn =>
      List.forall_mem_singleton.mpr hn
    exact hp.name (.inl (List.mem_singleton.mp hmem))

/-- A list holds names, or lists of names in turn. -/
theorem ensures_namesOf (h : Supplied m p) :
    (namesOf p).Ensures fun ns => ∀ n ∈ ns, n.IsName := by
  induction h with
  | @intro p _ _ _ hchildren ih =>
    obtain ⟨r, e, value, children⟩ := p
    exact ensures_namesAmong hchildren ih

theorem ensures_nameList (h : ∀ p ∈ ps, Supplied m p) :
    (nameList ps).Ensures fun ns => ∀ n ∈ ns, n.IsName := by
  unfold nameList
  split
  · rename_i names hnames
    obtain hnames | ⟨-, hnames⟩ := Option.or_eq_some_iff.mp hnames
    · exact ensures_namesOf (supplied_partOf? h names hnames)
    · exact ensures_namesOf (supplied_partOf? h names hnames)
  · exact .pure (List.forall_mem_nil _)

theorem ensures_parentClass (h : ∀ p ∈ ps, Supplied m p) :
    (parentClass ps).Ensures fun n => ∀ x ∈ n, x.IsName := by
  refine .option fun b hb => ?_
  obtain ⟨clause, hclause, rfl⟩ := Option.mem_map.mp hb
  exact ensures_withFirst (supplied_partOf? h clause hclause).parts fun p hp =>
    ensures_buildAs_name hp (.inl rfl)

theorem ensures_memberList (h : ∀ p ∈ ps, Supplied m p) :
    (memberList ps).Ensures fun ns => ∀ n ∈ ns, n.Within .statement m := by
  unfold memberList
  split
  · rename_i body hbody
    exact ensures_buildAll (supplied_partOf? h body hbody).parts rfl
  · exact .pure (List.forall_mem_nil _)

theorem ensures_memberNode (h : ∀ p ∈ ps, Supplied m p) :
    (memberNode e ps).Ensures (Within .statement (m + 1)) :=
  ensures_withFirst h fun _ hp => ensures_buildAmong hp rfl

theorem ensures_paramList (h : ∀ p ∈ ps, Supplied m p) :
    (paramList ps).Ensures fun ns => ∀ n ∈ ns, n.Within .param m := by
  unfold paramList
  split
  · rename_i params hparams
    exact ensures_buildAll (supplied_partOf? h params hparams).parts rfl
  · exact .pure (List.forall_mem_nil _)

theorem oneLine_modifierWords (h : ∀ p ∈ ps, Supplied m p) {q : Rule} (hq : q.isWord = true) :
    ∀ s ∈ modifierWords q ps, OneLine s := by
  intro s hs
  obtain ⟨p, hp, rfl⟩ := List.mem_map.mp hs
  obtain ⟨hmem, hrule⟩ := List.mem_filter.mp hp
  exact (h p hmem).word ((beq_iff_eq.mp hrule) ▸ hq)

theorem oneLine_declaredName (h : ∀ p ∈ ps, Supplied m p) : OneLine (declaredName ps) := by
  unfold declaredName
  cases hname : partOf? .identifier ps with
  | none => exact Text.oneLine_empty
  | some p => exact (supplied_partOf? h p hname).text (by rw [rule_of_partOf? hname]; rfl)

/-- Names that stand where names are expected. -/
theorem within_names {ns : List Node} (h : ∀ n ∈ ns, n.IsName) {r : Role} (m : Nat)
    (hr : (r.standing .name).levels = 0) : ∀ n ∈ ns, n.Within r m :=
  fun n hn => (h n hn).within m hr

theorem within_name? {n : Option Node} (h : ∀ x ∈ n, x.IsName) {r : Role} (m : Nat)
    (hr : (r.standing .name).levels = 0) : ∀ x ∈ n, x.Within r m :=
  fun x hx => (h x hx).within m hr

theorem ensures_paramNode (h : ∀ p ∈ ps, Supplied m p) :
    (paramNode e ps).Ensures (Within .param m) := by
  unfold paramNode
  split
  · rename_i v hv
    refine (ensures_buildOption (supplied_partOf? h) rfl).bind fun default hdefault =>
      ensures_nodeAt ?_ hdefault
    have hname : OneLine v.variableName :=
      (supplied_partOf? h v hv).variableName (by rw [rule_of_partOf? hv]; rfl)
    have htype : ∀ s ∈ (partOf? .typeHint ps).map fun t => Text.withoutBlanks t.text, OneLine s := by
      intro s hs
      obtain ⟨t, -, rfl⟩ := Option.mem_map.mp hs
      exact Text.oneLine_withoutBlanks _
    exact forall_words ⟨hname, htype, trivial⟩
  · exact .failAt

theorem ensures_functionNode (h : ∀ p ∈ ps, Supplied m p) :
    (functionNode e ps).Ensures (Within .statement (m + 1)) :=
  (ensures_paramList h).bind fun _ hparams =>
    (ensures_blockBody? (supplied_partOf? h)).bind fun _ hbody =>
      ensures_nodeAt (List.forall_mem_singleton.mpr (oneLine_declaredName h))
        ⟨hparams, hbody⟩

theorem ensures_classNode (h : ∀ p ∈ ps, Supplied m p) :
    (classNode e ps).Ensures (Within .statement (m + 1)) := by
  refine (ensures_parentClass h).bind fun parent hparent =>
    (ensures_nameList h).bind fun interfaces hinterfaces =>
      (ensures_memberList h).bind fun members hmembers => ensures_nodeAt ?_
        ⟨within_name? hparent m rfl, within_names hinterfaces m rfl, hmembers⟩
  have hmodifiers := oneLine_modifierWords h (q := .classModifier) rfl
  exact forall_words ⟨fun s hs => Option.some.inj hs ▸ oneLine_declaredName h, hmodifiers, trivial⟩

theorem ensures_interfaceNode (h : ∀ p ∈ ps, Supplied m p) :
    (interfaceNode e ps).Ensures (Within .statement (m + 1)) :=
  (ensures_nameList h).bind fun _ hparents =>
    (ensures_memberList h).bind fun _ hmembers =>
      ensures_nodeAt (List.forall_mem_singleton.mpr (oneLine_declaredName h))
        ⟨within_names hparents m rfl, hmembers⟩

theorem ensures_traitNode (h : ∀ p ∈ ps, Supplied m p) :
    (traitNode e ps).Ensures (Within .statement (m + 1)) :=
  (ensures_memberList h).bind fun _ hmembers =>
    ensures_nodeAt (List.forall_mem_singleton.mpr (oneLine_declaredName h))
      hmembers

theorem ensures_methodNode (h : ∀ p ∈ ps, Supplied m p) :
    (methodNode e ps).Ensures (Within .statement (m + 1)) := by
  refine (ensures_paramList h).bind fun params hparams =>
    (ensures_blockBody? (supplied_partOf? h)).bind fun body hbody =>
      ensures_nodeAt ?_ ⟨hparams, hbody⟩
  have hmodifiers := oneLine_modifierWords h (q := .memberModifier) rfl
  exact forall_words ⟨oneLine_declaredName h, hmodifiers, trivial⟩

theorem ensures_propertiesNode (h : ∀ p ∈ ps, Supplied m p) :
    (propertiesNode e ps).Ensures (Within .statement (m + 1)) := by
  refine (ensures_buildAll (supplied_filter h _) rfl).bind fun props hprops =>
    ensures_nodeAt ?_ fun n hn => (hprops n hn).as (Nat.le_of_eq ?_)
  · exact forall_words ⟨oneLine_modifierWords h (q := .memberModifier) rfl, trivial⟩
  · unfold Lowering.standing
    cases Lowering.category n.kind <;> rfl

theorem ensures_constItems (h : ∀ p ∈ ps, Supplied m p) :
    (constItems ps).Ensures fun ns => ∀ n ∈ ns, n.Within .constItem m :=
  ensures_buildAll (supplied_filter h _) rfl

theorem ensures_classConstNode (h : ∀ p ∈ ps, Supplied m p) :
    (classConstNode e ps).Ensures (Within .statement (m + 1)) := by
  refine (ensures_constItems h).bind fun items hitems =>
    ensures_nodeAt ?_ hitems
  exact forall_words ⟨oneLine_modifierWords h (q := .memberModifier) rfl, trivial⟩

theorem ensures_traitUseNode (h : ∀ p ∈ ps, Supplied m p) :
    (traitUseNode e ps).Ensures (Within .statement (m + 1)) :=
  (ensures_nameList h).bind fun _ htraits =>
    ensures_nodeAt (List.forall_mem_nil _) (within_names htraits m rfl)

/-- The first part of a rule that starts with a word. -/
theorem ensures_firstText {α : Type} {f : Part → α} {Q : α → Prop} (h : ∀ p ∈ ps, Supplied m p)
    (hword : ∀ p ∈ ps.head?, p.rule.isWord = true)
    (hf : ∀ p, Supplied m p → p.rule.isWord = true → Q (f p)) :
    (withFirst e (fun p => return f p) ps).Ensures Q := by
  cases ps with
  | nil => exact .failAt
  | cons p ps => exact .pure (hf p (h p List.mem_cons_self) (hword p rfl))

theorem ensures_propertyNode (h : ∀ p ∈ ps, Supplied m p)
    (hword : ∀ p ∈ ps.head?, p.rule.isWord = true) :
    (propertyNode e ps).Ensures (Within (.property []) m) :=
  (ensures_firstText h hword fun _ => Supplied.variableName).bind fun _ hname =>
    (ensures_buildOption (supplied_head? (supplied_tail h)) rfl).bind fun _ hdefault =>
      ensures_nodeAt (List.forall_mem_singleton.mpr hname) hdefault

theorem ensures_constItemNode (h : ∀ p ∈ ps, Supplied m p)
    (hword : ∀ p ∈ ps.head?, p.rule.isWord = true) :
    (constItemNode e ps).Ensures (Within .constItem m) :=
  (ensures_firstText h hword fun _ => Supplied.text).bind fun _ hname =>
    (ensures_buildFirst (supplied_tail h) rfl).bind fun _ hvalue =>
      ensures_nodeAt (List.forall_mem_singleton.mpr hname) hvalue

/-! ## Operators -/

/-- What is needed of a kind for its node to lie within one level more. -/
structure Kind.Ready (m : Nat) (k : Kind Node) : Prop where
  words : ∀ s ∈ k.words, OneLine s
  slots : allSlots (fun r n => n.Within r m) (slots k)

theorem Kind.Ready.node {k : Kind Node} (h : k.Ready m) {r : Role} {location : Option Location}
    {span : Option Span} : (Build.node k location span).Ensures (Within r (m + 1)) := by
  refine ensures_node h.words h.slots (Nat.add_le_add_left ?_ m)
  cases Lowering.standing r k <;> decide

theorem Kind.Ready.nodeAt {k : Kind Node} (h : k.Ready m) {r : Role} :
    (Build.nodeAt e k).Ensures (Within r (m + 1)) :=
  .read fun _ => h.node

theorem ready_prefixKind {op : Part} {x : Node} {k : Kind Node} (h : prefixKind op x = .ok k)
    (hx : x.Within .value m) : k.Ready m := by
  unfold prefixKind at h
  split at h
  case h_1 =>
    split at h
    · cases h
      exact ⟨List.forall_mem_nil _, hx⟩
    · cases h
  case h_11 =>
    cases h
    exact ⟨List.forall_mem_nil _, fun y hy => Option.some.inj hy ▸ hx⟩
  case h_14 => cases h
  all_goals
    cases h
    exact ⟨List.forall_mem_nil _, hx⟩

/-- An operator adds one level to its operands. -/
theorem ensures_prefixNode {op : Part} {x : Node} (hx : x.Within .value m) :
    (prefixNode op x).Ensures (Within .value (m + 1)) := by
  refine .read fun file => ?_
  dsimp only
  split
  · rename_i k hk
    exact (ready_prefixKind hk hx).node
  · exact .fail

theorem ensures_postfixNode {op : Part} {x : Node} (hop : Supplied m op)
    (hx : x.Within .value m) : (postfixNode x op).Ensures (Within .value (m + 1)) := by
  refine .read fun file => Ensures.bind (P := Kind.Ready m) ?_ fun k hk => hk.node
  unfold postfixKind
  split
  · exact .pure ⟨List.forall_mem_nil _, hx⟩
  · exact .pure ⟨List.forall_mem_nil _, hx⟩
  · exact (ensures_buildFirst hop.parts rfl).bind fun c hc =>
      .pure ⟨List.forall_mem_nil _, hx, hc⟩
  · exact .fail

theorem ensures_infixNode {op : Part} {x y : Node} (hop : Supplied m op)
    (hx : x.Within .value m) (hy : y.Within .value m) :
    (infixNode x op y).Ensures (Within .value (m + 1)) := by
  refine Ensures.bind (P := Kind.Ready m) ?_ fun k hk => hk.node
  unfold infixKind
  split
  · exact .pure ⟨List.forall_mem_nil _, hx, hy⟩
  · exact (ensures_buildOption (supplied_head? hop.children) rfl).bind fun c hc =>
      .pure ⟨List.forall_mem_nil _, hx, hc, hy⟩
  · refine .ite (fun _ => .pure ⟨List.forall_mem_nil _, hx, hy⟩) fun _ => ?_
    split
    · exact .pure ⟨List.forall_mem_nil _, hx, hy⟩
    · exact .fail
  · split
    · exact .pure ⟨List.forall_mem_nil _, hx, hy⟩
    · exact .fail

/-- The number of operators in a tree. -/
def OperatorTree.operators {α : Type} : OperatorTree α → Nat
  | .leaf _ => 0
  | .before _ t | .after t _ => t.operators + 1
  | .between l _ r => l.operators + r.operators + 1

/-- A tree of operators adds one level for each of them. -/
theorem ensures_build {t : OperatorTree Part} (h : ∀ p ∈ t.tokens, Supplied m p) :
    t.build.Ensures (Within .value (m + 1 + t.operators)) := by
  induction t with
  | leaf p => exact ensures_buildAs (h p (List.mem_singleton_self p)) rfl
  | before op t ih =>
    exact (ih (List.forall_mem_cons.mp h).2).bind fun x hx => ensures_prefixNode hx
  | after t op ih =>
    obtain ⟨ht, hop⟩ := List.forall_mem_append.mp h
    have hop : Supplied (m + 1 + t.operators) op :=
      (List.forall_mem_singleton.mp hop).mono (by omega)
    exact (ih ht).bind fun x hx => ensures_postfixNode hop hx
  | between l op r ihl ihr =>
    obtain ⟨hl, hr⟩ := List.forall_mem_append.mp h
    obtain ⟨hop, hr⟩ := List.forall_mem_cons.mp hr
    have hop : Supplied (m + 1 + (l.operators + r.operators)) op := hop.mono (by omega)
    have hl : m + 1 + l.operators ≤ m + 1 + (l.operators + r.operators) := by omega
    have hr : m + 1 + r.operators ≤ m + 1 + (l.operators + r.operators) := by omega
    unfold OperatorTree.build
    exact ((ihl ‹_›).both (ihr ‹_›)).bind fun (x, y) ⟨hx, hy⟩ =>
      ensures_infixNode hop (hx.mono hl) (hy.mono hr)

theorem affixOf_positive (r : Rule) : (affixOf r).Positive := by
  unfold affixOf
  split <;> first | exact Nat.succ_pos _ | trivial

/-- The operators are the rules with a power. -/
theorem isOperator_eq (r : Rule) : r.isOperator = (affixOf r != .operand) := by
  cases r <;> rfl

theorem operators_of_fits {w : Nat} {t : OperatorTree Part}
    (h : t.Fits (fun p => affixOf p.rule) w) :
    t.operators = t.tokens.countP (·.rule.isOperator) := by
  induction t generalizing w with
  | leaf p =>
    have hp : affixOf p.rule = .operand := h
    simp [OperatorTree.operators, OperatorTree.tokens, isOperator_eq, hp]
  | before op t ih =>
    obtain ⟨⟨power, hop⟩, ht⟩ := h
    dsimp only at hop
    simp [OperatorTree.operators, OperatorTree.tokens, ih ht, isOperator_eq, hop]
  | after t op ih =>
    obtain ⟨⟨power, hop⟩, -, ht, -⟩ := h
    dsimp only at hop
    simp [OperatorTree.operators, OperatorTree.tokens, ih ht, isOperator_eq, hop]
  | between l op r ihl ihr =>
    obtain ⟨⟨power, right, hop⟩, -, hl, -, hr⟩ := h
    dsimp only at hop
    simp [OperatorTree.operators, OperatorTree.tokens, ihl hl, ihr hr, isOperator_eq, hop]
    rfl

/-- **An expression goes down one level and one more for every operator.** -/
theorem ensures_expressionNode (h : ∀ p ∈ ps, Supplied m p) :
    (expressionNode e ps).Ensures
      (Within .value (m + (1 + ps.countP (·.rule.isOperator)))) := by
  unfold expressionNode
  split
  · rename_i t ht
    obtain ⟨hfits, htokens⟩ :=
      OperatorTree.fits_of_ofTokens? (fun p : Part => affixOf_positive p.rule) ht
    rw [← Nat.add_assoc, ← htokens, ← operators_of_fits hfits]
    exact ensures_build (htokens ▸ h)
  · exact .failAt

/-! ## Operands -/

/-- A name that is used as a value stays within as many levels. -/
theorem ensures_asValue {n : Node} (h : n.Within .value m) :
    (asValue n).Ensures (Within .value m) := by
  unfold asValue
  split
  · rename_i hk
    have hname : n.IsName := ⟨h.legible, by rw [hk]; rfl⟩
    refine ensures_node (List.forall_mem_nil _) (hname.within 0 rfl) ?_
    refine le_trans ?_ h.height_le
    rw [Lowering.height_eq, hk]
    exact Nat.le_add_right _ _
  · exact .pure h

namespace Access

/-- The parts of an access are supplied within a number of levels. -/
def Supplied (m : Nat) : Access → Prop
  | .call p | .index p | .member p | .other p => Syntax.Supplied m p
  | .method p args => Syntax.Supplied m p ∧ Syntax.Supplied m args

theorem supplied_ofPart (h : Syntax.Supplied m p) : (ofPart p).Supplied m := by
  unfold ofPart
  split
  · exact h
  · exact h
  · split <;> exact h

theorem supplied_ofParts (h : ∀ p ∈ ps, Syntax.Supplied m p) : ∀ a ∈ ofParts ps, a.Supplied m := by
  fun_induction ofParts ps with
  | case1 => exact List.forall_mem_nil _
  | case2 p => exact List.forall_mem_singleton.mpr (supplied_ofPart (h p List.mem_cons_self))
  | case3 p args rest _ ih =>
    obtain ⟨hp, h⟩ := List.forall_mem_cons.mp h
    obtain ⟨hargs, h⟩ := List.forall_mem_cons.mp h
    exact List.forall_mem_cons.mpr ⟨⟨hp, hargs⟩, ih h⟩
  | case4 p q rest _ ih =>
    obtain ⟨hp, h⟩ := List.forall_mem_cons.mp h
    exact List.forall_mem_cons.mpr ⟨supplied_ofPart hp, ih h⟩

theorem length_ofParts_le (ps : List Part) : (ofParts ps).length ≤ ps.length := by
  fun_induction ofParts ps with
  | case1 | case2 => exact Nat.le_refl _
  | case3 p args rest _ ih => exact Nat.succ_le_succ (Nat.le_succ_of_le ih)
  | case4 p q rest _ ih => exact Nat.succ_le_succ ih

variable {base : Node} {k : Nat}

theorem ensures_nameIn (h : ∀ p ∈ ps, Syntax.Supplied m p) :
    (nameIn e ps).Ensures (Within .member (m + 1 + k)) :=
  ensures_withFirst h fun _ hp => (ensures_buildAmong hp rfl).mono fun _ hn =>
    (hn.value_as rfl).mono (Nat.le_add_right _ _)

theorem ensures_owner (hbase : base.Within .value m) :
    (owner p base).Ensures (Within .value m) :=
  .ite (fun _ => .pure hbase) fun _ => ensures_asValue hbase

theorem ready_memberKind {member : Node} (hbase : base.Within .value m)
    (hmember : member.Within .member m) : (memberKind p base member).Ready m := by
  unfold memberKind
  split
  · split
    · exact ⟨List.forall_mem_nil _, hbase.value_as rfl, hmember⟩
    · exact ⟨List.forall_mem_nil _, hbase.value_as rfl, hmember⟩
  · exact ⟨List.forall_mem_nil _, hbase, hmember⟩

theorem ready_methodKind {member : Node} {args : List Node} (hbase : base.Within .value m)
    (hmember : member.Within .member m) (hargs : ∀ n ∈ args, n.Within .argument m) :
    (methodKind p base member args).Ready m := by
  unfold methodKind
  split
  · exact ⟨List.forall_mem_nil _, hbase.value_as rfl, hmember, hargs⟩
  · exact ⟨List.forall_mem_nil _, hbase, hmember, hargs⟩

theorem ensures_args (h : ∀ p ∈ ps, Syntax.Supplied m p) :
    (buildAll .argument ps).Ensures fun ns => ∀ n ∈ ns, n.Within .argument (m + 1 + k) :=
  (ensures_buildAll h rfl).mono fun _ hns n hn =>
    (hns n hn).mono (Nat.le_add_right_of_le (Nat.le_add_right _ _))

theorem ensures_index (h : Syntax.Supplied m p) :
    (buildOption .expr p.children.head?).Ensures fun n => ∀ x ∈ n, x.Within .value (m + 1 + k) :=
  (ensures_buildOption (supplied_head? h.children) rfl).mono fun _ hn x hx =>
    (hn x hx).mono (Nat.le_add_right_of_le (Nat.le_add_right _ _))

/-- An access adds one level to what is accessed. -/
theorem ensures_node {a : Access} (ha : a.Supplied m) (hbase : base.Within .value (m + 1 + k)) :
    (a.node e base).Ensures (Within .value (m + 1 + (k + 1))) := by
  refine .read fun file => Ensures.bind (P := Kind.Ready (m + 1 + k)) ?_ fun k hk => hk.node
  cases a with
  | call p =>
    exact (ensures_args ha.parts).bind fun args hargs =>
      .pure ⟨List.forall_mem_nil _, hbase.value_as rfl, hargs⟩
  | index p =>
    exact (ensures_index ha).bind fun index hindex =>
      (ensures_asValue hbase).bind fun base hbase =>
        .pure ⟨List.forall_mem_nil _, hbase, hindex⟩
  | member p =>
    exact (ensures_nameIn ha.parts).bind fun member hmember =>
      (ensures_owner hbase).bind fun base hbase => .pure (ready_memberKind hbase hmember)
  | method p args =>
    exact (ensures_nameIn ha.1.parts).bind fun member hmember =>
      (ensures_owner hbase).bind fun base hbase =>
        (ensures_args ha.2.parts).bind fun args hargs =>
          .pure (ready_methodKind hbase hmember hargs)
  | other p => exact .failAt

end Access

/-- **An operand goes down one level and one more for every access.** -/
theorem ensures_operandNode (h : ∀ p ∈ ps, Supplied m p) :
    (operandNode e ps).Ensures (Within .value (m + (ps.length - 1) + 1)) := by
  refine Ensures.bind (P := Within .value (m + 1 + 0))
    (ensures_withFirst h fun p hp => ensures_buildAmong hp rfl) fun start hstart => ?_
  have hle : m + 1 + (0 + (Access.ofParts ps.tail).length) ≤ m + (ps.length - 1) + 1 := by
    have hlength := Access.length_ofParts_le ps.tail
    rw [List.length_tail] at hlength
    omega
  refine .bind (.foldlM (P := fun k => Within .value (m + 1 + k)) hstart fun a ha k n hn => ?_)
    fun n hn => ensures_asValue (hn.mono hle)
  exact Access.ensures_node (Access.supplied_ofParts (supplied_tail h) a ha) hn

theorem ensures_memberNameNode (h : ∀ p ∈ ps, Supplied m p) :
    (memberNameNode e ps).Ensures (Within .value (m + 1)) := by
  refine ensures_withFirst h fun p hp => .ite (fun hrule => ?_) fun _ => ensures_buildAmong hp rfl
  exact (hp.value hrule rfl).mono fun n hn => hn.mono (Nat.le_succ m)

theorem ensures_variableVariableNode (h : ∀ p ∈ ps, Supplied m p) :
    (variableVariableNode e ps).Ensures (Within .value (m + 1 + 1)) := by
  refine Ensures.bind (P := Within .value (m + 1)) ?_ fun name hname =>
    ensures_nodeAt (List.forall_mem_nil _) hname
  exact ensures_withFirst h fun p hp =>
    .ite (fun hrule => hp.value hrule rfl) fun _ => ensures_buildAmong hp rfl

/-- A class that is named adds no level, and one that is looked up adds none to its value. -/
theorem ensures_classRefNode (h : ∀ p ∈ ps, Supplied m p) :
    (classRefNode e ps).Ensures (Within .name m) := by
  refine ensures_withFirst h fun p hp => .ite (fun hmem => ?_) fun _ => .failAt
  simp only [Expected.rules, List.mem_cons, List.not_mem_nil, or_false] at hmem
  obtain hrule | hrule | hrule := hmem
  · exact (hp.name (.inl hrule)).mono fun n hn => hn.within m rfl
  · exact (hp.value hrule rfl).mono fun n hn => hn.value_as rfl
  · exact (hp.value hrule rfl).mono fun n hn => hn.value_as rfl

theorem ensures_classAccessKind {base : Node} {k : Nat} (hp : Supplied m p)
    (hbase : base.Within .value (m + 1 + k)) :
    (classAccessKind e base p).Ensures (Kind.Ready (m + 1 + k)) := by
  unfold classAccessKind
  split
  · exact (Access.ensures_index hp).bind fun index hindex =>
      .pure ⟨List.forall_mem_nil _, hbase, hindex⟩
  · exact (Access.ensures_nameIn hp.parts).bind fun member hmember =>
      .pure ⟨List.forall_mem_nil _, hbase.value_as rfl, hmember⟩
  · exact (Access.ensures_nameIn hp.parts).bind fun member hmember =>
      .pure ⟨List.forall_mem_nil _, hbase, hmember⟩

theorem ensures_dynamicClassNode (h : ∀ p ∈ ps, Supplied m p) :
    (dynamicClassNode e ps).Ensures (Within .value (m + ps.length)) := by
  refine .read fun file => ?_
  cases ps with
  | nil => exact .bind (P := fun _ => False) .failAt fun _ h => h.elim
  | cons p ps =>
    obtain ⟨hp, hps⟩ := List.forall_mem_cons.mp h
    refine Ensures.bind (P := Within .value (m + 1 + 0)) (ensures_buildAmong hp rfl)
      fun start hstart => ?_
    rw [List.length_cons, Nat.add_comm ps.length, ← Nat.add_assoc, ← Nat.zero_add ps.length]
    exact .foldlM (P := fun k => Within .value (m + 1 + k)) hstart fun p hp k n hn =>
      (ensures_classAccessKind (hps p hp) hn).bind fun kind hkind => hkind.node

/-! ## Calls, arrays and literals -/

theorem ensures_argumentNode (h : ∀ p ∈ ps, Supplied m p)
    (hlabel : ∀ p ∈ ps, p.rule = .namedArg → ∀ c ∈ p.parts.head?, c.rule.isWord = true) :
    (argumentNode e ps).Ensures (Within .argument m) := by
  cases ps with
  | nil => exact .failAt
  | cons p ps =>
    have hp := h p List.mem_cons_self
    unfold argumentNode withFirst
    dsimp only
    split
    · exact (ensures_buildFirst hp.parts rfl).bind fun value hvalue =>
        ensures_nodeAt (List.forall_mem_nil _) hvalue
    · rename_i hrule
      refine (ensures_firstText hp.parts (hlabel p List.mem_cons_self hrule)
        fun p => Supplied.text).bind fun label hlabel =>
          (ensures_buildFirst (supplied_tail hp.parts) rfl).bind fun value hvalue =>
            ensures_nodeAt ?_ hvalue
      exact forall_words ⟨fun s hs => Option.some.inj hs ▸ hlabel, trivial⟩
    · exact (ensures_buildAs hp rfl).bind fun value hvalue =>
        ensures_nodeAt (List.forall_mem_nil _) hvalue

theorem ensures_arrayItemsIn (h : ∀ p ∈ ps, Supplied m p) :
    (arrayItemsIn e ps).Ensures fun slots => ∀ n ∈ slots.reduceOption, n.Within .arrayItem m := by
  refine ensures_withFirst h fun p hp => ?_
  refine (Ensures.mapM fun slot hslot =>
    ensures_buildOption (supplied_head? (hp.parts slot hslot).children) rfl).bind
      fun slots hslots => .pure fun n hn => ?_
  have hn := List.reduceOption_mem_iff.mp hn
  split at hn
  · exact hslots _ (List.mem_of_mem_dropLast hn) n rfl
  · exact hslots _ hn n rfl

theorem ensures_itemValue {what : Sought} (h : Supplied m p) :
    (itemValue what p).Ensures (Within .value m) := by
  unfold itemValue
  split
  · rename_i value hvalue
    exact (supplied_partOf? h.parts value hvalue).value (rule_of_partOf? hvalue) rfl
  · exact .failAt

theorem ensures_arrayItemNode (h : ∀ p ∈ ps, Supplied m p) :
    (arrayItemNode e ps).Ensures (Within .arrayItem m) := by
  refine ensures_withFirst h fun p hp => ?_
  split
  · exact (ensures_itemValue hp).bind fun value hvalue =>
      ensures_nodeAt (List.forall_mem_nil _) ⟨nofun, hvalue⟩
  · exact (ensures_itemValue hp).bind fun value hvalue =>
      ensures_nodeAt (List.forall_mem_nil _) ⟨nofun, hvalue⟩
  · rename_i keyed rest htail _ _
    have hkeyed := supplied_tail h keyed (htail ▸ List.mem_cons_self)
    exact (ensures_buildAs hp rfl).bind fun key hkey =>
      (ensures_itemValue hkeyed).bind fun value hvalue =>
        ensures_nodeAt (List.forall_mem_nil _) ⟨fun x hx => Option.some.inj hx ▸ hkey, hvalue⟩
  · exact (ensures_buildAs hp rfl).bind fun value hvalue =>
      ensures_nodeAt (List.forall_mem_nil _) ⟨nofun, hvalue⟩

theorem ready_integerKind? {text : String} {k : Kind Node} (h : integerKind? text = some k) :
    k.Ready m := by
  obtain ⟨n | x, -, rfl⟩ := Option.map_eq_some_iff.mp h
  · exact ⟨List.forall_mem_nil _, trivial⟩
  · exact ⟨List.forall_mem_nil _, trivial⟩

theorem ensures_integerNode : (integerNode e).Ensures (Within .value (m + 1)) := by
  unfold integerNode
  split
  · exact (ready_integerKind? ‹_›).nodeAt
  · exact .failAt

theorem ensures_floatNode : (floatNode e).Ensures (Within .value (m + 1)) := by
  unfold floatNode
  split
  · exact ensures_nodeAt (List.forall_mem_nil _) trivial
  · exact .failAt

theorem ensures_stringParts (h : ∀ p ∈ ps, Supplied m p) :
    (stringParts ps).Ensures fun ns => ∀ n ∈ ns, n.Within .stringPart m := by
  refine .mapM fun p hp => ?_
  obtain ⟨hmem, hrule⟩ := List.mem_filter.mp hp
  generalize hq : p.rule = q at hrule
  cases q with
  | quotedText | heredocText | backtickText => exact (h p hmem).value hq rfl
  | braceInterp | simpleInterp =>
    exact ((h p hmem).value hq rfl).mono fun n hn => hn.value_as rfl
  | _ => cases hrule

theorem ensures_doubleQuotedNode (h : ∀ p ∈ ps, Supplied m p) :
    (doubleQuotedNode e ps).Ensures (Within .value (m + 1)) := by
  refine (ensures_stringParts h).bind fun parts hparts => ?_
  split
  · exact ensures_nodeAt (List.forall_mem_nil _) trivial
  · exact ensures_nodeAt (List.forall_mem_nil _) hparts

theorem ensures_interpolatedIndex {key : Part} (h : Supplied m key) :
    (interpolatedIndex key).Ensures (Within .value (m + 1)) := by
  unfold interpolatedIndex
  split
  · exact h.value ‹_› rfl
  · cases hk : integerKind? key.text with
    | none => exact ensures_nodeAt (List.forall_mem_nil _) trivial
    | some k => exact (ready_integerKind? hk).nodeAt
  · exact ensures_nodeAt (List.forall_mem_nil _) trivial

theorem ensures_suffixKind {base : Node} {suffix key : Part} (hbase : base.Within .value (m + 1))
    (hkey : Supplied m key) (hword : suffix.rule = .interpProp → key.rule.isWord = true) :
    (suffixKind base suffix key).Ensures (Kind.Ready (m + 1)) := by
  refine .ite (fun hrule => ?_) fun _ => ?_
  · refine Ensures.bind (P := Within .member (m + 1)) ?_ fun property hproperty =>
      .pure ⟨List.forall_mem_nil _, hbase, hproperty⟩
    exact ensures_nodeAt (List.forall_mem_singleton.mpr (hkey.text (hword hrule))) trivial
  · exact (ensures_interpolatedIndex hkey).bind fun index hindex =>
      .pure ⟨List.forall_mem_nil _, hbase, fun x hx => Option.some.inj hx ▸ hindex⟩

/-- A variable in a string; its index or its property adds a level. -/
theorem ensures_simpleInterpolationNode (h : ∀ p ∈ ps, Supplied m p)
    (hkey : ∀ p ∈ ps, p.rule = .interpProp → ∀ c ∈ p.parts.head?, c.rule.isWord = true) :
    (simpleInterpolationNode e ps).Ensures (Within .value (m + ps.length)) := by
  cases ps with
  | nil => exact .bind (P := fun _ => False) .failAt fun _ h => h.elim
  | cons p ps =>
    obtain ⟨hp, hps⟩ := List.forall_mem_cons.mp h
    refine Ensures.bind (P := Within .value (m + 1)) (ensures_buildAs hp rfl) fun base hbase => ?_
    cases ps with
    | nil => exact .pure hbase
    | cons suffix rest =>
      obtain ⟨hsuffix, -⟩ := List.forall_mem_cons.mp hps
      have hle : m + 1 + 1 ≤ m + (p :: suffix :: rest).length := by
        simp only [List.length_cons]
        omega
      refine Ensures.bind (P := Kind.Ready (m + 1)) ?_ fun k hk =>
        (hk.nodeAt (r := .value)).mono fun n hn => hn.mono hle
      have hparts := hsuffix.parts
      have hword := hkey suffix (.tail _ List.mem_cons_self)
      generalize suffix.parts = keys at hparts hword
      cases keys with
      | nil => exact .failAt
      | cons key keys =>
        exact ensures_suffixKind hbase (hparts key List.mem_cons_self) fun hrule =>
          hword hrule key rfl

/-! ## Closures and objects -/

theorem ensures_closureUseNode (h : ∀ p ∈ ps, Supplied m p) :
    (closureUseNode e ps).Ensures (Within .closureUse (m + 1)) := by
  unfold closureUseNode
  split
  · rename_i v hv
    exact ((supplied_partOf? h v hv).value (rule_of_partOf? hv) rfl).bind fun captured hcaptured =>
      ensures_nodeAt (List.forall_mem_nil _) hcaptured
  · exact .failAt

/-- The body of an arrow function lies one level below its expression. -/
theorem ensures_closureBody (h : ∀ p ∈ ps, Supplied m p) :
    (closureBody ps).Ensures fun ns => ∀ n ∈ ns,
      n.Within .statement (m + if (partOf? .block ps).isSome then 0 else 1) := by
  unfold closureBody
  split
  · rename_i block hblock
    rw [hblock]
    exact ensures_blockBody (supplied_partOf? h block hblock)
  · rename_i value hblock hvalue
    rw [hblock]
    refine ((supplied_partOf? h value hvalue).value (rule_of_partOf? hvalue) rfl).bind
      fun result hresult => Ensures.bind (P := Within .statement (m + 1)) ?_
        fun n hn => .pure (List.forall_mem_singleton.mpr hn)
    exact ensures_nodeAt (List.forall_mem_nil _) fun x hx => Option.some.inj hx ▸ hresult
  · exact .pure (List.forall_mem_nil _)

theorem supplied_elim {p : Option Part} (h : ∀ c ∈ p, Supplied m c) :
    ∀ c ∈ p.elim [] (·.parts), Supplied m c := by
  cases p with
  | none => exact List.forall_mem_nil _
  | some p => exact (h p rfl).parts

theorem ensures_closureNode {arrow : Bool} {k : Nat} (h : ∀ p ∈ ps, Supplied m p)
    (hbody : (if (partOf? .block ps).isSome then 0 else 1) ≤ k) :
    (closureNode e arrow ps).Ensures (Within .value (m + k + 1)) := by
  refine (ensures_paramList h).bind fun params hparams =>
    (ensures_buildAll (supplied_elim (supplied_partOf? h)) rfl).bind fun uses huses =>
      (ensures_closureBody h).bind fun body hstatements =>
        ensures_nodeAt (List.forall_mem_nil _) ⟨?_, ?_, ?_⟩
  · exact fun n hn => (hparams n hn).mono (Nat.le_add_right _ _)
  · exact fun n hn => (huses n hn).mono (Nat.le_add_right _ _)
  · exact fun n hn => (hstatements n hn).mono (Nat.add_le_add_left hbody m)

theorem ensures_anonymousClass (h : Supplied m p) :
    (anonymousClass p).Ensures fun x =>
      x.1.Within .instantiated m ∧ ∀ n ∈ x.2, n.Within .argument m := by
  refine (ensures_buildAll (supplied_elim (supplied_partOf? h.parts)) rfl).bind fun args hargs =>
    (ensures_parentClass h.parts).bind fun parent hparent =>
      (ensures_nameList h.parts).bind fun interfaces hinterfaces =>
        (ensures_memberList h.parts).bind fun members hmembers =>
          Ensures.bind (P := Within .instantiated m) ?_ fun n hn => .pure ⟨hn, hargs⟩
  exact ensures_nodeAt (forall_words ⟨nofun, List.forall_mem_nil _, trivial⟩)
    ⟨within_name? hparent m rfl, within_names hinterfaces m rfl, hmembers⟩

theorem ensures_newNode (h : ∀ p ∈ ps, Supplied m p) :
    (newNode e ps).Ensures (Within .value (m + 1)) := by
  refine Ensures.bind (P := fun x : Node × List Node =>
      x.1.Within .instantiated m ∧ ∀ n ∈ x.2, n.Within .argument m) ?_ fun x hx =>
    ensures_nodeAt (List.forall_mem_nil _) hx
  refine ensures_withFirst h fun target htarget => .ite (fun _ => ensures_anonymousClass htarget)
    fun _ => ?_
  refine (ensures_buildAs htarget rfl).bind fun owner howner =>
    (ensures_buildAll (supplied_elim (supplied_head? (supplied_tail h))) rfl).bind
      fun args hargs => .pure ⟨howner.as ?_, hargs⟩
  unfold Lowering.standing
  cases Lowering.category owner.kind <;> decide

end ThreeAddress.Syntax

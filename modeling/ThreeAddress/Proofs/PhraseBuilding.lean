import ThreeAddress.Proofs.Phrases

/-!
# Building phrases

What the parts of an expression say (`Token.Means`). Grouping looks at the rules of the parts only,
so parts are grouped like the tokens that they stand for, and **an expression builds the term that
its tokens are grouped into** (`Phrase.madeBy_expressionNode`).
-/

namespace ThreeAddress.Syntax

open Build

/-- Building always makes a node of the term. -/
def Term.MadeBy (t : Term) (b : Build Node) : Prop :=
  ∀ file next, ∃ n next', b.Gives file next n next' ∧ t.Is n

/-- The part stands for the token. -/
def Token.Means : Token → Part → Prop
  | .operand t, p => p.rule = .operand ∧ t.MadeBy p.value
  | .front (.cast type), p =>
    p.rule = .cast ∧ (p.children.head?.bind fun w => CastType.ofWord? w.text) = some type
  | .front f, p => p.rule = f.rule
  | .back (.isA owner), p =>
    p.rule = .instanceofOp ∧ (Term.var owner).MadeBy (buildFirst .classRef p.extent p.parts)
  | .back b, p => p.rule = b.rule
  | .link .fallback, p => p.rule = .opTernary ∧ p.children = []
  | .link o, p => p.rule = o.rule ∧ p.text = o.token
  | .choice yes, p =>
    p.rule = .opTernary ∧ ∃ q, p.children.head? = some q ∧ q.rule = .expr ∧ yes.MadeBy q.value

theorem Token.Means.rule {a : Token} {p : Part} (h : a.Means p) : p.rule = a.rule := by
  cases a with
  | operand t => exact h.1
  | front f =>
    cases f with
    | cast type => exact h.1
    | _ => exact h
  | back b =>
    cases b with
    | isA owner => exact h.1
    | _ => exact h
  | link o => cases o <;> exact h.1
  | choice yes => exact h.1

/-! ## Operators -/

section

variable {l r t : Term} {p : Part}

theorem Front.prefixKind_eq {f : Front} (hp : (Token.front f).Means p) (n : Node) :
    prefixKind p n = .ok (f.kind n) := by
  have hrule : p.rule = f.rule := hp.rule
  unfold prefixKind
  rw [hrule]
  cases f with
  | cast type =>
    have htype := hp.2
    simp only [Front.rule, Front.kind, htype]
  | _ => rfl

theorem gives_prefixNode {op : Part} {x : Node} {kind : Kind Node}
    (h : prefixKind op x = .ok kind) (file : String) (next : Nat) :
    ∃ location span, (prefixNode op x).Gives file next ⟨next, kind, location, span⟩ (next + 1) := by
  unfold prefixNode
  simp only [h]
  exact ⟨_, _, Build.gives_bind.mpr ⟨file, next, Build.gives_read.mpr ⟨rfl, rfl⟩,
    Build.gives_node.mpr ⟨rfl, rfl⟩⟩⟩

theorem Term.MadeBy.before {f : Front} {b : Build Node} (h : t.MadeBy b)
    (hp : (Token.front f).Means p) : (Term.before f t).MadeBy (b >>= prefixNode p) := by
  intro file next
  obtain ⟨n, next', hn, ht⟩ := h file next
  obtain ⟨location, span, hnode⟩ :=
    gives_prefixNode (Front.prefixKind_eq hp n) file next'
  exact ⟨_, _, gives_bind.mpr ⟨n, next', hn, hnode⟩, .before ht⟩

/-- What an operator makes of the operand before it. -/
theorem Back.exists_gives {b : Back} (hp : (Token.back b).Means p) {n : Node} (hn : t.Is n)
    (span : Option Span) (file : String) (next : Nat) : ∃ kind next',
      (postfixKind n p span).Gives file next kind next' ∧
        ∀ id location span, (Term.after t b).Is ⟨id, kind, location, span⟩ := by
  unfold postfixKind
  cases b with
  | postInc =>
    have hrule : p.rule = .postInc := hp
    rw [hrule]
    exact ⟨_, _, gives_pure.mpr ⟨rfl, rfl⟩, fun _ _ _ => .postInc hn⟩
  | postDec =>
    have hrule : p.rule = .postDec := hp
    rw [hrule]
    exact ⟨_, _, gives_pure.mpr ⟨rfl, rfl⟩, fun _ _ _ => .postDec hn⟩
  | isA owner =>
    obtain ⟨hrule, howner⟩ := hp
    rw [hrule]
    obtain ⟨m, next', hm, ho⟩ := howner file next
    exact ⟨_, _, gives_bind.mpr ⟨m, next', hm, gives_pure.mpr ⟨rfl, rfl⟩⟩,
      fun _ _ _ => .isA hn ho⟩

theorem Term.MadeBy.after {b : Back} {x : Build Node} (h : t.MadeBy x)
    (hp : (Token.back b).Means p) : (Term.after t b).MadeBy (x >>= (postfixNode · p)) := by
  intro file next
  obtain ⟨n, next₁, hn, ht⟩ := h file next
  obtain ⟨kind, next₂, hkind, hterm⟩ :=
    Back.exists_gives hp ht (Span.join? n.span (some (p.extent.span file))) file next₁
  exact ⟨_, _, gives_bind.mpr ⟨n, next₁, hn, gives_bind.mpr ⟨file, next₁,
    gives_read.mpr ⟨rfl, rfl⟩, gives_bind.mpr ⟨kind, next₂, hkind,
      gives_node.mpr ⟨rfl, rfl⟩⟩⟩⟩, hterm _ _ _⟩

/-- An operator between operands makes a term of them if its kind does. -/
theorem Term.madeBy_both {x y : Build Node} (hl : l.MadeBy x) (hr : r.MadeBy y)
    (h : ∀ m n, l.Is m → r.Is n → ∀ file next, ∃ kind next',
      (infixKind m p n).Gives file next kind next' ∧
        ∀ id location span, t.Is ⟨id, kind, location, span⟩) :
    t.MadeBy (do
      let (m, n) ← both x y
      infixNode m p n) := by
  intro file next
  obtain ⟨m, next₁, hm, hl⟩ := hl file next
  obtain ⟨n, next₂, hn, hr⟩ := hr file next₁
  obtain ⟨kind, next₃, hkind, ht⟩ := h m n hl hr file next₂
  have hboth : (both x y).Gives file next (m, n) next₂ := gives_both.mpr ⟨next₁, hm, hn⟩
  exact ⟨_, _, gives_bind.mpr ⟨(m, n), next₂, hboth,
    gives_bind.mpr ⟨kind, next₃, hkind, gives_node.mpr ⟨rfl, rfl⟩⟩⟩, ht _ _ _⟩

theorem BinaryOperator.ofToken?_token (op : BinaryOperator) :
    ofToken? op.token = some op := by
  cases op <;> decide +kernel

theorem Link.exists_gives {o : Link} (hp : (Token.link o).Means p) {m n : Node} (hm : l.Is m)
    (hn : r.Is n) (file : String) (next : Nat) : ∃ kind next',
      (infixKind m p n).Gives file next kind next' ∧
        ∀ id location span, (Term.between l o r).Is ⟨id, kind, location, span⟩ := by
  have hkind : infixKind m p n = pure (o.kind m n) := by
    unfold infixKind
    cases o with
    | op o =>
      obtain ⟨hrule, htext⟩ := hp
      have hrule : p.rule = o.rule := hrule
      have htext : p.text = o.token := htext
      rw [hrule, htext, o.ofToken?_token]
      cases o <;> rfl
    | assign =>
      obtain ⟨hrule, htext⟩ := hp
      have hrule : p.rule = .opAssign := hrule
      have htext : p.text = "=" := htext
      rw [hrule, htext]
      rfl
    | fallback =>
      obtain ⟨hrule, hchildren⟩ := hp
      rw [hrule, hchildren]
      rfl
  rw [hkind]
  exact ⟨_, _, gives_pure.mpr ⟨rfl, rfl⟩, fun _ _ _ => .between hm hn⟩

theorem exists_gives_choice {yes : Term} (hp : (Token.choice yes).Means p) {m n : Node}
    (hm : l.Is m) (hn : r.Is n) (file : String) (next : Nat) : ∃ kind next',
      (infixKind m p n).Gives file next kind next' ∧
        ∀ id location span, (Term.choice l yes r).Is ⟨id, kind, location, span⟩ := by
  obtain ⟨hrule, q, hq, hexpr, hyes⟩ := hp
  obtain ⟨k, next', hk, hterm⟩ := hyes file next
  have hoption : (buildOption .expr p.children.head?).Gives file next (some k) next' := by
    rw [hq]
    show (some <$> buildAs .expr q).Gives _ _ _ _
    rw [buildAs, if_pos hexpr, ← bind_pure_comp]
    exact gives_bind.mpr ⟨k, next', hk, gives_pure.mpr ⟨rfl, rfl⟩⟩
  unfold infixKind
  rw [hrule]
  exact ⟨_, _, gives_bind.mpr ⟨some k, next', hoption, gives_pure.mpr ⟨rfl, rfl⟩⟩,
    fun _ _ _ => .choice hm hterm hn⟩

end

/-! ## Operands -/

/-- The rule that reads an access to a member. -/
def accessRule (safe : Bool) : Grammar.Rule :=
  if safe then .nullsafeAccess else .propAccess

/-- The accesses make the second term of the first one: each is to a member that a variable
names. -/
inductive Accessed (x : Term) : List Part → Term → Prop
  | nil : Accessed x [] x
  | concat {qs : List Part} {t : Term} {q : Part} {safe : Bool} {property : String} :
      Accessed x qs t → q.rule = accessRule safe →
      (Term.var property).MadeBy (Access.nameIn q.extent q.parts) →
      Accessed x (qs ++ [q]) (.member t safe property)

namespace Accessed

variable {x t : Term} {qs : List Part}

theorem rule (h : Accessed x qs t) : ∀ q ∈ qs, ∃ safe, q.rule = accessRule safe := by
  induction h with
  | nil => exact nofun
  | concat _ hrule _ ih =>
    exact List.forall_mem_append.mpr ⟨ih, List.forall_mem_singleton.mpr ⟨_, hrule⟩⟩

theorem ofParts_eq (h : ∀ q ∈ qs, ∃ safe, q.rule = accessRule safe) :
    Access.ofParts qs = qs.map Access.member := by
  have hone {q : Part} (hq : ∃ safe, q.rule = accessRule safe) : Access.ofPart q = .member q := by
    obtain ⟨safe, hq⟩ := hq
    unfold Access.ofPart
    rw [hq]
    cases safe <;> rfl
  induction qs with
  | nil => rfl
  | cons q qs ih =>
    obtain ⟨hq, hqs⟩ := List.forall_mem_cons.mp h
    cases qs with
    | nil => exact congrArg ([·]) (hone hq)
    | cons r qs =>
      obtain ⟨safe, hr⟩ := hqs r List.mem_cons_self
      have hcall : r.rule ≠ .callArgs := by
        rw [hr]
        cases safe <;> exact nofun
      rw [Access.ofParts, if_neg (by simp [hcall]), hone hq, ih hqs]
      rfl

end Accessed

/-- A term is a value of its own. -/
theorem Term.Is.asValue_eq {t : Term} {n : Node} (h : t.Is n) : asValue n = pure n := by
  cases h with
  | @before f => cases f <;> rfl
  | @between _ _ o => cases o <;> rfl
  | _ => rfl

/-- Accesses are built one after another. -/
theorem Accessed.exists_gives {x t : Term} {qs : List Part} (h : Accessed x qs t) {m : Node}
    (hm : x.Is m) (e : Extent) (file : String) (next : Nat) : ∃ n next',
      ((qs.map Access.member).foldlM (fun n (a : Access) => a.node e n) m).Gives file next n next' ∧
        t.Is n := by
  induction h with
  | nil => exact ⟨m, next, gives_pure.mpr ⟨rfl, rfl⟩, hm⟩
  | @concat qs t q safe property _ hrule hname ih =>
    obtain ⟨n, next₁, hn, ht⟩ := ih
    obtain ⟨name, next₂, hgives, hterm⟩ := hname file next₁
    have howner : Access.owner q n = pure n := by
      rw [Access.owner, if_neg (by rw [hrule]; cases safe <;> exact nofun), ht.asValue_eq]
    have hkind : Access.memberKind q n name = .propertyFetch n name safe := by
      unfold Access.memberKind
      rw [hrule]
      cases safe <;> rfl
    have hmember : ((Access.member q).kind e n).Gives file next₁ (.propertyFetch n name safe)
        next₂ := by
      refine gives_bind.mpr ⟨name, next₂, hgives, ?_⟩
      rw [howner]
      exact gives_bind.mpr ⟨n, next₂, gives_pure.mpr ⟨rfl, rfl⟩, gives_pure.mpr ⟨hkind.symm, rfl⟩⟩
    rw [List.map_append, List.foldlM_append]
    exact ⟨_, _, gives_bind.mpr ⟨n, next₁, hn, gives_bind.mpr ⟨_, _, gives_bind.mpr
      ⟨file, next₁, gives_read.mpr ⟨rfl, rfl⟩, gives_bind.mpr ⟨_, next₂, hmember,
        gives_node.mpr ⟨rfl, rfl⟩⟩⟩, gives_pure.mpr ⟨rfl, rfl⟩⟩⟩, .member ht hterm⟩

/-- **An atom with accesses builds a member of the atom.** -/
theorem Accessed.madeBy_operandNode {x t : Term} {a : Part} {qs : List Part}
    (h : Accessed x qs t) (ha : a.rule ∈ Expected.atom.rules) (hx : x.MadeBy a.value) (e : Extent) :
    t.MadeBy (operandNode e (a :: qs)) := by
  intro file next
  obtain ⟨m, next₁, hm, hterm⟩ := hx file next
  obtain ⟨n, next₂, hn, ht⟩ := h.exists_gives hterm e file next₁
  refine ⟨n, next₂, gives_bind.mpr ⟨m, next₁, ?_, gives_bind.mpr ⟨n, next₂, ?_, ?_⟩⟩, ht⟩
  · show (buildAmong _ _ _).Gives _ _ _ _
    rwa [buildAmong, if_pos ha]
  · rwa [List.tail_cons, Accessed.ofParts_eq h.rule]
  · rw [ht.asValue_eq]
    exact gives_pure.mpr ⟨rfl, rfl⟩

/-! ## Expressions -/

/-- A token and the part that stands for it. -/
structure Reading where
  token : Token
  part : Part
  means : token.Means part

namespace OperatorTree

/-- **A tree of parts builds the term of the tree of their tokens.** -/
theorem madeBy_build {t : OperatorTree Reading} (h : (t.map Reading.token).Proper) :
    (t.map Reading.token).term.MadeBy (t.map Reading.part).build := by
  induction t with
  | leaf a =>
    obtain ⟨token, part, means⟩ := a
    cases h with
    | leaf t =>
      obtain ⟨hrule, hmade⟩ := means
      show t.MadeBy (buildAs .operand part)
      rwa [buildAs, if_pos hrule]
  | before a t ih =>
    obtain ⟨token, part, means⟩ := a
    cases h with
    | before f h => exact (ih h).before means
  | after t a ih =>
    obtain ⟨token, part, means⟩ := a
    cases h with
    | after b h => exact (ih h).after means
  | between l a r ihl ihr =>
    obtain ⟨token, part, means⟩ := a
    cases h with
    | link o hl hr =>
      exact Term.madeBy_both (ihl hl) (ihr hr) fun m n hm hn => Link.exists_gives means hm hn
    | choice yes hl hr =>
      exact Term.madeBy_both (ihl hl) (ihr hr) fun m n hm hn => exists_gives_choice means hm hn

end OperatorTree

/-- **An expression builds the term that its tokens are grouped into.** -/
theorem Phrase.madeBy_expressionNode {p : Phrase} {rs : List Reading}
    (h : rs.map Reading.token = p.tokens) (e : Extent) :
    (regroup p.tokens).MadeBy (expressionNode e (rs.map Reading.part)) := by
  have haffix : (fun q : Part => affixOf q.rule) ∘ Reading.part = Token.affix ∘ Reading.token := by
    funext a
    exact congrArg affixOf a.means.rule
  obtain ⟨t, ht, hproper, -, -⟩ := p.exists_ofTokens?
  have hterm : regroup p.tokens = t.term := by
    rw [regroup, ht]
    rfl
  rw [← h, OperatorTree.ofTokens?_map] at ht
  obtain ⟨u, hu, rfl⟩ := Option.map_eq_some_iff.mp ht
  rw [hterm, expressionNode, OperatorTree.ofTokens?_map, haffix, hu]
  exact OperatorTree.madeBy_build hproper

end ThreeAddress.Syntax

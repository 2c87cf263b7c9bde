import ThreeAddress.Proofs.BuiltStatements
import ThreeAddress.Proofs.Depth
import ThreeAddress.Proofs.Numbering

/-!
# Chains of conditionals

A conditional goes on with further conditions in two ways: with clauses of its own, or with another
conditional in its last clause. Both are built branch by branch, in the same order, and each branch
becomes a conditional in the else branch of the one before it (`Clauses.elseBranch_eq`). So **a
conditional is what its branches are, however they are strung together** (`chains_mean_the_same`).
-/

namespace ThreeAddress

/-! ## Building the same in two places -/

namespace Syntax

/-- Two outcomes are results that are related, or failures. -/
inductive Matched {ε α β : Type} (R : α → β → Prop) : Except ε α → Except ε β → Prop
  | ok {a : α} {b : β} : R a b → Matched R (.ok a) (.ok b)
  | error {e e' : ε} : Matched R (.error e) (.error e')

namespace Build

variable {α β γ δ : Type} {R : α → β → Prop} {S : γ → δ → Prop}

/-- In whatever files and from whatever numbers on, both builds give results that are related, or
both fail. -/
def Alike (R : α → β → Prop) (a : Build α) (b : Build β) : Prop :=
  ∀ file next file' next', Matched R (a.outcome file next).1 (b.outcome file' next').1

namespace Alike

variable {a : Build α} {b : Build β}

theorem pure {x : α} {y : β} (h : R x y) : Alike R (Pure.pure x) (Pure.pure y) :=
  fun _ _ _ _ => .ok h

theorem bind {f : α → Build γ} {g : β → Build δ} (h : Alike R a b)
    (hf : ∀ x y, R x y → Alike S (f x) (g y)) : Alike S (a >>= f) (b >>= g) := by
  intro file next file' next'
  have h := h file next file' next'
  rw [outcome_bind, outcome_bind]
  generalize a.outcome file next = r at h
  generalize b.outcome file' next' = r' at h
  obtain ⟨r, m⟩ := r
  obtain ⟨r', m'⟩ := r'
  cases h with
  | ok h => exact hf _ _ h file m file' m'
  | error => exact .error

theorem map {f : α → γ} {g : β → δ} (h : Alike R a b) (hf : ∀ x y, R x y → S (f x) (g y)) :
    Alike S (f <$> a) (g <$> b) := by
  rw [map_eq_pure_bind, map_eq_pure_bind]
  exact h.bind fun x y hxy => .pure (hf x y hxy)

end Alike

end Build

/-! ## Nodes up to their numbers and places -/

theorem Node.bare_eq (n : Node) : n.bare = ⟨0, n.kind.map Node.bare, none, none⟩ := by
  unfold Node.bare
  rw [Node.fold_eq, Node.foldKind_eq_map]

/-- The statements of a body are those of the bare body. -/
theorem map_bare_bodyOf (n : Node) : (bodyOf n).map Node.bare = bodyOf n.bare := by
  obtain ⟨id, kind, location, span⟩ := n
  rw [Node.bare_eq]
  cases kind with
  | block statements => rfl
  | _ => exact congrArg ([·]) (Node.bare_eq _)

/-- Two nodes are the same up to the numbers and places of all their nodes. -/
def Node.SameAs (m n : Node) : Prop :=
  m.bare = n.bare

/-- Two else branches are the same up to the numbers and places of all their nodes. -/
def SameBranch (x y : Option (List Node)) : Prop :=
  x.map (·.map Node.bare) = y.map (·.map Node.bare)

theorem Node.SameAs.body {m n : Node} (h : m.SameAs n) :
    (bodyOf m).map Node.bare = (bodyOf n).map Node.bare := by
  rw [map_bare_bodyOf, map_bare_bodyOf, h]

theorem Build.alike_nodeAt {k k' : Kind Node} (h : k.map Node.bare = k'.map Node.bare)
    (e e' : Extent) : Alike Node.SameAs (nodeAt e k) (nodeAt e' k') := by
  intro file next file' next'
  refine .ok ?_
  rw [Node.SameAs, Node.bare_eq, Node.bare_eq]
  exact congrArg (Node.mk 0 · none none) h

/-! ## Branches -/

/-- A condition with what is done if it holds, and the stretch of text that its node is made for. -/
structure Branch where
  condition : Part
  body : Part
  extent : Extent

/-- The parts after the first two of a conditional go on with these branches, and then with the
last one if there is one. -/
inductive Clauses : List Part → List Branch → Option Part → Prop
  | none : Clauses [] [] none
  /-- The clause without a condition. -/
  | last {p s : Part} : p.rule = .elseClause → p.parts = [s] → Clauses [p] [] (some s)
  /-- A clause with a condition. -/
  | elseIf {p c s : Part} {ps : List Part} {bs : List Branch} {last : Option Part} :
      p.rule = .elseifClause → p.parts = [c, s] → Clauses ps bs last →
      Clauses (p :: ps) (⟨c, s, p.extent⟩ :: bs) last
  /-- A clause without a condition whose statement is a conditional. -/
  | nested {p q r c s : Part} {ps : List Part} {bs : List Branch} {last : Option Part} :
      p.rule = .elseClause → p.parts = [q] →
      q.rule = .statement → q.parts = [r] → q.value = statementNode q.extent q.parts →
      r.rule = .ifStmt → r.parts = c :: s :: ps → r.value = ifNode r.extent r.parts →
      Clauses ps bs last → Clauses [p] (⟨c, s, r.extent⟩ :: bs) last

/-- The conditional has these branches, and then the last one if there is one. -/
inductive Chain : Part → List Branch → Option Part → Prop
  | intro {p c s : Part} {ps : List Part} {bs : List Branch} {last : Option Part}
      (parts : p.parts = c :: s :: ps) (value : p.value = ifNode p.extent p.parts)
      (clauses : Clauses ps bs last) : Chain p (⟨c, s, p.extent⟩ :: bs) last

open Build

/-- The node of a branch, around the else branch. -/
def Branch.node (b : Branch) (rest : Build (Option (List Node))) : Build Node := do
  let condition ← buildAs .expr b.condition
  let body ← buildAs .statement b.body
  nodeAt b.extent (.ifElse condition (bodyOf body) (← rest))

/-- The else branch that branches and a last one make. -/
def elseOf : List Branch → Option Part → Build (Option (List Node))
  | [], last => Build.option (last.map fun s => bodyOf <$> buildAs .statement s)
  | b :: bs, last => do return some [← b.node (elseOf bs last)]

/-- The else branch that the parts of a conditional after the first two make. -/
def elseBranch (ps : List Part) : Build (Option (List Node)) := do
  let elseIfs ← (ps.filter (·.rule == .elseifClause)).mapM elseIfClause
  let last ← elseBody (ps.find? (·.rule != .elseifClause))
  elseIfs.foldrM nestElse last

theorem ifNode_eq (e : Extent) (c s : Part) (ps : List Part) :
    ifNode e (c :: s :: ps) = Branch.node ⟨c, s, e⟩ (elseBranch ps) := by
  unfold Branch.node elseBranch
  simp only [bind_assoc]
  rfl

/-- The clause without a condition comes after all others. -/
theorem elseBranch_last {p s : Part} (hp : p.rule = .elseClause) (hs : p.parts = [s]) :
    elseBranch [p] = some <$> (bodyOf <$> buildAs .statement s) := by
  have hbody : elseBody (some p) = some <$> (bodyOf <$> buildAs .statement s) := by
    show some <$> (bodyOf <$> buildFirst .statement p.extent p.parts) = _
    rw [hs]
    rfl
  unfold elseBranch
  simp [hp, hbody]

/-- The first clause with a condition is put around the clauses after it. -/
theorem elseBranch_cons {p c s : Part} (hp : p.rule = .elseifClause) (hs : p.parts = [c, s])
    (ps : List Part) : elseBranch (p :: ps) = do
      return some [← Branch.node ⟨c, s, p.extent⟩ (elseBranch ps)] := by
  have hclause : elseIfClause p = do
      let condition ← buildAs .expr c
      let body ← buildAs .statement s
      return ⟨condition, bodyOf body, p.extent⟩ := by
    unfold elseIfClause
    rw [hs]
    rfl
  have hnest (c : ElseIf) :
      nestElse c = fun rest => (some [·]) <$> nodeAt c.extent (.ifElse c.condition c.body rest) :=
    funext fun _ => bind_pure_comp ..
  unfold elseBranch Branch.node
  simp [hp, hclause, hnest]

/-- A conditional is one statement of a body. -/
theorem Branch.bodyOf_node (b : Branch) (rest : Build (Option (List Node))) :
    bodyOf <$> b.node rest = ([·]) <$> b.node rest := by
  have hnode {e : Extent} {c : Node} {s : List Node} {r : Option (List Node)} :
      bodyOf <$> nodeAt e (.ifElse c s r) = ([·]) <$> nodeAt e (.ifElse c s r) :=
    rfl
  unfold Branch.node
  simp only [map_bind, hnode]

/-- **However the branches are strung together, they make the same else branch.** -/
theorem Clauses.elseBranch_eq {ps : List Part} {bs : List Branch} {last : Option Part}
    (h : Clauses ps bs last) : elseBranch ps = elseOf bs last := by
  induction h with
  | none => rfl
  | last hp hs => exact elseBranch_last hp hs
  | elseIf hp hs _ ih => rw [elseBranch_cons hp hs, ih, elseOf]
  | @nested p q r c s ps bs last hp hq hqrule hr hqvalue hrrule hs hrvalue _ ih =>
    have hvalue : buildAs .statement q = Branch.node ⟨c, s, r.extent⟩ (elseOf bs last) := by
      have hmem : Grammar.Rule.ifStmt ∈ Expected.statement.rules := by decide
      rw [buildAs, if_pos hqrule, hqvalue, hr]
      show (if r.rule = .block then blockNode q.extent r
        else buildAmong .statement r.extent r) = _
      rw [hrrule, if_neg nofun, buildAmong, hrrule, if_pos hmem, hrvalue, hs, ifNode_eq, ih]
    rw [elseBranch_last hp hq, hvalue, Branch.bodyOf_node, elseOf]
    simp

/-! ## The same branches -/

/-- The parts stand for the same node, up to numbers and places, and each makes it for the role. -/
structure SamePart (r : Grammar.Rule) (role : Lowering.Role) (p p' : Part) : Prop where
  rule : p.rule = r ∧ p'.rule = r
  makes : Makes p.value role ∧ Makes p'.value role
  alike : Alike Node.SameAs p.value p'.value

/-- The conditions are the same, and so is what is done if they hold. -/
structure Branch.Same (b b' : Branch) : Prop where
  condition : SamePart .expr .value b.condition b'.condition
  body : SamePart .statement .statement b.body b'.body

theorem SamePart.symm {r : Grammar.Rule} {role : Lowering.Role} {p p' : Part}
    (h : SamePart r role p p') : SamePart r role p' p := by
  refine ⟨h.rule.symm, h.makes.symm, fun file next file' next' => ?_⟩
  have halike := h.alike file' next' file next
  generalize (p.value.outcome file' next').1 = x at halike
  generalize (p'.value.outcome file next).1 = y at halike
  cases halike with
  | ok h => exact .ok h.symm
  | error => exact .error

theorem Branch.Same.symm {b b' : Branch} (h : b.Same b') : b'.Same b :=
  ⟨h.condition.symm, h.body.symm⟩

section

variable {r : Grammar.Rule} {role : Lowering.Role} {p p' : Part} {b b' : Branch}
variable {rest rest' : Build (Option (List Node))} {bs bs' : List Branch} {last last' : Option Part}

theorem SamePart.alike_buildAs (h : SamePart r role p p') :
    Alike Node.SameAs (buildAs r p) (buildAs r p') := by
  rw [buildAs, buildAs, if_pos h.rule.1, if_pos h.rule.2]
  exact h.alike

theorem SamePart.makes_buildAs (h : SamePart r role p p') : Makes (buildAs r p) role := by
  rw [buildAs, if_pos h.rule.1]
  exact h.makes.1

theorem Branch.Same.alike_node (h : b.Same b') (hrest : Alike SameBranch rest rest') :
    Alike Node.SameAs (b.node rest) (b'.node rest') := by
  refine h.condition.alike_buildAs.bind fun c c' hc => h.body.alike_buildAs.bind fun s s' hs =>
    hrest.bind fun x x' hx => alike_nodeAt ?_ _ _
  have hc : c.bare = c'.bare := hc
  have hs := hs.body
  have hx : x.map (·.map Node.bare) = x'.map (·.map Node.bare) := hx
  show Kind.ifElse c.bare ((bodyOf s).map Node.bare) (x.map (·.map Node.bare)) = _
  rw [hc, hs, hx]
  rfl

/-- The same branches make the same else branch. -/
theorem alike_elseOf (hbs : List.Forall₂ Branch.Same bs bs')
    (hlast : Option.Rel (SamePart .statement .statement) last last') :
    Alike SameBranch (elseOf bs last) (elseOf bs' last') := by
  induction hbs with
  | nil =>
    cases hlast with
    | none => exact .pure rfl
    | some h =>
      refine (h.alike_buildAs.map (S := fun x y => x.map Node.bare = y.map Node.bare)
        fun x y hxy => hxy.body).map fun x y hxy => ?_
      exact congrArg some hxy
  | cons h _ ih =>
    refine (h.alike_node ih).bind fun x y hxy => .pure ?_
    exact congrArg (fun n => some [n]) hxy

/-! ## Listings -/

open Lowering (placed slots)

theorem Branch.Same.makes_node (h : b.Same b') (hrest : After [] rest bodyStock) :
    Makes (b.node rest) .statement :=
  .step h.condition.makes_buildAs fun _ => .step h.body.makes_buildAs.body fun _ =>
    .step hrest fun _ => .nodeAt rfl (.of_eq (by
      simp [placed, slots, Field.children, bodyStock]))

theorem after_elseOf (hbs : List.Forall₂ Branch.Same bs bs')
    (hlast : Option.Rel (SamePart .statement .statement) last last') :
    After [] (elseOf bs last) bodyStock := by
  induction hbs with
  | nil =>
    cases hlast with
    | none => exact .pure (.refl _)
    | some h =>
      exact after_optionBody fun b hb => Option.some.inj hb ▸
        .map h.makes_buildAs.body fun n => .refl _
  | cons h _ ih => exact .bind (h.makes_node ih) fun n => .pure (.refl _)

end

end Syntax

namespace Lowering

open Syntax

/-- Meaningful nodes that are the same up to numbers and places have the same listing. -/
theorem listing_eq_of_bare_eq {m n : Node} (h : m.SameAs n) (hm : Meaningful .statement m)
    (hmids : m.ids.Nodup) (hnids : n.ids.Nodup) {o : Options}
    (ho : height m .statement ≤ o.maxDepth) : ∃ l, listing m o = .ok l ∧ listing n o = .ok l := by
  obtain ⟨l, hl⟩ := (lowers_iff_height_le hm hmids).mpr ho
  have hsame := listingUnder_eq (v := ⟨false, false⟩) (m := m) (n := n) h o
  have hunder {k : Node} (hk : k.ids.Nodup) : listingUnder ⟨false, false⟩ k o = listing k o :=
    (listing_eq_unguardedListing hk).symm
  rw [hunder hmids, hunder hnids, hl] at hsame
  cases hn : listing n o with
  | ok l' =>
    rw [hn] at hsame
    exact ⟨l, hl, hsame.symm⟩
  | error e =>
    rw [hn] at hsame
    cases hsame

/-- **A conditional is what its branches are.** Two conditionals go on with clauses of their own, with
conditionals in their last clauses, or with both. If they have the same branches, building them gives
nodes that are the same up to numbers and places, or fails both times; and where there is room for
the height of the one, both have the same listing. -/
theorem chains_mean_the_same {p p' : Syntax.Part} {bs bs' : List Branch}
    {last last' : Option Syntax.Part}
    (hp : Chain p bs last) (hp' : Chain p' bs' last') (hbs : List.Forall₂ Branch.Same bs bs')
    (hlast : Option.Rel (SamePart .statement .statement) last last') :
    Build.Alike (fun n n' => n.SameAs n' ∧ ∀ o : Options, height n .statement ≤ o.maxDepth →
      ∃ l, listing n o = .ok l ∧ listing n' o = .ok l) p.value p'.value := by
  cases hp with | intro hparts hvalue hclauses =>
  cases hp' with | intro hparts' hvalue' hclauses' =>
  obtain ⟨hfirst, hbs⟩ := List.forall₂_cons.mp hbs
  have hlast' : Option.Rel (SamePart .statement .statement) last' last := by
    cases hlast with
    | none => exact .none
    | some h => exact .some h.symm
  rw [hvalue, hparts, ifNode_eq, hclauses.elseBranch_eq, hvalue', hparts', ifNode_eq,
    hclauses'.elseBranch_eq]
  have halike := hfirst.alike_node (alike_elseOf hbs hlast)
  have hmakes := hfirst.makes_node (after_elseOf hbs hlast)
  have hmakes' := hfirst.symm.makes_node
    (after_elseOf (.flip (hbs.imp fun _ _ h => h.symm)) hlast')
  intro file next file' next'
  have halike := halike file next file' next'
  have hkeeps := hmakes file next next (.nil next)
  have hkeeps' := hmakes' file' next' next' (.nil next')
  generalize (Branch.node _ _).outcome file next = x at halike hkeeps
  generalize (Branch.node _ _).outcome file' next' = x' at halike hkeeps'
  obtain ⟨x, m⟩ := x
  obtain ⟨x', m'⟩ := x'
  cases halike with
  | error => exact .error
  | ok h =>
    have hids {n : Node} {start next : Nat} (h : Stock.Keeps [(.statement, n)] start next) :
        n.ids.Nodup := by
      simpa [Stock.ids_singleton] using h.nodup
    exact .ok ⟨h, fun o ho => listing_eq_of_bare_eq h (hkeeps.meaningful _ List.mem_cons_self)
      (hids hkeeps) (hids hkeeps') ho⟩

/-- A part with other parts in it. -/
def partWith (r : Grammar.Rule) (e : Extent) (ps : List Syntax.Part) : Syntax.Part :=
  ⟨r, e, buildRule r e ps, ps⟩

/-- The condition that is a variable. -/
def variableCondition (e : Extent) (x : String) : Syntax.Part :=
  ⟨.expr, e, Build.nodeAt e (.var x), []⟩

/-- The statement that does nothing. -/
def idleStatement (e : Extent) : Syntax.Part :=
  ⟨.statement, e, Build.nodeAt e .nop, []⟩

/-- `if ($a) ; elseif ($b) ; else ;` -/
def clauseChain (e : Extent) : Syntax.Part :=
  partWith .ifStmt e [variableCondition e "a", idleStatement e,
    partWith .elseifClause e [variableCondition e "b", idleStatement e],
    partWith .elseClause e [idleStatement e]]

/-- `if ($b) ; else ;` -/
def innerChain (e : Extent) : Syntax.Part :=
  partWith .ifStmt e
    [variableCondition e "b", idleStatement e, partWith .elseClause e [idleStatement e]]

/-- `else if ($b) ; else ;` -/
def nestedClause (e : Extent) : Syntax.Part :=
  partWith .elseClause e [partWith .statement e [innerChain e]]

/-- `if ($a) ; else if ($b) ; else ;` -/
def nestedChain (e : Extent) : Syntax.Part :=
  partWith .ifStmt e [variableCondition e "a", idleStatement e, nestedClause e]

/-- The branches of both. -/
def twoBranches (e : Extent) : List Branch :=
  [⟨variableCondition e "a", idleStatement e, e⟩, ⟨variableCondition e "b", idleStatement e, e⟩]

/-- The beginning of a text. -/
def startOf (text : String) : Extent :=
  ⟨.ofText text, .ofText text⟩

theorem clauseChain_means_nestedChain :
    Chain (clauseChain (startOf "x")) (twoBranches (startOf "x")) (idleStatement (startOf "x")) ∧
    Chain (nestedChain (startOf "yy")) (twoBranches (startOf "yy")) (idleStatement (startOf "yy")) ∧
    List.Forall₂ Branch.Same (twoBranches (startOf "x")) (twoBranches (startOf "yy")) ∧
    Option.Rel (SamePart .statement .statement) (idleStatement (startOf "x"))
      (idleStatement (startOf "yy")) ∧
    Build.Alike (fun n n' => n.SameAs n' ∧ ∀ o : Options, height n .statement ≤ o.maxDepth →
      ∃ l, listing n o = .ok l ∧ listing n' o = .ok l) (clauseChain (startOf "x")).value
        (nestedChain (startOf "yy")).value := by
  have hcondition {e e' : Extent} (x : String) :
      SamePart .expr .value (variableCondition e x) (variableCondition e' x) :=
    ⟨⟨rfl, rfl⟩, ⟨.nodeAt rfl (.of_eq rfl), .nodeAt rfl (.of_eq rfl)⟩, Build.alike_nodeAt rfl _ _⟩
  have hbody {e e' : Extent} :
      SamePart .statement .statement (idleStatement e) (idleStatement e') :=
    ⟨⟨rfl, rfl⟩, ⟨.nodeAt rfl (.of_eq rfl), .nodeAt rfl (.of_eq rfl)⟩, Build.alike_nodeAt rfl _ _⟩
  have hchain (e : Extent) : Chain (clauseChain e) (twoBranches e) (idleStatement e) :=
    .intro rfl rfl (.elseIf rfl rfl (.last rfl rfl))
  have hnested (e : Extent) : Clauses [nestedClause e]
      [⟨variableCondition e "b", idleStatement e, e⟩] (idleStatement e) :=
    .nested (r := innerChain e) rfl rfl rfl rfl rfl rfl rfl rfl (.last rfl rfl)
  have hchain' (e : Extent) : Chain (nestedChain e) (twoBranches e) (idleStatement e) :=
    .intro rfl rfl (hnested e)
  have hbranches (e e' : Extent) : List.Forall₂ Branch.Same (twoBranches e) (twoBranches e') :=
    .cons ⟨hcondition "a", hbody⟩ (.cons ⟨hcondition "b", hbody⟩ .nil)
  exact ⟨hchain _, hchain' _, hbranches _ _, .some hbody,
    chains_mean_the_same (hchain _) (hchain' _) (hbranches _ _) (.some hbody)⟩

end Lowering

end ThreeAddress

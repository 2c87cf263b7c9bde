import Mathlib.Algebra.GroupWithZero.Nat
import ThreeAddress.Proofs.Building
import ThreeAddress.Proofs.Grouping
import ThreeAddress.Proofs.Terms

/-!
# Phrases as runs of tokens

The reader of expressions sees the tokens of a phrase and none of its structure, except for what
stands in parentheses or between the two signs of a conditional. So it may find another term than
the one that was written (`Phrase.tokens`, `regroup`). **It finds the same term if and only if every
operator of the phrase is where the table of powers expects it** (`Phrase.regroup_eq_term_iff`).

That a phrase of another shape cannot give the same term by chance follows from weights: each token
has one, and the weight of a term is the sum of those of its tokens, however they are grouped. So
the tokens that make up an operand are found by counting.
-/

namespace ThreeAddress.Syntax

open Grammar (Rule)

/-! ## Operators in the table of powers -/

/-- The rule that reads the operator. -/
def BinaryOperator.rule : BinaryOperator → Rule
  | .add | .sub => .opAdditive
  | .mul | .div | .mod => .opMultiplicative
  | .pow => .opPow
  | .concat => .opConcat
  | .shiftLeft | .shiftRight => .opShift
  | .bitAnd => .opBitAnd
  | .bitOr => .opBitOr
  | .bitXor => .opBitXor
  | .booleanAnd => .opBoolAnd
  | .booleanOr => .opBoolOr
  | .logicalAnd => .opAndKw
  | .logicalOr => .opOrKw
  | .logicalXor => .opXorKw
  | .eq | .ne | .identical | .notIdentical | .spaceship => .opEquality
  | .lt | .le | .gt | .ge => .opCompare
  | .coalesce => .opCoalesce

namespace BinaryOperator

/-- The power that belongs to a precedence. -/
def powerOf (precedence : Nat) : Nat :=
  if precedence ≤ 3 then 10 * precedence
  else if precedence ≤ 18 then 10 * (precedence + 3)
  else 10 * (precedence + 5)

/-- The power with which the operator takes its left operand. -/
def power (op : BinaryOperator) : Nat :=
  powerOf op.precedence

/-- **The table of powers is the table of precedences.** -/
theorem affixOf_rule (op : BinaryOperator) :
    affixOf op.rule = .between op.power op.groupsRight := by
  cases op <;> rfl

end BinaryOperator

/-- The rule that reads the operator. -/
def Front.rule : Front → Rule
  | .plus => .opPos
  | .minus => .opNeg
  | .not => .opNot
  | .bitNot => .opBitNot
  | .silence => .opSilence
  | .preInc => .preInc
  | .preDec => .preDec
  | .clone => .opClone
  | .cast _ => .cast

/-- The rule that reads the operator. -/
def Back.rule : Back → Rule
  | .postInc => .postInc
  | .postDec => .postDec
  | .isA _ => .instanceofOp

/-- The rule that reads the operator. -/
def Link.rule : Link → Rule
  | .op o => o.rule
  | .assign => .opAssign
  | .fallback => .opTernary

/-- An operator after the operand has to have a higher power to get it. -/
def Front.hold (f : Front) : Nat :=
  (affixOf f.rule).hold

/-- The power with which the operator takes its operand. -/
def Back.power (b : Back) : Nat :=
  (affixOf b.rule).pull

/-- The power with which the operator takes its left operand. -/
def Link.power (o : Link) : Nat :=
  (affixOf o.rule).pull

/-- An operator after the right operand has to have a higher power to get it. -/
def Link.hold (o : Link) : Nat :=
  (affixOf o.rule).hold

/-! ## Tokens -/

/-- A token of an expression, with what it was read as. -/
inductive Token where
  | operand (t : Term)
  | front (f : Front)
  | back (b : Back)
  | link (o : Link)
  /-- A conditional up to its second sign. -/
  | choice (yes : Term)
deriving DecidableEq, Repr

namespace Token

/-- The rule that reads the token. -/
def rule : Token → Rule
  | .operand _ => .operand
  | .front f => f.rule
  | .back b => b.rule
  | .link o => o.rule
  | .choice _ => .opTernary

/-- The role and the power of the token in a run. -/
def affix (a : Token) : Affix :=
  affixOf a.rule

theorem affix_front (f : Front) : ∃ power, affix (.front f) = .before power := by
  cases f <;> exact ⟨_, rfl⟩

theorem affix_back (b : Back) : ∃ power, affix (.back b) = .after power := by
  cases b <;> exact ⟨_, rfl⟩

theorem affix_link (o : Link) : ∃ power right, affix (.link o) = .between power right := by
  cases o with
  | op o => exact ⟨_, _, o.affixOf_rule⟩
  | _ => exact ⟨_, _, rfl⟩

theorem affix_positive (a : Token) : a.affix.Positive := by
  cases a with
  | operand t => trivial
  | front f => cases f <;> trivial
  | back b => cases b <;> exact Nat.zero_lt_succ _
  | link o =>
    cases o with
    | op o => cases o <;> exact Nat.zero_lt_succ _
    | _ => exact Nat.zero_lt_succ _
  | choice yes => exact Nat.zero_lt_succ _

end Token

namespace OperatorTree

/-- Every token of the tree stands in its place. -/
inductive Proper : OperatorTree Token → Prop
  | leaf (t : Term) : Proper (.leaf (.operand t))
  | before (f : Front) {x : OperatorTree Token} : Proper x → Proper (.before (.front f) x)
  | after {x : OperatorTree Token} (b : Back) : Proper x → Proper (.after x (.back b))
  | link {l r : OperatorTree Token} (o : Link) : Proper l → Proper r →
      Proper (.between l (.link o) r)
  | choice {l r : OperatorTree Token} (yes : Term) : Proper l → Proper r →
      Proper (.between l (.choice yes) r)

/-- A token stands in its place if its affix says so. -/
theorem Uses.proper {P : Token → Prop} {t : OperatorTree Token} (h : t.Uses Token.affix P) :
    t.Proper := by
  induction t with
  | leaf a =>
    obtain ⟨ha, -⟩ := h
    cases a with
    | operand t => exact .leaf t
    | front f => obtain ⟨_, hf⟩ := Token.affix_front f; cases hf.symm.trans ha
    | back b => obtain ⟨_, hb⟩ := Token.affix_back b; cases hb.symm.trans ha
    | link o => obtain ⟨_, _, ho⟩ := Token.affix_link o; cases ho.symm.trans ha
    | choice yes => cases ha
  | before a x ih =>
    obtain ⟨⟨⟨_, ha⟩, -⟩, hx⟩ := h
    cases a with
    | operand t => cases ha
    | front f => exact .before f (ih hx)
    | back b => obtain ⟨_, hb⟩ := Token.affix_back b; cases hb.symm.trans ha
    | link o => obtain ⟨_, _, ho⟩ := Token.affix_link o; cases ho.symm.trans ha
    | choice yes => cases ha
  | after x a ih =>
    obtain ⟨hx, ⟨_, ha⟩, -⟩ := h
    cases a with
    | operand t => cases ha
    | front f => obtain ⟨_, hf⟩ := Token.affix_front f; cases hf.symm.trans ha
    | back b => exact .after b (ih hx)
    | link o => obtain ⟨_, _, ho⟩ := Token.affix_link o; cases ho.symm.trans ha
    | choice yes => cases ha
  | between l a r ihl ihr =>
    obtain ⟨hl, ⟨⟨_, _, ha⟩, -⟩, hr⟩ := h
    cases a with
    | operand t => cases ha
    | front f => obtain ⟨_, hf⟩ := Token.affix_front f; cases hf.symm.trans ha
    | back b => obtain ⟨_, hb⟩ := Token.affix_back b; cases hb.symm.trans ha
    | link o => exact .link o (ihl hl) (ihr hr)
    | choice yes => exact .choice yes (ihl hl) (ihr hr)

/-- The term of a tree of tokens. -/
def term : OperatorTree Token → Term
  | .leaf (.operand t) => t
  | .before (.front f) x => .before f x.term
  | .after x (.back b) => .after x.term b
  | .between l (.link o) r => .between l.term o r.term
  | .between l (.choice yes) r => .choice l.term yes r.term
  -- in a proper tree there is nothing else
  | _ => .var ""

end OperatorTree

/-! ## Weights -/

/-- A weight that a member has most of from its object. -/
def Term.weight : Term → Nat
  | .var _ => 1
  | .member x _ _ => 2 * x.weight + 1
  | .before _ x | .after x _ => x.weight + 1
  | .between l _ r => l.weight + r.weight + 1
  | .choice c y n => c.weight + y.weight + n.weight + 1

/-- What the token adds to the weight of a term. -/
def Token.weight : Token → Nat
  | .operand t => t.weight
  | .choice yes => yes.weight + 1
  | _ => 1

theorem Term.weight_pos (t : Term) : 0 < t.weight := by
  cases t <;> exact Nat.succ_pos _

theorem Token.weight_pos (a : Token) : 0 < a.weight := by
  cases a with
  | operand t => exact t.weight_pos
  | _ => exact Nat.succ_pos _

namespace OperatorTree

/-- The weights of the tokens of a tree. -/
def weights (t : OperatorTree Token) : List Nat :=
  t.tokens.map Token.weight

section

variable {l r l' r' x t u : OperatorTree Token} {a a' : Token}

@[simp] theorem weights_leaf : (leaf a).weights = [a.weight] :=
  rfl

@[simp] theorem weights_before : (before a x).weights = a.weight :: x.weights :=
  rfl

@[simp] theorem weights_after : (after x a).weights = x.weights ++ [a.weight] := by
  simp [weights, tokens]

@[simp] theorem weights_between :
    (between l a r).weights = l.weights ++ a.weight :: r.weights := by
  simp [weights, tokens]

theorem weights_ne_nil (t : OperatorTree Token) : t.weights ≠ [] := by
  cases t <;> simp

theorem weights_pos (t : OperatorTree Token) : ∀ x ∈ t.weights, 0 < x := by
  intro x hx
  obtain ⟨a, -, rfl⟩ := List.mem_map.mp hx
  exact a.weight_pos

/-- **The weight of a term is the sum of the weights of its tokens.** -/
theorem Proper.weight_term (h : t.Proper) : t.term.weight = t.weights.sum := by
  induction h with
  | leaf t => simp [term, Token.weight]
  | before f _ ih => simp [term, Token.weight, Term.weight, ih]; omega
  | after b _ ih => simp [term, Token.weight, Term.weight, ih]
  | link o _ _ hl hr => simp [term, Token.weight, Term.weight, hl, hr]; omega
  | choice yes _ _ hl hr => simp [term, Token.weight, Term.weight, hl, hr]; omega

/-- Two beginnings of a list of positive numbers with the same sum have the same length. -/
theorem length_eq_of_sum_eq {xs xs' ys ys' : List Nat} (h : xs ++ ys = xs' ++ ys')
    (hsum : xs.sum = xs'.sum) (hpos : ∀ x ∈ xs ++ ys, 0 < x) : xs.length = xs'.length := by
  induction xs generalizing xs' with
  | nil =>
    cases xs' with
    | nil => rfl
    | cons x xs' =>
      have hx := hpos x (by rw [h]; simp)
      rw [List.sum_nil, List.sum_cons] at hsum
      omega
  | cons x xs ih =>
    cases xs' with
    | nil =>
      have hx := hpos x (by simp)
      rw [List.sum_nil, List.sum_cons] at hsum
      omega
    | cons x' xs' =>
      rw [List.cons_append, List.cons_append, List.cons.injEq] at h
      obtain ⟨rfl, h⟩ := h
      rw [List.sum_cons, List.sum_cons] at hsum
      have hlength := ih h (by omega) fun y hy => hpos y (List.mem_cons_of_mem x hy)
      rw [List.length_cons, List.length_cons, hlength]

/-- Trees of the same weights around an operator, with left sides of the same term, are parted at
the same place. -/
theorem weights_parted (hl : l.Proper) (hl' : l'.Proper) (hterm : l.term = l'.term)
    (h : (between l a r).weights = (between l' a' r').weights) :
    l.weights = l'.weights ∧ r.weights = r'.weights := by
  have hpos := weights_pos (between l a r)
  rw [weights_between] at h hpos
  rw [weights_between] at h
  have hsum : l.weights.sum = l'.weights.sum := by
    rw [← hl.weight_term, ← hl'.weight_term, hterm]
  obtain ⟨hleft, hright⟩ := List.append_inj h (length_eq_of_sum_eq h hsum hpos)
  exact ⟨hleft, (List.cons.inj hright).2⟩

theorem Proper.eq_leaf (h : t.Proper) {w : Nat} (hw : t.weights = [w]) :
    ∃ u, t = .leaf (.operand u) := by
  have hlength := congrArg List.length hw
  cases h with
  | leaf u => exact ⟨u, rfl⟩
  | @before f x | @after x b =>
    have := List.length_pos_of_ne_nil x.weights_ne_nil
    simp only [weights_before, weights_after, List.length_append, List.length_cons,
      List.length_nil] at hlength
    omega
  | @link l r | @choice l r =>
    have := List.length_pos_of_ne_nil l.weights_ne_nil
    simp only [weights_between, List.length_append, List.length_cons, List.length_nil] at hlength
    omega

/-- **A term has one tree over tokens of given weights.** -/
theorem Proper.eq_of_term_eq (ht : t.Proper) (hu : u.Proper) (hweights : t.weights = u.weights)
    (hterm : t.term = u.term) : t = u := by
  -- a single token is an operand; else the outermost operators have the same place
  induction ht generalizing u with
  | leaf t =>
    obtain ⟨u, rfl⟩ := hu.eq_leaf hweights.symm
    exact congrArg (fun t => OperatorTree.leaf (Token.operand t)) hterm
  | before f ht ih =>
    cases hu with
    | leaf u =>
      obtain ⟨t, ht⟩ := (Proper.before f ht).eq_leaf hweights
      cases ht
    | before g hu =>
      obtain ⟨rfl, hx⟩ := Term.before.inj hterm
      rw [ih hu (List.cons.inj hweights).2 hx]
    | _ => cases hterm
  | after b ht ih =>
    cases hu with
    | leaf u =>
      obtain ⟨t, ht⟩ := (Proper.after b ht).eq_leaf hweights
      cases ht
    | after c hu =>
      obtain ⟨hx, rfl⟩ := Term.after.inj hterm
      rw [weights_after, weights_after] at hweights
      rw [ih hu (List.append_inj_left' hweights rfl) hx]
    | _ => cases hterm
  | link o hl hr ihl ihr =>
    cases hu with
    | leaf u =>
      obtain ⟨t, ht⟩ := (Proper.link o hl hr).eq_leaf hweights
      cases ht
    | link o' hl' hr' =>
      obtain ⟨hleft, rfl, hright⟩ := Term.between.inj hterm
      obtain ⟨hl₂, hr₂⟩ := weights_parted hl hl' hleft hweights
      rw [ihl hl' hl₂ hleft, ihr hr' hr₂ hright]
    | _ => cases hterm
  | choice yes hl hr ihl ihr =>
    cases hu with
    | leaf u =>
      obtain ⟨t, ht⟩ := (Proper.choice yes hl hr).eq_leaf hweights
      cases ht
    | choice yes' hl' hr' =>
      obtain ⟨hleft, rfl, hright⟩ := Term.choice.inj hterm
      obtain ⟨hl₂, hr₂⟩ := weights_parted hl hl' hleft hweights
      rw [ihl hl' hl₂ hleft, ihr hr' hr₂ hright]
    | _ => cases hterm

end

end OperatorTree

/-! ## What is read -/

/-- The term that a run of tokens is grouped into. -/
def regroup (as : List Token) : Term :=
  ((OperatorTree.ofTokens? Token.affix as).map OperatorTree.term).getD (.var "")

namespace Phrase

/-- The tokens of a phrase, as they are read. What stands in parentheses is one operand. -/
def tokens : Phrase → List Token
  | .var x => [.operand (.var x)]
  | .group p => [.operand (regroup p.tokens)]
  | .member p safe property => [.operand (.member (regroup p.tokens) safe property)]
  | .before f p => .front f :: p.tokens
  | .after p b => p.tokens ++ [.back b]
  | .between l o r => l.tokens ++ .link o :: r.tokens
  | .choice c y n => c.tokens ++ .choice (regroup y.tokens) :: n.tokens

/-- The tokens of a phrase, grouped as they were meant. -/
def tree : Phrase → OperatorTree Token
  | .var x => .leaf (.operand (.var x))
  | .group p => .leaf (.operand p.term)
  | .member p safe property => .leaf (.operand (.member p.term safe property))
  | .before f p => .before (.front f) p.tree
  | .after p b => .after p.tree (.back b)
  | .between l o r => .between l.tree (.link o) r.tree
  | .choice c y n => .between c.tree (.choice y.term) n.tree

theorem proper_tree (p : Phrase) : p.tree.Proper := by
  induction p with
  | var x => exact .leaf _
  | group p => exact .leaf _
  | member p safe property => exact .leaf _
  | before f p ih => exact .before f ih
  | after p b ih => exact .after b ih
  | between l o r hl hr => exact .link o hl hr
  | choice c y n hc _ hn => exact .choice y.term hc hn

theorem term_tree (p : Phrase) : p.tree.term = p.term := by
  induction p with
  | var x => rfl
  | group p => rfl
  | member p safe property => rfl
  | before f p ih => exact congrArg (Term.before f) ih
  | after p b ih => exact congrArg (Term.after · b) ih
  | between l o r hl hr => exact congrArg₂ (Term.between · o ·) hl hr
  | choice c y n hc _ hn => exact congrArg₂ (Term.choice · y.term ·) hc hn

/-- Operands and operators alternate in a phrase. -/
theorem alternates (p : Phrase) {as : List Token}
    (has : OperatorTree.Alternates Token.affix true as) :
    OperatorTree.Alternates Token.affix false (p.tokens ++ as) := by
  induction p generalizing as with
  | var x => exact .operand rfl has
  | group p => exact .operand rfl has
  | member p safe property => exact .operand rfl has
  | before f p ih =>
    obtain ⟨_, hf⟩ := Token.affix_front f
    exact .before hf (ih has)
  | after p b ih =>
    obtain ⟨_, hb⟩ := Token.affix_back b
    rw [tokens, List.append_assoc]
    exact ih (.after hb has)
  | between l o r hl hr =>
    obtain ⟨_, _, ho⟩ := Token.affix_link o
    rw [tokens, List.append_assoc]
    exact hl (.between ho (hr has))
  | choice c y n hc _ hn =>
    rw [tokens, List.append_assoc]
    exact hc (.between rfl (hn has))

/-- A phrase is read as some term. -/
theorem exists_ofTokens? (p : Phrase) : ∃ t, OperatorTree.ofTokens? Token.affix p.tokens = some t ∧
    t.Proper ∧ t.Fits Token.affix 0 ∧ t.tokens = p.tokens := by
  have halternates := p.alternates .done
  rw [List.append_nil] at halternates
  obtain ⟨t, ht, huses⟩ := OperatorTree.ofTokens?_uses halternates (P := fun _ => True)
    fun _ _ => trivial
  obtain ⟨hfits, htokens⟩ := OperatorTree.fits_of_ofTokens? Token.affix_positive ht
  exact ⟨t, ht, huses.proper, hfits, htokens⟩

/-- The weight of what is read is the sum of the weights of the tokens. -/
theorem weight_regroup_eq_sum (p : Phrase) :
    (regroup p.tokens).weight = (p.tokens.map Token.weight).sum := by
  obtain ⟨t, ht, hproper, -, htokens⟩ := p.exists_ofTokens?
  rw [regroup, ht, Option.map_some, Option.getD_some, hproper.weight_term, OperatorTree.weights,
    htokens]

theorem weight_term_eq_sum (p : Phrase) : p.term.weight = p.tree.weights.sum := by
  rw [← p.proper_tree.weight_term, p.term_tree]

/-- Whatever is read has the weight of what was meant, token by token. -/
theorem weights_tokens (p : Phrase) : p.tokens.map Token.weight = p.tree.weights := by
  have hregroup {p : Phrase} (h : p.tokens.map Token.weight = p.tree.weights) :
      (regroup p.tokens).weight = p.term.weight := by
    rw [weight_regroup_eq_sum, weight_term_eq_sum, h]
  induction p with
  | var x => rfl
  | group p ih => exact congrArg ([·]) (hregroup ih)
  | member p safe property ih => exact congrArg (fun w => [2 * w + 1]) (hregroup ih)
  | before f p ih => exact congrArg (1 :: ·) ih
  | after p b ih =>
    rw [tokens, tree, OperatorTree.weights_after, List.map_append, ih]
    rfl
  | between l o r hl hr =>
    rw [tokens, tree, OperatorTree.weights_between, List.map_append, List.map_cons, hl, hr]
  | choice c y n hc hy hn =>
    rw [tokens, tree, OperatorTree.weights_between, List.map_append, List.map_cons, hc, hn]
    show _ ++ ((regroup y.tokens).weight + 1) :: _ = _
    rw [hregroup hy]
    rfl

/-- A phrase is read as what another phrase means, with tokens of the same weights, only if its
tokens are those of the other phrase, and are grouped so. -/
theorem fits_of_regroup_eq {p q : Phrase} (h : regroup q.tokens = p.term)
    (hweights : q.tokens.map Token.weight = p.tree.weights) :
    p.tree.Fits Token.affix 0 ∧ q.tokens = p.tree.tokens := by
  obtain ⟨t, ht, hproper, hfits, htokens⟩ := q.exists_ofTokens?
  rw [regroup, ht, Option.map_some, Option.getD_some, ← p.term_tree] at h
  rw [← htokens] at hweights
  obtain rfl := hproper.eq_of_term_eq p.proper_tree hweights h
  exact ⟨hfits, htokens.symm⟩

/-- A phrase is read as it was meant if its tokens are, and are grouped so. -/
theorem regroup_eq_term_iff_fits (p : Phrase) : regroup p.tokens = p.term ↔
    p.tree.Fits Token.affix 0 ∧ p.tokens = p.tree.tokens := by
  constructor
  · exact fun h => fits_of_regroup_eq h p.weights_tokens
  · rintro ⟨hfits, htokens⟩
    rw [regroup, htokens, OperatorTree.ofTokens?_tokens hfits, Option.map_some, Option.getD_some,
      p.term_tree]

/-! ## The criterion -/

/-- An operator of the given power, after the phrase, takes all of it. -/
def YieldsTo (power : Nat) : Phrase → Prop
  | .before f p => power ≤ f.hold ∧ p.YieldsTo power
  | .between _ o r => power ≤ o.hold ∧ r.YieldsTo power
  | .choice _ _ n => power ≤ Link.fallback.hold ∧ n.YieldsTo power
  | _ => True

/-- Every operator of the phrase gets the operands that it was written for, where an operator that
holds its operand with the power `w` stands before the phrase: no operator takes an operand from
one that holds it, and none leaves an operand to the operators after it. -/
def Kept (w : Nat) : Phrase → Prop
  | .var _ => True
  | .group p | .member p _ _ => p.Kept 0
  | .before f p => p.Kept f.hold
  | .after p b => w < b.power ∧ p.Kept w ∧ p.YieldsTo b.power
  | .between l o r => w < o.power ∧ l.Kept w ∧ l.YieldsTo o.power ∧ r.Kept o.hold
  | .choice c y n =>
    w < Link.fallback.power ∧ c.Kept w ∧ c.YieldsTo Link.fallback.power ∧ y.Kept 0 ∧
      n.Kept Link.fallback.hold

instance decidableYieldsTo (power : Nat) : (p : Phrase) → Decidable (p.YieldsTo power)
  | .var _ | .group _ | .member _ _ _ | .after _ _ => .isTrue trivial
  | .before _ p => @instDecidableAnd _ _ _ (decidableYieldsTo power p)
  | .between _ _ r => @instDecidableAnd _ _ _ (decidableYieldsTo power r)
  | .choice _ _ n => @instDecidableAnd _ _ _ (decidableYieldsTo power n)

instance decidableKept (w : Nat) : (p : Phrase) → Decidable (p.Kept w)
  | .var _ => .isTrue trivial
  | .group p | .member p _ _ => decidableKept 0 p
  | .before f p => decidableKept f.hold p
  | .after p _ =>
    have := decidableKept w p
    inferInstanceAs (Decidable (_ ∧ _ ∧ _))
  | .between l o r =>
    have := decidableKept w l
    have := decidableKept o.hold r
    inferInstanceAs (Decidable (_ ∧ _ ∧ _ ∧ _))
  | .choice c y n =>
    have := decidableKept w c
    have := decidableKept 0 y
    have := decidableKept Link.fallback.hold n
    inferInstanceAs (Decidable (_ ∧ _ ∧ _ ∧ _ ∧ _))

theorem yieldsTo_iff (power : Nat) (p : Phrase) :
    p.YieldsTo power ↔ ∀ q ∈ p.tree.openEnd Token.affix, power ≤ q.power := by
  have hconcat {qs : List (OperatorTree.Pending Token)} {q : OperatorTree.Pending Token} :
      (∀ r ∈ qs ++ [q], power ≤ r.power) ↔ power ≤ q.power ∧ ∀ r ∈ qs, power ≤ r.power := by
    rw [List.forall_mem_append, List.forall_mem_singleton, and_comm]
  induction p with
  | var x | group p | member p safe property | after p b => exact ⟨fun _ => nofun, fun _ => trivial⟩
  | before f p ih =>
    exact (and_congr_right' ih).trans (hconcat (q := .before (.front f) f.hold)).symm
  | between l o r _ ih =>
    exact (and_congr_right' ih).trans (hconcat (q := .between l.tree (.link o) o.hold)).symm
  | choice c y n _ _ ih =>
    exact (and_congr_right' ih).trans
      (hconcat (q := .between c.tree (.choice y.term) Link.fallback.hold)).symm

theorem length_tokens (p : Phrase) : p.tokens.length = p.tree.tokens.length := by
  simpa [OperatorTree.weights] using congrArg List.length p.weights_tokens

theorem kept_iff_fits (w : Nat) (p : Phrase) :
    p.Kept w ↔ p.tree.Fits Token.affix w ∧ p.tokens = p.tree.tokens := by
  induction p generalizing w with
  | var x => exact ⟨fun _ => ⟨rfl, rfl⟩, fun _ => trivial⟩
  | group p ih =>
    show p.Kept 0 ↔ affixOf .operand = .operand ∧ [Token.operand _] = [Token.operand _]
    rw [ih, ← regroup_eq_term_iff_fits]
    simp [affixOf]
  | member p safe property ih =>
    show p.Kept 0 ↔ affixOf .operand = .operand ∧
      [Token.operand (.member _ _ _)] = [Token.operand (.member _ _ _)]
    rw [ih, ← regroup_eq_term_iff_fits]
    simp [affixOf]
  | before f p ih =>
    show p.Kept f.hold ↔ ((∃ _, _) ∧ p.tree.Fits _ f.hold) ∧ _ :: _ = _ :: _
    rw [ih]
    simp [Token.affix_front]
  | after p b ih =>
    constructor
    · rintro ⟨hw, hp, hyields⟩
      obtain ⟨hfits, htokens⟩ := (ih w).mp hp
      exact ⟨⟨Token.affix_back b, hw, hfits, (yieldsTo_iff _ p).mp hyields⟩,
        congrArg (· ++ [Token.back b]) htokens⟩
    · rintro ⟨⟨-, hw, hfits, hopen⟩, htokens⟩
      exact ⟨hw, (ih w).mpr ⟨hfits, List.append_inj_left' htokens rfl⟩,
        (yieldsTo_iff _ p).mpr hopen⟩
  | between l o r ihl ihr =>
    constructor
    · rintro ⟨hw, hl, hyields, hr⟩
      obtain ⟨hfits, htokens⟩ := (ihl w).mp hl
      obtain ⟨hfits', htokens'⟩ := (ihr o.hold).mp hr
      exact ⟨⟨Token.affix_link o, hw, hfits, (yieldsTo_iff _ l).mp hyields, hfits'⟩,
        congrArg₂ (· ++ Token.link o :: ·) htokens htokens'⟩
    · rintro ⟨⟨-, hw, hfits, hopen, hfits'⟩, htokens⟩
      obtain ⟨hl, hr⟩ := List.append_inj htokens l.length_tokens
      exact ⟨hw, (ihl w).mpr ⟨hfits, hl⟩, (yieldsTo_iff _ l).mpr hopen,
        (ihr o.hold).mpr ⟨hfits', (List.cons.inj hr).2⟩⟩
  | choice c y n ihc ihy ihn =>
    constructor
    · rintro ⟨hw, hc, hyields, hy, hn⟩
      obtain ⟨hfits, htokens⟩ := (ihc w).mp hc
      obtain ⟨hfits', htokens'⟩ := (ihn _).mp hn
      have hyes := (regroup_eq_term_iff_fits y).mpr ((ihy 0).mp hy)
      refine ⟨⟨⟨_, _, rfl⟩, hw, hfits, (yieldsTo_iff _ c).mp hyields, hfits'⟩, ?_⟩
      show c.tokens ++ Token.choice (regroup y.tokens) :: n.tokens = _
      rw [htokens, hyes, htokens']
      rfl
    · rintro ⟨⟨-, hw, hfits, hopen, hfits'⟩, htokens⟩
      obtain ⟨hc, hn⟩ := List.append_inj htokens c.length_tokens
      obtain ⟨hyes, hn⟩ := List.cons.inj hn
      exact ⟨hw, (ihc w).mpr ⟨hfits, hc⟩, (yieldsTo_iff _ c).mpr hopen,
        (ihy 0).mpr ((regroup_eq_term_iff_fits y).mp (Token.choice.inj hyes)),
        (ihn _).mpr ⟨hfits', hn⟩⟩

/-- **A phrase is read as it was meant if and only if every operator is where the table of powers
expects it.** -/
theorem regroup_eq_term_iff (p : Phrase) : regroup p.tokens = p.term ↔ p.Kept 0 :=
  p.regroup_eq_term_iff_fits.trans (p.kept_iff_fits 0).symm

end Phrase

end ThreeAddress.Syntax

import ThreeAddress.Proofs.PhraseParsing

/-!
# Printing and parsing formulas

Formulas are trees of operators over variables, with a text for each of them that is put in
parentheses where its direct operator asks for them. **That is enough for the table of powers to find
the formula again** (`Formula.kept_phrase`), so printing and parsing agree on formulas of any depth
(`parse_lowered_formula`). The nodes of the formula have to be told apart by their numbers, since a
node that is met again is not lowered again.
-/

namespace ThreeAddress.Syntax

/-- A tree of operators over variables. -/
inductive Formula where
  | var (name : String)
  | binary (l : Formula) (op : BinaryOperator) (r : Formula)
  | unary (op : UnaryOperator) (x : Formula)
  | cast (type : CastType) (x : Formula)
deriving DecidableEq, Repr

/-- Whether the operator is a sign. Two signs in a row would be another operator. -/
def UnaryOperator.isSign : UnaryOperator → Bool
  | .plus | .minus => true
  | _ => false

/-- Whether the operator stands before its operand and keeps it as it is. -/
def UnaryOperator.isPlain : UnaryOperator → Bool
  | .plus | .minus | .not | .bitNot | .silence => true
  | _ => false

/-- The operator with its operand. -/
def UnaryOperator.on : UnaryOperator → Term → Term
  | .plus, x => .before .plus x
  | .minus, x => .before .minus x
  | .not, x => .before .not x
  | .bitNot, x => .before .bitNot x
  | .silence, x => .before .silence x
  | .preInc, x => .before .preInc x
  | .preDec, x => .before .preDec x
  | .postInc, x => .after x .postInc
  | .postDec, x => .after x .postDec

namespace Formula

/-- Whether the formula is a sign with its operand. -/
def isSigned : Formula → Bool
  | .unary op _ => op.isSign
  | _ => false

/-- The variables have names that can be written, the operators with one operand are plain, and
no sign stands directly on a sign. -/
def Grammatical : Formula → Prop
  | .var x => isName x.toList = true
  | .binary l _ r => l.Grammatical ∧ r.Grammatical
  | .unary op x => op.isPlain ∧ (op.isSign = true → x.isSigned = false) ∧ x.Grammatical
  | .cast _ x => x.Grammatical

instance decidableGrammatical : (f : Formula) → Decidable f.Grammatical
  | .var x => inferInstanceAs (Decidable (isName x.toList = true))
  | .binary l _ r =>
    have := decidableGrammatical l
    have := decidableGrammatical r
    inferInstanceAs (Decidable (l.Grammatical ∧ r.Grammatical))
  | .unary op x =>
    have := decidableGrammatical x
    inferInstanceAs
      (Decidable (op.isPlain ∧ (op.isSign = true → x.isSigned = false) ∧ x.Grammatical))
  | .cast _ x => decidableGrammatical x

/-- The node is the formula, with some numbers and places. -/
inductive Is : Formula → Node → Prop
  | var {x : String} {id : Nat} {location : Option Location} {span : Option Span} :
      Is (.var x) ⟨id, .var x, location, span⟩
  | binary {l r : Formula} {op : BinaryOperator} {m n : Node} {id : Nat}
      {location : Option Location} {span : Option Span} :
      Is l m → Is r n → Is (.binary l op r) ⟨id, .binaryOp m op n, location, span⟩
  | unary {x : Formula} {op : UnaryOperator} {n : Node} {id : Nat}
      {location : Option Location} {span : Option Span} :
      Is x n → Is (.unary op x) ⟨id, .unaryOp op n, location, span⟩
  | cast {x : Formula} {type : CastType} {n : Node} {id : Nat} {location : Option Location}
      {span : Option Span} : Is x n → Is (.cast type x) ⟨id, .cast type n, location, span⟩

/-- The number of operators and variables on the longest way into the formula. -/
def height : Formula → Nat
  | .var _ => 1
  | .binary l _ r => max l.height r.height + 1
  | .unary _ x | .cast _ x => x.height + 1

/-! ## Formulas are terms -/

/-- The formula as a term. -/
def term : Formula → Term
  | .var x => .var x
  | .binary l op r => .between l.term (.op op) r.term
  | .unary op x => op.on x.term
  | .cast type x => .before (.cast type) x.term

section

variable {f : Formula} {n : Node}

theorem Is.term (h : f.Is n) : f.term.Is n := by
  induction h with
  | var => exact .var
  | binary _ _ hl hr => exact .between (o := .op _) hl hr
  | @unary x op n _ _ _ _ hx =>
    cases op with
    | postInc => exact .postInc hx
    | postDec => exact .postDec hx
    | _ => exact .before hx
  | @cast _ type _ _ _ _ _ hx => exact .before (f := .cast type) hx

open Lowering (Role standing placed greatest) in
/-- The height of a formula is that of its nodes. -/
theorem Is.height_eq (h : f.Is n) : Lowering.height n .value = f.height := by
  have hlevels {n : Node} (xs : List (Role × Node)) (hn : (standing .value n.kind).levels = 1)
      (hxs : placed n.kind = xs) : Lowering.height n .value
        = 1 + greatest (xs.map fun x => Lowering.height x.2 x.1) := by
    rw [Lowering.height_eq, hn, hxs]
  induction h with
  | var => exact hlevels [] rfl rfl
  | @binary l r _ m n _ _ _ _ _ hl hr =>
    rw [hlevels [(.value, m), (.value, n)] rfl rfl]
    simp [greatest, hl, hr, height]
    omega
  | @unary x _ n _ _ _ _ hx | @cast x _ n _ _ _ _ hx =>
    rw [hlevels [(.value, n)] rfl rfl]
    simp [greatest, hx, height]
    omega

theorem named_term (hf : f.Grammatical) : f.term.Named := by
  induction f with
  | var x => exact hf
  | binary l op r ihl ihr => exact ⟨ihl hf.1, ihr hf.2⟩
  | unary op x ih =>
    have hx := ih hf.2.2
    cases op <;> exact hx
  | cast type x ih => exact ih hf

/-! ## Signs stay apart -/

open Phrase (wrap)

/-- How the operand of an operator with one operand is written. -/
def operand (f : Formula) : Phrase :=
  wrap f.term.groupedAfter f.term.phrase

/-- An operator before its operand. -/
theorem phrase_unary {op : UnaryOperator} (hop : op.isPlain = true) (x : Formula) :
    ∃ f : Front, (unary op x).term.phrase = .before f x.operand ∧
      (op.isSign = false → f.sign? = none) ∧ 209 ≤ f.hold := by
  cases op with
  | plus | minus => exact ⟨_, rfl, nofun, by decide⟩
  | not | bitNot | silence => exact ⟨_, rfl, fun _ => rfl, by decide⟩
  | _ => cases hop

/-- What is no sign with its operand does not start with a sign. -/
theorem head?_operand (hf : f.Grammatical) (hsigned : f.isSigned = false) (g : Front) :
    f.operand.text.head? ≠ g.sign? := by
  have hsign {c : Char} (hc : c ≠ '+' ∧ c ≠ '-') : some c ≠ g.sign? := by
    cases g <;> simp [Front.sign?, hc]
  cases f with
  | var x => exact hsign (c := '$') (by decide)
  | binary l op r => exact hsign (c := '(') (by decide)
  | unary op x =>
    have hop := hf.1
    cases op with
    | not => exact hsign (c := '!') (by decide)
    | bitNot => exact hsign (c := '~') (by decide)
    | silence => exact hsign (c := '@') (by decide)
    | plus | minus => cases hsigned
    | _ => cases hop
  | cast type x => cases type <;> exact hsign (c := '(') (by decide)

theorem legible_wrap {p : Phrase} (b : Bool) (hp : p.Legible) : (wrap b p).Legible := by
  cases b <;> exact hp

theorem legible_phrase (hf : f.Grammatical) : f.term.phrase.Legible := by
  induction f with
  | var x => trivial
  | binary l op r ihl ihr => exact ⟨legible_wrap _ (ihl hf.1), legible_wrap _ (ihr hf.2)⟩
  | unary op x ih =>
    obtain ⟨hop, hsign, hx⟩ := hf
    obtain ⟨f, hphrase, hnone, -⟩ := phrase_unary hop x
    rw [hphrase]
    refine ⟨?_, legible_wrap _ (ih hx)⟩
    cases hs : op.isSign with
    | false => exact .inl (hnone hs)
    | true => exact .inr (head?_operand hx (hsign hs) f)
  | cast type x ih => exact ⟨.inl rfl, legible_wrap _ (ih hf)⟩

end

end Formula

/-! ## Operators keep their operands -/

namespace BinaryOperator

theorem powerOf_lt {a b : Nat} (h : a < b) : powerOf a + 10 ≤ powerOf b := by
  unfold powerOf
  repeat' split
  all_goals omega

/-- Operators of one precedence group to the same side. -/
theorem groupsRight_eq (op : BinaryOperator) :
    op.groupsRight = (op.precedence == 6 || op.precedence == 19) := by
  cases op <;> rfl

/-- An operator after the right operand has to have a higher power to get it. -/
def hold (op : BinaryOperator) : Nat :=
  (affixOf op.rule).hold

theorem hold_eq (op : BinaryOperator) :
    op.hold = if op.groupsRight then op.power - 1 else op.power := by
  rw [hold, affixOf_rule]
  rfl

theorem power_le_of_ne_pow {op : BinaryOperator} (h : op ≠ .pow) : op.power ≤ 200 := by
  cases op <;> first | exact absurd rfl h | decide

variable {a b : BinaryOperator}

/-- Between operators of different precedence there is room for the ones that group to the
right. -/
theorem power_le_hold (h : a.precedence < b.precedence) : a.power ≤ b.hold := by
  have hpower : a.power + 10 ≤ b.power := powerOf_lt h
  rw [hold_eq]
  split <;> omega

theorem power_eq (h : a.precedence = b.precedence) : a.power = b.power :=
  congrArg powerOf h

theorem hold_congr (h : a.precedence = b.precedence) : a.hold = b.hold := by
  rw [hold_eq, hold_eq, groupsRight_eq, groupsRight_eq, power_eq h, h]

theorem hold_le_power (a : BinaryOperator) : a.hold ≤ a.power := by
  rw [hold_eq]
  split <;> omega

theorem power_pos (a : BinaryOperator) : 0 < a.power := by
  cases a <;> decide

theorem power_link (a : BinaryOperator) : (Link.op a).power = a.power :=
  congrArg Affix.pull a.affixOf_rule

end BinaryOperator

namespace Formula

open Phrase (wrap)

section

variable {f l r : Formula} {inner outer : BinaryOperator}

theorem precedence_of_not_grouped {onRight : Bool}
    (h : (binary l inner r).term.grouped outer onRight = false) :
    outer.precedence < inner.precedence ∨
      inner.precedence = outer.precedence ∧ onRight = outer.groupsRight := by
  simp only [term, Term.grouped, Bool.or_eq_false_iff, decide_eq_false_iff_not,
    Bool.and_eq_false_iff, beq_eq_false_iff_ne, bne_eq_false_iff_eq] at h
  obtain ⟨hle, hne | hside⟩ := h
  · exact .inl (by omega)
  · obtain hlt | heq := Nat.lt_or_eq_of_le (Nat.not_lt.mp hle)
    · exact .inl hlt
    · exact .inr ⟨heq.symm, hside⟩

/-- Where the left operand stands without parentheses, the operator takes nothing from it. -/
theorem power_le_hold (h : (binary l inner r).term.grouped outer false = false) :
    outer.power ≤ inner.hold := by
  obtain hlt | ⟨heq, hleft⟩ := precedence_of_not_grouped h
  · exact BinaryOperator.power_le_hold hlt
  · rw [BinaryOperator.hold_congr heq, BinaryOperator.hold_eq, ← hleft]
    exact Nat.le_refl _

/-- Where the right operand stands without parentheses, it holds at least as much as the
operator. -/
theorem hold_le_hold (h : (binary l inner r).term.grouped outer true = false) :
    outer.hold ≤ inner.hold := by
  obtain hlt | ⟨heq, -⟩ := precedence_of_not_grouped h
  · exact Nat.le_trans outer.hold_le_power (BinaryOperator.power_le_hold hlt)
  · exact Nat.le_of_eq (BinaryOperator.hold_congr heq).symm

/-- Where the right operand stands without parentheses, its operator takes from the one
outside. -/
theorem hold_lt_power (h : (binary l inner r).term.grouped outer true = false) :
    outer.hold < inner.power := by
  obtain hlt | ⟨heq, hright⟩ := precedence_of_not_grouped h
  · have hpower : outer.power + 10 ≤ inner.power := BinaryOperator.powerOf_lt hlt
    have := outer.hold_le_power
    omega
  · have hpos := inner.power_pos
    rw [BinaryOperator.power_eq heq] at hpos ⊢
    rw [BinaryOperator.hold_eq, ← hright]
    exact Nat.sub_lt hpos Nat.one_pos

/-- Only a variable stands without parentheses to the left of a power. -/
theorem ne_pow_of_not_grouped (hf : f.Grammatical) (h : f.term.grouped outer false = false)
    (hvar : ∀ x, f ≠ .var x) : outer ≠ .pow := by
  rintro rfl
  cases f with
  | var x => exact hvar x rfl
  | binary l inner r =>
    obtain hlt | ⟨heq, hleft⟩ := precedence_of_not_grouped h
    · revert hlt
      cases inner <;> decide
    · cases hleft
  | unary op x =>
    have hop := hf.1
    cases op <;> first | cases hop; done | cases h
  | cast type x => cases h

/-- No power at the open end of a formula is below this one. -/
def weakest : Formula → Nat
  | .binary _ op _ => min op.hold 209
  | _ => 209

/-- An operator that holds its right operand with this power does not take from the formula. -/
def Above (w : Nat) : Formula → Prop
  | .binary _ op _ => w < op.power
  | _ => True

theorem above_zero (f : Formula) : f.Above 0 := by
  cases f with
  | binary l op r => exact op.power_pos
  | _ => trivial

theorem of_not_groupedAfter (h : f.term.groupedAfter = false) :
    f.weakest = 209 ∧ ∀ w, f.Above w := by
  cases f with
  | binary l op r => cases h
  | _ => exact ⟨rfl, fun _ => trivial⟩

theorem yieldsTo_wrap {power : Nat} {b : Bool} {p : Phrase}
    (h : b = false → p.YieldsTo power) : (wrap b p).YieldsTo power := by
  cases b with
  | false => exact h rfl
  | true => trivial

theorem kept_wrap {w : Nat} {b : Bool} {p : Phrase} (hzero : p.Kept 0)
    (h : b = false → p.Kept w) : (wrap b p).Kept w := by
  cases b with
  | false => exact h rfl
  | true => exact hzero

/-- An operator after a formula that stands without parentheses takes all of it, if nothing in it is
weaker. -/
theorem yieldsTo_phrase (hf : f.Grammatical) {power : Nat} (h : power ≤ f.weakest) :
    f.term.phrase.YieldsTo power := by
  have hoperand {x : Formula} (hpower : power ≤ 209)
      (ih : power ≤ x.weakest → x.term.phrase.YieldsTo power) : x.operand.YieldsTo power :=
    yieldsTo_wrap fun hx => ih ((of_not_groupedAfter hx).1.symm ▸ hpower)
  induction f with
  | var x => trivial
  | binary l op r _ ih =>
    have hmin : power ≤ min op.hold 209 := h
    refine ⟨by show power ≤ op.hold; omega, yieldsTo_wrap fun hr => ih hf.2 ?_⟩
    cases r with
    | binary l' inner r' =>
      have := hold_le_hold hr
      show power ≤ min inner.hold 209
      omega
    | _ => show power ≤ 209; omega
  | unary op x ih =>
    obtain ⟨hop, -, hx⟩ := hf
    obtain ⟨f, hphrase, -, hhold⟩ := phrase_unary hop x
    rw [hphrase]
    exact ⟨Nat.le_trans h hhold, hoperand h (ih hx)⟩
  | cast type x ih =>
    have hhold : 209 ≤ (Front.cast type).hold := (by decide : 209 ≤ (affixOf .cast).hold)
    exact ⟨Nat.le_trans h hhold, hoperand h (ih hf)⟩

/-- The operator takes nothing from a left operand that is written for it. -/
theorem yieldsTo_left (hf : f.Grammatical) :
    (wrap (f.term.grouped outer false) f.term.phrase).YieldsTo outer.power := by
  refine yieldsTo_wrap fun hgrouped => ?_
  by_cases hvar : ∃ x, f = .var x
  · obtain ⟨x, rfl⟩ := hvar
    trivial
  · have hpow := ne_pow_of_not_grouped hf hgrouped fun x h => hvar ⟨x, h⟩
    have hpower := BinaryOperator.power_le_of_ne_pow hpow
    refine yieldsTo_phrase hf ?_
    cases f with
    | binary l inner r =>
      have := power_le_hold hgrouped
      show outer.power ≤ min inner.hold 209
      omega
    | _ => show outer.power ≤ 209; omega

/-- **A formula is grouped by the table of powers as it is written.** -/
theorem kept_phrase (hf : f.Grammatical) {w : Nat} (hw : f.Above w) : f.term.phrase.Kept w := by
  have hoperand {x : Formula} (ih : ∀ {w}, x.Above w → x.term.phrase.Kept w) (w : Nat) :
      x.operand.Kept w :=
    kept_wrap (ih x.above_zero) fun hx => ih ((of_not_groupedAfter hx).2 w)
  induction f generalizing w with
  | var x => trivial
  | binary l op r ihl ihr =>
    have hw : w < op.power := hw
    refine ⟨op.power_link.symm ▸ hw, kept_wrap (ihl hf.1 l.above_zero) fun hl => ihl hf.1 ?_,
      op.power_link.symm ▸ yieldsTo_left hf.1,
      kept_wrap (ihr hf.2 r.above_zero) fun hr => ihr hf.2 ?_⟩
    · cases l with
      | binary l' inner r' =>
        have := power_le_hold hl
        have := inner.hold_le_power
        show w < inner.power
        omega
      | _ => trivial
    · cases r with
      | binary l' inner r' => exact hold_lt_power hr
      | _ => trivial
  | unary op x ih =>
    obtain ⟨hop, -, hx⟩ := hf
    obtain ⟨f, hphrase, -, -⟩ := phrase_unary hop x
    rw [hphrase]
    exact hoperand (ih hx) f.hold
  | cast type x ih => exact hoperand (ih hf) _

end

end Formula

end ThreeAddress.Syntax

namespace ThreeAddress.Lowering

open Syntax

/-- **Printing and parsing agree on formulas.** Lowering a formula whose nodes have different
numbers, with room for its height, gives one value and no instructions, and parsing this value as
a script of its own gives the formula back, up to the numbers and places of its nodes. -/
theorem parse_lowered_formula {f : Formula} (hf : f.Grammatical) {n : Node} (hn : f.Is n)
    (hids : n.ids.Nodup) :
    ∃ v, (∀ o : Options, f.height ≤ o.maxDepth →
        ∃ c, (planned n).value.run.Gives { options := o } ⟨v, []⟩ c) ∧
      ∃ limit, ∀ l ≥ limit, ∀ name, ∃ script stmt m,
        Syntax.parse (.ofSource name ("<?php " ++ v ++ ";")) l = .ok script ∧
        script.kind = .script [stmt] ∧ stmt.kind = .expressionStmt m ∧ m.bare = n.bare := by
  have hterm := f.term.term_phrase
  refine ⟨.ofList f.term.phrase.text, fun o ho => ?_, ?_⟩
  · obtain ⟨c, hrun⟩ := exists_runs_term hn.term hids (hn.height_eq.symm ▸ ho)
    exact ⟨c, hrun.gives⟩
  · exact (readsBack_iff_kept (Formula.legible_phrase hf) (hterm.symm ▸ Formula.named_term hf)
      (hterm.symm ▸ hn.term)).mpr (Formula.kept_phrase hf f.above_zero)

/-- `$a ** -($b ** (int) ($c . $d))` -/
def nestedFormula : Formula :=
  .binary (.var "a") .pow (.unary .minus (.binary (.var "b") .pow
    (.cast .int (.binary (.var "c") .concat (.var "d")))))

/-- A node of it. -/
def nestedNode : Node :=
  ⟨8, .binaryOp ⟨1, .var "a", none, none⟩ .pow ⟨7, .unaryOp .minus ⟨6, .binaryOp
    ⟨2, .var "b", none, none⟩ .pow ⟨5, .cast .int ⟨9, .binaryOp ⟨3, .var "c", none, none⟩ .concat
      ⟨4, .var "d", none, none⟩, none, none⟩, none, none⟩, none, none⟩, none, none⟩, none, none⟩

theorem parse_lowered_nestedFormula :
    nestedFormula.Grammatical ∧ nestedFormula.Is nestedNode ∧ nestedNode.ids.Nodup ∧
    ∃ v, (∀ o : Options, nestedFormula.height ≤ o.maxDepth →
        ∃ c, (planned nestedNode).value.run.Gives { options := o } ⟨v, []⟩ c) ∧
      ∃ limit, ∀ l ≥ limit, ∀ name, ∃ script stmt m,
        Syntax.parse (.ofSource name ("<?php " ++ v ++ ";")) l = .ok script ∧
        script.kind = .script [stmt] ∧ stmt.kind = .expressionStmt m ∧
        m.bare = nestedNode.bare := by
  have hf : nestedFormula.Grammatical := by decide +kernel
  have hn : nestedFormula.Is nestedNode :=
    .binary .var (.unary (.binary .var (.cast (.binary .var .var))))
  have hids : nestedNode.ids.Nodup := by decide +kernel
  exact ⟨hf, hn, hids, parse_lowered_formula hf hn hids⟩

/-- `$a + $a` with one node in both places. -/
def sharedNode : Node :=
  ⟨2, .binaryOp ⟨1, .var "a", none, none⟩ .add ⟨1, .var "a", none, none⟩, none, none⟩

/-- A node that is met again is not printed again, and the value is no expression. -/
theorem shared_operand_not_printed :
    (Formula.binary (.var "a") .add (.var "a")).Is sharedNode ∧
    (∃ c, (planned sharedNode).value.run.Gives {} ⟨"$a + ", []⟩ c) ∧
    (Syntax.parse (.ofSource "" "<?php $a + ;") 100).isOk = false := by
  have hvalue : (⟨"$a + ", []⟩ : Lowered)
      = { value := "$" ++ "a" } ++ { value := " " ++ "+" ++ " " } ++ {} := by
    decide +kernel
  have hrun : ∃ c, Plan.Runs (planned sharedNode).value {} ⟨"$a + ", []⟩ c := by
    rw [hvalue]
    have hnew : 1 ∉ (({} : Context).met 2).visited := by simp [Context.met]
    exact ⟨_, .expression (by simp) (by decide)
      (.both (.both (.expression hnew (by decide) .text) .text)
        (.expressionAgain (by simp [Context.met, Context.below, Context.above])))⟩
  obtain ⟨c, hrun⟩ := hrun
  exact ⟨.binary .var .var, ⟨c, hrun.gives⟩, by decide +kernel⟩

end ThreeAddress.Lowering

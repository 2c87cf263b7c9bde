import ThreeAddress.Proofs.Respelling

/-!
# Operands outside of binary operators

An operand of a binary operator, of a sign or of a cast is put in parentheses where it needs them.
Other nodes print their operands as they are: the value of an assignment, the condition and the last
value of a conditional, what is tested for a class, what is cloned, and the object of a member. Here
**the operand is read back if and only if its tokens stay apart and the table of powers happens to
group them in the same way** (`readsBack_operand_iff`). In each of these places there is an operand
that is lost (`operands_lost`).
-/

namespace ThreeAddress.Syntax

namespace Term

/-- A term of variables, binary operators, assignments, unary operators and clones. -/
def Plain : Term → Prop
  | .var _ => True
  | .before _ x | .after x .postInc | .after x .postDec => x.Plain
  | .between l (.op _) r | .between l .assign r => l.Plain ∧ r.Plain
  | _ => False

instance decidablePlain : (t : Term) → Decidable t.Plain
  | .var _ => .isTrue trivial
  | .before _ x | .after x .postInc | .after x .postDec => decidablePlain x
  | .between l (.op _) r | .between l .assign r =>
    have := decidablePlain l
    have := decidablePlain r
    inferInstanceAs (Decidable (_ ∧ _))
  | .member _ _ _ | .after _ (.isA _) | .between _ .fallback _ | .choice _ _ _ => .isFalse id

end Term

/-- A place for an operand, with variables for the other operands. -/
inductive Surrounding where
  /-- The value of an assignment. -/
  | assigned (target : String)
  /-- The condition of a conditional. -/
  | condition (yes : Option String) (no : String)
  /-- The last value of a conditional. -/
  | otherwise (test : String) (yes : Option String)
  /-- What is tested for a class. -/
  | tested (owner : String)
  | cloned
  | plus
  | minus
  /-- The object of a member. -/
  | object (safe : Bool) (property : String)
deriving DecidableEq, Repr

/-- The term with the operand in its place. -/
def Surrounding.fill : Surrounding → Term → Term
  | .assigned target, e => .between (.var target) .assign e
  | .condition (some yes) no, e => .choice e (.var yes) (.var no)
  | .condition none no, e => .between e .fallback (.var no)
  | .otherwise test (some yes), e => .choice (.var test) (.var yes) e
  | .otherwise test none, e => .between (.var test) .fallback e
  | .tested owner, e => .after e (.isA owner)
  | .cloned, e => .before .clone e
  | .plus, e => .before .plus e
  | .minus, e => .before .minus e
  | .object safe property, e => .member e safe property

/-! ## Plain operands -/

section

variable {e : Term}

theorem Phrase.direct_wrap {b : Bool} {p : Phrase} (hp : p.Direct) : (wrap b p).Direct := by
  cases b <;> exact hp

theorem Phrase.lastBack?_wrap {b : Bool} {p : Phrase} {c : Back} (hp : p.lastBack? ≠ some c) :
    (wrap b p).lastBack? ≠ some c := by
  cases b with
  | false => exact hp
  | true => exact nofun

/-- A plain operand has no members. -/
theorem Term.Plain.direct_phrase (he : e.Plain) : e.phrase.Direct := by
  induction e with
  | var x => trivial
  | before f x ih =>
    have hx := ih he
    cases f with
    | clone => exact hx
    | _ => exact Phrase.direct_wrap hx
  | after x b ih =>
    cases b with
    | isA owner => cases he
    | _ => exact Phrase.direct_wrap (ih he)
  | between l o r ihl ihr =>
    cases o with
    | op o => exact ⟨Phrase.direct_wrap (ihl he.1), Phrase.direct_wrap (ihr he.2)⟩
    | assign => exact ⟨ihl he.1, ihr he.2⟩
    | fallback => cases he
  | _ => cases he

/-- A plain operand does not end with a test for a class. -/
theorem Term.Plain.lastBack?_phrase (he : e.Plain) (owner : String) :
    e.phrase.lastBack? ≠ some (.isA owner) := by
  induction e with
  | var x => exact nofun
  | before f x ih =>
    have hx := ih he
    cases f with
    | clone => exact hx
    | _ => exact Phrase.lastBack?_wrap hx
  | after x b ih =>
    cases b with
    | isA owner => cases he
    | _ => exact fun h => nomatch h
  | between l o r _ ih =>
    cases o with
    | op o => exact Phrase.lastBack?_wrap (ih he.2)
    | assign => exact ih he.2
    | fallback => cases he
  | _ => cases he

/-- Around a plain operand, only its own members are indirect. -/
theorem Surrounding.direct_fill (s : Surrounding) (he : e.Plain)
    (hs : ∀ safe property, s = .object safe property → e.phrase.isPrimary = true) :
    (s.fill e).phrase.Direct := by
  have hdirect := he.direct_phrase
  cases s with
  | assigned target => exact ⟨trivial, hdirect⟩
  | condition yes no =>
    cases yes with
    | none => exact ⟨hdirect, trivial⟩
    | some yes => exact ⟨hdirect, trivial, trivial⟩
  | otherwise test yes =>
    cases yes with
    | none => exact ⟨trivial, hdirect⟩
    | some yes => exact ⟨trivial, trivial, hdirect⟩
  | tested owner => exact hdirect
  | cloned => exact hdirect
  | plus => exact Phrase.direct_wrap hdirect
  | minus => exact Phrase.direct_wrap hdirect
  | object safe property => exact ⟨hs safe property rfl, hdirect⟩

/-- **An operand is read back from the text around it if and only if the text is legible and every
operator gets its operands.** -/
theorem Surrounding.readsBack_fill_iff (s : Surrounding) (he : e.Plain)
    (hnamed : (s.fill e).Named) {n : Node} (hn : (s.fill e).Is n) :
    ReadsBack (.ofList (s.fill e).phrase.text) n ↔
      (s.fill e).phrase.Legible ∧ (s.fill e).phrase.Kept 0 := by
  have hterm := (s.fill e).term_phrase
  by_cases hs : ∀ safe property, s = .object safe property → e.phrase.isPrimary = true
  · exact Phrase.readsBack_iff (s.direct_fill he hs) (hterm.symm ▸ hnamed) (hterm.symm ▸ hn)
  · -- the arrow takes the last operand only, or there is none to take
    push Not at hs
    obtain ⟨safe, property, rfl, hprimary⟩ := hs
    have hnot : ¬ ReadsBack (.ofList (Phrase.member e.phrase safe property).text) n :=
      not_readsBack_member he.direct_phrase (e.term_phrase.symm ▸ hnamed.1) hnamed.2
        (Bool.eq_false_iff.mpr hprimary) he.lastBack?_phrase (e.term_phrase.symm ▸ hn)
    exact ⟨fun h => absurd h hnot, fun h => absurd h.1.1 hprimary⟩

end

end ThreeAddress.Syntax

namespace ThreeAddress.Lowering

open Syntax

/-- **What keeps an operand together outside of binary operators.** A node with a plain operand,
whose nodes have different numbers, is lowered to one value and no instructions if there is room for
its height. Parsing the value as a script of its own gives the node back, up to numbers and places,
if and only if its signs stay apart, members are taken of single operands, and the table of powers
gives every operator the operands that it was written for. -/
theorem readsBack_operand_iff (s : Surrounding) {e : Term} (he : e.Plain)
    (hnamed : (s.fill e).Named) {n : Node} (hn : (s.fill e).Is n) (hids : n.ids.Nodup) :
    ∃ v, (∀ o : Options, height n .value ≤ o.maxDepth →
        ∃ c, (planned n).value.run.Gives { options := o } ⟨v, []⟩ c) ∧
      (ReadsBack v n ↔ (s.fill e).phrase.Legible ∧ (s.fill e).phrase.Kept 0) := by
  refine ⟨.ofList (s.fill e).phrase.text, fun o ho => ?_, s.readsBack_fill_iff he hnamed hn⟩
  obtain ⟨c, hrun⟩ := exists_runs_term hn hids ho
  exact ⟨c, hrun.gives⟩

/-- `$a + -clone $b` -/
def negatedClone : Term :=
  .between (.var "a") (.op .add) (.before .minus (.before .clone (.var "b")))

/-- `$x = $a + -clone $b` -/
def assignedSum : Node :=
  ⟨7, .assign ⟨1, .var "x", none, none⟩ ⟨6, .binaryOp ⟨2, .var "a", none, none⟩ .add
    ⟨5, .unaryOp .minus ⟨4, .clone ⟨3, .var "b", none, none⟩, none, none⟩, none, none⟩, none, none⟩,
    none, none⟩

theorem assignedSum_readsBack :
    negatedClone.Plain ∧ ((Surrounding.assigned "x").fill negatedClone).Named ∧
    ((Surrounding.assigned "x").fill negatedClone).Is assignedSum ∧ assignedSum.ids.Nodup ∧
    ∃ v, (∀ o : Options, height assignedSum .value ≤ o.maxDepth →
        ∃ c, (planned assignedSum).value.run.Gives { options := o } ⟨v, []⟩ c) ∧
      ReadsBack v assignedSum := by
  have hplain : negatedClone.Plain := by decide
  have hnamed : ((Surrounding.assigned "x").fill negatedClone).Named := by decide +kernel
  have hn : ((Surrounding.assigned "x").fill negatedClone).Is assignedSum :=
    .between (o := .assign) .var (.between (o := .op .add) .var
      (.before (f := .minus) (.before (f := .clone) .var)))
  have hids : assignedSum.ids.Nodup := by decide +kernel
  obtain ⟨v, hv, hback⟩ := readsBack_operand_iff (.assigned "x") hplain hnamed hn hids
  exact ⟨hplain, hnamed, hn, hids, v, hv, hback.mpr (by decide +kernel)⟩

/-- Operands that are read as something else, one for each place. -/
def lostOperands : List (Surrounding × Term) :=
  have a := .var "a"
  have b := .var "b"
  [(.assigned "x", .between a (.op .logicalOr) b),
    (.condition (some "y") "n", .between a .assign b),
    (.otherwise "c" (some "y"), .between a (.op .logicalOr) b), (.tested "C", .before .not a),
    (.cloned, .between a (.op .add) b), (.plus, .before .plus a), (.minus, .before .minus a),
    (.object false "p", .before .clone a)]

/-- `clone ($a + $b)` -/
def clonedSum : Node :=
  ⟨4, .clone ⟨3, .binaryOp ⟨1, .var "a", none, none⟩ .add ⟨2, .var "b", none, none⟩, none, none⟩,
    none, none⟩

/-- A sum that is cloned is printed without parentheses and is not read back, and in every other
place, too, there is an operand that is lost. -/
theorem operands_lost :
    ((∃ c, (planned clonedSum).value.run.Gives { options := {} } ⟨"clone $a + $b", []⟩ c) ∧
      ¬ ReadsBack "clone $a + $b" clonedSum) ∧
    ∀ lost ∈ lostOperands, lost.2.Plain ∧ (lost.1.fill lost.2).Named ∧
      ∀ n, (lost.1.fill lost.2).Is n →
        ¬ ReadsBack (.ofList (lost.1.fill lost.2).phrase.text) n := by
  have hall : ∀ lost ∈ lostOperands, lost.2.Plain ∧ (lost.1.fill lost.2).Named ∧
      ¬ ((lost.1.fill lost.2).phrase.Legible ∧ (lost.1.fill lost.2).phrase.Kept 0) := by
    decide +kernel
  have hlost : ∀ lost ∈ lostOperands, lost.2.Plain ∧ (lost.1.fill lost.2).Named ∧
      ∀ n, (lost.1.fill lost.2).Is n →
        ¬ ReadsBack (.ofList (lost.1.fill lost.2).phrase.text) n := by
    intro lost hlost
    obtain ⟨hplain, hnamed, hnot⟩ := hall lost hlost
    exact ⟨hplain, hnamed, fun n hn h => hnot ((lost.1.readsBack_fill_iff hplain hnamed hn).mp h)⟩
  have hn : (Surrounding.cloned.fill (.between (.var "a") (.op .add) (.var "b"))).Is clonedSum :=
    .before (f := .clone) (.between (o := .op .add) .var .var)
  have hids : clonedSum.ids.Nodup := by decide +kernel
  have hheight : height clonedSum .value ≤ ({} : Options).maxDepth := by decide +kernel
  have htext : String.ofList (Surrounding.cloned.fill
      (.between (.var "a") (.op .add) (.var "b"))).phrase.text = "clone $a + $b" := by
    decide +kernel
  obtain ⟨c, hrun⟩ := exists_runs_term hn hids hheight
  have hnot := (hlost (.cloned, .between (.var "a") (.op .add) (.var "b")) (by decide)).2.2 _ hn
  rw [htext] at hrun hnot
  exact ⟨⟨⟨c, hrun.gives⟩, hnot⟩, hlost⟩

end ThreeAddress.Lowering

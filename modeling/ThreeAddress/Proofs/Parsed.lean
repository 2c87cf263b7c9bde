import ThreeAddress.Proofs.BuiltStatements
import ThreeAddress.Proofs.Depth
import ThreeAddress.Proofs.Grown

/-!
# Parsed scripts

What the three steps of parsing fit together to: the trees of the grammar are grown, grown trees
are well built, and a well-built script is meaningful. So **no text makes the builders disagree
with the grammar** (`refused_of_parseFrom_eq_error`): a text is refused by the grammar, for its
nesting, or for a number in it. And **every parsed script can be lowered** under any limit that is
not below its height (`lowers_parsed_iff`).
-/

namespace ThreeAddress

namespace Syntax

open Grammar (Rule)
open Stock

/-- **The parts of a grown tree are well built.** -/
theorem wellBuilt_annotate {t : Grammar.ParseTree} (h : Grammar.Grown t) :
    WellBuilt (t.annotate buildRule) := by
  induction h with
  | @intro t hshape hspelled _ ih =>
    obtain ⟨r, e, ts⟩ := t
    have hchildren : ∀ p ∈ Grammar.ParseTree.annotateAll buildRule ts, WellBuilt p := by
      rw [Grammar.ParseTree.annotateAll_eq_map]
      intro p hp
      obtain ⟨t, ht, rfl⟩ := List.mem_map.mp hp
      exact ih t ht
    have hyields (hmode : r.definition.mode ≠ .atomic) : r.definition.body.Yields
        (fun r p => p.rule = r) (Grammar.ParseTree.annotateAll buildRule ts) := by
      rw [Grammar.ParseTree.annotateAll_eq_map]
      refine (hshape hmode).map fun q t _ hrule => ?_
      rw [Grammar.ParseTree.rule_annotate]
      exact hrule
    refine .intro hyields hspelled hchildren fun role hrole => ?_
    have hmakes := makes_buildRule (e := e)
      (fun hmode => (hyields hmode).mono fun q p hp hrule => ⟨hrule, hchildren p hp⟩) hspelled
    rw [show nodeRole? r = some role from hrole] at hmakes
    exact hmakes

/-- A script that the grammar matches is made, unless a number in it is refused. -/
theorem makes_buildTree {text : String} {t : Grammar.ParseTree}
    (h : Grammar.parse text = .tree t) : Makes (buildTree t) .statement := by
  obtain ⟨hrule, hgrown⟩ := Grammar.parse_grown h
  have hbuilt : Built .script (t.annotate buildRule) :=
    ⟨by rw [Grammar.ParseTree.rule_annotate, hrule], wellBuilt_annotate hgrown⟩
  exact hbuilt.makes rfl

theorem parse_of_checkedTree {s : Script} {limit : Nat} {t : Grammar.ParseTree}
    (h : checkedTree s limit = .ok t) : Grammar.parse s.content = .tree t := by
  unfold checkedTree at h
  cases hparse : Grammar.parse s.content with
  | unmatched a | exhausted => simp [hparse, throw, throwThe, MonadExceptOf.throw] at h
  | tree u =>
    simp only [hparse] at h
    split at h
    · cases h
    · cases h
      rfl

/-- What is built from a checked tree. -/
theorem settles_parseFrom {s : Script} {limit : Nat} {t : Grammar.ParseTree}
    (h : checkedTree s limit = .ok t) (next : Nat) :
    Settles (fun n next' => Keeps [(.statement, n)] next next') (parseFrom next s limit) := by
  unfold parseFrom
  rw [h]
  exact makes_buildTree (parse_of_checkedTree h) s.name next next (.nil next)

/-- The error refuses the text for a reason that the text gives. -/
inductive Refused (s : Script) (limit : Nat) (e : SyntaxError) : Prop
  /-- The grammar does not match the text. -/
  | unmatched {a : Grammar.Attempts} {line : Nat} :
      Grammar.parse s.content = .unmatched a → e.cause = .unmatched a line →
      e.issuer = "phptac.ast.generate_ast_from_source" → Refused s limit e
  /-- The text is matched, and nested too deeply. -/
  | tooDeep {t : Grammar.ParseTree} {place : Cursor} :
      Grammar.parse s.content = .tree t → t.firstTooDeep limit = some place →
      e.cause = .tooDeep limit → e.issuer = "phptac.ast.check_nesting" → Refused s limit e
  /-- A jump names a number that is no depth of loops. -/
  | loopDepth {text : String} :
      Number.loopDepth? text = none → e.cause = .badLoopDepth text →
      e.issuer = "phptac.stmt.parse_jump_levels" → Refused s limit e
  /-- An integer literal has no value. -/
  | integer {text : String} :
      Number.ofInteger? text = none → e.cause = .badInteger text →
      e.message = "Invalid integer literal '" ++ text ++ "'." → Refused s limit e

/-- **Parsing fails only where it refuses the text**: no builder meets parts that it does not
expect. -/
theorem refused_of_parseFrom_eq_error {next : Nat} {s : Script} {limit : Nat} {e : SyntaxError}
    (h : (parseFrom next s limit).1 = .error e) : Refused s limit e := by
  cases hchecked : checkedTree s limit with
  -- a well-built tree is refused for a number in it or not at all
  | ok t =>
    have hsettles := settles_parseFrom hchecked next
    generalize parseFrom next s limit = x at h hsettles
    obtain ⟨_, _⟩ := x
    subst h
    obtain ⟨cause, location, span⟩ := e
    cases cause with
    | badInteger text => exact .integer hsettles rfl rfl
    | badLoopDepth text => exact .loopDepth hsettles rfl rfl
    | _ => exact hsettles.elim
  | error e' =>
    have he : e' = e := by
      unfold parseFrom at h
      rw [hchecked] at h
      exact Except.error.inj h
    subst he
    unfold checkedTree at hchecked
    cases hparse : Grammar.parse s.content with
    | exhausted => exact absurd hparse (Grammar.parse_ne_exhausted _)
    | unmatched a =>
      simp only [hparse] at hchecked
      obtain rfl := Except.error.inj hchecked
      exact .unmatched hparse rfl rfl
    | tree t =>
      simp only [hparse] at hchecked
      split at hchecked
      · rename_i place hplace
        obtain rfl := Except.error.inj hchecked
        exact .tooDeep hparse hplace rfl rfl
      · cases hchecked

/-- A jump out of no loop. -/
theorem refused_breakZero :
    ∃ e, (parseFrom 1 (.ofSource "jump" "<?php break 0;") 10).1 = .error e ∧
      Refused (.ofSource "jump" "<?php break 0;") 10 e := by
  have hfails : (parseFrom 1 (.ofSource "jump" "<?php break 0;") 10).1.isOk = false := by
    decide +kernel
  cases h : (parseFrom 1 (.ofSource "jump" "<?php break 0;") 10).1 with
  | ok n => simp [h, Except.isOk, Except.toBool] at hfails
  | error e => exact ⟨e, rfl, refused_of_parseFrom_eq_error h⟩

theorem eq_ok_of_toOption {ε α β : Type} {x : Except ε α × β} {a : α}
    (h : x.1.toOption = some a) : x = (.ok a, x.2) := by
  obtain ⟨_ | b, next⟩ := x
  · cases h
  · exact congrArg (Except.ok ·, next) (Option.some.inj h)

/-- What a parsed script leaves in stock. -/
theorem keeps_of_parseFrom {next next' : Nat} {s : Script} {limit : Nat} {n : Node}
    (h : parseFrom next s limit = (.ok n, next')) : Keeps [(.statement, n)] next next' := by
  cases hchecked : checkedTree s limit with
  | error e =>
    unfold parseFrom at h
    rw [hchecked] at h
    cases h
  | ok t =>
    have hsettles := settles_parseFrom hchecked next
    rwa [h] at hsettles

/-- A parsed script has a meaning, and its nodes have different numbers. -/
theorem meaningful_of_parseFrom {next : Nat} {s : Script} {limit : Nat} {n : Node}
    (h : (parseFrom next s limit).1 = .ok n) :
    Lowering.Meaningful .statement n ∧ n.ids.Nodup := by
  have hkeeps := keeps_of_parseFrom (Prod.ext h rfl)
  exact ⟨hkeeps.meaningful _ List.mem_cons_self, by simpa [ids_singleton] using hkeeps.nodup⟩

/-- **The numbers of a parsed script tell its nodes apart**: they are all different and are taken
from the next free one on, and every node has a higher number than all nodes inside it. -/
theorem ids_of_parseFrom {next next' : Nat} {s : Script} {limit : Nat} {n : Node}
    (h : parseFrom next s limit = (.ok n, next')) :
    n.ids.Nodup ∧ (∀ i ∈ n.ids, next ≤ i ∧ i < next') ∧
      ∀ m ∈ n.subtree, ∀ d ∈ m.subtree.tail, d.id < m.id := by
  have hkeeps := keeps_of_parseFrom h
  refine ⟨?_, ?_, hkeeps.descends _ List.mem_cons_self⟩
  · simpa [ids_singleton] using hkeeps.nodup
  · simpa [ids_singleton] using hkeeps.bounds

/-- A conditional with a bare name and a block. -/
def namedCondition : Script :=
  .ofSource "condition" "<?php if(A){;}"

/-- The constant is made around its name, and the block that becomes a body has used up a 4. -/
theorem ids_namedCondition :
    ∃ n next', parseFrom 1 namedCondition 10 = (.ok n, next') ∧ n.ids = [6, 5, 2, 1, 3] ∧
      n.ids.Nodup ∧ (∀ i ∈ n.ids, 1 ≤ i ∧ i < next') ∧
      ∀ m ∈ n.subtree, ∀ d ∈ m.subtree.tail, d.id < m.id := by
  have hids : (parseFrom 1 namedCondition 10).1.toOption.map Node.ids = some [6, 5, 2, 1, 3] := by
    decide +kernel
  obtain ⟨n, hn, hids⟩ := Option.map_eq_some_iff.mp hids
  have h := eq_ok_of_toOption hn
  exact ⟨n, _, h, hids, ids_of_parseFrom h⟩

end Syntax

namespace Lowering

open Syntax (Node)

/-- **Every parsed script is lowered exactly under the limits that are not below its height**;
under the others it is too deep, and under all of them the listing is the same. -/
theorem lowers_parsed_iff {next : Nat} {s : Script} {limit : Nat} {n : Node}
    (h : (Syntax.parseFrom next s limit).1 = .ok n) (o : Options) :
    ((∃ l, listing n o = .ok l) ↔ height n .statement ≤ o.maxDepth) ∧
    (∀ e, listing n o = .error e → e.cause = .tooDeep o.maxDepth) ∧
    ∀ d d', height n .statement ≤ d → height n .statement ≤ d' →
      listing n { o with maxDepth := d } = listing n { o with maxDepth := d' } := by
  obtain ⟨hn, hids⟩ := Syntax.meaningful_of_parseFrom h
  refine ⟨lowers_iff_height_le hn hids, fun e => cause_of_listing_eq_error hn,
    fun d d' hd hd' => ?_⟩
  have hmono {d d' : Nat} (hd : height n .statement ≤ d) (hle : d ≤ d') :
      listing n { o with maxDepth := d' } = listing n { o with maxDepth := d } :=
    listing_eq_of_height_le hn hids (o := { o with maxDepth := d }) rfl hd hle
  obtain hle | hle := Nat.le_total d d'
  · exact (hmono hd hle).symm
  · exact hmono hd' hle

/-- An assignment of a call: the script, the statement, the call and its argument are a level
each. -/
theorem lowers_parsed_assignedCall :
    ∃ n, (Syntax.parseFrom 1 (.ofSource "call" "<?php $a = f(1);") 10).1 = .ok n ∧
      height n .statement = 4 ∧ (∃ l, listing n { maxDepth := 4 } = .ok l) ∧
      ∀ l, listing n { maxDepth := 3 } ≠ .ok l := by
  have hheight : (Syntax.parseFrom 1 (.ofSource "call" "<?php $a = f(1);") 10).1.toOption.map
      (height · .statement) = some 4 := by
    decide +kernel
  obtain ⟨n, hn, hheight⟩ := Option.map_eq_some_iff.mp hheight
  have h := congrArg Prod.fst (Syntax.eq_ok_of_toOption hn)
  refine ⟨n, h, hheight, (lowers_parsed_iff h _).1.mpr (Nat.le_of_eq hheight), fun l hl => ?_⟩
  have hle := (lowers_parsed_iff h _).1.mp ⟨l, hl⟩
  rw [hheight] at hle
  exact absurd hle (by decide)

end Lowering

end ThreeAddress

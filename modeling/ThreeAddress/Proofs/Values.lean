import ThreeAddress.Proofs.Runs
import ThreeAddress.Proofs.Standing

/-!
# Plans of values

A plan that is used as a value has no control flow of its own: **all that has to run before
the value is used are plain lines** (`Runs.straight`). A closure is such a plan as well, since
its body is a part of its text.
-/

namespace ThreeAddress.Lowering

open Syntax (Node)

namespace Plan

/-- The plan has no control flow but inside the text of a closure. -/
def IsValue : Plan → Prop
  | .nothing | .text _ | .mark _ | .fail _ => True
  | .both p q | .shownBefore p q => p.IsValue ∧ q.IsValue
  | .guarded _ p | .expression _ p | .unlessEmpty _ p _ | .compact p | .bind p | .effects p
  | .line p | .valueLine p => p.IsValue
  | .closed header _ => header.IsValue
  | _ => False

theorem isValue_joined {s : String} {ps : List Plan} (h : ∀ p ∈ ps, p.IsValue) :
    (joined s ps).IsValue := by
  fun_induction joined s ps with
  | case1 => trivial
  | case2 p => exact h p List.mem_cons_self
  | case3 p q ps ih =>
    obtain ⟨hp, hps⟩ := List.forall_mem_cons.mp h
    exact ⟨⟨hp, trivial⟩, ih hps⟩

end Plan

/-- Arguments can be added to an instantiation. -/
theorem isValue_instantiation {n : Planned} {args : List Planned}
    (hn : (instantiation n []).IsValue) (hargs : ∀ m ∈ args, (argument m).IsValue) :
    (instantiation n args).IsValue := by
  have hjoined : (arguments args).IsValue :=
    Plan.isValue_joined (List.forall_mem_map.mpr hargs)
  obtain ⟨id, k, location, span, plan⟩ := n
  cases k with
  | classDecl => exact ⟨⟨⟨⟨⟨trivial, trivial⟩, hjoined⟩, trivial⟩, hn.1.2⟩, trivial⟩
  | _ => exact ⟨⟨⟨hn.1.1.1, trivial⟩, hjoined⟩, trivial⟩

/-- A plan that is used as a value and made of values is one. -/
theorem Made.isValue {u : Use} {p : Plan} {ps : List Part} (h : Made u p ps) (hu : u = .value)
    (hps : ∀ x ∈ ps, x.1 = .value → x.2.IsValue) : p.IsValue := by
  induction h with
  | part => exact hps _ List.mem_cons_self hu
  | asCode | jump | closeCase | ifThen | ifThenElse | whileLoop | doWhile | barrier | forLoop
  | endless | foreachLoop | inSwitch | apart | declared | braced => cases hu
  | nothing | text => trivial
  | append _ _ hp hq | shownBefore _ _ hp hq =>
    obtain ⟨h₁, h₂⟩ := List.forall_mem_append.mp hps
    exact ⟨hp hu h₁, hq hu h₂⟩
  | unlessEmpty _ hp | compact _ hp | bind _ hp | effects _ hp | line _ _ hp | valueLine _ hp =>
    exact hp hu hps
  | closed _ _ hp _ => exact hp hu (List.forall_mem_append.mp hps).1
  | instantiation =>
    obtain ⟨hn, hargs⟩ := List.forall_mem_cons.mp hps
    exact isValue_instantiation (hn rfl) fun m hm => hargs _ (List.mem_map_of_mem hm) rfl

theorem inherited_isValue : Inherited (fun _ => True) fun u p => u = .value → p.IsValue where
  made h hps hu := h.isValue hu hps
  mark _ _ := trivial
  fail _ := trivial
  guarded _ hp hu := hp hu
  expression _ hp hu := hp hu
  statement _ _ hu := nomatch hu

/-- **A node in the role of a value has the plan of a value.** -/
theorem isValue_as (n : Node) {r : Role} (hu : r.use = .value) : ((planned n).as r).IsValue :=
  inherited_isValue.as n (fun _ _ => trivial) (fun _ _ _ _ _ h => nomatch h) r hu

/-! ## Straight code -/

/-- The instructions are plain lines. -/
def Straight (code : List Instruction) : Prop :=
  ∀ i ∈ code, ∃ s, i = .text s

namespace Straight

theorem nil : Straight [] :=
  List.forall_mem_nil _

theorem text (s : String) : Straight [.text s] :=
  List.forall_mem_singleton.mpr ⟨s, rfl⟩

theorem append {code code' : List Instruction} (h : Straight code) (h' : Straight code') :
    Straight (code ++ code') :=
  List.forall_mem_append.mpr ⟨h, h'⟩

theorem wrapped {a : Lowered} {before after : String} (h : Straight a.effects) :
    Straight (a.wrapped before after).effects := by
  unfold Lowered.wrapped
  split <;> exact h

theorem asValueLine {a : Lowered} (h : Straight a.effects) : Straight a.asValueLine.effects := by
  unfold Lowered.asValueLine
  split
  · exact h
  · exact h.append (text _)

end Straight

/-- **Before a value is used, only plain lines run.** -/
theorem Plan.Runs.straight {p : Plan} {c c' : Context} {a : Lowered} (h : Runs p c a c')
    (hp : p.IsValue) : Straight a.effects := by
  induction h with
  | nothing | text | mark | guardedAgain | expressionAgain | closed => exact .nil
  | both _ _ h₁ h₂ => exact (h₁ hp.1).append (h₂ hp.2)
  | shownBefore _ _ h₁ h₂ => exact (h₁ hp.2).append (h₂ hp.1)
  | guarded _ _ ih | expression _ _ _ ih => exact ih hp
  | compact _ ih | effects _ ih => exact ih hp
  | unlessEmpty _ ih => exact (ih hp).wrapped
  | bind _ ih | line _ ih => exact (ih hp).append (.text _)
  | valueLine _ ih => exact (ih hp).asValueLine
  | _ => exact hp.elim

end ThreeAddress.Lowering

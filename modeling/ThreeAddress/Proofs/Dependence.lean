import Mathlib.Data.List.Perm.Subperm
import ThreeAddress.Proofs.Values

/-!
# What a run depends on

A run reads little of its context: the counters, whether its own nodes were met before, how
many levels are left, and, unless it gives a value, the frames around it. **From a context that
is alike in these, the same plan runs with the same result** (`Runs.transfer`).
-/

namespace ThreeAddress.Lowering

open Syntax (Node)
open scoped List

namespace Plan

/-- The numbers of the nodes that a plan meets. -/
def ids : Plan → List Nat
  | .nothing | .text _ | .fail _ | .emit _ | .jump _ _ | .closeCase => []
  | .mark id => [id]
  | .guarded id p => id :: p.ids
  | .expression t p | .statement t p => t.id :: p.ids
  | .unlessEmpty _ p _ | .compact p | .bind p | .effects p | .line p | .valueLine p | .barrier p
  | .inSwitch p | .apart p | .declared _ p => p.ids
  | .both p q | .shownBefore p q | .closed p q | .ifThen p q | .whileLoop p q
  | .doWhile p q => p.ids ++ q.ids
  | .ifThenElse p q r | .endless p q r | .foreachLoop p q r => p.ids ++ q.ids ++ r.ids
  | .forLoop i g c s b => i.ids ++ g.ids ++ c.ids ++ s.ids ++ b.ids

/-- A run comes back to the level that it started from. -/
theorem Runs.depth_eq {p : Plan} {c c' : Context} {a : Lowered} (h : Runs p c a c') :
    c'.depth = c.depth := by
  induction h with
  | nothing | text | mark | guardedAgain | expressionAgain | statementAgain | emit | jump
  | closeCase => rfl
  | guarded _ _ hp | unlessEmpty _ hp | compact _ hp | bind _ hp | effects _ hp | line _ hp
  | valueLine _ hp | barrier _ hp | inSwitch _ hp | apart _ hp | declared _ hp => exact hp
  | expression _ _ _ hp | statement _ _ _ hp => exact congrArg (· - 1) hp
  | both _ _ h₁ h₂ | shownBefore _ _ h₁ h₂ | closed _ _ h₁ h₂ | ifThen _ _ h₁ h₂
  | whileLoop _ _ h₁ h₂ | doWhile _ _ h₁ h₂ => exact h₂.trans h₁
  | ifThenElse _ _ _ h₁ h₂ h₃ | endless _ _ _ h₁ h₂ h₃ | foreachLoop _ _ _ h₁ h₂ h₃ =>
    exact h₃.trans (h₂.trans h₁)
  | forLoop _ _ _ _ _ h₁ h₂ h₃ h₄ h₅ => exact h₅.trans (h₄.trans (h₃.trans (h₂.trans h₁)))

theorem Runs.options_eq {p : Plan} {c c' : Context} {a : Lowered} (h : Runs p c a c') :
    c'.options = c.options := by
  induction h with
  | nothing | text | mark | guardedAgain | expressionAgain | statementAgain | emit | jump
  | closeCase => rfl
  | guarded _ _ hp | unlessEmpty _ hp | compact _ hp | bind _ hp | effects _ hp | line _ hp
  | valueLine _ hp | barrier _ hp | inSwitch _ hp | apart _ hp | declared _ hp
  | expression _ _ _ hp | statement _ _ _ hp => exact hp
  | both _ _ h₁ h₂ | shownBefore _ _ h₁ h₂ | closed _ _ h₁ h₂ | ifThen _ _ h₁ h₂
  | whileLoop _ _ h₁ h₂ | doWhile _ _ h₁ h₂ => exact h₂.trans h₁
  | ifThenElse _ _ _ h₁ h₂ h₃ | endless _ _ _ h₁ h₂ h₃ | foreachLoop _ _ _ h₁ h₂ h₃ =>
    exact h₃.trans (h₂.trans h₁)
  | forLoop _ _ _ _ _ h₁ h₂ h₃ h₄ h₅ => exact h₅.trans (h₄.trans (h₃.trans (h₂.trans h₁)))

end Plan

/-! ## Nodes that are met -/

theorem Context.mem_met {c : Context} {id i : Nat} :
    i ∈ (c.met id).visited ↔ i = id ∨ i ∈ c.visited := by
  show i ∈ c.visited.insert id ↔ _
  rw [Std.HashSet.mem_insert, beq_iff_eq, eq_comm]

/-- From one context to the next, only the given nodes are met. -/
def Meets (ids : List Nat) (c c' : Context) : Prop :=
  ∀ i ∈ c'.visited, i ∈ c.visited ∨ i ∈ ids

namespace Meets

theorem refl {c : Context} {is : List Nat} : Meets is c c :=
  fun _ h => .inl h

theorem trans {is js : List Nat} {c c₁ c₂ : Context} (h : Meets is c c₁)
    (h' : Meets js c₁ c₂) : Meets (is ++ js) c c₂ := by
  intro i hi
  rw [List.mem_append]
  obtain hi | hi := h' i hi
  · exact (h i hi).imp_right .inl
  · exact .inr (.inr hi)

theorem mono {is js : List Nat} {c c' : Context} (h : Meets is c c') (hsub : is ⊆ js) :
    Meets js c c' :=
  fun i hi => (h i hi).imp_right fun hi => hsub hi

theorem met {c c' : Context} {is : List Nat} {id : Nat} (h : Meets is (c.met id) c') :
    Meets (id :: is) c c' := by
  intro i hi
  obtain hi | hi := h i hi
  · obtain rfl | hi := Context.mem_met.mp hi
    · exact .inr List.mem_cons_self
    · exact .inl hi
  · exact .inr (List.mem_cons_of_mem _ hi)

end Meets

/-- **A run meets no node but its own.** -/
theorem Plan.Runs.meets {p : Plan} {c c' : Context} {a : Lowered} (h : Runs p c a c') :
    Meets p.ids c c' := by
  induction h with
  | nothing | text | emit | jump | closeCase => exact .refl
  | mark => exact .met .refl
  | guardedAgain | expressionAgain | statementAgain => exact .met .refl
  | guarded _ _ ih | expression _ _ _ ih | statement _ _ _ ih => exact .met ih
  | unlessEmpty _ ih | compact _ ih | bind _ ih | effects _ ih | line _ ih | valueLine _ ih
  | barrier _ ih | inSwitch _ ih | apart _ ih | declared _ ih => exact ih
  | both _ _ h₁ h₂ | closed _ _ h₁ h₂ | ifThen _ _ h₁ h₂ | whileLoop _ _ h₁ h₂
  | doWhile _ _ h₁ h₂ => exact h₁.trans h₂
  | shownBefore _ _ h₁ h₂ => exact (h₁.trans h₂).mono (List.perm_append_comm.subset)
  | ifThenElse _ _ _ h₁ h₂ h₃ | foreachLoop _ _ _ h₁ h₂ h₃ => exact (h₁.trans h₂).trans h₃
  | endless _ _ _ h₁ h₂ h₃ =>
    refine ((h₁.trans h₂).trans h₃).mono ?_
    simp only [Plan.ids]
    grind
  | forLoop _ _ _ _ _ h₁ h₂ h₃ h₄ h₅ =>
    refine ((((h₁.trans h₂).trans h₃).trans h₄).trans h₅).mono ?_
    simp only [Plan.ids]
    grind

theorem Plan.ids_joined {s : String} (ps : List Plan) :
    (joined s ps).ids = ps.flatMap ids := by
  fun_induction joined s ps with
  | case1 => rfl
  | case2 p => simp
  | case3 p q ps ih =>
    show (p.ids ++ []) ++ _ = _
    rw [List.append_nil, ih]
    rfl

/-- Arguments add their own nodes to an instantiation. -/
theorem ids_instantiation (n : Planned) (args : List Planned) :
    (instantiation n args).ids.Perm
      ((instantiation n []).ids ++ args.flatMap fun m => (argument m).ids) := by
  have hargs : (arguments args).ids = args.flatMap fun m => (argument m).ids := by
    unfold arguments
    rw [Plan.ids_joined, List.flatMap_map]
  have swap (is js ks : List Nat) : (is ++ js ++ ks).Perm (is ++ ks ++ js) := by
    rw [List.append_assoc, List.append_assoc]
    exact List.perm_append_comm.append_left is
  have named (is : List Nat) : ([] ++ is ++ [] ++ (arguments args).ids ++ []).Perm
      ([] ++ is ++ [] ++ [] ++ [] ++ (arguments args).ids) := by
    simp
  rw [← hargs]
  obtain ⟨id, k, location, span, plan⟩ := n
  cases k with
  | classDecl _ _ parent interfaces members =>
    have h := swap [id] (arguments args).ids
      ((classParents parent interfaces).ids ++ (codeOf members).ids)
    show ([id] ++ [] ++ (arguments args).ids ++ [] ++ (classParents parent interfaces).ids
      ++ (codeOf members).ids).Perm ([id] ++ [] ++ [] ++ [] ++ (classParents parent interfaces).ids
      ++ (codeOf members).ids ++ (arguments args).ids)
    simpa only [List.append_nil, List.append_assoc] using h
  | _ => exact named _

theorem Plan.ids_braced (p q : Plan) : (Plan.braced p q).ids = p.ids ++ q.ids := by
  show p.ids ++ [] ++ q.ids ++ [] = _
  simp

/-- **A plan meets the nodes that its parts meet.** -/
theorem Made.ids_perm {u : Use} {p : Plan} {ps : List Part} (h : Made u p ps) :
    p.ids.Perm (ps.flatMap fun x => x.2.ids) := by
  induction h with
  | part => simp
  | nothing | text | jump | closeCase => exact .refl _
  | asCode _ hp | unlessEmpty _ hp | compact _ hp | bind _ hp | effects _ hp | line _ _ hp
  | valueLine _ hp | barrier _ hp | inSwitch _ hp | apart _ hp | declared _ hp => exact hp
  | append _ _ hp hq | shownBefore _ _ hp hq | closed _ _ hp hq | ifThen _ _ hp hq
  | whileLoop _ _ hp hq | doWhile _ _ hp hq =>
    rw [List.flatMap_append]
    exact hp.append hq
  | braced _ _ _ hp hq =>
    rw [Plan.ids_braced, List.flatMap_append]
    exact hp.append hq
  | @instantiation n args =>
    rw [List.flatMap_cons, List.flatMap_map]
    exact ids_instantiation n args
  | ifThenElse _ _ _ hp hq hr | endless _ _ _ hp hq hr | foreachLoop _ _ _ hp hq hr =>
    rw [List.flatMap_append, List.flatMap_append]
    exact (hp.append hq).append hr
  | forLoop _ _ _ _ _ hi hg hc hs hb =>
    rw [List.flatMap_append, List.flatMap_append, List.flatMap_append, List.flatMap_append]
    exact (((hi.append hg).append hc).append hs).append hb

/-- The children of a node in their roles meet nodes below it, and none of them twice. -/
theorem ids_parts_subperm (n : Node)
    (h : ∀ m ∈ n.kind.children, ∀ r, ((planned m).as r).ids <+~ m.ids) :
    ((parts (planned n).kind).flatMap fun x => x.2.ids) <+~ n.kind.children.flatMap Node.ids := by
  have hmem : ∀ x ∈ placed n.kind, x.2 ∈ n.kind.children := fun x hx => by
    rw [← map_snd_placed]
    exact List.mem_map_of_mem hx
  rw [parts_planned, ← map_snd_placed, List.flatMap_map, List.flatMap_map]
  generalize placed n.kind = xs at hmem
  induction xs with
  | nil => exact .refl _
  | cons x xs ih =>
    obtain ⟨hx, hxs⟩ := List.forall_mem_cons.mp hmem
    exact (h x.2 hx x.1).append (ih hxs)

/-- The plan of a node as it was made meets nodes below it. -/
theorem ids_plan_subperm (n : Node)
    (h : ∀ m ∈ n.kind.children, ∀ r, ((planned m).as r).ids <+~ m.ids)
    (hk : (planned n).kind.isExpression ∨ (planned n).kind.isStatement) :
    (planned n).plan.ids <+~ n.kind.children.flatMap Node.ids := by
  rw [planned_plan]
  by_cases hg : (planned n).kind.isGoto
  · obtain ⟨-, i, hi, -⟩ := kindPlan_eq_emit (t := (planned n).tag) hg
    rw [hi]
    exact List.nil_subperm
  · by_cases ht : (planned n).kind.hasToken
    · obtain ⟨hv, hs⟩ := made_kindPlan (t := (planned n).tag) hg ht
      obtain hk | hk := hk
      · exact (hv hk).ids_perm.subperm.trans (ids_parts_subperm n h)
      · exact (hs hk).ids_perm.subperm.trans (ids_parts_subperm n h)
    · obtain ⟨e, he⟩ := kindPlan_eq_fail (t := (planned n).tag) ht
      rw [he]
      exact List.nil_subperm

/-- **A node in a role meets nodes of its tree, and none of them twice** unless the tree has it
twice. -/
theorem ids_as_subperm (n : Node) (r : Role) : ((planned n).as r).ids <+~ n.ids := by
  induction n using Node.induction_on_children generalizing r with
  | step n ih =>
    have hparts := ids_parts_subperm n ih
    have hplan := ids_plan_subperm n ih
    rw [Node.ids_eq, ← planned_id]
    have hcons {is : List Nat} (h : is <+~ n.kind.children.flatMap Node.ids) :
        (planned n).id :: is <+~ (planned n).id :: n.kind.children.flatMap Node.ids :=
      (List.subperm_cons _).mpr h
    cases stands (planned_plan n) r with
    | level hs hm =>
      refine hm.ids_perm.subperm.trans ?_
      rw [List.flatMap_singleton]
      cases hu : r.use with
      | value => exact hcons (hplan (.inl (isExpression_of_level hu hs)))
      | code => exact hcons (hplan (.inr (isStatement_of_level hu hs)))
    | guarded hs hu hm hp =>
      refine hm.ids_perm.subperm.trans ?_
      rw [List.flatMap_singleton]
      exact hcons (hp.ids_perm.subperm.trans hparts)
    | marked hs hm => exact hm.ids_perm.subperm.trans (hcons hparts)
    | wrong hs hm hps =>
      refine hm.ids_perm.subperm.trans ?_
      rw [List.flatMap_append]
      exact ((hps.flatMap _).subperm.append (.refl [])).trans (hcons List.nil_subperm)

/-- The plan of a node meets nodes of its tree only. -/
theorem ids_as_subset (n : Node) (r : Role) : ((planned n).as r).ids ⊆ n.ids :=
  (ids_as_subperm n r).subset

/-! ## Contexts that are alike -/

/-- The contexts agree on what a run that meets only nodes in `S` reads, but for the frames. -/
structure Alike (S : Nat → Prop) (c d : Context) : Prop where
  temps : c.temps = d.temps
  labels : c.labels = d.labels
  switchFallthrough : c.options.switchFallthrough = d.options.switchFallthrough
  room : c.options.maxDepth - c.depth ≤ d.options.maxDepth - d.depth
  visited : ∀ i, S i → (i ∈ c.visited ↔ i ∈ d.visited)

namespace Alike

variable {S : Nat → Prop} {c d : Context}

theorem met (h : Alike S c d) (id : Nat) : Alike S (c.met id) (d.met id) where
  temps := h.temps
  labels := h.labels
  switchFallthrough := h.switchFallthrough
  room := h.room
  visited i hi := by rw [Context.mem_met, Context.mem_met, h.visited i hi]

theorem told (h : Alike S c d) (e e' : Event) : Alike S (c.told e) (d.told e') :=
  ⟨h.temps, h.labels, h.switchFallthrough, h.room, h.visited⟩

theorem framed (h : Alike S c d) (fs fs' : List Frame) : Alike S (c.framed fs) (d.framed fs') :=
  ⟨h.temps, h.labels, h.switchFallthrough, h.room, h.visited⟩

theorem temped (h : Alike S c d) : Alike S c.temped d.temped :=
  ⟨congrArg (· + 1) h.temps, h.labels, h.switchFallthrough, h.room, h.visited⟩

theorem labelled (h : Alike S c d) : Alike S c.labelled d.labelled :=
  ⟨h.temps, congrArg (· + 1) h.labels, h.switchFallthrough, h.room, h.visited⟩

theorem below (h : Alike S c d) : Alike S c.below d.below := by
  refine ⟨h.temps, h.labels, h.switchFallthrough, ?_, h.visited⟩
  have := h.room
  show c.options.maxDepth - (c.depth + 1) ≤ d.options.maxDepth - (d.depth + 1)
  omega

theorem depth_lt (h : Alike S c d) (hc : c.depth < c.options.maxDepth) :
    d.depth < d.options.maxDepth := by
  have := h.room
  omega

end Alike

theorem Context.jump_congr {c d : Context} (h : c.frames = d.frames) (j : Jump)
    (levels : Option Nat) : c.jump j levels = d.jump j levels := by
  unfold Context.jump Context.frame?
  rw [h]

/-- Back at the level of contexts that were alike, the new ones are, too. -/
theorem Alike.above {S : Nat → Prop} {c d c' d' : Context} (h : Alike S c' d')
    (hcd : Alike S c d) (hc : c'.depth = c.depth + 1) (hd : d'.depth = d.depth + 1)
    (hco : c'.options = c.options) (hdo : d'.options = d.options) :
    Alike S c'.above d'.above := by
  refine ⟨h.temps, h.labels, h.switchFallthrough, ?_, h.visited⟩
  show c'.options.maxDepth - (c'.depth - 1) ≤ d'.options.maxDepth - (d'.depth - 1)
  rw [hc, hd, hco, hdo]
  exact hcd.room

/-- **From a context that is alike, a plan runs with the same result.** -/
theorem Plan.Runs.transfer {p : Plan} {c c' : Context} {a : Lowered} (h : Runs p c a c')
    {S : Nat → Prop} {d : Context} (hcd : Alike S c d) (hS : ∀ i ∈ p.ids, S i)
    (hf : p.IsValue ∨ c.frames = d.frames) : ∃ d', Runs p d a d' ∧ Alike S c' d' := by
  induction h generalizing d with
  | nothing => exact ⟨d, .nothing, hcd⟩
  | both h₁ h₂ ih₁ ih₂ =>
    obtain ⟨hS₁, hS₂⟩ := List.forall_mem_append.mp hS
    obtain ⟨d₁, r₁, a₁⟩ := ih₁ hcd hS₁ (hf.imp_left And.left)
    obtain ⟨d₂, r₂, a₂⟩ := ih₂ a₁ hS₂ (hf.imp And.right fun hf => by
      rw [h₁.frames_eq, r₁.frames_eq, hf])
    exact ⟨d₂, .both r₁ r₂, a₂⟩
  | text => exact ⟨d, .text, hcd⟩
  | mark => exact ⟨_, .mark, hcd.met _⟩
  | guarded hid _ ih =>
    obtain ⟨hSid, hS⟩ := List.forall_mem_cons.mp hS
    obtain ⟨d', r, ha⟩ := ih (hcd.met _) hS hf
    exact ⟨d', .guarded (mt (hcd.visited _ hSid).mpr hid) r, ha⟩
  | guardedAgain hid =>
    obtain ⟨hSid, -⟩ := List.forall_mem_cons.mp hS
    exact ⟨_, .guardedAgain ((hcd.visited _ hSid).mp hid), hcd.met _⟩
  | expression hid hd h ih =>
    obtain ⟨hSid, hS⟩ := List.forall_mem_cons.mp hS
    obtain ⟨d', r, ha⟩ := ih (hcd.met _).below hS hf
    exact ⟨d'.above, .expression (mt (hcd.visited _ hSid).mpr hid) (hcd.depth_lt hd) r,
      ha.above hcd h.depth_eq r.depth_eq h.options_eq r.options_eq⟩
  | expressionAgain hid =>
    obtain ⟨hSid, -⟩ := List.forall_mem_cons.mp hS
    exact ⟨_, .expressionAgain ((hcd.visited _ hSid).mp hid), hcd.met _⟩
  | statement hid hd h ih =>
    obtain ⟨hSid, hS⟩ := List.forall_mem_cons.mp hS
    obtain ⟨d', r, ha⟩ := ih ((hcd.met _).told _ _).below hS (.inr (hf.resolve_left id))
    exact ⟨d'.above, .statement (mt (hcd.visited _ hSid).mpr hid) (hcd.depth_lt hd) r,
      ha.above hcd h.depth_eq r.depth_eq h.options_eq r.options_eq⟩
  | statementAgain hid =>
    obtain ⟨hSid, -⟩ := List.forall_mem_cons.mp hS
    exact ⟨_, .statementAgain ((hcd.visited _ hSid).mp hid), hcd.met _⟩
  | unlessEmpty _ ih =>
    obtain ⟨d', r, ha⟩ := ih hcd hS hf
    exact ⟨d', .unlessEmpty r, ha⟩
  | compact _ ih =>
    obtain ⟨d', r, ha⟩ := ih hcd hS hf
    exact ⟨d', .compact r, ha⟩
  | shownBefore h₁ h₂ ih₁ ih₂ =>
    obtain ⟨hS₂, hS₁⟩ := List.forall_mem_append.mp hS
    obtain ⟨d₁, r₁, a₁⟩ := ih₁ hcd hS₁ (hf.imp_left And.right)
    obtain ⟨d₂, r₂, a₂⟩ := ih₂ a₁ hS₂ (hf.imp And.left fun hf => by
      rw [h₁.frames_eq, r₁.frames_eq, hf])
    exact ⟨d₂, .shownBefore r₁ r₂, a₂⟩
  | bind _ ih =>
    obtain ⟨d', r, ha⟩ := ih hcd hS hf
    rw [ha.temps]
    exact ⟨_, .bind r, ha.temped⟩
  | closed _ _ ih₁ ih₂ =>
    obtain ⟨hS₁, hS₂⟩ := List.forall_mem_append.mp hS
    obtain ⟨d₁, r₁, a₁⟩ := ih₁ hcd hS₁ hf
    obtain ⟨d₂, r₂, a₂⟩ := ih₂ (a₁.framed [] []) hS₂ (.inr rfl)
    exact ⟨_, .closed r₁ r₂, a₂.framed _ _⟩
  | effects _ ih =>
    obtain ⟨d', r, ha⟩ := ih hcd hS hf
    exact ⟨d', .effects r, ha⟩
  | line _ ih =>
    obtain ⟨d', r, ha⟩ := ih hcd hS hf
    exact ⟨d', .line r, ha⟩
  | valueLine _ ih =>
    obtain ⟨d', r, ha⟩ := ih hcd hS hf
    exact ⟨d', .valueLine r, ha⟩
  | emit => exact ⟨d, .emit, hcd⟩
  | jump =>
    rw [Context.jump_congr (hf.resolve_left id)]
    exact ⟨d, .jump, hcd⟩
  | closeCase =>
    rw [hcd.switchFallthrough]
    exact ⟨d, .closeCase, hcd⟩
  | ifThen h₁ _ ih₁ ih₂ =>
    obtain ⟨hS₁, hS₂⟩ := List.forall_mem_append.mp hS
    have hf := hf.resolve_left id
    obtain ⟨d₁, r₁, a₁⟩ := ih₁ hcd hS₁ (.inr hf)
    obtain ⟨d₂, r₂, a₂⟩ := ih₂ a₁.labelled hS₂
      (.inr (h₁.frames_eq.trans (hf.trans r₁.frames_eq.symm)))
    rw [a₁.labels]
    exact ⟨d₂, .ifThen r₁ r₂, a₂⟩
  | ifThenElse h₁ h₂ _ ih₁ ih₂ ih₃ =>
    obtain ⟨hS, hS₃⟩ := List.forall_mem_append.mp hS
    obtain ⟨hS₁, hS₂⟩ := List.forall_mem_append.mp hS
    have hf := hf.resolve_left id
    obtain ⟨d₁, r₁, a₁⟩ := ih₁ hcd hS₁ (.inr hf)
    have hf₁ := h₁.frames_eq.trans (hf.trans r₁.frames_eq.symm)
    obtain ⟨d₂, r₂, a₂⟩ := ih₂ a₁.labelled.labelled hS₂ (.inr hf₁)
    obtain ⟨d₃, r₃, a₃⟩ := ih₃ a₂ hS₃ (.inr (h₂.frames_eq.trans (hf₁.trans r₂.frames_eq.symm)))
    rw [a₁.labels]
    exact ⟨d₃, .ifThenElse r₁ r₂ r₃, a₃⟩
  | whileLoop h₁ _ ih₁ ih₂ =>
    obtain ⟨hS₁, hS₂⟩ := List.forall_mem_append.mp hS
    have hf := hf.resolve_left id
    obtain ⟨d₁, r₁, a₁⟩ := ih₁ hcd.labelled.labelled hS₁ (.inr hf)
    have hf₁ := h₁.frames_eq.trans (hf.trans r₁.frames_eq.symm)
    rw [hcd.labels] at ih₂ ⊢
    obtain ⟨d₂, r₂, a₂⟩ := ih₂ (a₁.framed _ _) hS₂ (.inr (congrArg (_ :: ·) hf₁))
    exact ⟨_, .whileLoop r₁ r₂, a₂.framed _ _⟩
  | doWhile h₁ _ ih₁ ih₂ =>
    obtain ⟨hS₁, hS₂⟩ := List.forall_mem_append.mp hS
    have hf := hf.resolve_left id
    rw [hcd.labels] at ih₁ ⊢
    obtain ⟨d₁, r₁, a₁⟩ := ih₁ (hcd.labelled.labelled.framed _ _) hS₁
      (.inr (congrArg (_ :: ·) hf))
    obtain ⟨d₂, r₂, a₂⟩ := ih₂ (a₁.framed _ _) hS₂ (.inr hf)
    exact ⟨_, .doWhile r₁ r₂, a₂⟩
  | barrier h₁ ih =>
    have hf := hf.resolve_left id
    obtain ⟨d', r, ha⟩ := ih hcd hS (.inr hf)
    rw [ha.labels, Context.jump_congr (h₁.frames_eq.trans (hf.trans r.frames_eq.symm))]
    exact ⟨_, .barrier r, ha.labelled⟩
  | forLoop h₁ _ h₃ _ _ ih₁ ih₂ ih₃ ih₄ ih₅ =>
    obtain ⟨hS, hS₅⟩ := List.forall_mem_append.mp hS
    obtain ⟨hS, hS₄⟩ := List.forall_mem_append.mp hS
    obtain ⟨hS, hS₃⟩ := List.forall_mem_append.mp hS
    obtain ⟨hS₁, hS₂⟩ := List.forall_mem_append.mp hS
    have hf := hf.resolve_left id
    obtain ⟨d₁, r₁, a₁⟩ := ih₁ hcd hS₁ (.inr hf)
    have hf₁ := h₁.frames_eq.trans (hf.trans r₁.frames_eq.symm)
    rw [a₁.labels] at ih₂ ih₄ ⊢
    obtain ⟨d₂, r₂, a₂⟩ := ih₂ (a₁.labelled.labelled.labelled.framed _ _) hS₂
      (.inr (congrArg (_ :: ·) hf₁))
    obtain ⟨d₃, r₃, a₃⟩ := ih₃ (a₂.framed _ _) hS₃ (.inr hf₁)
    have hf₃ := h₃.frames_eq.trans (hf₁.trans r₃.frames_eq.symm)
    obtain ⟨d₄, r₄, a₄⟩ := ih₄ (a₃.framed _ _) hS₅ (.inr (congrArg (_ :: ·) hf₃))
    obtain ⟨d₅, r₅, a₅⟩ := ih₅ (a₄.framed _ _) hS₄ (.inr hf₃)
    exact ⟨d₅, .forLoop r₁ r₂ r₃ r₄ r₅, a₅⟩
  | endless h₁ _ _ ih₁ ih₂ ih₃ =>
    obtain ⟨hS, hS₂⟩ := List.forall_mem_append.mp hS
    obtain ⟨hS₁, hS₃⟩ := List.forall_mem_append.mp hS
    have hf := hf.resolve_left id
    obtain ⟨d₁, r₁, a₁⟩ := ih₁ hcd hS₁ (.inr hf)
    have hf₁ := h₁.frames_eq.trans (hf.trans r₁.frames_eq.symm)
    rw [a₁.labels] at ih₂ ⊢
    obtain ⟨d₂, r₂, a₂⟩ := ih₂ (a₁.labelled.labelled.labelled.framed _ _) hS₂
      (.inr (congrArg (_ :: ·) hf₁))
    obtain ⟨d₃, r₃, a₃⟩ := ih₃ (a₂.framed _ _) hS₃ (.inr hf₁)
    exact ⟨d₃, .endless r₁ r₂ r₃, a₃⟩
  | foreachLoop h₁ h₂ _ ih₁ ih₂ ih₃ =>
    obtain ⟨hS, hS₃⟩ := List.forall_mem_append.mp hS
    obtain ⟨hS₁, hS₂⟩ := List.forall_mem_append.mp hS
    have hf := hf.resolve_left id
    obtain ⟨d₁, r₁, a₁⟩ := ih₁ hcd hS₁ (.inr hf)
    have hf₁ := h₁.frames_eq.trans (hf.trans r₁.frames_eq.symm)
    obtain ⟨d₂, r₂, a₂⟩ := ih₂ a₁ hS₂ (.inr hf₁)
    have hf₂ := h₂.frames_eq.trans (hf₁.trans r₂.frames_eq.symm)
    rw [a₂.labels] at ih₃ ⊢
    obtain ⟨d₃, r₃, a₃⟩ := ih₃ (a₂.labelled.labelled.framed _ _) hS₃
      (.inr (congrArg (_ :: ·) hf₂))
    exact ⟨_, .foreachLoop r₁ r₂ r₃, a₃.framed _ _⟩
  | inSwitch _ ih =>
    obtain ⟨d', r, ha⟩ := ih (hcd.framed _ (.switch :: d.frames)) hS
      (.inr (congrArg (_ :: ·) (hf.resolve_left id)))
    exact ⟨_, .inSwitch r, ha.framed _ _⟩
  | apart _ ih =>
    obtain ⟨d', r, ha⟩ := ih (hcd.framed _ []) hS (.inr rfl)
    exact ⟨_, .apart r, ha.framed _ _⟩
  | declared _ ih =>
    obtain ⟨d', r, ha⟩ := ih hcd hS (.inr (hf.resolve_left id))
    exact ⟨_, .declared r, ha.told _ _⟩

end ThreeAddress.Lowering

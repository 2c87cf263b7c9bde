import ThreeAddress.Proofs.Dependence

/-!
# The height of trees

How many levels the lowering of a node goes down. Statements and expressions count one;
names, assignments whose value is dropped, and parts of their parents count none. A tree in
which every node stands where it has a meaning (`Meaningful`) has a plan without failures,
and **the levels that the plan needs are the height of the tree** (`need_as`).
-/

namespace ThreeAddress.Lowering

open Syntax (Node Kind)

/-- The greatest of some numbers, and zero if there are none. -/
def greatest (ns : List Nat) : Nat :=
  ns.foldr max 0

theorem greatest_cons (n : Nat) (ns : List Nat) : greatest (n :: ns) = max n (greatest ns) :=
  rfl

theorem greatest_append (ms ns : List Nat) :
    greatest (ms ++ ns) = max (greatest ms) (greatest ns) := by
  induction ms with
  | nil => exact (Nat.zero_max _).symm
  | cons m ms ih => rw [List.cons_append, greatest_cons, greatest_cons, ih, Nat.max_assoc]

/-- The levels that a node adds. -/
def Standing.levels : Standing → Nat
  | .level => 1
  | .guarded | .marked | .wrong => 0

/-- **The height of a node in a role**: the levels that it adds, and the greatest height of its
children in their roles. -/
def height (n : Node) : Role → Nat :=
  n.fold fun n k r => (standing r n.kind).levels + greatest ((placed k).map fun x => x.2 x.1)

theorem height_eq (n : Node) (r : Role) :
    height n r
      = (standing r n.kind).levels + greatest ((placed n.kind).map fun x => height x.2 x.1) := by
  unfold height
  rw [Node.fold_eq, placed_foldKind, List.map_map]
  rfl

/-- Every node of the tree has a meaning where it stands. -/
inductive Meaningful : Role → Node → Prop
  | intro {r : Role} {n : Node} : standing r n.kind ≠ .wrong → n.kind.hasToken →
      (∀ x ∈ placed n.kind, Meaningful x.1 x.2) → Meaningful r n

namespace Plan

/-- The levels that a plan goes down. -/
def need : Plan → Nat
  | .nothing | .text _ | .fail _ | .emit _ | .jump _ _ | .closeCase | .mark _ => 0
  | .expression _ p | .statement _ p => p.need + 1
  | .guarded _ p | .unlessEmpty _ p _ | .compact p | .bind p | .effects p | .line p
  | .valueLine p | .barrier p | .inSwitch p | .apart p | .declared _ p => p.need
  | .both p q | .shownBefore p q | .closed p q | .ifThen p q | .whileLoop p q
  | .doWhile p q => max p.need q.need
  | .ifThenElse p q r | .endless p q r | .foreachLoop p q r => max (max p.need q.need) r.need
  | .forLoop i g c s b => max (max (max (max i.need g.need) c.need) s.need) b.need

/-- No part of the plan is a failure. -/
def Sound : Plan → Prop
  | .nothing | .text _ | .emit _ | .jump _ _ | .closeCase | .mark _ => True
  | .fail _ => False
  | .expression _ p | .statement _ p | .guarded _ p | .unlessEmpty _ p _ | .compact p | .bind p
  | .effects p | .line p | .valueLine p | .barrier p | .inSwitch p | .apart p
  | .declared _ p => p.Sound
  | .both p q | .shownBefore p q | .closed p q | .ifThen p q | .whileLoop p q
  | .doWhile p q => p.Sound ∧ q.Sound
  | .ifThenElse p q r | .endless p q r | .foreachLoop p q r => p.Sound ∧ q.Sound ∧ r.Sound
  | .forLoop i g c s b => i.Sound ∧ g.Sound ∧ c.Sound ∧ s.Sound ∧ b.Sound

theorem need_joined {s : String} (ps : List Plan) :
    (joined s ps).need = greatest (ps.map need) := by
  fun_induction joined s ps with
  | case1 => rfl
  | case2 p => exact (Nat.max_zero _).symm
  | case3 p q ps ih =>
    show max (max p.need 0) (joined s (q :: ps)).need = _
    rw [Nat.max_zero, ih]
    rfl

theorem sound_joined {s : String} {ps : List Plan} (h : ∀ p ∈ ps, p.Sound) :
    (joined s ps).Sound := by
  fun_induction joined s ps with
  | case1 => exact trivial
  | case2 p => exact h p List.mem_cons_self
  | case3 p q ps ih =>
    obtain ⟨hp, hps⟩ := List.forall_mem_cons.mp h
    exact ⟨⟨hp, trivial⟩, ih hps⟩

end Plan

/-! ## Plans that are made of parts -/

theorem need_arguments (args : List Planned) :
    (arguments args).need = greatest (args.map fun m => (argument m).need) := by
  unfold arguments
  rw [Plan.need_joined, List.map_map]
  rfl

/-- Arguments add their own levels to an instantiation. -/
theorem need_instantiation (n : Planned) (args : List Planned) :
    (instantiation n args).need
      = max (instantiation n []).need (greatest (args.map fun m => (argument m).need)) := by
  rw [← need_arguments]
  obtain ⟨id, k, location, span, plan⟩ := n
  cases k with
  | classDecl _ _ parent interfaces members =>
    show max (max (max (max (max 0 0) (arguments args).need) 0)
        (classParents parent interfaces).need) (max 0 (codeOf members).need)
      = max (max (max (max (max (max 0 0) 0) 0) (classParents parent interfaces).need)
        (max 0 (codeOf members).need)) (arguments args).need
    omega
  | _ =>
    have named (a : Nat) : max (max (max (max 0 a) 0) (arguments args).need) 0
        = max (max (max (max (max 0 a) 0) 0) 0) (arguments args).need := by
      omega
    exact named _

theorem sound_instantiation {n : Planned} {args : List Planned} (h : (instantiation n []).Sound)
    (hargs : ∀ m ∈ args, (argument m).Sound) : (instantiation n args).Sound := by
  have hjoined : (arguments args).Sound := by
    refine Plan.sound_joined fun p hp => ?_
    obtain ⟨m, hm, rfl⟩ := List.mem_map.mp hp
    exact hargs m hm
  obtain ⟨id, k, location, span, plan⟩ := n
  cases k with
  | classDecl =>
    obtain ⟨⟨⟨⟨hmark, -⟩, hafter⟩, hparents⟩, hbody⟩ := h
    exact ⟨⟨⟨⟨hmark, hjoined⟩, hafter⟩, hparents⟩, hbody⟩
  | _ =>
    obtain ⟨⟨hname, -⟩, hafter⟩ := h
    exact ⟨⟨hname, hjoined⟩, hafter⟩

/-- **A plan goes down as far as its deepest part.** -/
theorem Made.need_eq {u : Use} {p : Plan} {ps : List Part} (h : Made u p ps) :
    p.need = greatest (ps.map fun x => x.2.need) := by
  induction h with
  | part => exact (Nat.max_zero _).symm
  | nothing | text | jump | closeCase => rfl
  | asCode _ hp | unlessEmpty _ hp | compact _ hp | bind _ hp | effects _ hp | line _ _ hp
  | valueLine _ hp | barrier _ hp | inSwitch _ hp | apart _ hp | declared _ hp => exact hp
  | append _ _ hp hq | shownBefore _ _ hp hq | closed _ _ hp hq | ifThen _ _ hp hq
  | whileLoop _ _ hp hq | doWhile _ _ hp hq =>
    rw [List.map_append, greatest_append, ← hp, ← hq]
    rfl
  | @braced p q _ _ _ _ _ hp hq =>
    have hneed : (Plan.braced p q).need = max p.need q.need := by
      show max (max (max p.need 0) q.need) 0 = _
      omega
    rw [hneed, List.map_append, greatest_append, ← hp, ← hq]
  | @instantiation n args =>
    rw [List.map_cons, List.map_map]
    exact need_instantiation n args
  | ifThenElse _ _ _ hp hq hr | endless _ _ _ hp hq hr | foreachLoop _ _ _ hp hq hr =>
    rw [List.map_append, List.map_append, greatest_append, greatest_append, ← hp, ← hq, ← hr]
    rfl
  | forLoop _ _ _ _ _ hi hg hc hs hb =>
    simp only [List.map_append, greatest_append]
    rw [← hi, ← hg, ← hc, ← hs, ← hb]
    rfl

/-- A plan without failing parts does not fail. -/
theorem Made.sound {u : Use} {p : Plan} {ps : List Part} (h : Made u p ps)
    (hps : ∀ x ∈ ps, x.2.Sound) : p.Sound := by
  induction h with
  | part => exact hps _ List.mem_cons_self
  | nothing | text | jump | closeCase => exact trivial
  | asCode _ hp | unlessEmpty _ hp | compact _ hp | bind _ hp | effects _ hp | line _ _ hp
  | valueLine _ hp | barrier _ hp | inSwitch _ hp | apart _ hp | declared _ hp => exact hp hps
  | append _ _ hp hq | shownBefore _ _ hp hq | closed _ _ hp hq | ifThen _ _ hp hq
  | whileLoop _ _ hp hq | doWhile _ _ hp hq =>
    obtain ⟨h₁, h₂⟩ := List.forall_mem_append.mp hps
    exact ⟨hp h₁, hq h₂⟩
  | braced _ _ _ hp hq =>
    obtain ⟨h₁, h₂⟩ := List.forall_mem_append.mp hps
    exact ⟨⟨⟨hp h₁, trivial⟩, hq h₂⟩, trivial⟩
  | @instantiation n args =>
    obtain ⟨hn, hargs⟩ := List.forall_mem_cons.mp hps
    exact sound_instantiation hn fun m hm => hargs _ (List.mem_map_of_mem hm)
  | ifThenElse _ _ _ hp hq hr | endless _ _ _ hp hq hr | foreachLoop _ _ _ hp hq hr =>
    obtain ⟨h₁, h₃⟩ := List.forall_mem_append.mp hps
    obtain ⟨h₁, h₂⟩ := List.forall_mem_append.mp h₁
    exact ⟨hp h₁, hq h₂, hr h₃⟩
  | forLoop _ _ _ _ _ hi hg hc hs hb =>
    obtain ⟨h₁, h₅⟩ := List.forall_mem_append.mp hps
    obtain ⟨h₁, h₄⟩ := List.forall_mem_append.mp h₁
    obtain ⟨h₁, h₃⟩ := List.forall_mem_append.mp h₁
    obtain ⟨h₁, h₂⟩ := List.forall_mem_append.mp h₁
    exact ⟨hi h₁, hg h₂, hc h₃, hs h₄, hb h₅⟩

/-! ## Meaningful trees -/

theorem hasToken_foldKind {β : Type} (f : Node → Kind β → β) (k : Kind Node) :
    (Node.foldKind f k).hasToken = k.hasToken := by
  cases k <;> rfl

theorem hasToken_planned (n : Node) : (planned n).kind.hasToken = n.kind.hasToken := by
  unfold planned
  rw [Node.fold_eq]
  exact hasToken_foldKind _ n.kind

theorem standing_planned (r : Role) (n : Node) :
    standing r (planned n).kind = standing r n.kind :=
  congrArg r.standing (category_planned n)

/-- A label, or a jump to one, has no children. -/
theorem parts_of_isGoto {k : Kind Planned} (h : k.isGoto) : parts k = [] := by
  cases k with
  | goto | label => rfl
  | _ => cases h

/-- The plan of a kind goes down as far as its parts, and fails only if one of them does. -/
theorem need_kindPlan {t : Tag} {k : Kind Planned} (htoken : k.hasToken)
    (hk : k.isExpression ∨ k.isStatement) (hparts : ∀ x ∈ parts k, x.2.Sound) :
    (kindPlan t k).Sound ∧ (kindPlan t k).need = greatest ((parts k).map fun x => x.2.need) := by
  by_cases hg : k.isGoto
  · obtain ⟨-, i, hi, -⟩ := kindPlan_eq_emit (t := t) hg
    rw [hi, parts_of_isGoto hg]
    exact ⟨trivial, rfl⟩
  · obtain ⟨hv, hs⟩ := made_kindPlan (t := t) hg htoken
    obtain hk | hk := hk
    · exact ⟨(hv hk).sound hparts, (hv hk).need_eq⟩
    · exact ⟨(hs hk).sound hparts, (hs hk).need_eq⟩

/-- **A meaningful tree has a plan that does not fail, and that goes down as many levels as the
tree is high.** -/
theorem need_as {n : Node} {r : Role} (h : Meaningful r n) :
    ((planned n).as r).Sound ∧ ((planned n).as r).need = height n r := by
  induction h with
  | @intro r n hwrong htoken _ ih =>
    have hparts : ∀ x ∈ parts (planned n).kind, x.2.Sound := by
      rw [parts_planned]
      intro x hx
      obtain ⟨y, hy, rfl⟩ := List.mem_map.mp hx
      exact (ih y hy).1
    have hneed : greatest ((parts (planned n).kind).map fun x => x.2.need)
        = greatest ((placed n.kind).map fun x => height x.2 x.1) := by
      rw [parts_planned, List.map_map]
      exact congrArg greatest (List.map_congr_left fun x hx => (ih x hx).2)
    rw [← standing_planned] at hwrong
    rw [← hasToken_planned] at htoken
    rw [height_eq, ← standing_planned]
    cases stands (planned_plan n) r with
    | level hs hm =>
      have hk : (planned n).kind.isExpression ∨ (planned n).kind.isStatement := by
        cases hu : r.use with
        | value => exact .inl (isExpression_of_level hu hs)
        | code => exact .inr (isStatement_of_level hu hs)
      obtain ⟨hsound, hplan⟩ := need_kindPlan (t := (planned n).tag) htoken hk hparts
      rw [← planned_plan] at hsound hplan
      have hlevel : ((planned n).leveled r.use).Sound
          ∧ ((planned n).leveled r.use).need = (planned n).plan.need + 1 := by
        cases r.use <;> exact ⟨hsound, rfl⟩
      refine ⟨hm.sound (List.forall_mem_singleton.mpr hlevel.1), ?_⟩
      rw [hm.need_eq, hs, List.map_singleton, hlevel.2, hplan, hneed, Nat.add_comm]
      exact Nat.max_zero _
    | guarded hs hu hm hp =>
      refine ⟨hm.sound (List.forall_mem_singleton.mpr (hp.sound hparts)), ?_⟩
      rw [hm.need_eq, hs, ← hneed, ← hp.need_eq]
      exact (Nat.max_zero _).trans (Nat.zero_add _).symm
    | marked hs hm =>
      refine ⟨hm.sound (List.forall_mem_cons.mpr ⟨trivial, hparts⟩), ?_⟩
      rw [hm.need_eq, hs, ← hneed]
      exact (Nat.zero_max _).trans (Nat.zero_add _).symm
    | wrong hs => exact absurd hs hwrong

end ThreeAddress.Lowering

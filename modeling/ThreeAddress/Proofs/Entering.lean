import ThreeAddress.Proofs.Depth

/-!
# Meeting every node once

The guard against lowering a node twice has nothing to do on a tree whose nodes are all
different. **From a context that met none of its nodes, a plan runs the same under every
entrance that lets new nodes in** (`Plan.agree_runWith`), be it one that never looks at what was
met or one that stops at a node it knows. A run that comes to its end has met all nodes of its
plan (`Plan.Runs.complete`), and the plan of a node that does not fail meets the whole tree
(`ids_as_perm`).
-/

namespace ThreeAddress.Lowering

open Syntax (Node Kind)
open scoped List

/-! ## Entrances -/

namespace Lower

variable {α β : Type}

/-- The entrance lets in a node that was not met before, and notes it. -/
def LetsIn (enter : Nat → Lower Bool) : Prop :=
  ∀ (id : Nat) (c : Context), id ∉ c.visited → (enter id).outcome c = (.ok true, c.met id)

/-- The entrance that stops when it would turn a node away. -/
def enterOnce (stop : LoweringError) (id : Nat) : Lower Bool := do
  if ← enter id then return true else throw stop

/-- The entrance that lets in every node. -/
def enterAlways (id : Nat) : Lower Bool := do
  mark id
  return true

theorem outcome_enter (id : Nat) (c : Context) :
    (enter id).outcome c = (.ok (!c.visited.contains id), c.met id) :=
  gives_enter.mpr ⟨rfl, rfl⟩

theorem outcome_enter_of_not_mem {id : Nat} {c : Context} (h : id ∉ c.visited) :
    (enter id).outcome c = (.ok true, c.met id) := by
  rw [outcome_enter, Std.HashSet.contains_eq_false_iff_not_mem.mpr h]
  rfl

theorem letsIn_enterOnce (stop : LoweringError) : LetsIn (enterOnce stop) := by
  intro id c h
  unfold enterOnce
  rw [outcome_bind, outcome_enter_of_not_mem h]
  rfl

theorem letsIn_enterAlways : LetsIn enterAlways :=
  fun _ _ _ => rfl

/-- From a context that met none of the nodes, the steps come to the same, and they meet none
but these. -/
def Agree (ids : List Nat) (x y : Lower α) : Prop :=
  ∀ c, Fresh ids c → x.outcome c = y.outcome c ∧ ∀ a c', y.Gives c a c' → Meets ids c c'

namespace Agree

variable {is js : List Nat}

theorem mono {x y : Lower α} (h : Agree is x y) (hsub : is <+~ js) : Agree js x y := by
  intro c hc
  obtain ⟨heq, hmeets⟩ := h c (hc.mono hsub)
  exact ⟨heq, fun a c' hy => (hmeets a c' hy).mono hsub.subset⟩

/-- **Steps that agree one after the other agree together.** -/
theorem bind {x y : Lower α} {f g : α → Lower β} (h : Agree is x y)
    (hf : ∀ a, Agree js (f a) (g a)) : Agree (is ++ js) (x >>= f) (y >>= g) := by
  intro c hc
  obtain ⟨heq, hmeets⟩ := h c hc.left
  have hrest {a : α} {c₁ : Context} (hy : y.Gives c a c₁) : Fresh js c₁ :=
    hc.after (hmeets a c₁ hy)
  refine ⟨?_, fun b c' hb => ?_⟩
  · rw [outcome_bind, outcome_bind, heq]
    cases hy : y.outcome c with
    | mk r c₁ =>
      cases r with
      | error e => rfl
      | ok a => exact (hf a c₁ (hrest hy)).1
  · obtain ⟨a, c₁, hy, hb⟩ := gives_bind.mp hb
    exact (hmeets a c₁ hy).trans ((hf a c₁ (hrest hy)).2 b c' hb)

/-- A step that meets no node agrees with itself. -/
theorem quiet {x : Lower α} (h : ∀ c a c', x.Gives c a c' → c'.visited = c.visited) :
    Agree [] x x :=
  fun c _ => ⟨rfl, fun a c' hx _ hi => .inl (h c a c' hx ▸ hi)⟩

theorem pure {a : α} : Agree [] (Pure.pure a : Lower α) (Pure.pure a) :=
  quiet fun _ _ _ h => (gives_pure.mp h).2 ▸ rfl

theorem throw {e : LoweringError} :
    Agree [] (MonadExcept.throw e : Lower α) (MonadExcept.throw e) :=
  quiet fun _ _ _ h => absurd h not_gives_throw

theorem get : Agree [] (MonadState.get : Lower Context) MonadState.get :=
  quiet fun _ _ _ h => (gives_get.mp h).2 ▸ rfl

theorem tell {e : Event} : Agree [] (Lower.tell e) (Lower.tell e) :=
  quiet fun _ _ _ h => gives_tell.mp h ▸ rfl

theorem ascend : Agree [] Lower.ascend Lower.ascend :=
  quiet fun _ _ _ h => gives_ascend.mp h ▸ rfl

theorem descend {t : Tag} : Agree [] (Lower.descend t) (Lower.descend t) :=
  quiet fun _ _ _ h => (gives_descend.mp h).2 ▸ rfl

theorem newTemp : Agree [] Lower.newTemp Lower.newTemp :=
  quiet fun _ _ _ h => (gives_newTemp.mp h).2 ▸ rfl

theorem newLabels : Agree [] Lower.newLabels Lower.newLabels :=
  quiet fun _ _ _ h => (gives_newLabels.mp h).2 ▸ rfl

theorem mark {id : Nat} : Agree [id] (Lower.mark id) (Lower.mark id) :=
  fun _ _ => ⟨rfl, fun _ _ h => gives_mark.mp h ▸ .met .refl⟩

/-- A step that meets no node may stand before. -/
theorem behind {x : Lower α} {f g : α → Lower β} (h : Agree [] x x)
    (hf : ∀ a, Agree is (f a) (g a)) : Agree is (x >>= f) (x >>= g) :=
  h.bind hf

/-- Steps that meet no node may follow. -/
theorem before {x y : Lower α} {f g : α → Lower β} (h : Agree is x y)
    (hf : ∀ a, Agree [] (f a) (g a)) : Agree is (x >>= f) (y >>= g) := by
  have hbind := h.bind hf
  rwa [List.append_nil] at hbind

/-- A result may be changed at the end. -/
theorem map {x y : Lower α} {f : α → β} (h : Agree is x y) :
    Agree is (x >>= fun a => Pure.pure (f a)) (y >>= fun a => Pure.pure (f a)) :=
  h.before fun _ => .pure

theorem withFrames {f : List Frame → List Frame} {x y : Lower α} (h : Agree is x y) :
    Agree is (Lower.withFrames f x) (Lower.withFrames f y) := by
  intro c hc
  obtain ⟨heq, hmeets⟩ := h (c.framed (f c.frames)) hc
  refine ⟨congrArg (fun r => (r.1, r.2.framed c.frames)) heq, fun a c' ha => ?_⟩
  obtain ⟨c₁, hy, rfl⟩ := gives_withFrames.mp ha
  exact hmeets a c₁ hy

/-- Behind entrances that let a new node in, what is done for new nodes counts. -/
theorem entered {enter enter' : Nat → Lower Bool} (he : LetsIn enter) (he' : LetsIn enter')
    {id : Nat} {x y z w : Lower α} (h : Agree is x y) :
    Agree (id :: is) (do if ← enter id then x else z) (do if ← enter' id then y else w) := by
  intro c hc
  have hid := hc.2 id List.mem_cons_self
  obtain ⟨heq, hmeets⟩ := h (c.met id) hc.met
  have hx : (enter id >>= fun b => if b then x else z).outcome c = x.outcome (c.met id) := by
    rw [outcome_bind, he id c hid]
    rfl
  have hy : (enter' id >>= fun b => if b then y else w).outcome c = y.outcome (c.met id) := by
    rw [outcome_bind, he' id c hid]
    rfl
  refine ⟨hx.trans (heq.trans hy.symm), fun a c' ha => ?_⟩
  exact .met (hmeets a c' (hy.symm.trans ha))

end Agree

end Lower

open Lower in
/-- **A plan whose nodes are new runs the same under all entrances that let new nodes in.** -/
theorem Plan.agree_runWith {enter enter' : Nat → Lower Bool} (he : LetsIn enter)
    (he' : LetsIn enter') (p : Plan) :
    Agree p.ids (p.runWith enter) (p.runWith enter') := by
  induction p with
  | nothing | text | emit => exact .pure
  | mark => exact .map .mark
  | fail => exact .throw
  | jump | closeCase => exact .map .get
  | guarded id p ih => exact .entered he he' ih
  | expression t p ih =>
    exact .entered he he' (.behind .descend fun _ => .before ih fun _ => .map .ascend)
  | statement t p ih =>
    exact .entered he he' (.behind .tell fun _ => .behind .descend fun _ =>
      .before ih fun _ => .map .ascend)
  | unlessEmpty _ p _ ih | compact p ih | effects p ih | line p ih | valueLine p ih =>
    exact .map ih
  | bind p ih => exact .before ih fun _ => .map .newTemp
  | barrier p ih => exact .before ih fun _ => .behind .newLabels fun _ => .map .get
  | declared _ p ih => exact .before ih fun _ => .map .tell
  | inSwitch p ih | apart p ih => exact .withFrames ih
  | both p q hp hq => exact .bind hp fun _ => .map hq
  | shownBefore p q hp hq =>
    exact (Agree.bind hq fun _ => .map hp).mono List.perm_append_comm.subperm
  | closed p q hp hq => exact .bind hp fun _ => .map (.withFrames hq)
  | ifThen p q hp hq => exact .bind hp fun _ => .behind .newLabels fun _ => .map hq
  | whileLoop p q hp hq =>
    exact .behind .newLabels fun _ => .behind .newLabels fun _ => .bind hp fun _ =>
      .map (.withFrames hq)
  | doWhile p q hp hq =>
    exact .behind .newLabels fun _ => .behind .newLabels fun _ => .bind (.withFrames hp) fun _ =>
      .map hq
  | ifThenElse p q r hp hq hr =>
    simp only [ids, List.append_assoc]
    exact .bind hp fun _ => .behind .newLabels fun _ => .behind .newLabels fun _ =>
      .bind hq fun _ => .map hr
  | foreachLoop p q r hp hq hr =>
    simp only [ids, List.append_assoc]
    exact .bind hp fun _ => .bind hq fun _ => .behind .newLabels fun _ =>
      .behind .newLabels fun _ => .map (.withFrames hr)
  -- the plan lists the step before the body, the run meets the body first
  | endless p q r hp hq hr =>
    have horder : (p.ids ++ (r.ids ++ q.ids)).Perm (p.ids ++ q.ids ++ r.ids) := by
      rw [List.append_assoc]
      exact List.perm_append_comm.append_left _
    refine Agree.mono ?_ horder.subperm
    exact .bind hp fun _ => .behind .newLabels fun _ => .behind .newLabels fun _ =>
      .behind .newLabels fun _ => .bind (.withFrames hr) fun _ => .map hq
  | forLoop i g t s b hi hg ht hs hb =>
    have horder : (i.ids ++ (g.ids ++ (t.ids ++ (b.ids ++ s.ids)))).Perm
        (i.ids ++ g.ids ++ t.ids ++ s.ids ++ b.ids) := by
      simp only [List.append_assoc]
      exact ((List.perm_append_comm.append_left _).append_left _).append_left _
    refine Agree.mono ?_ horder.subperm
    exact .bind hi fun _ => .behind .newLabels fun _ => .behind .newLabels fun _ =>
      .behind .newLabels fun _ => .bind (.withFrames hg) fun _ => .bind ht fun _ =>
        .bind (.withFrames hb) fun _ => .map hs

/-! ## Runs meet all nodes of their plans -/

/-- From one context to the next, all of the given nodes are met, and no others. -/
def Visits (ids : List Nat) (c c' : Context) : Prop :=
  ∀ i, i ∈ c'.visited ↔ i ∈ c.visited ∨ i ∈ ids

namespace Visits

variable {is js : List Nat} {c c₁ c₂ : Context}

theorem nil : Visits [] c c :=
  fun i => by simp

theorem met {id : Nat} (h : Visits is (c.met id) c₁) : Visits (id :: is) c c₁ := by
  intro i
  rw [h i, Context.mem_met, List.mem_cons, or_assoc, or_left_comm]

theorem trans (h : Visits is c c₁) (h' : Visits js c₁ c₂) : Visits (is ++ js) c c₂ := by
  intro i
  rw [h' i, h i, List.mem_append, or_assoc]

theorem perm (h : Visits is c c₁) (hperm : is.Perm js) : Visits js c c₁ := by
  intro i
  rw [h i, hperm.mem_iff]

end Visits

/-- **A run through new nodes meets all of them, and no part of its plan is a failure.** -/
theorem Plan.Runs.complete {p : Plan} {c c' : Context} {a : Lowered} (h : Runs p c a c')
    (hfresh : Fresh p.ids c) : p.Sound ∧ Visits p.ids c c' := by
  induction h with
  | nothing | text | emit | jump | closeCase => exact ⟨trivial, .nil⟩
  | mark => exact ⟨trivial, .met .nil⟩
  -- no node is met a second time
  | guardedAgain hid | expressionAgain hid | statementAgain hid =>
    exact absurd hid (hfresh.2 _ List.mem_cons_self)
  | guarded _ _ ih | expression _ _ _ ih | statement _ _ _ ih =>
    exact (ih hfresh.met).imp_right Visits.met
  | unlessEmpty _ ih | compact _ ih | bind _ ih | effects _ ih | line _ ih | valueLine _ ih
  | barrier _ ih | inSwitch _ ih | apart _ ih | declared _ ih => exact ih hfresh
  | both hp _ h₁ h₂ | closed hp _ h₁ h₂ | ifThen hp _ h₁ h₂ | whileLoop hp _ h₁ h₂
  | doWhile hp _ h₁ h₂ =>
    obtain ⟨s₁, v₁⟩ := h₁ hfresh.left
    obtain ⟨s₂, v₂⟩ := h₂ (hp.fresh hfresh)
    exact ⟨⟨s₁, s₂⟩, v₁.trans v₂⟩
  | shownBefore hq _ h₁ h₂ =>
    obtain ⟨s₁, v₁⟩ := h₁ hfresh.swap.left
    obtain ⟨s₂, v₂⟩ := h₂ (hq.fresh hfresh.swap)
    exact ⟨⟨s₂, s₁⟩, (v₁.trans v₂).perm List.perm_append_comm⟩
  | ifThenElse hp hq _ h₁ h₂ h₃ | foreachLoop hp hq _ h₁ h₂ h₃ =>
    have hrest := hp.fresh hfresh.assoc
    obtain ⟨s₁, v₁⟩ := h₁ hfresh.left.left
    obtain ⟨s₂, v₂⟩ := h₂ hrest.left
    obtain ⟨s₃, v₃⟩ := h₃ (hq.fresh hrest)
    exact ⟨⟨s₁, s₂, s₃⟩, (v₁.trans v₂).trans v₃⟩
  | endless hp hq _ h₁ h₂ h₃ =>
    have hrest := (hp.fresh hfresh.assoc).swap
    obtain ⟨s₁, v₁⟩ := h₁ hfresh.left.left
    obtain ⟨s₂, v₂⟩ := h₂ hrest.left
    obtain ⟨s₃, v₃⟩ := h₃ (hq.fresh hrest)
    refine ⟨⟨s₁, s₃, s₂⟩, ((v₁.trans v₂).trans v₃).perm ?_⟩
    simp only [ids, List.append_assoc]
    exact List.perm_append_comm.append_left _
  | forLoop hi hg ht hb _ h₁ h₂ h₃ h₄ h₅ =>
    have hrest₁ := hi.fresh hfresh.assoc.assoc.assoc
    have hrest₂ := hg.fresh hrest₁
    have hrest₃ := (ht.fresh hrest₂).swap
    obtain ⟨s₁, v₁⟩ := h₁ hfresh.left.left.left.left
    obtain ⟨s₂, v₂⟩ := h₂ hrest₁.left
    obtain ⟨s₃, v₃⟩ := h₃ hrest₂.left
    obtain ⟨s₄, v₄⟩ := h₄ hrest₃.left
    obtain ⟨s₅, v₅⟩ := h₅ (hb.fresh hrest₃)
    refine ⟨⟨s₁, s₂, s₃, s₅, s₄⟩, ((((v₁.trans v₂).trans v₃).trans v₄).trans v₅).perm ?_⟩
    simp only [ids, List.append_assoc]
    exact ((List.perm_append_comm.append_left _).append_left _).append_left _

/-! ## Plans that do not fail meet the whole tree -/

theorem Plan.forall_sound_of_joined {s : String} {ps : List Plan} (h : (joined s ps).Sound) :
    ∀ p ∈ ps, p.Sound := by
  fun_induction joined s ps with
  | case1 => exact List.forall_mem_nil _
  | case2 p => exact List.forall_mem_singleton.mpr h
  | case3 p q ps ih => exact List.forall_mem_cons.mpr ⟨h.1.1, ih h.2⟩

theorem sound_of_instantiation {n : Planned} {args : List Planned}
    (h : (instantiation n args).Sound) :
    (instantiation n []).Sound ∧ ∀ m ∈ args, (argument m).Sound := by
  have hjoined (hargs : (arguments args).Sound) : ∀ m ∈ args, (argument m).Sound :=
    fun m hm => Plan.forall_sound_of_joined hargs _ (List.mem_map_of_mem hm)
  obtain ⟨id, k, location, span, plan⟩ := n
  cases k with
  | classDecl =>
    obtain ⟨⟨⟨⟨hmark, hargs⟩, hafter⟩, hparents⟩, hbody⟩ := h
    exact ⟨⟨⟨⟨⟨hmark, trivial⟩, hafter⟩, hparents⟩, hbody⟩, hjoined hargs⟩
  | _ =>
    obtain ⟨⟨hname, hargs⟩, hafter⟩ := h
    exact ⟨⟨⟨hname, trivial⟩, hafter⟩, hjoined hargs⟩

/-- The parts of a plan that does not fail do not fail. -/
theorem Made.sound_parts {u : Use} {p : Plan} {ps : List Part} (h : Made u p ps)
    (hp : p.Sound) : ∀ x ∈ ps, x.2.Sound := by
  induction h with
  | part => exact List.forall_mem_singleton.mpr hp
  | nothing | text | jump | closeCase => exact fun _ hx => nomatch hx
  | asCode _ ih | unlessEmpty _ ih | compact _ ih | bind _ ih | effects _ ih | line _ _ ih
  | valueLine _ ih | barrier _ ih | inSwitch _ ih | apart _ ih | declared _ ih => exact ih hp
  | append _ _ h₁ h₂ | shownBefore _ _ h₁ h₂ | closed _ _ h₁ h₂ | ifThen _ _ h₁ h₂
  | whileLoop _ _ h₁ h₂ | doWhile _ _ h₁ h₂ =>
    exact List.forall_mem_append.mpr ⟨h₁ hp.1, h₂ hp.2⟩
  | braced _ _ _ h₁ h₂ =>
    obtain ⟨⟨⟨s₁, -⟩, s₂⟩, -⟩ := hp
    exact List.forall_mem_append.mpr ⟨h₁ s₁, h₂ s₂⟩
  | instantiation =>
    obtain ⟨hn, hargs⟩ := sound_of_instantiation hp
    refine List.forall_mem_cons.mpr ⟨hn, fun x hx => ?_⟩
    obtain ⟨m, hm, rfl⟩ := List.mem_map.mp hx
    exact hargs m hm
  | ifThenElse _ _ _ h₁ h₂ h₃ | endless _ _ _ h₁ h₂ h₃ | foreachLoop _ _ _ h₁ h₂ h₃ =>
    obtain ⟨s₁, s₂, s₃⟩ := hp
    exact List.forall_mem_append.mpr ⟨List.forall_mem_append.mpr ⟨h₁ s₁, h₂ s₂⟩, h₃ s₃⟩
  | forLoop _ _ _ _ _ h₁ h₂ h₃ h₄ h₅ =>
    obtain ⟨s₁, s₂, s₃, s₄, s₅⟩ := hp
    exact List.forall_mem_append.mpr ⟨List.forall_mem_append.mpr ⟨List.forall_mem_append.mpr
      ⟨List.forall_mem_append.mpr ⟨h₁ s₁, h₂ s₂⟩, h₃ s₃⟩, h₄ s₄⟩, h₅ s₅⟩

section

variable {n : Node}

/-- Children whose plans do not fail are met with all their nodes. -/
theorem ids_parts_perm
    (ih : ∀ m ∈ n.kind.children, ∀ r, ((planned m).as r).Sound → ((planned m).as r).ids.Perm m.ids)
    (h : ∀ x ∈ parts (planned n).kind, x.2.Sound) :
    ((parts (planned n).kind).flatMap fun x => x.2.ids).Perm
      (n.kind.children.flatMap Node.ids) := by
  have hmem : ∀ x ∈ placed n.kind, x.2 ∈ n.kind.children := fun x hx => by
    rw [← map_snd_placed]
    exact List.mem_map_of_mem hx
  rw [parts_planned, List.forall_mem_map] at h
  rw [parts_planned, ← map_snd_placed, List.flatMap_map, List.flatMap_map]
  exact List.Perm.flatMap_left _ fun x hx => ih x.2 (hmem x hx) x.1 (h x hx)

/-- A plan that does not fail meets all nodes below its node. -/
theorem ids_plan_perm
    (ih : ∀ m ∈ n.kind.children, ∀ r, ((planned m).as r).Sound → ((planned m).as r).ids.Perm m.ids)
    (hk : (planned n).kind.isExpression ∨ (planned n).kind.isStatement)
    (h : (planned n).plan.Sound) :
    (planned n).plan.ids.Perm (n.kind.children.flatMap Node.ids) := by
  have made {u : Use} (hm : Made u (planned n).plan (parts (planned n).kind)) :
      (planned n).plan.ids.Perm (n.kind.children.flatMap Node.ids) :=
    hm.ids_perm.trans (ids_parts_perm ih (hm.sound_parts h))
  by_cases hg : (planned n).kind.isGoto
  · have hparts : ∀ x ∈ parts (planned n).kind, x.2.Sound := by
      rw [parts_of_isGoto hg]
      exact fun _ hx => nomatch hx
    have hchildren := ids_parts_perm ih hparts
    obtain ⟨-, i, hi, -⟩ := kindPlan_eq_emit (t := (planned n).tag) hg
    rw [planned_plan, hi]
    rwa [parts_of_isGoto hg] at hchildren
  · by_cases ht : (planned n).kind.hasToken
    · obtain ⟨hv, hs⟩ := made_kindPlan (t := (planned n).tag) hg ht
      rw [← planned_plan] at hv hs
      exact hk.elim (fun hk => made (hv hk)) fun hk => made (hs hk)
    · obtain ⟨e, he⟩ := kindPlan_eq_fail (t := (planned n).tag) ht
      rw [planned_plan, he] at h
      exact h.elim

end

/-- **A node whose plan does not fail is met with all nodes of its tree**, once each. -/
theorem ids_as_perm (n : Node) (r : Role) (h : ((planned n).as r).Sound) :
    ((planned n).as r).ids.Perm n.ids := by
  induction n using Node.induction_on_children generalizing r with
  | step n ih =>
    rw [Node.ids_eq, ← planned_id]
    cases stands (planned_plan n) r with
    | level hs hm =>
      refine hm.ids_perm.trans ?_
      have hleveled := hm.sound_parts h _ List.mem_cons_self
      rw [List.flatMap_singleton]
      cases hu : r.use with
      | value =>
        rw [hu] at hleveled
        exact (ids_plan_perm ih (.inl (isExpression_of_level hu hs)) hleveled).cons _
      | code =>
        rw [hu] at hleveled
        exact (ids_plan_perm ih (.inr (isStatement_of_level hu hs)) hleveled).cons _
    | guarded hs hu hm hp =>
      refine hm.ids_perm.trans ?_
      have hguarded := hm.sound_parts h _ List.mem_cons_self
      rw [List.flatMap_singleton]
      exact (hp.ids_perm.trans (ids_parts_perm ih (hp.sound_parts hguarded))).cons _
    | marked hs hm =>
      refine hm.ids_perm.trans ?_
      obtain ⟨-, hparts⟩ := List.forall_mem_cons.mp (hm.sound_parts h)
      exact (ids_parts_perm ih hparts).cons _
    | wrong hs hm hps =>
      exact (hm.sound_parts h _ (List.mem_append_right _ List.mem_cons_self)).elim

/-! ## Every node is met once -/

/-- **Every node is lowered once.** If the nodes of a tree are all different and the tree can be
lowered, its plan meets each of them in one place, the nodes that were met in the end are those
of the tree, and no node was turned away on the way: an entrance that stops instead gives the
same. -/
theorem every_node_met_once {n : Node} {o : Options} {l : Listing} (hids : n.ids.Nodup)
    (h : listing n o = .ok l) :
    (planned n).code.ids.Perm n.ids ∧
    ∃ c, (lowerScript n).Gives { options := o } l c ∧ (∀ i, i ∈ c.visited ↔ i ∈ n.ids) ∧
      ∀ stop, ((planned n).code.runWith (Lower.enterOnce stop)).outcome { options := o }
        = (planned n).code.run.outcome { options := o } := by
  obtain ⟨a, c, hrun, rfl⟩ := listing_eq_ok_iff.mp h
  have hfresh : Fresh (planned n).code.ids { options := o } := fresh_code hids
  obtain ⟨hsound, hvisits⟩ := hrun.complete hfresh
  have hall : (planned n).code.ids.Perm n.ids := ids_as_perm n .statement hsound
  refine ⟨hall, c.told (.script (tagOf n) a.effects.length), ?_, fun i => ?_, fun stop => ?_⟩
  · exact Lower.gives_bind.mpr ⟨a, c, hrun.gives, Lower.gives_bind.mpr
      ⟨(), _, Lower.gives_tell.mpr rfl, Lower.gives_pure.mpr ⟨rfl, rfl⟩⟩⟩
  · show i ∈ c.visited ↔ _
    rw [hvisits i, hall.mem_iff]
    exact or_iff_right Std.HashSet.not_mem_empty
  · exact (Plan.agree_runWith (Lower.letsIn_enterOnce stop)
      (fun _ _ => Lower.outcome_enter_of_not_mem) _ _ hfresh).1

/-- `f($a);`, in which a name and an argument are nodes, too. -/
def plainCall : Node :=
  let argument := ⟨5, .argument ⟨3, .var "a", none, none⟩ false false none, none, none⟩
  let call := ⟨2, .call ⟨4, .qualifiedName ["f"] false, none, none⟩ [argument], none, none⟩
  ⟨0, .script [⟨1, .expressionStmt call, none, none⟩], none, none⟩

/-- The listing of `plainCall`. -/
theorem listing_plainCall : listing plainCall {} = .ok ⟨[.text "t0 = f($a);"]⟩ := by
  have hrun : ∃ a c, Plan.Runs (planned plainCall).code {} a c ∧
      a.effects = [.text "t0 = f($a);"] := by
    refine ⟨_, _, .statement ?_ ?_ (.both (.statement ?_ ?_ (.effects (.expression ?_ ?_ (.bind
      (.both (.both (.both (.guarded ?_ .text) .text) (.both (.both (.both (.both .mark .text)
        .nothing) .nothing) (.expression ?_ ?_ .text))) .text))))) .nothing), ?_⟩
    all_goals first
      | decide
      | simp [Context.met, Context.told, Context.below]
    all_goals decide
  obtain ⟨a, c, hrun, he⟩ := hrun
  exact listing_eq_ok_iff.mpr ⟨a, c, hrun, congrArg Listing.mk he.symm⟩

theorem plainCall_met_once :
    plainCall.ids.Nodup ∧ listing plainCall {} = .ok ⟨[.text "t0 = f($a);"]⟩ ∧
    (planned plainCall).code.ids.Perm plainCall.ids ∧
    ∃ c, (lowerScript plainCall).Gives {} ⟨[.text "t0 = f($a);"]⟩ c ∧
      (∀ i, i ∈ c.visited ↔ i ∈ plainCall.ids) ∧
      ∀ stop, ((planned plainCall).code.runWith (Lower.enterOnce stop)).outcome {}
        = (planned plainCall).code.run.outcome {} := by
  have hids : plainCall.ids.Nodup := by decide
  exact ⟨hids, listing_plainCall, every_node_met_once hids listing_plainCall⟩

end ThreeAddress.Lowering

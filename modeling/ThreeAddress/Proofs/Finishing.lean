import ThreeAddress.Proofs.EvaluationOrder

/-!
# The order in which nodes are finished

What a run gives for every node that it meets, in the order in which it is done with the nodes
(`Plan.finished`). On a tree whose nodes are all different every node is finished once
(`Plan.Runs.finished_perm`), and since a temporary is bound for calls and for nothing else
(`tied_as`), **calls are bound to consecutive temporaries in the order in which they are finished**
(`Plan.Runs.exists_runBinds`).
-/

namespace ThreeAddress.Lowering

open Syntax (Node Kind)
open scoped List

namespace Plan

/-! ## What a run gives for each node -/

/-- The context that a run comes to. -/
def reached (p : Plan) (c : Context) : Context :=
  (p.run.outcome c).2

/-- What the run of a plan gives for its node, if it comes to its end. -/
def result (id : Nat) (p : Plan) (c : Context) : List (Nat × Lowered) :=
  match (p.run.outcome c).1 with
  | .ok a => [(id, a)]
  | .error _ => []

/-- What a run gives for every node that it meets for the first time, in the order in which it is
done with the nodes. -/
def finished : Plan → Context → List (Nat × Lowered)
  | .nothing, _ | .text _, _ | .fail _, _ | .emit _, _ | .jump _ _, _ | .closeCase, _ => []
  | .mark id, _ => [(id, {})]
  | .guarded id p, c =>
    if c.visited.contains id then [] else p.finished (c.met id) ++ p.result id (c.met id)
  | .expression t p, c =>
    if c.visited.contains t.id then []
    else p.finished (c.met t.id).below ++ p.result t.id (c.met t.id).below
  | .statement t p, c =>
    if c.visited.contains t.id then []
    else p.finished ((c.met t.id).told (.statement t)).below
      ++ p.result t.id ((c.met t.id).told (.statement t)).below
  | .unlessEmpty _ p _, c | .compact p, c | .bind p, c | .effects p, c | .line p, c
  | .valueLine p, c | .barrier p, c | .declared _ p, c => p.finished c
  | .inSwitch p, c => p.finished (c.framed (.switch :: c.frames))
  | .apart p, c => p.finished (c.framed [])
  | .both p q, c => p.finished c ++ q.finished (p.reached c)
  | .shownBefore p q, c => q.finished c ++ p.finished (q.reached c)
  | .closed p q, c => p.finished c ++ q.finished ((p.reached c).framed [])
  | .ifThen p q, c => p.finished c ++ q.finished (p.reached c).labelled
  | .ifThenElse p q r, c =>
    let c₁ := (p.reached c).labelled.labelled
    p.finished c ++ q.finished c₁ ++ r.finished (q.reached c₁)
  | .whileLoop p q, c =>
    let l := Labels.ofNat c.labels
    let c₁ := p.reached c.labelled.labelled
    p.finished c.labelled.labelled
      ++ q.finished (c₁.framed (.loop l.stop l.start :: c₁.frames))
  | .doWhile p q, c =>
    let c₁ := c.labelled.labelled.framed (.loop (Labels.ofNat c.labels).stop
      (Labels.ofNat (c.labels + 1)).start :: c.frames)
    p.finished c₁ ++ q.finished ((p.reached c₁).framed c.frames)
  | .foreachLoop p q r, c =>
    let c₁ := p.reached c
    let c₂ := q.reached c₁
    p.finished c ++ q.finished c₁ ++ r.finished (c₂.labelled.labelled.framed
      (.loop (Labels.ofNat c₂.labels).stop (Labels.ofNat (c₂.labels + 1)).start :: c₂.frames))
  | .endless p q r, c =>
    let c₁ := p.reached c
    let c₂ := c₁.labelled.labelled.labelled.framed (.loop (Labels.ofNat c₁.labels).stop
      (Labels.ofNat (c₁.labels + 2)).start :: c₁.frames)
    p.finished c ++ r.finished c₂ ++ q.finished ((r.reached c₂).framed c₁.frames)
  | .forLoop i g t s b, c =>
    let c₁ := i.reached c
    let frame := Frame.loop (Labels.ofNat c₁.labels).stop (Labels.ofNat (c₁.labels + 2)).start
    let c₂ := c₁.labelled.labelled.labelled.framed (frame :: c₁.frames)
    let c₃ := (g.reached c₂).framed c₁.frames
    let c₄ := t.reached c₃
    let c₅ := c₄.framed (frame :: c₄.frames)
    i.finished c ++ g.finished c₂ ++ t.finished c₃ ++ b.finished c₅
      ++ s.finished ((b.reached c₅).framed c₄.frames)

variable {p : Plan} {c c' : Context} {a : Lowered}

theorem Runs.reached_eq (h : Runs p c a c') : p.reached c = c' :=
  congrArg Prod.snd h.gives

theorem Runs.result_eq (h : Runs p c a c') (id : Nat) : p.result id c = [(id, a)] := by
  unfold result
  rw [show (p.run.outcome c).1 = .ok a from congrArg Prod.fst h.gives]

theorem not_contains {id : Nat} (h : id ∉ c.visited) : ¬ c.visited.contains id = true := by
  simpa using h

/-- **Every node of a plan is finished once.** -/
theorem Runs.finished_perm (h : Runs p c a c') (hfresh : Fresh p.ids c) :
    ((p.finished c).map Prod.fst).Perm p.ids := by
  have last {id : Nat} {p : Plan} {c c' : Context} {a : Lowered} (h : Runs p c a c')
      (ih : ((p.finished c).map Prod.fst).Perm p.ids) :
      ((p.finished c ++ p.result id c).map Prod.fst).Perm (id :: p.ids) := by
    rw [h.result_eq, List.map_append]
    exact List.perm_append_comm.trans (ih.cons id)
  induction h with
  | nothing | text | emit | jump | closeCase => exact .refl _
  | mark => exact .refl _
  | guardedAgain hid | expressionAgain hid | statementAgain hid =>
    exact absurd hid (hfresh.2 _ List.mem_cons_self)
  | guarded hid hp ih =>
    rw [finished, if_neg (not_contains hid)]
    exact last hp (ih hfresh.met)
  | expression hid _ hp ih | statement hid _ hp ih =>
    rw [finished, if_neg (not_contains hid)]
    exact last hp (ih hfresh.met)
  | unlessEmpty _ ih | compact _ ih | bind _ ih | effects _ ih | line _ ih | valueLine _ ih
  | barrier _ ih | inSwitch _ ih | apart _ ih | declared _ ih => exact ih hfresh
  | both hp _ h₁ h₂ | closed hp _ h₁ h₂ | ifThen hp _ h₁ h₂ | whileLoop hp _ h₁ h₂
  | doWhile hp _ h₁ h₂ =>
    simp only [finished, hp.reached_eq, List.map_append]
    exact (h₁ hfresh.left).append (h₂ (hp.fresh hfresh))
  | shownBefore hq _ h₁ h₂ =>
    simp only [finished, hq.reached_eq, List.map_append]
    exact ((h₁ hfresh.swap.left).append (h₂ (hq.fresh hfresh.swap))).trans List.perm_append_comm
  | ifThenElse hp hq _ h₁ h₂ h₃ | foreachLoop hp hq _ h₁ h₂ h₃ =>
    have hrest := hp.fresh hfresh.assoc
    simp only [finished, hp.reached_eq, hq.reached_eq, List.map_append]
    exact ((h₁ hfresh.left.left).append (h₂ hrest.left)).append (h₃ (hq.fresh hrest))
  | endless hp hq _ h₁ h₂ h₃ =>
    have hrest := (hp.fresh hfresh.assoc).swap
    simp only [finished, hp.reached_eq, hq.reached_eq, List.map_append]
    refine (((h₁ hfresh.left.left).append (h₂ hrest.left)).append (h₃ (hq.fresh hrest))).trans ?_
    simp only [ids, List.append_assoc]
    exact List.perm_append_comm.append_left _
  | forLoop hi hg ht hb _ h₁ h₂ h₃ h₄ h₅ =>
    have hrest₁ := hi.fresh hfresh.assoc.assoc.assoc
    have hrest₂ := hg.fresh hrest₁
    have hrest₃ := (ht.fresh hrest₂).swap
    simp only [finished, hi.reached_eq, hg.reached_eq, ht.reached_eq, hb.reached_eq,
      List.map_append]
    refine (((((h₁ hfresh.left.left.left.left).append (h₂ hrest₁.left)).append
      (h₃ hrest₂.left)).append (h₄ hrest₃.left)).append (h₅ (hb.fresh hrest₃))).trans ?_
    simp only [ids, List.append_assoc]
    exact ((List.perm_append_comm.append_left _).append_left _).append_left _

end Plan

/-! ## Temporaries -/

/-- The value is the temporary with the given number, and the last line assigns it. -/
def BoundTo (k : Nat) (a : Lowered) : Prop :=
  a.value = temporary k ∧ ∃ s, a.effects.getLast? = some (.text (temporary k ++ " = " ++ s))

/-- From one number of temporaries to another, the results for the nodes that are told by `call`
are bound to the temporaries, one after the other. -/
def Binds (call : Nat → Bool) (k : Nat) (xs : List (Nat × Lowered)) (k' : Nat) : Prop :=
  k' = k + (xs.filter (call ·.1)).length ∧
    ∀ i x, (xs.filter (call ·.1))[i]? = some x → BoundTo (k + i) x.2

namespace Binds

variable {call : Nat → Bool} {k k₁ k₂ : Nat} {xs ys : List (Nat × Lowered)}

theorem nil : Binds call k [] k :=
  ⟨rfl, fun _ _ h => nomatch h⟩

theorem append (h : Binds call k xs k₁) (h' : Binds call k₁ ys k₂) :
    Binds call k (xs ++ ys) k₂ := by
  obtain ⟨rfl, hxs⟩ := h
  obtain ⟨rfl, hys⟩ := h'
  unfold Binds
  rw [List.filter_append, List.length_append, Nat.add_assoc]
  refine ⟨rfl, fun i x hx => ?_⟩
  rw [List.getElem?_append] at hx
  split at hx
  · exact hxs i x hx
  · next hi =>
    have h := hys _ x hx
    rwa [Nat.add_assoc, Nat.add_sub_cancel' (Nat.le_of_not_lt hi)] at h

/-- A node that is not told by `call` takes no temporary. -/
theorem other {id : Nat} (hid : call id = false) (a : Lowered) : Binds call k [(id, a)] k := by
  unfold Binds
  rw [List.filter_singleton, hid]
  exact ⟨rfl, fun _ _ h => nomatch h⟩

theorem bound {id : Nat} (hid : call id = true) {a : Lowered} (ha : BoundTo k a) :
    Binds call k [(id, a)] (k + 1) := by
  unfold Binds
  rw [List.filter_singleton, hid]
  refine ⟨rfl, fun i x hx => ?_⟩
  obtain ⟨hi, rfl⟩ := List.getElem?_eq_some_iff.mp hx
  obtain rfl : i = 0 := Nat.lt_one_iff.mp hi
  exact ha

end Binds

namespace Plan

/-- Whether the plan binds a temporary at its end. -/
def isBind : Plan → Bool
  | .bind _ => true
  | _ => false

/-- Temporaries are bound for the expressions that are told by `call`, and only for these. With
the flag, the plan may be that of such an expression. -/
def Tied (call : Nat → Bool) : Bool → Plan → Prop
  | _, .nothing | _, .text _ | _, .fail _ | _, .emit _ | _, .jump _ _ | _, .closeCase => True
  | _, .mark id => call id = false
  | _, .guarded id p => call id = false ∧ p.Tied call false
  | _, .expression t p => call t.id = p.isBind ∧ p.Tied call true
  | _, .statement t p => call t.id = false ∧ p.Tied call false
  | b, .bind p => b = true ∧ p.Tied call false
  | _, .unlessEmpty _ p _ | _, .compact p | _, .effects p | _, .line p | _, .valueLine p
  | _, .barrier p | _, .inSwitch p | _, .apart p | _, .declared _ p => p.Tied call false
  | _, .both p q | _, .shownBefore p q | _, .closed p q | _, .ifThen p q | _, .whileLoop p q
  | _, .doWhile p q => p.Tied call false ∧ q.Tied call false
  | _, .ifThenElse p q r | _, .endless p q r | _, .foreachLoop p q r =>
    p.Tied call false ∧ q.Tied call false ∧ r.Tied call false
  | _, .forLoop i g c s b => i.Tied call false ∧ g.Tied call false ∧ c.Tied call false ∧
      s.Tied call false ∧ b.Tied call false

variable {call : Nat → Bool} {p : Plan} {c c' : Context} {a : Lowered}

theorem Tied.isBind_eq (h : p.Tied call false) : p.isBind = false := by
  cases p with
  | bind => exact absurd h.1 Bool.false_ne_true
  | _ => rfl

theorem Tied.mono {b : Bool} (h : p.Tied call false) : p.Tied call b := by
  cases p with
  | bind => exact absurd h.1 Bool.false_ne_true
  | _ => exact h

/-- Up to its last step, the run of a plan binds temporaries for the nodes that it finishes. -/
structure RunBinds (call : Nat → Bool) (p : Plan) (c : Context) (a : Lowered) (c' : Context) (k : Nat) :
    Prop where
  finished : Binds call c.temps (p.finished c) k
  bound : p.isBind = true → c'.temps = k + 1 ∧ BoundTo k a
  plain : p.isBind = false → c'.temps = k

/-- **The nodes that temporaries are bound for take them in the order in which they are finished.**
A plan that ends with a temporary takes one more. -/
theorem Runs.exists_runBinds {b : Bool} (h : Runs p c a c') (hp : p.Tied call b) :
    ∃ k, RunBinds call p c a c' k := by
  have plain {p : Plan} {c c' : Context} {a : Lowered} (hp : p.Tied call false)
      (ih : ∀ {b}, p.Tied call b → ∃ k, RunBinds call p c a c' k) :
      Binds call c.temps (p.finished c) c'.temps := by
    obtain ⟨k, hk⟩ := ih hp
    rw [hk.plain hp.isBind_eq]
    exact hk.finished
  induction h generalizing b with
  | nothing | text | emit | jump | closeCase => exact ⟨_, .nil, nofun, fun _ => rfl⟩
  | mark => exact ⟨_, .other hp {}, nofun, fun _ => rfl⟩
  | @guardedAgain id p c hid | @expressionAgain t p c hid | @statementAgain t p c hid =>
    refine ⟨c.temps, ?_, nofun, fun _ => rfl⟩
    rw [Plan.finished, if_pos (by simpa using hid)]
    exact .nil
  | guarded hid hrun ih =>
    refine ⟨_, ?_, nofun, fun _ => rfl⟩
    rw [Plan.finished, if_neg (not_contains hid), hrun.result_eq]
    exact (plain hp.2 ih).append (.other hp.1 _)
  | statement hid _ hrun ih =>
    refine ⟨_, ?_, nofun, fun _ => rfl⟩
    rw [Plan.finished, if_neg (not_contains hid), hrun.result_eq]
    exact (plain hp.2 ih).append (.other hp.1 _)
  | @expression t p c c' a hid _ hrun ih =>
    refine ⟨_, ?_, nofun, fun _ => rfl⟩
    rw [Plan.finished, if_neg (not_contains hid), hrun.result_eq]
    obtain ⟨hid, hp⟩ := hp
    obtain ⟨k, hk⟩ := ih hp
    refine hk.finished.append ?_
    by_cases hb : p.isBind = true
    · obtain ⟨htemps, hbound⟩ := hk.bound hb
      rw [hb] at hid
      show Binds call k _ c'.temps
      rw [htemps]
      exact .bound hid hbound
    · rw [Bool.not_eq_true] at hb
      rw [hb] at hid
      rw [← hk.plain hb]
      exact .other hid _
  | unlessEmpty _ ih | compact _ ih | effects _ ih | line _ ih | valueLine _ ih
  | barrier _ ih | inSwitch _ ih | apart _ ih | declared _ ih =>
    have hk := plain hp ih
    exact ⟨_, hk, nofun, fun _ => rfl⟩
  | @bind p c c' a _ ih =>
    have hk := plain hp.2 ih
    refine ⟨_, hk, fun _ => ⟨rfl, rfl, a.value ++ ";", ?_⟩, nofun⟩
    simp only [List.getLast?_concat, String.append_assoc]
  | both h _ h₁ h₂ | closed h _ h₁ h₂ | ifThen h _ h₁ h₂ | whileLoop h _ h₁ h₂
  | doWhile h _ h₁ h₂ =>
    refine ⟨_, ?_, nofun, fun _ => rfl⟩
    simp only [Plan.finished, h.reached_eq]
    have k₁ := plain hp.1 h₁
    have k₂ := plain hp.2 h₂
    exact k₁.append k₂
  | shownBefore h _ h₁ h₂ =>
    refine ⟨_, ?_, nofun, fun _ => rfl⟩
    simp only [Plan.finished, h.reached_eq]
    have k₁ := plain hp.2 h₁
    have k₂ := plain hp.1 h₂
    exact k₁.append k₂
  | ifThenElse h h' _ h₁ h₂ h₃ | foreachLoop h h' _ h₁ h₂ h₃ =>
    refine ⟨_, ?_, nofun, fun _ => rfl⟩
    simp only [Plan.finished, h.reached_eq, h'.reached_eq]
    have k₁ := plain hp.1 h₁
    have k₂ := plain hp.2.1 h₂
    have k₃ := plain hp.2.2 h₃
    exact (k₁.append k₂).append k₃
  | endless h h' _ h₁ h₂ h₃ =>
    refine ⟨_, ?_, nofun, fun _ => rfl⟩
    simp only [Plan.finished, h.reached_eq, h'.reached_eq]
    have k₁ := plain hp.1 h₁
    have k₂ := plain hp.2.2 h₂
    have k₃ := plain hp.2.1 h₃
    exact (k₁.append k₂).append k₃
  | forLoop hi hg ht hb _ h₁ h₂ h₃ h₄ h₅ =>
    obtain ⟨t₁, t₂, t₃, t₄, t₅⟩ := hp
    refine ⟨_, ?_, nofun, fun _ => rfl⟩
    simp only [Plan.finished, hi.reached_eq, hg.reached_eq, ht.reached_eq, hb.reached_eq]
    have k₁ := plain t₁ h₁
    have k₂ := plain t₂ h₂
    have k₃ := plain t₃ h₃
    have k₄ := plain t₅ h₄
    have k₅ := plain t₄ h₅
    exact (((k₁.append k₂).append k₃).append k₄).append k₅

/-! ## Which plans bind temporaries, close bodies and have cases -/

/-- What only few plans do by themselves. -/
inductive Device where
  /-- A temporary is bound. -/
  | binding
  /-- A body is put in braces behind a value. -/
  | closing
  /-- Code is put in the frame of a switch, or closes a case. -/
  | casing
deriving DecidableEq, Repr

/-- Whether a temporary is bound. -/
def Device.isBinding : Device → Bool
  | .binding => true
  | _ => false

variable {ban : Device → Bool}

/-- Outside of the nodes in it, the plan does nothing that is banned. -/
@[simp] def avoids (ban : Device → Bool) : Plan → Bool
  | .nothing | .text _ | .mark _ | .fail _ | .emit _ | .jump _ _ | .guarded _ _
  | .expression _ _ | .statement _ _ => true
  | .bind p => !ban .binding && p.avoids ban
  | .closed p q => !ban .closing && (p.avoids ban && q.avoids ban)
  | .closeCase => !ban .casing
  | .inSwitch p => !ban .casing && p.avoids ban
  | .unlessEmpty _ p _ | .compact p | .effects p | .line p | .valueLine p | .barrier p
  | .apart p | .declared _ p => p.avoids ban
  | .both p q | .shownBefore p q | .ifThen p q | .whileLoop p q | .doWhile p q =>
    p.avoids ban && q.avoids ban
  | .ifThenElse p q r | .endless p q r | .foreachLoop p q r =>
    p.avoids ban && q.avoids ban && r.avoids ban
  | .forLoop i g c s b =>
    i.avoids ban && g.avoids ban && c.avoids ban && s.avoids ban && b.avoids ban

theorem avoids_of_isInline (h : p.isInline) : p.avoids ban := by
  induction p with
  | both p q hp hq =>
    obtain ⟨h₁, h₂⟩ := Bool.and_eq_true_iff.mp h
    exact Bool.and_eq_true_iff.mpr ⟨hp h₁, hq h₂⟩
  | unlessEmpty before p after ih => exact ih h
  | nothing | text | mark | fail | guarded | expression => rfl
  | _ => cases h

@[simp] theorem avoids_append (p q : Plan) :
    (p ++ q).avoids ban = (p.avoids ban && q.avoids ban) :=
  rfl

@[simp] theorem avoids_all {α : Type} {f : α → Plan} (hf : ∀ n, (f n).avoids ban)
    (ns : List α) : (all (ns.map f)).avoids ban = true := by
  induction ns with
  | nil => rfl
  | cons n ns ih => simp [all, hf, ih]

@[simp] theorem avoids_joined {α : Type} {f : α → Plan} (hf : ∀ n, (f n).avoids ban)
    (s : String) (ns : List α) : (joined s (ns.map f)).avoids ban = true := by
  induction ns with
  | nil => rfl
  | cons n ns ih =>
    cases ns with
    | nil => exact hf n
    | cons m ns =>
      show ((f n).avoids ban && true && (joined s ((m :: ns).map f)).avoids ban) = true
      rw [hf, ih]
      rfl

@[simp] theorem avoids_textIf (b : Bool) (s : String) : (textIf b s).avoids ban = true := by
  cases b <;> rfl

@[simp] theorem avoids_ofOption {α : Type} {f : α → Plan} (hf : ∀ n, (f n).avoids ban)
    (n : Option α) : (ofOption (n.map f)).avoids ban = true := by
  cases n with
  | none => rfl
  | some n => exact hf n

@[simp] theorem avoids_optionAfter {f : Planned → Plan} (hf : ∀ n, (f n).avoids ban)
    (s : String) (n : Option Planned) : (optionAfter s (n.map f)).avoids ban = true := by
  cases n with
  | none => rfl
  | some n => exact hf n

@[simp] theorem avoids_braced (p q : Plan) :
    (braced p q).avoids ban = (p.avoids ban && q.avoids ban) := by
  simp [braced, avoids]

end Plan

open Plan

section

variable {ban : Device → Bool}

section

variable (n : Planned)

@[simp] theorem avoids_value : n.value.avoids ban = true :=
  avoids_of_isInline n.isInline_value

@[simp] theorem avoids_code : n.code.avoids ban = true := by
  unfold Planned.code
  split <;> rfl

@[simp] theorem avoids_name : n.name.avoids ban = true :=
  avoids_of_isInline n.isInline_name

@[simp] theorem avoids_fullName : n.fullName.avoids ban = true :=
  avoids_of_isInline n.isInline_fullName

@[simp] theorem avoids_expressionCode : n.expressionCode.avoids ban = true := by
  unfold Planned.expressionCode
  split <;> simp [avoids]

@[simp] theorem avoids_param : (param n).avoids ban = true := by
  unfold param
  split <;> simp [avoids, Planned.notStatement]

@[simp] theorem avoids_closureUse : (closureUse n).avoids ban = true := by
  unfold closureUse
  split <;> simp [avoids, Planned.notExpression]

@[simp] theorem avoids_constItem : (constItem n).avoids ban = true := by
  unfold constItem
  split <;> simp [avoids, Planned.notStatement]

@[simp] theorem avoids_property (modifiers : List String) :
    (property modifiers n).avoids ban = true := by
  unfold property
  split <;> simp [avoids, Planned.notStatement]

@[simp] theorem avoids_staticVarPlan : (staticVarPlan n).avoids ban = true := by
  unfold staticVarPlan
  split <;> simp [avoids, Planned.notStatement]

@[simp] theorem avoids_useItemPlan : (useItemPlan n).avoids ban = true := by
  unfold useItemPlan
  split <;> simp [avoids, Planned.notStatement]

@[simp] theorem avoids_codeOf (ns : List Planned) : (codeOf ns).avoids ban = true :=
  avoids_all avoids_code ns

@[simp] theorem avoids_casePlan (hban : ban .casing = false) :
    (casePlan n).avoids ban = true := by
  unfold casePlan
  split <;> simp [avoids, Planned.notStatement, hban]

@[simp] theorem avoids_catchPlan : (catchPlan n).avoids ban = true := by
  unfold catchPlan
  split <;> simp [avoids, Planned.notStatement]

end

theorem avoids_instantiation (hban : ban .closing = false) (n : Planned) (args : List Planned) :
    (instantiation n args).avoids ban := by
  by_cases hn : n.kind.isClass
  · obtain ⟨id, k, location, span, plan⟩ := n
    cases k with
    | classDecl name modifiers parent interfaces members =>
      have hargs : (arguments args).avoids ban := avoids_of_isInline (isInline_arguments args)
      have hparents : (classParents parent interfaces).avoids ban :=
        avoids_of_isInline (isInline_classParents parent interfaces)
      simp [instantiation, anonymousClass, avoids, hargs, hparents, hban]
    | _ => cases hn
  · exact avoids_of_isInline (isInline_instantiation hn args)

theorem avoids_expressionPlan {t : Tag} {k : Kind Planned} (hban : ban .closing = false)
    (hcall : k.isCall → ban .binding = false) : (expressionPlan t k).avoids ban := by
  cases k with
  | new owner args => exact avoids_instantiation hban owner args
  | inclusion way n => simp [expressionPlan, avoids]
  | closure ps uses body byRef isStatic arrow =>
    have huses : (closureUses uses).avoids ban = true := by
      unfold closureUses
      split <;> simp [avoids]
    simp [expressionPlan, closure, avoids, params, huses, hban]
  | call callee args | methodCall object method args nullsafe | staticCall owner method args =>
    have hmember (n : Planned) : n.member.avoids ban = true := avoids_of_isInline n.isInline_member
    have hargs : (arguments args).avoids ban = true := avoids_of_isInline (isInline_arguments args)
    simp [expressionPlan, avoids, hmember, hargs, hcall rfl]
  | _ =>
    refine avoids_of_isInline (isInline_expressionPlan Bool.false_ne_true Bool.false_ne_true ?_)
    rintro _ _ ⟨⟩

theorem avoids_declarationPlan (k : Kind Planned) : (declarationPlan k).avoids ban := by
  have hnames (word : String) (ns : List Planned) : (namesAfter word ns).avoids ban = true := by
    unfold namesAfter names
    split <;> simp [avoids]
  have hheader (modifiers : List String) (name : String) (byRef : Bool) (ns : List Planned) :
      (functionHeader modifiers name byRef ns).avoids ban = true := by
    simp [functionHeader, params, avoids]
  cases k with
  | methodDecl name modifiers ps body byRef =>
    cases body <;> simp [declarationPlan, declarationBody, avoids, hheader]
  | _ =>
    simp [declarationPlan, declarationBody, avoids, classParents, constItems, names, hnames,
      hheader]

theorem avoids_statementPlan {k : Kind Planned}
    (hban : ∀ subject cases, k = .switch subject cases → ban .casing = false) :
    (statementPlan k).avoids ban := by
  cases k with
  | switch subject cases =>
    have hcasing := hban subject cases rfl
    simp [statementPlan, avoids, hcasing]
  | returnStmt value => cases value <;> simp [statementPlan, avoids]
  | ifElse condition thenBranch elseBranch => cases elseBranch <;> simp [statementPlan, avoids]
  | forLoop init conditions step body =>
    show (forPlan init conditions step body).avoids ban = true
    unfold forPlan expressionsCode
    split
    · have hbarriers : (all (conditions.dropLast.map fun c => barrier c.value)).avoids ban = true :=
        avoids_all (f := fun c : Planned => barrier c.value) avoids_value _
      simp only [avoids, hbarriers, avoids_all avoids_expressionCode, avoids_value,
        avoids_codeOf, Bool.and_self]
    · simp [avoids]
  | namespaceStmt name body => cases body <;> simp [statementPlan, namespaceHeader, avoids]
  | useStmt kind group items => cases group <;> simp [statementPlan, usePlan, avoids]
  | _ => simp [statementPlan, bindingPlan, valueList, constItems, avoids]

/-- Statements bind no temporaries and close no bodies, and only a switch has cases. -/
theorem avoids_kindPlan_of_not_isExpression {t : Tag} {k : Kind Planned} (h : ¬ k.isExpression)
    (hban : ∀ subject cases, k = .switch subject cases → ban .casing = false) :
    (kindPlan t k).avoids ban := by
  unfold kindPlan
  rw [if_neg h]
  split
  · exact avoids_declarationPlan k
  · exact avoids_statementPlan hban

/-- **Only calls bind temporaries.** -/
theorem avoids_kindPlan {t : Tag} {k : Kind Planned} (h : ¬ k.isCall) :
    (kindPlan t k).avoids Device.isBinding := by
  by_cases he : k.isExpression
  · unfold kindPlan
    rw [if_pos he]
    exact avoids_expressionPlan rfl fun hcall => absurd hcall h
  · exact avoids_kindPlan_of_not_isExpression he fun _ _ _ => rfl

end

/-! ## Nodes -/

section

variable {call : Nat → Bool}

theorem Plan.tied_joined {s : String} {ps : List Plan} (h : ∀ p ∈ ps, p.Tied call false) :
    (joined s ps).Tied call false := by
  fun_induction joined s ps with
  | case1 => trivial
  | case2 p => exact h p List.mem_cons_self
  | case3 p q ps ih =>
    obtain ⟨hp, hps⟩ := List.forall_mem_cons.mp h
    exact ⟨⟨hp, trivial⟩, ih hps⟩

theorem tied_instantiation {n : Planned} {args : List Planned}
    (hn : (instantiation n []).Tied call false) (hargs : ∀ m ∈ args, (argument m).Tied call false) :
    (instantiation n args).Tied call false := by
  have hjoined : (arguments args).Tied call false :=
    Plan.tied_joined (List.forall_mem_map.mpr hargs)
  obtain ⟨id, k, location, span, plan⟩ := n
  cases k with
  | classDecl =>
    obtain ⟨⟨⟨⟨hmark, -⟩, hafter⟩, hparents⟩, hbody⟩ := hn
    exact ⟨⟨⟨⟨hmark, hjoined⟩, hafter⟩, hparents⟩, hbody⟩
  | _ =>
    obtain ⟨⟨hname, -⟩, hafter⟩ := hn
    exact ⟨⟨hname, hjoined⟩, hafter⟩

/-- What binds no temporary of its own binds them like its parts. -/
theorem Made.tied {u : Use} {p : Plan} {ps : List Part} (h : Made u p ps)
    (hp : p.avoids Device.isBinding) (hps : ∀ x ∈ ps, x.2.Tied call false) :
    p.Tied call false := by
  induction h with
  | part => exact hps _ List.mem_cons_self
  | nothing | text | jump | closeCase => trivial
  | bind => cases hp
  | asCode _ ih | unlessEmpty _ ih | compact _ ih | effects _ ih | line _ _ ih | valueLine _ ih
  | barrier _ ih | inSwitch _ ih | apart _ ih | declared _ ih => exact ih hp hps
  | append _ _ h₁ h₂ | shownBefore _ _ h₁ h₂ | ifThen _ _ h₁ h₂ | whileLoop _ _ h₁ h₂
  | doWhile _ _ h₁ h₂ =>
    obtain ⟨b₁, b₂⟩ := Bool.and_eq_true_iff.mp hp
    obtain ⟨t₁, t₂⟩ := List.forall_mem_append.mp hps
    exact ⟨h₁ b₁ t₁, h₂ b₂ t₂⟩
  | closed _ _ h₁ h₂ =>
    obtain ⟨-, hp⟩ := Bool.and_eq_true_iff.mp hp
    obtain ⟨b₁, b₂⟩ := Bool.and_eq_true_iff.mp hp
    obtain ⟨t₁, t₂⟩ := List.forall_mem_append.mp hps
    exact ⟨h₁ b₁ t₁, h₂ b₂ t₂⟩
  | braced _ _ _ h₁ h₂ =>
    rw [avoids_braced] at hp
    obtain ⟨b₁, b₂⟩ := Bool.and_eq_true_iff.mp hp
    obtain ⟨t₁, t₂⟩ := List.forall_mem_append.mp hps
    exact ⟨⟨⟨h₁ b₁ t₁, trivial⟩, h₂ b₂ t₂⟩, trivial⟩
  | instantiation =>
    obtain ⟨hn, hargs⟩ := List.forall_mem_cons.mp hps
    exact tied_instantiation hn fun m hm => hargs _ (List.mem_map_of_mem hm)
  | ifThenElse _ _ _ h₁ h₂ h₃ | endless _ _ _ h₁ h₂ h₃ | foreachLoop _ _ _ h₁ h₂ h₃ =>
    obtain ⟨b, b₃⟩ := Bool.and_eq_true_iff.mp hp
    obtain ⟨b₁, b₂⟩ := Bool.and_eq_true_iff.mp b
    obtain ⟨t, t₃⟩ := List.forall_mem_append.mp hps
    obtain ⟨t₁, t₂⟩ := List.forall_mem_append.mp t
    exact ⟨h₁ b₁ t₁, h₂ b₂ t₂, h₃ b₃ t₃⟩
  | forLoop _ _ _ _ _ h₁ h₂ h₃ h₄ h₅ =>
    obtain ⟨b, b₅⟩ := Bool.and_eq_true_iff.mp hp
    obtain ⟨b, b₄⟩ := Bool.and_eq_true_iff.mp b
    obtain ⟨b, b₃⟩ := Bool.and_eq_true_iff.mp b
    obtain ⟨b₁, b₂⟩ := Bool.and_eq_true_iff.mp b
    obtain ⟨t, t₅⟩ := List.forall_mem_append.mp hps
    obtain ⟨t, t₄⟩ := List.forall_mem_append.mp t
    obtain ⟨t, t₃⟩ := List.forall_mem_append.mp t
    obtain ⟨t₁, t₂⟩ := List.forall_mem_append.mp t
    exact ⟨h₁ b₁ t₁, h₂ b₂ t₂, h₃ b₃ t₃, h₄ b₄ t₄, h₅ b₅ t₅⟩

/-- **The plan of a call binds one temporary, and no other plan does.** -/
theorem tied_kindPlan {t : Tag} {k : Kind Planned} (hk : k.isExpression ∨ k.isStatement)
    (hparts : ∀ x ∈ parts k, x.2.Tied call false) :
    (kindPlan t k).isBind = k.isCall ∧ (kindPlan t k).Tied call k.isCall := by
  cases hcall : k.isCall with
  | true =>
    have hoists : k.hoists := by
      cases k with
      | call | methodCall | staticCall => rfl
      | _ => cases hcall
    obtain ⟨p, hp, hinline, hmade⟩ := made_hoisted (t := t) hoists
    rw [hp, hcall]
    exact ⟨rfl, rfl, hmade.tied (avoids_of_isInline hinline) hparts⟩
  | false =>
    have hbindless : (kindPlan t k).avoids Device.isBinding :=
      avoids_kindPlan (hcall ▸ Bool.false_ne_true)
    suffices h : (kindPlan t k).Tied call false from ⟨h.isBind_eq, h⟩
    by_cases hg : k.isGoto
    · obtain ⟨-, i, hi, -⟩ := kindPlan_eq_emit (t := t) hg
      rw [hi]
      trivial
    by_cases ht : k.hasToken
    · obtain ⟨hv, hs⟩ := made_kindPlan (t := t) hg ht
      obtain hk | hk := hk
      · exact (hv hk).tied hbindless hparts
      · exact (hs hk).tied hbindless hparts
    · obtain ⟨e, he⟩ := kindPlan_eq_fail (t := t) ht
      rw [he]
      trivial

theorem avoids_as {ban : Device → Bool} (hclosing : ban .closing = false) (n : Planned) {r : Role}
    (hcasing : r = .caseClause → ban .casing = false) : (n.as r).avoids ban := by
  cases r with
  | statement => exact avoids_code n
  | effect => exact avoids_expressionCode n
  | instantiated => exact avoids_instantiation hclosing n []
  | param => exact avoids_param n
  | closureUse => exact avoids_closureUse n
  | constItem => exact avoids_constItem n
  | staticVar => exact avoids_staticVarPlan n
  | property modifiers => exact avoids_property n modifiers
  | useItem => exact avoids_useItemPlan n
  | caseClause => exact avoids_casePlan n (hcasing rfl)
  | catchClause => exact avoids_catchPlan n
  | _ => exact avoids_of_isInline (isInline_as rfl nofun)

theorem category_of_guarded {r : Role} {c : Category} (h : r.standing c = .guarded) :
    (r = .effect ∧ c = .assignment) ∨ c = .name := by
  cases r with
  | effect =>
    cases c with
    | assignment => exact .inl ⟨rfl, rfl⟩
    | _ => cases h
  | _ =>
    cases c with
    | name => exact .inr rfl
    | _ => cases h

/-- Names, and assignments whose value is dropped. -/
theorem tied_guarded {n : Planned} (hn : n.plan = kindPlan n.tag n.kind) {r : Role}
    (hs : standing r n.kind = .guarded) (hid : call n.id = false)
    (hplan : n.plan.Tied call n.kind.isCall) : (n.as r).Tied call false := by
  have hcategory := category_of_guarded hs
  obtain ⟨id, k, location, span, plan⟩ := n
  obtain rfl : plan = kindPlan ⟨id, k.name, location, span⟩ k := hn
  cases k with
  | assign | assignRef =>
    obtain ⟨rfl, -⟩ | h := hcategory
    · exact ⟨hid, hplan, trivial⟩
    · cases h
  | identifier | qualifiedName =>
    cases r with
    | name | fullName | member => exact ⟨hid, trivial⟩
    | instantiated => exact ⟨⟨⟨⟨trivial, hid, trivial⟩, trivial⟩, trivial⟩, trivial⟩
    | _ => cases hs
  | _ => obtain ⟨-, h⟩ | h := hcategory <;> cases h

/-- The children of a node whose plan does not fail do not fail in their roles. -/
theorem sound_parts_of_plan {n : Node}
    (hk : (planned n).kind.isExpression ∨ (planned n).kind.isStatement)
    (h : (planned n).plan.Sound) : ∀ x ∈ parts (planned n).kind, x.2.Sound := by
  by_cases hg : (planned n).kind.isGoto
  · rw [parts_of_isGoto hg]
    exact fun _ hx => nomatch hx
  by_cases ht : (planned n).kind.hasToken
  · obtain ⟨hv, hs⟩ := made_kindPlan (t := (planned n).tag) hg ht
    rw [← planned_plan] at hv hs
    exact hk.elim (fun hk => (hv hk).sound_parts h) fun hk => (hs hk).sound_parts h
  · obtain ⟨e, he⟩ := kindPlan_eq_fail (t := (planned n).tag) ht
    rw [planned_plan, he] at h
    exact h.elim

/-- A call counts as a level or has no meaning. -/
theorem isCall_eq_false {α : Type} {r : Role} {k : Kind α}
    (h : standing r k = .guarded ∨ standing r k = .marked) : k.isCall = false := by
  cases k with
  | call | methodCall | staticCall => cases r <;> obtain h | h := h <;> cases h
  | _ => rfl

/-- **Temporaries are bound for calls and for nothing else.** -/
theorem tied_as (n : Node) (hcall : ∀ m ∈ n.subtree, call m.id = m.kind.isCall) {r : Role}
    (hsound : ((planned n).as r).Sound) : ((planned n).as r).Tied call false := by
  induction n using Node.induction_on_children generalizing r with
  | step n ih =>
    have hid : call (planned n).id = (planned n).kind.isCall := by
      rw [planned_id, hcall n n.mem_subtree_self, kind_planned]
      cases n.kind <;> rfl
    have hparts (h : ∀ x ∈ parts (planned n).kind, x.2.Sound) :
        ∀ x ∈ parts (planned n).kind, x.2.Tied call false := by
      rw [parts_planned, List.forall_mem_map] at h ⊢
      intro x hx
      have hchild : x.2 ∈ n.kind.children := by
        rw [← map_snd_placed]
        exact List.mem_map_of_mem hx
      exact ih x.2 hchild (fun m hm => hcall m (Node.subtree_subset_of_mem_children hchild hm))
        (h x hx)
    have hplan (hk : (planned n).kind.isExpression ∨ (planned n).kind.isStatement)
        (h : ∀ x ∈ parts (planned n).kind, x.2.Sound) :
        (planned n).plan.isBind = (planned n).kind.isCall ∧
          (planned n).plan.Tied call (planned n).kind.isCall := by
      rw [planned_plan]
      exact tied_kindPlan hk (hparts h)
    cases stands (planned_plan n) r with
    | level hs hm =>
      refine hm.tied (avoids_as rfl _ fun _ => rfl) (List.forall_mem_singleton.mpr ?_)
      have hleveled := hm.sound_parts hsound _ List.mem_cons_self
      cases hu : r.use with
      | value =>
        rw [hu] at hleveled
        have hk := isExpression_of_level hu hs
        obtain ⟨hbind, htied⟩ := hplan (.inl hk) (sound_parts_of_plan (.inl hk) hleveled)
        refine ⟨hid.trans hbind.symm, ?_⟩
        cases hcall : (planned n).kind.isCall with
        | true => exact hcall ▸ htied
        | false => exact (hcall ▸ htied : (planned n).plan.Tied call false).mono
      | code =>
        rw [hu] at hleveled
        have hk := isStatement_of_level hu hs
        obtain ⟨-, htied⟩ := hplan (.inr hk) (sound_parts_of_plan (.inr hk) hleveled)
        have hcall : (planned n).kind.isCall = false := by
          cases h : (planned n).kind <;> rw [h] at hk <;> first | rfl | cases hk
        rw [hcall] at hid htied
        exact ⟨hid, htied⟩
    | guarded hs hu hm hp =>
      have hguarded := hm.sound_parts hsound _ List.mem_cons_self
      have hk : (planned n).kind.isExpression := by
        rw [← category_isValue]
        obtain ⟨-, h⟩ | h := category_of_guarded hs <;> rw [h] <;> rfl
      obtain ⟨-, htied⟩ := hplan (.inl hk) (hp.sound_parts hguarded)
      have hcall := isCall_eq_false (.inl hs)
      exact tied_guarded (planned_plan n) hs (hid.trans hcall) htied
    | marked hs hm =>
      obtain ⟨-, hsounds⟩ := List.forall_mem_cons.mp (hm.sound_parts hsound)
      have hcall := isCall_eq_false (.inr hs)
      exact hm.tied (avoids_as rfl _ fun _ => rfl)
        (List.forall_mem_cons.mpr ⟨hid.trans hcall, hparts hsounds⟩)
    | wrong hs hm hps =>
      exact (hm.sound_parts hsound _ (List.mem_append_right _ List.mem_cons_self)).elim

end

end ThreeAddress.Lowering

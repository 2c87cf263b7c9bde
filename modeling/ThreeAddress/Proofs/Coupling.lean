import ThreeAddress.Proofs.Entering

/-!
# Coupled runs

Two runs side by side. A `Veil` says whether the numbers and the places of nodes are shown; what
is under the veil is the same for all nodes. A `Coupling` fixes a veil and the options of both
runs, and **steps are coupled** (`Lower.Coupled`) if, from contexts that are alike under the veil,
they come to related results and to contexts that are alike again, or fail with the same error
but for its place. A plan is coupled with the same plan under the veil (`Plan.coupled_runWith`),
unless it closes a case and the options treat that differently.
-/

namespace ThreeAddress

/-- Whether the numbers and the places of nodes are shown. -/
structure Veil where
  numbers : Bool
  places : Bool

namespace Veil

/-- The number of a node as it is shown. -/
def number (v : Veil) (id : Nat) : Nat :=
  if v.numbers then id else 0

/-- A place as it is shown. -/
def place {α : Type} (v : Veil) (x : Option α) : Option α :=
  if v.places then x else none

variable (v : Veil)

@[simp] theorem number_number (id : Nat) : v.number (v.number id) = v.number id := by
  unfold number
  split <;> rfl

@[simp] theorem place_place {α : Type} (x : Option α) : v.place (v.place x) = v.place x := by
  unfold place
  split <;> rfl

end Veil

/-- The tree under a veil. -/
def Syntax.Node.veiled (v : Veil) (n : Node) : Node :=
  n.fold fun n k => ⟨v.number n.id, k, v.place n.location, v.place n.span⟩

namespace Lowering

/-- The error under a veil. -/
def LoweringError.veiled (v : Veil) (e : LoweringError) : LoweringError :=
  ⟨e.cause, v.place e.location, v.place e.span⟩

/-- The tag under a veil. -/
def Tag.veiled (v : Veil) (t : Tag) : Tag :=
  ⟨v.number t.id, t.kind, v.place t.location, v.place t.span⟩

/-- The plan under a veil. -/
def Plan.veiled (v : Veil) : Plan → Plan
  | .mark id => .mark (v.number id)
  | .guarded id p => .guarded (v.number id) (p.veiled v)
  | .expression t p => .expression (t.veiled v) (p.veiled v)
  | .statement t p => .statement (t.veiled v) (p.veiled v)
  | .fail e => .fail (e.veiled v)
  | .both p q => .both (p.veiled v) (q.veiled v)
  | .unlessEmpty before p after => .unlessEmpty before (p.veiled v) after
  | .compact p => .compact (p.veiled v)
  | .shownBefore p q => .shownBefore (p.veiled v) (q.veiled v)
  | .bind p => .bind (p.veiled v)
  | .closed p q => .closed (p.veiled v) (q.veiled v)
  | .effects p => .effects (p.veiled v)
  | .line p => .line (p.veiled v)
  | .valueLine p => .valueLine (p.veiled v)
  | .ifThen p q => .ifThen (p.veiled v) (q.veiled v)
  | .ifThenElse p q r => .ifThenElse (p.veiled v) (q.veiled v) (r.veiled v)
  | .whileLoop p q => .whileLoop (p.veiled v) (q.veiled v)
  | .doWhile p q => .doWhile (p.veiled v) (q.veiled v)
  | .barrier p => .barrier (p.veiled v)
  | .forLoop i g t s b =>
    .forLoop (i.veiled v) (g.veiled v) (t.veiled v) (s.veiled v) (b.veiled v)
  | .endless i s b => .endless (i.veiled v) (s.veiled v) (b.veiled v)
  | .foreachLoop i x b => .foreachLoop (i.veiled v) (x.veiled v) (b.veiled v)
  | .inSwitch p => .inSwitch (p.veiled v)
  | .apart p => .apart (p.veiled v)
  | .declared kind p => .declared kind (p.veiled v)
  | p => p

/-- What two runs that are compared may differ in: in what is under the veil, and in their
options but for the limit on depth. -/
structure Coupling extends Veil where
  left : Options
  right : Options
  maxDepth_eq : left.maxDepth = right.maxDepth

/-- Contexts that are alike. Nodes that have no number to be told by may have been met or not. -/
structure Context.Coupled (s : Coupling) (c d : Context) : Prop where
  temps : c.temps = d.temps
  labels : c.labels = d.labels
  frames : c.frames = d.frames
  depth : c.depth = d.depth
  left : c.options = s.left
  right : d.options = s.right
  visited : s.numbers = true → c.visited = d.visited

/-- Outcomes that are both results, which are related, or both the same error. -/
inductive Coupling.Ends {α β : Type} (s : Coupling) (R : α → β → Prop) :
    Except LoweringError α → Except LoweringError β → Prop
  | ok {a : α} {b : β} : R a b → Ends s R (.ok a) (.ok b)
  | error {e e' : LoweringError} : e.veiled s.toVeil = e'.veiled s.toVeil →
      Ends s R (.error e) (.error e')

theorem Coupling.Ends.mapError_map_eq {α β : Type} {s : Coupling}
    {x y : Except LoweringError α} (h : s.Ends Eq x y) (f : α → β) :
    (x.map f).mapError (LoweringError.veiled s.toVeil)
      = (y.map f).mapError (LoweringError.veiled s.toVeil) := by
  cases h with
  | ok h => exact congrArg (Except.ok ∘ f) h
  | error h => exact congrArg Except.error h

/-- From contexts that are alike, the steps come to related results, or to the same error, and to
contexts that are alike. -/
def Lower.Coupled {α β : Type} (s : Coupling) (R : α → β → Prop) (x : Lower α) (y : Lower β) :
    Prop :=
  ∀ c d, c.Coupled s d → s.Ends R (x.outcome c).1 (y.outcome d).1 ∧
    (x.outcome c).2.Coupled s (y.outcome d).2

/-- The entrance that the numbers allow for: without them every node is let in. -/
def Coupling.enter (s : Coupling) : Nat → Lower Bool :=
  if s.numbers then Lower.enter else Lower.enterAlways

namespace Lower.Coupled

variable {α β γ δ : Type} {s : Coupling} {R : α → β → Prop} {T : γ → δ → Prop}

theorem pure {a : α} {b : β} (h : R a b) :
    Coupled s R (Pure.pure a : Lower α) (Pure.pure b : Lower β) :=
  fun _ _ hcd => ⟨.ok h, hcd⟩

theorem throw {e e' : LoweringError} (h : e.veiled s.toVeil = e'.veiled s.toVeil) :
    Coupled s R (MonadExcept.throw e : Lower α) (MonadExcept.throw e' : Lower β) :=
  fun _ _ hcd => ⟨.error h, hcd⟩

/-- **Coupled steps one after the other are coupled.** -/
theorem bind {x : Lower α} {y : Lower β} {f : α → Lower γ} {g : β → Lower δ}
    (h : Coupled s R x y) (hf : ∀ a b, R a b → Coupled s T (f a) (g b)) :
    Coupled s T (x >>= f) (y >>= g) := by
  intro c d hcd
  have hxy := h c d hcd
  rw [outcome_bind, outcome_bind]
  cases hx : x.outcome c with
  | mk r c₁ =>
    cases hy : y.outcome d with
    | mk r' d₁ =>
      rw [hx, hy] at hxy
      obtain ⟨hends, hcd₁⟩ := hxy
      cases hends with
      | error he => exact ⟨.error he, hcd₁⟩
      | ok hab => exact hf _ _ hab c₁ d₁ hcd₁

theorem map {x : Lower α} {y : Lower β} {f : α → γ} {g : β → δ} (h : Coupled s R x y)
    (hf : ∀ a b, R a b → T (f a) (g b)) :
    Coupled s T (x >>= fun a => Pure.pure (f a)) (y >>= fun b => Pure.pure (g b)) :=
  h.bind fun a b hab => .pure (hf a b hab)

/-- A step before both. -/
theorem behind {x y : Lower α} {f : α → Lower γ} {g : α → Lower δ} (h : Coupled s Eq x y)
    (hf : ∀ a, Coupled s T (f a) (g a)) : Coupled s T (x >>= f) (y >>= g) :=
  h.bind fun a _ hab => hab ▸ hf a

theorem before {x y : Lower α} {f : α → γ} (h : Coupled s Eq x y) :
    Coupled s Eq (x >>= fun a => Pure.pure (f a)) (y >>= fun a => Pure.pure (f a)) :=
  h.behind fun _ => .pure rfl

/-- What is the same in contexts that are alike may be read off. -/
theorem read {f : Context → α} (hf : ∀ c d, c.Coupled s d → f c = f d) :
    Coupled s Eq (do return f (← get)) (do return f (← get)) :=
  fun c d h => ⟨.ok (hf c d h), h⟩

theorem mark (id : Nat) : Coupled s Eq (Lower.mark id) (Lower.mark (s.number id)) := by
  refine fun c d h => ⟨.ok rfl, { h with visited := fun hn => ?_ }⟩
  have hid : s.number id = id := by
    unfold Veil.number
    rw [if_pos hn]
  show c.visited.insert id = d.visited.insert (s.number id)
  rw [h.visited hn, hid]

theorem tell {e e' : Event} : Coupled s Eq (Lower.tell e) (Lower.tell e') :=
  fun _ _ h => ⟨.ok rfl, { h with }⟩

theorem ascend : Coupled s Eq Lower.ascend Lower.ascend :=
  fun _ _ h => ⟨.ok rfl, { h with depth := congrArg (· - 1) h.depth }⟩

theorem newTemp : Coupled s Eq Lower.newTemp Lower.newTemp :=
  fun _ _ h => ⟨.ok (congrArg temporary h.temps), { h with temps := congrArg (· + 1) h.temps }⟩

theorem newLabels : Coupled s Eq Lower.newLabels Lower.newLabels :=
  fun _ _ h =>
    ⟨.ok (congrArg Labels.ofNat h.labels), { h with labels := congrArg (· + 1) h.labels }⟩

theorem withFrames {f : List Frame → List Frame} {x : Lower α} {y : Lower β}
    (h : Coupled s R x y) : Coupled s R (Lower.withFrames f x) (Lower.withFrames f y) := by
  intro c d hcd
  obtain ⟨hends, hout⟩ := h (c.framed (f c.frames)) (d.framed (f d.frames))
    { hcd with frames := congrArg f hcd.frames }
  exact ⟨hends, { hout with frames := hcd.frames }⟩

theorem descend (t : Tag) :
    Coupled s Eq (Lower.descend t) (Lower.descend (t.veiled s.toVeil)) := by
  intro c d h
  have houtcome (t : Tag) (c : Context) : (Lower.descend t).outcome c
      = if c.options.maxDepth ≤ c.depth
        then (.error (t.error (.tooDeep c.options.maxDepth)), c) else (.ok (), c.below) := by
    unfold Lower.descend
    rw [outcome_bind]
    show (ite (c.options.maxDepth ≤ c.depth) _ _ : Lower Unit).outcome c = _
    split <;> rfl
  rw [houtcome, houtcome, h.depth, h.left, h.right, s.maxDepth_eq]
  split
  · refine ⟨.error ?_, h⟩
    simp [LoweringError.veiled, Tag.error, Tag.veiled]
  · exact ⟨.ok rfl, { h with depth := congrArg (· + 1) h.depth }⟩

theorem enter (id : Nat) : Coupled s Eq (s.enter id) (s.enter (s.number id)) := by
  unfold Coupling.enter
  split
  · rename_i hn
    have hid : s.number id = id := by
      unfold Veil.number
      rw [if_pos hn]
    intro c d h
    have hout := (mark (s := s) id c d h).2
    rw [hid] at hout ⊢
    rw [outcome_enter, outcome_enter, h.visited hn]
    exact ⟨.ok rfl, hout⟩
  · exact .behind (.mark id) fun _ => .pure rfl

/-- What is entered is done in both, or in neither. -/
theorem entered {id : Nat} {x : Lower α} {y : Lower β} {a : α} {b : β} (h : Coupled s R x y)
    (hab : R a b) :
    Coupled s R (do if ← s.enter id then x else return a)
      (do if ← s.enter (s.number id) then y else return b) := by
  refine .behind (.enter id) fun first => ?_
  cases first with
  | false => exact .pure hab
  | true => exact h

end Lower.Coupled

/-- Nothing in the plan is treated differently: it closes no case, or the options agree on that. -/
@[simp] def Plan.Steady (s : Coupling) : Plan → Prop
  | .closeCase => s.left.switchFallthrough = s.right.switchFallthrough
  | .guarded _ p | .expression _ p | .statement _ p | .unlessEmpty _ p _ | .compact p | .bind p
  | .effects p | .line p | .valueLine p | .barrier p | .inSwitch p | .apart p | .declared _ p =>
    p.Steady s
  | .both p q | .shownBefore p q | .closed p q | .ifThen p q | .whileLoop p q | .doWhile p q =>
    p.Steady s ∧ q.Steady s
  | .ifThenElse p q r | .endless p q r | .foreachLoop p q r => p.Steady s ∧ q.Steady s ∧ r.Steady s
  | .forLoop i g t r b => i.Steady s ∧ g.Steady s ∧ t.Steady s ∧ r.Steady s ∧ b.Steady s
  | _ => True

theorem Plan.steady_of_eq {s : Coupling}
    (h : s.left.switchFallthrough = s.right.switchFallthrough) (p : Plan) : p.Steady s := by
  induction p <;> simp_all

open Lower in
/-- **A steady plan runs as the same plan under the veil does.** -/
theorem Plan.coupled_runWith {s : Coupling} {p : Plan} (h : p.Steady s) :
    Lower.Coupled s Eq (p.runWith s.enter) ((p.veiled s.toVeil).runWith s.enter) := by
  induction p with
  | nothing | text | emit => exact .pure rfl
  | mark id => exact .before (.mark id)
  | fail => exact .throw (by simp [LoweringError.veiled])
  | jump => exact .read fun _ _ h => by rw [Context.jump_congr h.frames]
  | closeCase =>
    refine .read fun _ _ hcd => ?_
    rw [hcd.left, hcd.right, (h : _ = _)]
  | guarded _ _ ih => exact .entered (ih h) rfl
  | expression t _ ih =>
    exact .entered (.behind (.descend t) fun _ => .behind (ih h) fun _ => .before .ascend) rfl
  | statement t _ ih =>
    exact .entered (.behind .tell fun _ => .behind (.descend t) fun _ => .behind (ih h) fun _ =>
      .before .ascend) rfl
  | unlessEmpty _ _ _ ih | compact _ ih | effects _ ih | line _ ih | valueLine _ ih =>
    exact .before (ih h)
  | bind _ ih => exact .behind (ih h) fun _ => .before .newTemp
  | barrier _ ih =>
    exact .behind (ih h) fun _ => .behind .newLabels fun _ => .read fun _ _ h => by
      rw [Context.jump_congr h.frames]
  | declared _ _ ih => exact .behind (ih h) fun _ => .before .tell
  | inSwitch _ ih | apart _ ih => exact .withFrames (ih h)
  | both _ _ hp hq => exact .behind (hp h.1) fun _ => .before (hq h.2)
  | shownBefore _ _ hp hq => exact .behind (hq h.2) fun _ => .before (hp h.1)
  | closed _ _ hp hq => exact .behind (hp h.1) fun _ => .before (.withFrames (hq h.2))
  | ifThen _ _ hp hq =>
    exact .behind (hp h.1) fun _ => .behind .newLabels fun _ => .before (hq h.2)
  | ifThenElse _ _ _ hp hq hr =>
    exact .behind (hp h.1) fun _ => .behind .newLabels fun _ => .behind .newLabels fun _ =>
      .behind (hq h.2.1) fun _ => .before (hr h.2.2)
  | whileLoop _ _ hp hq =>
    exact .behind .newLabels fun _ => .behind .newLabels fun _ => .behind (hp h.1) fun _ =>
      .before (.withFrames (hq h.2))
  | doWhile _ _ hp hq =>
    exact .behind .newLabels fun _ => .behind .newLabels fun _ =>
      .behind (.withFrames (hp h.1)) fun _ => .before (hq h.2)
  | foreachLoop _ _ _ hp hq hr =>
    exact .behind (hp h.1) fun _ => .behind (hq h.2.1) fun _ => .behind .newLabels fun _ =>
      .behind .newLabels fun _ => .before (.withFrames (hr h.2.2))
  | endless _ _ _ hp hq hr =>
    exact .behind (hp h.1) fun _ => .behind .newLabels fun _ => .behind .newLabels fun _ =>
      .behind .newLabels fun _ => .behind (.withFrames (hr h.2.2)) fun _ => .before (hq h.2.1)
  | forLoop _ _ _ _ _ hi hg ht hs hb =>
    exact .behind (hi h.1) fun _ => .behind .newLabels fun _ => .behind .newLabels fun _ =>
      .behind .newLabels fun _ => .behind (.withFrames (hg h.2.1)) fun _ =>
        .behind (ht h.2.2.1) fun _ => .behind (.withFrames (hb h.2.2.2.2)) fun _ =>
          .before (hs h.2.2.2.1)

end Lowering

end ThreeAddress

import ThreeAddress.Proofs.Dependence

/-!
# The context around a lowering

What lowering leaves of the context it started from (`Restored`), also when it fails: the frames
and the options are the same, the counters have not gone back and no node is forgotten. **A
success comes back to its level**; a failure stays at the level where it happened, which the limit
bounds. So the way up from a node always starts below the top: a run that would stop at the top
(`Lower.ascendOrStop`) is no different (`Plan.steady_runWith`).
-/

namespace ThreeAddress.Lowering

open Syntax (Node)

/-- What an outcome leaves of the context before it. -/
structure Restored {α : Type} (c : Context) (r : Except LoweringError α × Context) : Prop where
  frames : r.2.frames = c.frames
  temps : c.temps ≤ r.2.temps
  labels : c.labels ≤ r.2.labels
  visited : ∀ i ∈ c.visited, i ∈ r.2.visited
  options : r.2.options = c.options
  /-- A success comes back to the level it started from. -/
  level : ∀ a, r.1 = .ok a → r.2.depth = c.depth
  /-- A failure does not come back up, and stays within the limit. -/
  stuck : ∀ e, r.1 = .error e → c.depth ≤ r.2.depth ∧ r.2.depth ≤ c.options.maxDepth

namespace Restored

variable {α β : Type} {c c₁ : Context}

theorem ok {a : α} (hframes : c₁.frames = c.frames) (htemps : c.temps ≤ c₁.temps)
    (hlabels : c.labels ≤ c₁.labels) (hvisited : ∀ i ∈ c.visited, i ∈ c₁.visited)
    (hoptions : c₁.options = c.options) (hdepth : c₁.depth = c.depth) :
    Restored c ((.ok a, c₁) : Except LoweringError α × Context) where
  frames := hframes
  temps := htemps
  labels := hlabels
  visited := hvisited
  options := hoptions
  level := fun _ _ => hdepth
  stuck := by
    rintro e ⟨⟩

theorem refl {a : α} : Restored c ((.ok a, c) : Except LoweringError α × Context) :=
  ok rfl (Nat.le_refl _) (Nat.le_refl _) (fun _ hi => hi) rfl rfl

theorem met {id : Nat} {a : α} :
    Restored c ((.ok a, c.met id) : Except LoweringError α × Context) :=
  ok rfl (Nat.le_refl _) (Nat.le_refl _) (fun _ hi => Context.mem_met.mpr (.inr hi)) rfl rfl

theorem error {e : LoweringError} (h : c.depth ≤ c.options.maxDepth) :
    Restored c ((.error e, c) : Except LoweringError α × Context) where
  frames := rfl
  temps := Nat.le_refl _
  labels := Nat.le_refl _
  visited := fun _ hi => hi
  options := rfl
  level := by
    rintro a ⟨⟩
  stuck := fun _ _ => ⟨Nat.le_refl _, h⟩

/-- **What follows a success restores the context before it.** -/
theorem trans {a : α} {r : Except LoweringError β × Context}
    (h : Restored c ((.ok a, c₁) : Except LoweringError α × Context)) (h' : Restored c₁ r) :
    Restored c r where
  frames := h'.frames.trans h.frames
  temps := Nat.le_trans h.temps h'.temps
  labels := Nat.le_trans h.labels h'.labels
  visited i hi := h'.visited i (h.visited i hi)
  options := h'.options.trans h.options
  level b hb := (h'.level b hb).trans (h.level a rfl)
  stuck e he := by
    have hdepth := h.level a rfl
    have hoptions : c₁.options = c.options := h.options
    rw [← hdepth, ← hoptions]
    exact h'.stuck e he

/-- A failure leaves the same with any type of result. -/
theorem failed {e : LoweringError}
    (h : Restored c ((.error e, c₁) : Except LoweringError α × Context)) :
    Restored c ((.error e, c₁) : Except LoweringError β × Context) where
  frames := h.frames
  temps := h.temps
  labels := h.labels
  visited := h.visited
  options := h.options
  level := by
    rintro a ⟨⟩
  stuck := fun _ _ => h.stuck e rfl

end Restored

namespace Lower

variable {α β : Type}

/-- Goes back one level, and stops at the top. -/
def ascendOrStop (stop : LoweringError) : Lower Unit := do
  if (← get).depth = 0 then throw stop else ascend

theorem outcome_descend_of_le {t : Tag} {c : Context} (h : c.options.maxDepth ≤ c.depth) :
    (descend t).outcome c = (.error (t.error (.tooDeep c.options.maxDepth)), c) := by
  unfold descend
  rw [outcome_bind]
  show (if c.options.maxDepth ≤ c.depth then _ else _ : Lower Unit).outcome c = _
  rw [if_pos h]
  rfl

theorem outcome_ascendOrStop {stop : LoweringError} {c : Context} (h : 0 < c.depth) :
    (ascendOrStop stop).outcome c = (.ok (), c.above) := by
  unfold ascendOrStop
  rw [outcome_bind]
  show (if c.depth = 0 then _ else _ : Lower Unit).outcome c = _
  rw [if_neg (by omega)]
  rfl

/-- Within the limit, both steps come to the same, and restore the context. -/
def Steady (x y : Lower α) : Prop :=
  ∀ c, c.depth ≤ c.options.maxDepth → y.outcome c = x.outcome c ∧ Restored c (x.outcome c)

namespace Steady

/-- A step that succeeds at its own level. -/
theorem of_ok {x : Lower α} (h : ∀ c, ∃ a c', x.outcome c = (.ok a, c') ∧
    Restored c ((.ok a, c') : Except LoweringError α × Context)) : Steady x x := by
  intro c _
  obtain ⟨a, c', hx, hc⟩ := h c
  rw [hx]
  exact ⟨rfl, hc⟩

theorem pure {a : α} : Steady (Pure.pure a : Lower α) (Pure.pure a) :=
  of_ok fun c => ⟨a, c, rfl, .refl⟩

theorem throw {e : LoweringError} :
    Steady (MonadExcept.throw e : Lower α) (MonadExcept.throw e) :=
  fun _ hc => ⟨rfl, .error hc⟩

theorem get : Steady (MonadState.get : Lower Context) MonadState.get :=
  of_ok fun c => ⟨c, c, rfl, .refl⟩

theorem tell {e : Event} : Steady (Lower.tell e) (Lower.tell e) :=
  of_ok fun c => ⟨(), c.told e, rfl,
    .ok rfl (Nat.le_refl _) (Nat.le_refl _) (fun _ hi => hi) rfl rfl⟩

theorem mark {id : Nat} : Steady (Lower.mark id) (Lower.mark id) :=
  of_ok fun c => ⟨(), c.met id, rfl, .met⟩

theorem enter {id : Nat} : Steady (Lower.enter id) (Lower.enter id) :=
  of_ok fun c => ⟨!c.visited.contains id, c.met id, gives_enter.mpr ⟨rfl, rfl⟩, .met⟩

theorem newTemp : Steady Lower.newTemp Lower.newTemp :=
  of_ok fun c => ⟨temporary c.temps, c.temped, gives_newTemp.mpr ⟨rfl, rfl⟩,
    .ok rfl (Nat.le_succ _) (Nat.le_refl _) (fun _ hi => hi) rfl rfl⟩

theorem newLabels : Steady Lower.newLabels Lower.newLabels :=
  of_ok fun c => ⟨.ofNat c.labels, c.labelled, gives_newLabels.mpr ⟨rfl, rfl⟩,
    .ok rfl (Nat.le_refl _) (Nat.le_succ _) (fun _ hi => hi) rfl rfl⟩

/-- **Steady steps are steady one after the other.** -/
theorem bind {x y : Lower α} {f g : α → Lower β} (h : Steady x y)
    (hf : ∀ a, Steady (f a) (g a)) : Steady (x >>= f) (y >>= g) := by
  intro c hc
  obtain ⟨heq, hx⟩ := h c hc
  rw [outcome_bind, outcome_bind, heq]
  cases hr : x.outcome c with
  | mk r c₁ =>
    rw [hr] at hx
    cases r with
    | error e => exact ⟨rfl, hx.failed⟩
    | ok a =>
      have hdepth : c₁.depth = c.depth := hx.level a rfl
      have hoptions : c₁.options = c.options := hx.options
      obtain ⟨heq', hf'⟩ := hf a c₁ (by rw [hdepth, hoptions]; exact hc)
      exact ⟨heq', hx.trans hf'⟩

theorem map {x y : Lower α} {f : α → β} (h : Steady x y) :
    Steady (x >>= fun a => Pure.pure (f a)) (y >>= fun a => Pure.pure (f a)) :=
  h.bind fun _ => .pure

/-- Other frames are taken back, also after a failure. -/
theorem withFrames {f : List Frame → List Frame} {x y : Lower α} (h : Steady x y) :
    Steady (Lower.withFrames f x) (Lower.withFrames f y) := by
  intro c hc
  obtain ⟨heq, hx⟩ := h (c.framed (f c.frames)) hc
  refine ⟨congrArg (fun r => (r.1, r.2.framed c.frames)) heq, ?_⟩
  exact { hx with frames := rfl }

/-- **One level down and back.** The way up starts below the top, for it starts where the way down
ended. -/
theorem level {t : Tag} {stop : LoweringError} {x y : Lower α} (h : Steady x y) :
    Steady (do descend t; let a ← x; ascend; return a)
      (do descend t; let a ← y; ascendOrStop stop; return a) := by
  intro c hc
  by_cases hfull : c.options.maxDepth ≤ c.depth
  · -- no level is left, and nothing is done
    rw [outcome_bind, outcome_bind, outcome_descend_of_le hfull]
    exact ⟨rfl, .error hc⟩
  · have hdown : (descend t).outcome c = (.ok (), c.below) :=
      gives_descend.mpr ⟨by omega, rfl⟩
    obtain ⟨heq, hx⟩ := h c.below (by show c.depth + 1 ≤ c.options.maxDepth; omega)
    simp only [outcome_bind, hdown, heq]
    cases hr : x.outcome c.below with
    | mk r c₁ =>
      rw [hr] at hx
      cases r with
      | error e =>
        obtain ⟨hlow, hhigh⟩ := hx.stuck e rfl
        have hlow : c.depth + 1 ≤ c₁.depth := hlow
        exact ⟨rfl, { hx with
          level := by rintro a ⟨⟩
          stuck := fun _ _ => ⟨by show c.depth ≤ c₁.depth; omega, hhigh⟩ }⟩
      | ok a =>
        have hdepth : c₁.depth = c.depth + 1 := hx.level a rfl
        have hup : c₁.above.depth = c.depth := by
          show c₁.depth - 1 = c.depth
          omega
        simp only [outcome_ascendOrStop (show 0 < c₁.depth by omega)]
        exact ⟨rfl, .ok hx.frames hx.temps hx.labels hx.visited hx.options hup⟩

/-- A node that was met before is passed over. -/
theorem entered {id : Nat} {x y z : Lower α} (h : Steady x y) (hz : Steady z z) :
    Steady (do if ← Lower.enter id then x else z) (do if ← Lower.enter id then y else z) := by
  refine bind enter fun b => ?_
  cases b with
  | true => exact h
  | false => exact hz

end Steady

end Lower

open Lower in
/-- **Every plan restores the context and never goes up from the top.** -/
theorem Plan.steady_runWith (stop : LoweringError) (p : Plan) :
    Lower.Steady p.run (p.runWith Lower.enter (ascendOrStop stop)) := by
  induction p with
  | nothing | text | emit => exact .pure
  | mark => exact .map .mark
  | fail => exact .throw
  | jump | closeCase => exact .map .get
  | guarded id p ih => exact .entered ih .pure
  | expression t p ih => exact .entered (.level ih) .pure
  | statement t p ih => exact .entered (.bind .tell fun _ => .level ih) .pure
  | unlessEmpty _ p _ ih | compact p ih | effects p ih | line p ih | valueLine p ih =>
    exact .map ih
  | bind p ih => exact .bind ih fun _ => .map .newTemp
  | barrier p ih => exact .bind ih fun _ => .bind .newLabels fun _ => .map .get
  | declared _ p ih => exact .bind ih fun _ => .map .tell
  | inSwitch p ih | apart p ih => exact .withFrames ih
  | both p q hp hq => exact .bind hp fun _ => .map hq
  | shownBefore p q hp hq => exact .bind hq fun _ => .map hp
  | closed p q hp hq => exact .bind hp fun _ => .map (.withFrames hq)
  | ifThen p q hp hq => exact .bind hp fun _ => .bind .newLabels fun _ => .map hq
  | whileLoop p q hp hq =>
    exact .bind .newLabels fun _ => .bind .newLabels fun _ => .bind hp fun _ =>
      .map (.withFrames hq)
  | doWhile p q hp hq =>
    exact .bind .newLabels fun _ => .bind .newLabels fun _ => .bind (.withFrames hp) fun _ =>
      .map hq
  | ifThenElse p q r hp hq hr =>
    exact .bind hp fun _ => .bind .newLabels fun _ => .bind .newLabels fun _ =>
      .bind hq fun _ => .map hr
  | foreachLoop p q r hp hq hr =>
    exact .bind hp fun _ => .bind hq fun _ => .bind .newLabels fun _ =>
      .bind .newLabels fun _ => .map (.withFrames hr)
  | endless p q r hp hq hr =>
    exact .bind hp fun _ => .bind .newLabels fun _ => .bind .newLabels fun _ =>
      .bind .newLabels fun _ => .bind (.withFrames hr) fun _ => .map hq
  | forLoop i g t s b hi hg ht hs hb =>
    exact .bind hi fun _ => .bind .newLabels fun _ => .bind .newLabels fun _ =>
      .bind .newLabels fun _ => .bind (.withFrames hg) fun _ => .bind ht fun _ =>
        .bind (.withFrames hb) fun _ => .map hs

/-! ## What is lowered -/

/-- The ways to lower nodes. -/
inductive Task where
  | statement (n : Node)
  | expression (n : Option Node)
  | statements (ns : List Node)
  | declaration (n : Node)
  | closure (n : Node)
  /-- A class without a name, instantiated with the arguments. -/
  | anonymousClass (n : Node) (args : List Node)

/-- The plan of a task. -/
def Task.plan : Task → Plan
  | .statement n => (planned n).code
  | .expression n => .ofOption (n.map fun n => (planned n).value)
  | .statements ns => codeOf (ns.map planned)
  | .declaration n => (planned n).declaration
  | .closure n => (planned n).closureText
  | .anonymousClass n args => Lowering.anonymousClass (planned n) (args.map planned)

/-- `while ($a) { $b; }`, whose body is two levels below the loop. -/
def deepLoop : Task :=
  .statement ⟨0, .whileLoop ⟨1, .var "a", none, none⟩
    [⟨2, .expressionStmt ⟨3, .var "b", none, none⟩, none, none⟩], none, none⟩

end ThreeAddress.Lowering

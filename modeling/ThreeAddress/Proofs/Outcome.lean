import ThreeAddress.Lowering.Run

/-!
# Outcomes of lowering

What a lowering step comes to from a context: a result or a failure, and the context that is
reached. Every primitive step has its outcome as an equation, and a sequence of steps
succeeds exactly if all of them do (`Lower.gives_bind`).
-/

namespace ThreeAddress.Lowering

namespace Context

/-- A node counts as met. -/
def met (c : Context) (id : Nat) : Context :=
  { c with visited := c.visited.insert id }

/-- Something happened. -/
def told (c : Context) (e : Event) : Context :=
  { c with events := e :: c.events }

/-- The next temporary is handed out. -/
def temped (c : Context) : Context :=
  { c with temps := c.temps + 1, events := .temporary c.temps :: c.events }

/-- The next labels are handed out. -/
def labelled (c : Context) : Context :=
  { c with labels := c.labels + 1, events := .labels c.labels :: c.events }

/-- One level down. -/
def below (c : Context) : Context :=
  { c with depth := c.depth + 1 }

/-- One level up. -/
def above (c : Context) : Context :=
  { c with depth := c.depth - 1 }

/-- The same context with other frames. -/
def framed (c : Context) (fs : List Frame) : Context :=
  { c with frames := fs }

end Context

namespace Lower

variable {α β : Type}

/-- What lowering comes to from a context. -/
def outcome (x : Lower α) (c : Context) : Except LoweringError α × Context :=
  x.run c

/-- Lowering succeeds with a result and reaches a context. -/
def Gives (x : Lower α) (c : Context) (a : α) (c' : Context) : Prop :=
  x.outcome c = (.ok a, c')

theorem outcome_bind (x : Lower α) (f : α → Lower β) (c : Context) :
    (x >>= f).outcome c = match x.outcome c with
      | (.ok a, c₁) => (f a).outcome c₁
      | (.error e, c₁) => (.error e, c₁) := by
  unfold outcome ExceptT.run
  simp only [bind, ExceptT.bind, ExceptT.mk, StateT.bind, ExceptT.bindCont]
  cases x c with
  | mk r c₁ => cases r <;> rfl

/-- **A sequence of steps succeeds if each of them does.** -/
theorem gives_bind {x : Lower α} {f : α → Lower β} {c c' : Context} {b : β} :
    (x >>= f).Gives c b c' ↔ ∃ a c₁, x.Gives c a c₁ ∧ (f a).Gives c₁ b c' := by
  unfold Gives
  rw [outcome_bind]
  cases x.outcome c with
  | mk r c₁ =>
    cases r with
    | error e => simp
    | ok a => simp [and_assoc]

theorem gives_pure {a b : α} {c c' : Context} :
    (pure a : Lower α).Gives c b c' ↔ b = a ∧ c' = c := by
  show ((Except.ok a, c) : Except LoweringError α × Context) = _ ↔ _
  simp [eq_comm]

theorem not_gives_throw {e : LoweringError} {a : α} {c c' : Context} :
    ¬ (throw e : Lower α).Gives c a c' := by
  show ¬ ((Except.error e, c) : Except LoweringError α × Context) = _
  simp

theorem gives_get {c c' d : Context} :
    (get : Lower Context).Gives c d c' ↔ d = c ∧ c' = c := by
  show ((Except.ok c, c) : Except LoweringError Context × Context) = _ ↔ _
  simp [eq_comm]

theorem gives_set {c c' d : Context} {u : PUnit} :
    (set d : Lower PUnit).Gives c u c' ↔ c' = d := by
  show ((Except.ok PUnit.unit, d) : Except LoweringError PUnit × Context) = _ ↔ _
  simp [eq_comm]

theorem gives_modify {f : Context → Context} {c c' : Context} {u : PUnit} :
    (modify f : Lower PUnit).Gives c u c' ↔ c' = f c := by
  show ((Except.ok PUnit.unit, f c) : Except LoweringError PUnit × Context) = _ ↔ _
  simp [eq_comm]

theorem gives_tell {e : Event} {c c' : Context} {u : Unit} :
    (tell e).Gives c u c' ↔ c' = c.told e :=
  gives_modify

theorem gives_mark {id : Nat} {c c' : Context} {u : Unit} :
    (mark id).Gives c u c' ↔ c' = c.met id :=
  gives_modify

theorem gives_ascend {c c' : Context} {u : Unit} :
    ascend.Gives c u c' ↔ c' = c.above :=
  gives_modify

theorem gives_enter {id : Nat} {b : Bool} {c c' : Context} :
    (enter id).Gives c b c' ↔ b = !c.visited.contains id ∧ c' = c.met id := by
  unfold enter seen
  simp only [bind_assoc, pure_bind, gives_bind, gives_get, gives_mark, gives_pure]
  constructor
  · rintro ⟨_, _, ⟨rfl, rfl⟩, _, _, rfl, rfl, rfl⟩
    exact ⟨rfl, rfl⟩
  · rintro ⟨rfl, rfl⟩
    exact ⟨c, c, ⟨rfl, rfl⟩, (), _, rfl, rfl, rfl⟩

theorem gives_descend {t : Tag} {c c' : Context} {u : Unit} :
    (descend t).Gives c u c' ↔ c.depth < c.options.maxDepth ∧ c' = c.below := by
  unfold descend
  rw [gives_bind]
  constructor
  · rintro ⟨_, _, hget, h⟩
    obtain ⟨rfl, rfl⟩ := gives_get.mp hget
    split at h
    · exact absurd h not_gives_throw
    · exact ⟨by omega, gives_set.mp h⟩
  · rintro ⟨hd, rfl⟩
    refine ⟨c, c, gives_get.mpr ⟨rfl, rfl⟩, ?_⟩
    rw [if_neg (by omega)]
    exact gives_set.mpr rfl

theorem gives_newTemp {s : String} {c c' : Context} :
    newTemp.Gives c s c' ↔ s = temporary c.temps ∧ c' = c.temped := by
  unfold newTemp
  simp only [gives_bind, gives_get, gives_modify, gives_tell, gives_pure]
  constructor
  · rintro ⟨_, _, ⟨rfl, rfl⟩, _, _, rfl, _, _, rfl, rfl, rfl⟩
    exact ⟨rfl, rfl⟩
  · rintro ⟨rfl, rfl⟩
    exact ⟨c, c, ⟨rfl, rfl⟩, (), _, rfl, (), _, rfl, rfl, rfl⟩

theorem gives_newLabels {l : Labels} {c c' : Context} :
    newLabels.Gives c l c' ↔ l = .ofNat c.labels ∧ c' = c.labelled := by
  unfold newLabels
  simp only [gives_bind, gives_get, gives_modify, gives_tell, gives_pure]
  constructor
  · rintro ⟨_, _, ⟨rfl, rfl⟩, _, _, rfl, _, _, rfl, rfl, rfl⟩
    exact ⟨rfl, rfl⟩
  · rintro ⟨rfl, rfl⟩
    exact ⟨c, c, ⟨rfl, rfl⟩, (), _, rfl, (), _, rfl, rfl, rfl⟩

theorem gives_withFrames {f : List Frame → List Frame} {x : Lower α} {a : α}
    {c c' : Context} :
    (withFrames f x).Gives c a c' ↔
      ∃ c₁, x.Gives (c.framed (f c.frames)) a c₁ ∧ c' = c₁.framed c.frames := by
  have h : (withFrames f x).outcome c = ((x.outcome (c.framed (f c.frames))).1,
      (x.outcome (c.framed (f c.frames))).2.framed c.frames) := rfl
  unfold Gives
  rw [h]
  cases x.outcome (c.framed (f c.frames)) with
  | mk r c₁ =>
    simp only [Prod.mk.injEq, and_assoc]
    constructor
    · rintro ⟨rfl, rfl⟩
      exact ⟨c₁, rfl, rfl, rfl⟩
    · rintro ⟨_, rfl, rfl, rfl⟩
      exact ⟨rfl, rfl⟩

end Lower

end ThreeAddress.Lowering

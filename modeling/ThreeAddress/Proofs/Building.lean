import ThreeAddress.Syntax.Parse

/-!
# Successful building

What building comes to in a file from a next number on. Every primitive step has its outcome,
and a sequence of steps succeeds exactly if all of them do (`Build.gives_bind`).
-/

namespace ThreeAddress.Syntax

namespace Build

variable {α β : Type}

/-- What building comes to in the file, from the number `next` on. -/
def outcome (b : Build α) (file : String) (next : Nat) : Except SyntaxError α × Nat :=
  b.run file next

/-- Building in the file, from the number `next` on, makes `a` and leaves the number `next'`. -/
def Gives (b : Build α) (file : String) (next : Nat) (a : α) (next' : Nat) : Prop :=
  b.outcome file next = (.ok a, next')

variable {file : String} {next next' : Nat}

theorem outcome_bind (b : Build α) (f : α → Build β) :
    (b >>= f).outcome file next = match b.outcome file next with
      | (.ok x, next₁) => (f x).outcome file next₁
      | (.error e, next₁) => (.error e, next₁) := by
  unfold outcome ReaderT.run
  simp only [bind, ReaderT.bind, ExceptT.bind, ExceptT.mk, StateT.bind, ExceptT.bindCont]
  cases b file next with
  | mk r next₁ => cases r <;> rfl

/-- **A sequence of steps succeeds if each of them does.** -/
theorem gives_bind {b : Build α} {f : α → Build β} {y : β} :
    (b >>= f).Gives file next y next' ↔
      ∃ x next₁, b.Gives file next x next₁ ∧ (f x).Gives file next₁ y next' := by
  unfold Gives
  rw [outcome_bind]
  cases b.outcome file next with
  | mk r next₁ =>
    cases r with
    | error e => simp
    | ok x => simp [and_assoc]

theorem gives_pure {a b : α} :
    (pure a : Build α).Gives file next b next' ↔ b = a ∧ next' = next := by
  show ((Except.ok a, next) : Except SyntaxError α × Nat) = _ ↔ _
  simp [eq_comm]

theorem gives_read {s : String} :
    (read : Build String).Gives file next s next' ↔ s = file ∧ next' = next := by
  show ((Except.ok file, next) : Except SyntaxError String × Nat) = _ ↔ _
  simp [eq_comm]

theorem gives_node {kind : Kind Node} {location : Option Location} {span : Option Span}
    {n : Node} : (node kind location span).Gives file next n next' ↔
      n = ⟨next, kind, location, span⟩ ∧ next' = next + 1 := by
  show ((Except.ok ⟨next, kind, location, span⟩, next + 1) : Except SyntaxError Node × Nat) = _ ↔ _
  simp [eq_comm]

theorem gives_nodeAt {e : Extent} {kind : Kind Node} {n : Node} :
    (nodeAt e kind).Gives file next n next' ↔
      n = ⟨next, kind, some (e.location file), some (e.span file)⟩ ∧ next' = next + 1 := by
  unfold nodeAt
  rw [gives_bind]
  constructor
  · rintro ⟨_, _, hread, h⟩
    obtain ⟨rfl, rfl⟩ := gives_read.mp hread
    exact gives_node.mp h
  · intro h
    exact ⟨file, next, gives_read.mpr ⟨rfl, rfl⟩, gives_node.mpr h⟩

theorem outcome_both (a : Build α) (b : Build β) :
    (both a b).outcome file next =
      ((do return (← (a.outcome file next).1, ← (b.outcome file (a.outcome file next).2).1)),
        (b.outcome file (a.outcome file next).2).2) :=
  rfl

theorem gives_both {a : Build α} {b : Build β} {z : α × β} :
    (both a b).Gives file next z next' ↔
      ∃ next₁, a.Gives file next z.1 next₁ ∧ b.Gives file next₁ z.2 next' := by
  unfold Gives
  rw [outcome_both]
  cases a.outcome file next with
  | mk r next₁ =>
    cases hb : b.outcome file next₁ with
    | mk r' next₂ =>
      cases r <;> cases r' <;>
        simp [hb, bind, Except.bind, pure, Except.pure, Prod.ext_iff, and_assoc]

end Build

end ThreeAddress.Syntax

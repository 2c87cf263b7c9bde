import ThreeAddress.Grammar.Nesting

/-!
# The levels of a parse tree

How many levels the syntax tree of a parse tree can have, read off the rules (`ParseTree.levels`),
and how many of them the nesting check does not see (`ParseTree.uncounted`). The check counts
statements, expressions and the operators **to the left of a place**; it does not count what is
accessed of an operand, the conditionals that a chain of `elseif` clauses becomes, and the operators
to the right of an operand that is an expression itself. Up to these levels **a tree that passes the
check has no more levels than the limit** (`levels_le`).
-/

namespace ThreeAddress.Grammar

/-- The levels that the node of a rule adds to the ones below it, by the rules inside it. -/
def Rule.weight (inside : List Rule) : Rule → Nat
  | .expr => 1 + inside.countP isOperator
  -- what is accessed of an operand is built around it, one access after the other
  | .operand => inside.countP (!·.isKeyword) - 1
  | .simpleInterp | .dynamicClass => inside.countP (!·.isKeyword)
  | .ifStmt => inside.count .elseifClause
  | .catchClause => inside.count .variableName
  | .script | .statement | .classMember | .inlineHtml | .varVar | .arrowFn | .closureUse
  | .globalStmt | .staticItem => 1
  | _ => 0

/-- Whether the nesting check counts the levels of the rule. -/
def Rule.isCounted : Rule → Bool
  | .statement | .expr => true
  | _ => false

theorem Rule.eq_of_isCounted {r : Rule} (h : r.isCounted = true) : r = .statement ∨ r = .expr := by
  unfold isCounted at h
  split at h
  · exact .inl rfl
  · exact .inr rfl
  · cases h

namespace ParseTree

mutual

/-- **The levels of a tree.** -/
def levels : ParseTree → Nat
  | ⟨r, _, ts⟩ => r.weight (ts.map (·.rule)) + levelsOfAll ts

/-- The greatest number of levels among trees. -/
def levelsOfAll : List ParseTree → Nat
  | [] => 0
  | t :: ts => max t.levels (levelsOfAll ts)

end

theorem levels_le_of_mem {t : ParseTree} {ts : List ParseTree} (h : t ∈ ts) :
    t.levels ≤ levelsOfAll ts := by
  induction ts with
  | nil => cases h
  | cons u ts ih =>
    obtain rfl | h := List.mem_cons.mp h
    · exact Nat.le_max_left _ _
    · exact Nat.le_trans (ih h) (Nat.le_max_right _ _)

mutual

/-- **The levels of a tree that the nesting check does not see.** -/
def uncounted : ParseTree → Nat
  | ⟨r, _, ts⟩ =>
    (if r.isCounted then 0 else r.weight (ts.map (·.rule))) + uncountedAmong (r == .expr) ts

/-- The levels that are not seen at the deepest of some trees. In an expression, the operators
after a tree have not been met there. -/
def uncountedAmong (isExpr : Bool) : List ParseTree → Nat
  | [] => 0
  | t :: ts =>
    let later := if isExpr then ts.countP (·.rule.isOperator) else 0
    max (if t.levels = 0 then 0 else later + t.uncounted) (uncountedAmong isExpr ts)

end

end ParseTree

namespace Nesting

variable {limit j : Nat} {n : Nesting} {t : ParseTree} {ts : List ParseTree} {later : List Edge}

/-- No rule starts above the limit from here on. -/
def Passes (limit : Nat) (n : Nesting) (es : List Edge) : Prop :=
  n.level ≤ limit ∧ firstAbove limit n es = none

/-- The nesting after some more operators of the innermost open expression. -/
def bump (j : Nat) : Nesting → Nesting
  | ⟨level, []⟩ => ⟨level, []⟩
  | ⟨level, count :: counts⟩ => ⟨level + j, (count + j) :: counts⟩

theorem bump_zero (n : Nesting) : n.bump 0 = n := by
  obtain ⟨level, _ | _⟩ := n <;> rfl

theorem bump_bump (i j : Nat) (n : Nesting) : (n.bump i).bump j = n.bump (i + j) := by
  obtain ⟨level, _ | _⟩ := n
  · rfl
  · simp only [bump, Nat.add_assoc]

theorem le_level_bump (j : Nat) (n : Nesting) : n.level ≤ (n.bump j).level := by
  obtain ⟨level, _ | _⟩ := n
  · exact Nat.le_refl _
  · exact Nat.le_add_right _ _

/-- Whether the rule is met as an operator of an open expression. -/
def operatorIn (n : Nesting) (r : Rule) : Nat :=
  if r.isOperator ∧ n.operators ≠ [] then 1 else 0

theorem Passes.opens {r : Rule} {start : Cursor} {es : List Edge}
    (h : n.Passes limit (.opens r start :: es)) : (n.enter r).Passes limit es := by
  obtain ⟨-, h⟩ := h
  unfold firstAbove at h
  dsimp only at h
  split at h
  · cases h
  · rename_i hle
    exact ⟨Nat.le_of_not_lt hle, h⟩

/-- Where a rule ends, it goes on from the level after it. -/
theorem Passes.closes {r : Rule} {n' : Nesting} {es : List Edge}
    (h : n.Passes limit (.closes r :: es)) (hleave : n.leave r = n') (hle : n'.level ≤ n.level) :
    n'.Passes limit es :=
  ⟨Nat.le_trans hle h.1, hleave ▸ h.2⟩

theorem enter_eq_bump {r : Rule} (hr : r.isCounted = false) :
    n.enter r = n.bump (n.operatorIn r) := by
  obtain ⟨level, counts⟩ := n
  unfold enter
  split
  · cases hr
  · cases hr
  · rename_i count counts' _ _ hcounts
    obtain rfl : counts = count :: counts' := hcounts
    split
    · rename_i hop
      simp [operatorIn, bump, hop]
    · rename_i hop
      simp [operatorIn, bump, hop]
  · rename_i hcounts
    obtain rfl : counts = [] := hcounts
    rfl

theorem leave_uncounted {r : Rule} (hr : r.isCounted = false) : n.leave r = n := by
  unfold leave
  split
  · cases hr
  · cases hr
  · rfl

theorem leave_statement (j : Nat) (n : Nesting) :
    ((n.enter .statement).bump j).leave .statement = n.bump j := by
  obtain ⟨level, _ | ⟨count, counts⟩⟩ := n
  · rfl
  · show (⟨level + 1 + j - 1, (count + j) :: counts⟩ : Nesting) = ⟨level + j, (count + j) :: counts⟩
    rw [Nat.add_right_comm, Nat.add_sub_cancel]

theorem leave_expr (j : Nat) (n : Nesting) : ((n.enter .expr).bump j).leave .expr = n := by
  obtain ⟨level, counts⟩ := n
  show (⟨level + 1 + j - (1 + (0 + j)), counts⟩ : Nesting) = ⟨level, counts⟩
  rw [Nat.zero_add, Nat.add_assoc, Nat.add_sub_cancel]

theorem level_bump_le (j : Nat) (n : Nesting) :
    (n.bump j).level ≤ ((n.enter .statement).bump j).level := by
  obtain ⟨level, _ | ⟨count, counts⟩⟩ := n
  · exact Nat.le_succ level
  · exact Nat.add_le_add_right (Nat.le_succ level) j

theorem level_bump_operatorIn (n : Nesting) (r : Rule) :
    (n.bump (n.operatorIn r)).level = n.level + n.operatorIn r := by
  obtain ⟨level, _ | ⟨count, counts⟩⟩ := n
  · rw [show operatorIn ⟨level, []⟩ r = 0 by simp [operatorIn]]
    rfl
  · rfl

/-- What is known of a tree that passes: how many levels it has, and that the nesting is back where
it was, but for operators. -/
structure Fits (limit : Nat) (n : Nesting) (t : ParseTree) (later : List Edge) : Prop where
  levels_le : n.level + n.operatorIn t.rule + t.levels ≤ limit + t.uncounted
  passes_later : ∃ j, n.operatorIn t.rule ≤ j ∧ (n.bump j).Passes limit later

theorem level_bump (h : n.operators ≠ []) : (n.bump j).level = n.level + j := by
  obtain ⟨level, _ | _⟩ := n
  · exact absurd rfl h
  · rfl

theorem operators_bump_ne_nil (h : n.operators ≠ []) : (n.bump j).operators ≠ [] := by
  obtain ⟨level, _ | _⟩ := n
  · exact absurd rfl h
  · exact List.cons_ne_nil _ _

/-- Trees that follow each other: the operators among them count where they are met. -/
theorem fits_all (isExpr : Bool) (hopen : isExpr = true → n.operators ≠ [])
    (h : ∀ t ∈ ts, ∀ n later, n.Passes limit (t.edgesBefore later) → Fits limit n t later)
    (hn : n.Passes limit (ParseTree.edgesOfAllBefore later ts)) :
    n.level + (if isExpr then ts.countP (·.rule.isOperator) else 0) + ParseTree.levelsOfAll ts
        ≤ limit + ParseTree.uncountedAmong isExpr ts ∧
      ∃ j, (n.bump j).Passes limit later := by
  induction ts generalizing n with
  | nil =>
    refine ⟨?_, 0, by rwa [bump_zero]⟩
    have hle := hn.1
    cases isExpr <;> simpa [ParseTree.levelsOfAll, ParseTree.uncountedAmong] using hle
  | cons t ts ih =>
    obtain ⟨ht, hts⟩ := List.forall_mem_cons.mp h
    obtain ⟨hlevels, j, hj, hlater⟩ := ht n _ hn
    obtain ⟨hrest, i, hi⟩ := ih (fun hexpr => operators_bump_ne_nil (hopen hexpr)) hts hlater
    refine ⟨?_, j + i, by rwa [← bump_bump]⟩
    have hle := le_level_bump j n
    unfold ParseTree.levelsOfAll ParseTree.uncountedAmong
    cases isExpr with
    | false =>
      simp only [Bool.false_eq_true, if_false] at hrest ⊢
      split <;> omega
    | true =>
      have hopen := hopen rfl
      have hone : n.operatorIn t.rule = if t.rule.isOperator then 1 else 0 := by
        simp [operatorIn, hopen]
      rw [level_bump hopen] at hrest
      simp only [if_true, List.countP_cons, ← hone] at hrest ⊢
      split <;> omega

/-- **A tree that passes the check fits under the limit**, up to the levels that the check does not
see. -/
theorem fits : (t : ParseTree) → ∀ n later, n.Passes limit (t.edgesBefore later) →
    Fits limit n t later
  | ⟨r, e, ts⟩, n, later, h => by
    have hts : ∀ t ∈ ts, ∀ n later, n.Passes limit (t.edgesBefore later) → Fits limit n t later :=
      fun t _ => fits t
    unfold ParseTree.edgesBefore at h
    have hin := h.opens
    cases hr : r.isCounted with
    | false =>
      obtain ⟨hlevels, j, hj⟩ := fits_all false nofun hts hin
      rw [enter_eq_bump hr] at hlevels hj
      rw [bump_bump] at hj
      refine ⟨?_, n.operatorIn r + j, Nat.le_add_right _ _,
        hj.closes (leave_uncounted hr) (Nat.le_refl _)⟩
      have hexpr : (r == .expr) = false := by
        refine beq_false_of_ne fun h => ?_
        rw [h] at hr
        cases hr
      have hlevel := level_bump_operatorIn n r
      simp only [ParseTree.levels, ParseTree.uncounted, hr, hexpr, Bool.false_eq_true, if_false]
        at hlevels ⊢
      omega
    | true =>
      obtain rfl | rfl := Rule.eq_of_isCounted hr
      · obtain ⟨hlevels, j, hj⟩ := fits_all false nofun hts hin
        refine ⟨?_, j, Nat.zero_le j, hj.closes (leave_statement j n) (level_bump_le j n)⟩
        have hlevels : n.level + 1 + 0 + ParseTree.levelsOfAll ts
          ≤ limit + ParseTree.uncountedAmong false ts := hlevels
        show n.level + 0 + (1 + ParseTree.levelsOfAll ts)
          ≤ limit + (0 + ParseTree.uncountedAmong false ts)
        omega
      · obtain ⟨hlevels, j, hj⟩ := fits_all true (fun _ => List.cons_ne_nil _ _) hts hin
        refine ⟨?_, 0, Nat.le_refl 0, hj.closes ?_ ?_⟩
        · have hcount : (ts.map (·.rule)).countP Rule.isOperator
            = ts.countP (·.rule.isOperator) := List.countP_map
          have hlevels : n.level + 1 + ts.countP (·.rule.isOperator) + ParseTree.levelsOfAll ts
            ≤ limit + ParseTree.uncountedAmong true ts := hlevels
          show n.level + 0 + (1 + (ts.map (·.rule)).countP Rule.isOperator
            + ParseTree.levelsOfAll ts) ≤ limit + (0 + ParseTree.uncountedAmong true ts)
          omega
        · rw [bump_zero]
          exact leave_expr j n
        · rw [bump_zero]
          exact Nat.le_trans (Nat.le_succ n.level) (Nat.le_add_right (n.level + 1) j)

end Nesting

/-- **A script that passes the check has no more levels than the limit**, up to the levels that the
check does not see. -/
theorem levels_le {t : ParseTree} {limit : Nat} (h : t.firstTooDeep limit = none) :
    t.levels ≤ limit + t.uncounted := by
  have hlevels := (Nesting.fits t .outside [] ⟨Nat.zero_le limit, h⟩).levels_le
  omega

end ThreeAddress.Grammar

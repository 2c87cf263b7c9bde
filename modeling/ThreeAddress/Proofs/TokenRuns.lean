import ThreeAddress.Proofs.Operands

/-!
# Runs of tokens

Expressions whose operands have operators and accesses after them. A repetition reads one step
after another, with the blanks after each of them (`Steps`); an operand is an atom with accesses,
and **a run of operands and operators is an expression where nothing continues it**
(`TokenRun.reads_expr`). Runs are put together like the terms that they are the tokens of: with an
operator before, after or between them.

What is read ends before the blanks that follow it, except that an operand takes the blanks after
its atom along. So a run has two ends, one before and one after these blanks.
-/

namespace ThreeAddress.Grammar

open Pattern

/-! ## Steps -/

/-- The pattern reads step by step, each with the blanks after it. The steps start at `k`, where
`s` is the end of what was read before, and in the same way they end at `e` and `k'`. -/
inductive Steps (n : Nat) (p : Pattern) : Cursor → Cursor → Cursor → Cursor →
    List ParseTree → Prop
  | nil {s k : Cursor} : Steps n p s k s k []
  | cons {s k s₁ k₁ e k' : Cursor} {t : ParseTree} {ts : List ParseTree} :
      Reads (inside n p) k s₁ [t] → Reads (skipBlanks n) s₁ k₁ [] → Steps n p s₁ k₁ e k' ts →
      Steps n p s k e k' (t :: ts)

namespace Steps

variable {n : Nat} {p : Pattern} {s k e k₁ e' k' : Cursor} {t : ParseTree} {ts : List ParseTree}

theorem concat (h : Steps n p s k e k₁ ts) (hp : Reads (inside n p) k₁ e' [t])
    (hgap : Reads (skipBlanks n) e' k' []) : Steps n p s k e' k' (ts ++ [t]) := by
  induction h with
  | nil => exact .cons hp hgap .nil
  | cons hfirst hblanks _ ih => exact .cons hfirst hblanks (ih hp)

theorem repeats (h : Steps n p s k e k' ts) (hblanks : Reads (skipBlanks n) s k [])
    (hstop : Refuses (inside n p) k') :
    Repeats (fun s => (skipBlanks n s).andThen (inside n p)) s e (ts.map ([·])) := by
  induction h with
  | nil => exact .done (hblanks.andThen_refuses hstop)
  | cons hfirst hnext _ ih => exact .round (hblanks.andThen hfirst) (ih hnext hstop)

/-- Steps up to where no more can be read are one repetition. -/
theorem reads_many (h : Steps n p k k e k' ts) (hstop : Refuses (inside n p) k')
    (hn : ts.length ≤ n) : Reads (inside n (.many p)) k e ts := by
  cases h with
  | nil => exact .many_nil hstop
  | @cons _ _ _ _ _ _ t ts hfirst hnext h =>
    have hlength : (ts.map ([·])).length < n := by
      rw [List.length_map]
      exact hn
    have hmany := hfirst.many (h.repeats hnext hstop) hlength
    rwa [← List.flatMap_def, List.flatMap_singleton'] at hmany

end Steps

/-! ## Operands -/

/-- An atom with accesses after it is an operand, where no more is accessed. -/
theorem reads_accessed {n : Nat} {k k₀ k₁ e k' : Cursor} {a : ParseTree} {ts : List ParseTree}
    (hatom : Reads (inside n atom) k k₀ [a]) (hgap : Reads (skipBlanks n) k₀ k₁ [])
    (hsteps : Steps n accessor k₁ k₁ e k' ts) (hstop : Refuses (inside n accessor) k')
    (hn : ts.length ≤ n) :
    Reads (inside (n + 1) Rule.operand) k e [⟨.operand, ⟨k, e⟩, a :: ts⟩] :=
  reads_rule (r := .operand) (hatom.seq hgap (hsteps.reads_many hstop hn))

/-! ## Runs -/

/-- Operators before an operand, and the operand. -/
inductive Prefixed (n : Nat) : Cursor → Cursor → List ParseTree → Prop
  | operand {k k' : Cursor} {t : ParseTree} :
      Refuses (inside n prefixOperator) k → Reads (skipBlanks n) k k [] →
      Reads (inside n Rule.operand) k k' [t] → Prefixed n k k' [t]
  | prefixed {k k₁ k₂ k' : Cursor} {t : ParseTree} {ts : List ParseTree} :
      Reads (inside n prefixOperator) k k₁ [t] → Reads (skipBlanks n) k₁ k₂ [] →
      Prefixed n k₂ k' ts → Prefixed n k k' (t :: ts)

theorem Prefixed.repeats {n : Nat} {k₀ k k' : Cursor} {ts : List ParseTree}
    (h : Prefixed n k k' ts) (hgap : Reads (skipBlanks n) k₀ k []) :
    ∃ k₁ k₂ tss t, Repeats (fun s => (skipBlanks n s).andThen (inside n prefixOperator)) k₀ k₁ tss ∧
      Reads (skipBlanks n) k₁ k₂ [] ∧ Reads (inside n Rule.operand) k₂ k' [t] ∧
      ts = tss.flatten ++ [t] ∧ tss.length < ts.length := by
  induction h generalizing k₀ with
  | @operand k k' t hrefuses _ hoperand =>
    exact ⟨k₀, k, [], t, .done (hgap.andThen_refuses hrefuses), hgap, hoperand, rfl,
      Nat.zero_lt_one⟩
  | @prefixed k k₁ k₂ k' t ts hfront hgap' _ ih =>
    obtain ⟨k₃, k₄, tss, u, hrepeats, hgap'', hoperand, rfl, hlength⟩ := ih hgap'
    exact ⟨k₃, k₄, [t] :: tss, u, .round (hgap.andThen hfront) hrepeats, hgap'', hoperand, rfl,
      Nat.succ_lt_succ hlength⟩

/-- The operators before the operand are one repetition. -/
theorem Prefixed.reads {n : Nat} {k k' : Cursor} {ts : List ParseTree} (h : Prefixed n k k' ts)
    (hn : ts.length ≤ n) :
    ∃ k₁ k₂ us t, Reads (inside n (.many prefixOperator)) k k₁ us ∧
      Reads (skipBlanks n) k₁ k₂ [] ∧ Reads (inside n Rule.operand) k₂ k' [t] ∧
      ts = us ++ [t] := by
  cases h with
  | @operand _ _ t hrefuses hstill hoperand =>
    exact ⟨k, k, [], t, .many_nil hrefuses, hstill, hoperand, rfl⟩
  | @prefixed _ k₁ k₂ _ t ts hfront hgap h =>
    obtain ⟨k₃, k₄, tss, u, hrepeats, hgap', hoperand, rfl, hlength⟩ := h.repeats hgap
    exact ⟨k₃, k₄, [t] ++ tss.flatten, u, .many hfront hrepeats (by simp at hn hlength; omega),
      hgap', hoperand, rfl⟩

/-- An operator between operands with the operand after it. -/
def link : Pattern :=
  .seq infixOperator
    (.seq (.many prefixOperator) (.seq Rule.operand (.many postfixOperator)))

/-- The blanks between `b` and `k`, after which there are no more. -/
structure Gap (n : Nat) (b k : Cursor) : Prop where
  blanks : Reads (skipBlanks n) b k []
  still : Reads (skipBlanks n) k k []

theorem Gap.of_or {n : Nat} {b k e : Cursor} (h : Gap n b k) (he : e = b ∨ e = k) :
    Reads (skipBlanks n) e k [] := by
  obtain rfl | rfl := he
  · exact h.blanks
  · exact h.still

/-- An operand with the operators before and after it, and the blanks from `b` to `k'` after it. -/
def Wrapped (n : Nat) (k b k' : Cursor) (ts : List ParseTree) : Prop :=
  Gap n b k' ∧ ∃ e₀ k₀ e us vs, Prefixed n k e₀ us ∧ Reads (skipBlanks n) e₀ k₀ [] ∧
    Steps n postfixOperator k₀ k₀ e k' vs ∧ (e = b ∨ e = k') ∧ ts = us ++ vs

/-- Operators between operands, each with the operand after it. -/
inductive Linked (n : Nat) : Cursor → Cursor → Cursor → Cursor → List (List ParseTree) → Prop
  | nil {b k : Cursor} : Linked n b k b k []
  | cons {b k k₁ k₂ b₃ k₃ b' k' : Cursor} {t : ParseTree} {ts : List ParseTree}
      {tss : List (List ParseTree)} :
      Refuses (inside n postfixOperator) k → Reads (inside n infixOperator) k k₁ [t] →
      Reads (skipBlanks n) k₁ k₂ [] → Wrapped n k₂ b₃ k₃ ts → Linked n b₃ k₃ b' k' tss →
      Linked n b k b' k' ((t :: ts) :: tss)

/-- A run of operands and operators, and the blanks from `b` to `k'` after it. -/
def TokenRun (n : Nat) (k b k' : Cursor) (ts : List ParseTree) : Prop :=
  ∃ b₁ k₁ us uss, Wrapped n k b₁ k₁ us ∧ Linked n b₁ k₁ b k' uss ∧ ts = us ++ uss.flatten

section

variable {n : Nat} {k k₁ k₂ k₃ b b₁ b' e k' : Cursor} {t : ParseTree} {ts us : List ParseTree}
variable {tss uss : List (List ParseTree)} {q : Pattern}

namespace Wrapped

theorem prefixed (h : Wrapped n k₂ b k' ts) (hfront : Reads (inside n prefixOperator) k k₁ [t])
    (hgap : Reads (skipBlanks n) k₁ k₂ []) : Wrapped n k b k' (t :: ts) := by
  obtain ⟨hend, e₀, k₀, e, us, vs, hprefixed, hblanks, hsteps, he, rfl⟩ := h
  exact ⟨hend, e₀, k₀, e, t :: us, vs, .prefixed hfront hgap hprefixed, hblanks, hsteps, he, rfl⟩

theorem suffixed (h : Wrapped n k b₁ k₁ ts) (hback : Reads (inside n postfixOperator) k₁ e [t])
    (hend : Gap n b k') (he : e = b ∨ e = k') : Wrapped n k b k' (ts ++ [t]) := by
  obtain ⟨-, e₀, k₀, e₁, us, vs, hprefixed, hblanks, hsteps, -, rfl⟩ := h
  exact ⟨hend, e₀, k₀, e, us, vs ++ [t], hprefixed, hblanks,
    hsteps.concat hback (hend.of_or he), he, List.append_assoc _ _ _⟩

/-- Where no operator follows, an operand with its operators is read before what comes next. -/
theorem reads_seq (h : Wrapped n k b k₁ ts) (hstop : Refuses (inside n postfixOperator) k₁)
    (hn : ts.length ≤ n) (hq : Reads (inside n q) k₁ k' us) :
    Reads (inside n (.seq (.many prefixOperator) (.seq Rule.operand
      (.seq (.many postfixOperator) q)))) k k' (ts ++ us) := by
  obtain ⟨hend, e₀, k₀, e, us₀, vs, hprefixed, hblanks, hsteps, he, rfl⟩ := h
  rw [List.length_append] at hn
  obtain ⟨k₂, k₃, us₁, t, hfront, hgap, hoperand, rfl⟩ := hprefixed.reads (by omega)
  have hback := hsteps.reads_many hstop (by omega)
  have hseq : Reads (inside n (.seq (.many prefixOperator) (.seq Rule.operand
      (.seq (.many postfixOperator) q)))) k k' (us₁ ++ ([t] ++ (vs ++ us))) :=
    hfront.seq hgap (hoperand.seq hblanks (hback.seq (hend.of_or he) hq))
  simpa using hseq

/-- An operator between operands with the operand after it. -/
theorem reads_link (h : Wrapped n k₂ b k' ts) (hstop : Refuses (inside n postfixOperator) k')
    (hn : ts.length ≤ n) (hbetween : Reads (inside n infixOperator) k k₁ [t])
    (hgap : Reads (skipBlanks n) k₁ k₂ []) :
    ∃ e, (e = b ∨ e = k') ∧ Reads (inside n link) k e (t :: ts) := by
  obtain ⟨-, e₀, k₀, e, us₀, vs, hprefixed, hblanks, hsteps, he, rfl⟩ := h
  rw [List.length_append] at hn
  obtain ⟨k₃, k₄, us₁, u, hfront, hgap', hoperand, rfl⟩ := hprefixed.reads (by omega)
  have hback := hsteps.reads_many hstop (by omega)
  have hlink : Reads (inside n link) k e ([t] ++ (us₁ ++ ([u] ++ vs))) :=
    hbetween.seq hgap (hfront.seq hgap' (hoperand.seq hblanks hback))
  exact ⟨e, he, by simpa using hlink⟩

end Wrapped

namespace Linked

theorem append (h : Linked n b k b₁ k₁ tss) (h' : Linked n b₁ k₁ b' k' uss) :
    Linked n b k b' k' (tss ++ uss) := by
  induction h with
  | nil => exact h'
  | cons hstop hbetween hgap hwrapped _ ih => exact .cons hstop hbetween hgap hwrapped (ih h')

/-- An operator after the last operand. -/
theorem suffixed {ts₀ : List ParseTree} {k₀ : Cursor} (hwrapped : Wrapped n k₀ b k ts₀)
    (h : Linked n b k b₁ k₁ tss) (hback : Reads (inside n postfixOperator) k₁ e [t])
    (hend : Gap n b' k') (he : e = b' ∨ e = k') :
    TokenRun n k₀ b' k' (ts₀ ++ tss.flatten ++ [t]) := by
  induction h generalizing k₀ ts₀ with
  | nil => exact ⟨_, _, _, [], hwrapped.suffixed hback hend he, .nil, by simp⟩
  | @cons _ _ _ _ _ _ _ _ u us uss hstop hbetween hgap hnext _ ih =>
    obtain ⟨b₂, k₂, vs, vss, hlast, hlinked, hts⟩ := ih hnext hback
    refine ⟨_, _, ts₀, (u :: vs) :: vss, hwrapped, .cons hstop hbetween hgap hlast hlinked, ?_⟩
    rw [List.flatten_cons, List.flatten_cons, List.cons_append, List.cons_append, ← hts]
    simp

theorem length_le (h : Linked n b k b' k' tss) : tss.length ≤ tss.flatten.length := by
  induction h with
  | nil => exact Nat.le_refl 0
  | cons _ _ _ _ _ ih =>
    rw [List.flatten_cons, List.length_append, List.length_cons, List.length_cons]
    omega

/-- Where the first operator stands, no operator after an operand does. -/
theorem refuses_start (h : Linked n b k b' k' tss) (hback : Refuses (inside n postfixOperator) k') :
    Refuses (inside n postfixOperator) k := by
  cases h with
  | nil => exact hback
  | cons hstop => exact hstop

theorem repeats (h : Linked n b k b' k' tss) (hgap : Gap n b k)
    (hback : Refuses (inside n postfixOperator) k') (hstop : Refuses (inside n link) k')
    (hn : tss.flatten.length ≤ n) {s : Cursor} (hs : s = b ∨ s = k) :
    ∃ e, (e = b' ∨ e = k') ∧
      Repeats (fun s => (skipBlanks n s).andThen (inside n link)) s e tss := by
  induction h generalizing s with
  | nil => exact ⟨s, hs, .done ((hgap.of_or hs).andThen_refuses hstop)⟩
  | cons _ hbetween hgap' hwrapped h ih =>
    rw [List.flatten_cons, List.length_append, List.length_cons] at hn
    obtain ⟨s', hs', hlink⟩ :=
      hwrapped.reads_link (h.refuses_start hback) (by omega) hbetween hgap'
    obtain ⟨e, he, hrepeats⟩ := ih hwrapped.1 hback hstop (by omega) hs'
    exact ⟨e, he, .round ((hgap.of_or hs).andThen hlink) hrepeats⟩

/-- All links together are one repetition. -/
theorem reads_many (h : Linked n b k b' k' tss) (hback : Refuses (inside n postfixOperator) k')
    (hstop : Refuses (inside n link) k') (hn : tss.flatten.length ≤ n) :
    ∃ e, (e = b' ∨ e = k') ∧ Reads (inside n (.many link)) k e tss.flatten := by
  cases h with
  | nil => exact ⟨k, .inr rfl, .many_nil hstop⟩
  | cons _ hbetween hgap hwrapped h =>
    have hlength := h.length_le
    rw [List.flatten_cons, List.length_append, List.length_cons] at hn
    obtain ⟨s, hs, hlink⟩ := hwrapped.reads_link (h.refuses_start hback) (by omega) hbetween hgap
    obtain ⟨e, he, hrepeats⟩ := h.repeats hwrapped.1 hback hstop (by omega) hs
    exact ⟨e, he, .many hlink hrepeats (by omega)⟩

end Linked

namespace TokenRun

theorem single (h : Wrapped n k b k' ts) : TokenRun n k b k' ts :=
  ⟨b, k', ts, [], h, .nil, (List.append_nil ts).symm⟩

theorem prefixed (h : TokenRun n k₂ b k' ts) (hfront : Reads (inside n prefixOperator) k k₁ [t])
    (hgap : Reads (skipBlanks n) k₁ k₂ []) : TokenRun n k b k' (t :: ts) := by
  obtain ⟨b₁, k₃, us, uss, hwrapped, hlinked, rfl⟩ := h
  exact ⟨b₁, k₃, t :: us, uss, hwrapped.prefixed hfront hgap, hlinked, rfl⟩

theorem suffixed (h : TokenRun n k b₁ k₁ ts) (hback : Reads (inside n postfixOperator) k₁ e [t])
    (hend : Gap n b k') (he : e = b ∨ e = k') : TokenRun n k b k' (ts ++ [t]) := by
  obtain ⟨b₂, k₂, us, uss, hwrapped, hlinked, rfl⟩ := h
  exact hlinked.suffixed hwrapped hback hend he

theorem linked (h : TokenRun n k b₁ k₁ ts) (hstop : Refuses (inside n postfixOperator) k₁)
    (hbetween : Reads (inside n infixOperator) k₁ k₂ [t]) (hgap : Reads (skipBlanks n) k₂ k₃ [])
    (h' : TokenRun n k₃ b k' us) : TokenRun n k b k' (ts ++ t :: us) := by
  obtain ⟨b₂, k₄, vs, vss, hwrapped, hlinked, rfl⟩ := h
  obtain ⟨b₃, k₅, ws, wss, hwrapped', hlinked', rfl⟩ := h'
  refine ⟨b₂, k₄, vs, vss ++ (t :: ws) :: wss, hwrapped,
    hlinked.append (.cons hstop hbetween hgap hwrapped' hlinked'), ?_⟩
  simp

/-- **A run of operands and operators that nothing continues is an expression**, with or without
the blanks after it. -/
theorem reads_expr (h : TokenRun n k b k' ts) (hback : Refuses (inside n postfixOperator) k')
    (hstop : Refuses (inside n link) k') (hn : ts.length ≤ n) :
    ∃ e, (e = b ∨ e = k') ∧
      Reads (inside (n + 1) Rule.expr) k e [⟨.expr, ⟨k, e⟩, ts⟩] := by
  obtain ⟨b₁, k₁, us, uss, hwrapped, hlinked, rfl⟩ := h
  rw [List.length_append] at hn
  obtain ⟨e, he, hmany⟩ := hlinked.reads_many hback hstop (by omega)
  exact ⟨e, he, reads_rule (r := .expr)
    (hwrapped.reads_seq (hlinked.refuses_start hback) (by omega) hmany)⟩

end TokenRun

end

end ThreeAddress.Grammar

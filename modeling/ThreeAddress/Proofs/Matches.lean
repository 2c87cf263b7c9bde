import ThreeAddress.Proofs.Reading

/-!
# Matches taken apart

What a match of a pattern says of its parts, one lemma for each way to put patterns together. A
repetition that matched is a run of rounds up to one that fails (`rounds_of_repeatRun`), and
whatever is shown of all matches follows these lemmas.
-/

namespace ThreeAddress.Grammar

variable {s s' : State} {ts : List ParseTree}

theorem Reply.andThen_eq_matched {r : Reply} {next : State → Reply}
    (h : r.andThen next = .matched s ts) :
    ∃ s₁ ts₁ ts₂, r = .matched s₁ ts₁ ∧ next s₁ = .matched s ts₂ ∧ ts = ts₁ ++ ts₂ := by
  unfold Reply.andThen at h
  cases r with
  | failed a | exhausted => cases h
  | matched s₁ ts₁ =>
    cases hnext : next s₁ with
    | failed a | exhausted => simp [hnext] at h
    | matched s₂ ts₂ =>
      simp only [hnext, matched.injEq] at h
      obtain ⟨rfl, rfl⟩ := h
      exact ⟨s₁, ts₁, ts₂, rfl, hnext, rfl⟩

theorem Reply.reading_eq_matched {k : Option Cursor} (h : Reply.reading s k = .matched s' ts) :
    k = some s'.cursor ∧ ts = [] := by
  cases k with
  | none => cases h
  | some k =>
    cases h
    exact ⟨rfl, rfl⟩

/-- Rounds up to one that fails, each from where the one before it stopped. -/
inductive Rounds (step : State → Reply) : State → State → List (List ParseTree) → Prop
  | stop {s : State} {a : Attempts} : step s = .failed a →
      Rounds step s { s with attempts := a } []
  | round {s s₁ s' : State} {us : List ParseTree} {tss : List (List ParseTree)} :
      step s = .matched s₁ us → Rounds step s₁ s' tss → Rounds step s s' (us :: tss)

theorem rounds_of_repeatRun {step : State → Reply} {rounds : Nat}
    {before : List (List ParseTree)} (h : repeatRun step rounds before s = .matched s' ts) :
    ∃ tss, Rounds step s s' tss ∧ ts = (before.reverse ++ tss).flatten := by
  induction rounds generalizing before s with
  | zero => cases h
  | succ rounds ih =>
    unfold repeatRun at h
    cases hstep : step s with
    | exhausted => simp [hstep] at h
    | failed a =>
      simp only [hstep, Reply.matched.injEq] at h
      obtain ⟨rfl, rfl⟩ := h
      exact ⟨[], .stop hstep, by rw [List.append_nil]⟩
    | matched s₁ us =>
      simp only [hstep] at h
      obtain ⟨tss, hrounds, rfl⟩ := ih h
      exact ⟨us :: tss, .round hstep hrounds, by simp⟩

section

variable {n : Nat} {skip : State → Reply} {call : Rule → Run} {sc : Scope} {p q : Pattern}

theorem seq_eq_matched (h : Pattern.run n skip call (.seq p q) sc s = .matched s' ts) :
    ∃ s₁ s₂ us vs ws, p.run n skip call sc s = .matched s₁ us ∧
      Pattern.run.between skip sc s₁ = .matched s₂ vs ∧
      q.run n skip call sc s₂ = .matched s' ws ∧ ts = us ++ vs ++ ws := by
  obtain ⟨s₂, _, ws, hfront, hq, rfl⟩ := Reply.andThen_eq_matched h
  obtain ⟨s₁, us, vs, hp, hbetween, rfl⟩ := Reply.andThen_eq_matched hfront
  exact ⟨s₁, s₂, us, vs, ws, hp, hbetween, hq, rfl⟩

theorem alt_eq_matched (h : Pattern.run n skip call (.alt p q) sc s = .matched s' ts) :
    p.run n skip call sc s = .matched s' ts ∨
      ∃ a, q.run n skip call sc { s with attempts := a } = .matched s' ts := by
  rw [run_alt] at h
  cases hp : p.run n skip call sc s with
  | matched s₁ us => exact .inl (by rwa [hp] at h)
  | failed a => exact .inr ⟨a, by rwa [hp] at h⟩
  | exhausted => simp [hp] at h

theorem many_eq_matched (h : Pattern.run n skip call (.many p) sc s = .matched s' ts) :
    (∃ a, p.run n skip call sc s = .failed a ∧ s' = { s with attempts := a } ∧ ts = []) ∨
      ∃ s₁ us tss, p.run n skip call sc s = .matched s₁ us ∧
        Rounds (fun s => (Pattern.run.between skip sc s).andThen (p.run n skip call sc)) s₁ s' tss ∧
        ts = us ++ tss.flatten := by
  rw [run_many] at h
  cases hp : p.run n skip call sc s with
  | exhausted => simp [hp] at h
  | failed a =>
    simp only [hp, Reply.matched.injEq] at h
    exact .inl ⟨a, rfl, h.1.symm, h.2.symm⟩
  | matched s₁ us =>
    simp only [hp] at h
    obtain ⟨tss, hrounds, rfl⟩ := rounds_of_repeatRun h
    exact .inr ⟨s₁, us, tss, rfl, hrounds, rfl⟩

theorem maybe_eq_matched (h : Pattern.run n skip call (.maybe p) sc s = .matched s' ts) :
    (∃ a, s' = { s with attempts := a } ∧ ts = []) ∨ p.run n skip call sc s = .matched s' ts := by
  rw [run_maybe] at h
  cases hp : p.run n skip call sc s with
  | exhausted => simp [hp] at h
  | failed a =>
    simp only [hp, Reply.matched.injEq] at h
    exact .inl ⟨a, h.1.symm, h.2.symm⟩
  | matched s₁ us => exact .inr (by rwa [hp] at h)

theorem ahead_eq_matched (h : Pattern.run n skip call (.ahead p) sc s = .matched s' ts) :
    ∃ a, s' = { s with attempts := a } ∧ ts = [] := by
  rw [run_ahead] at h
  cases hp : p.run n skip call { sc with lookahead := sc.lookahead.ahead } s with
  | exhausted | failed a => simp [hp] at h
  | matched s₁ us =>
    simp only [hp, Reply.matched.injEq] at h
    exact ⟨s₁.attempts, h.1.symm, h.2.symm⟩

theorem notAhead_eq_matched (h : Pattern.run n skip call (.notAhead p) sc s = .matched s' ts) :
    ∃ a, s' = { s with attempts := a } ∧ ts = [] := by
  rw [run_notAhead] at h
  cases hp : p.run n skip call { sc with lookahead := sc.lookahead.notAhead } s with
  | exhausted | matched s₁ us => simp [hp] at h
  | failed a =>
    simp only [hp, Reply.matched.injEq] at h
    exact ⟨a, h.1.symm, h.2.symm⟩

theorem push_eq_matched (h : Pattern.run n skip call (.push p) sc s = .matched s' ts) :
    ∃ s₁, p.run n skip call sc s = .matched s₁ ts ∧ s'.cursor = s₁.cursor := by
  simp only [Pattern.run] at h
  cases hp : p.run n skip call sc s with
  | failed a | exhausted => simp [hp] at h
  | matched s₁ us =>
    simp only [hp, Reply.matched.injEq] at h
    obtain ⟨rfl, rfl⟩ := h
    exact ⟨s₁, rfl, rfl⟩

/-- Both patterns that look at the stack read the text on top of it. -/
theorem top_eq_matched (hp : p = .peek ∨ p = .pop)
    (h : p.run n skip call sc s = .matched s' ts) :
    ∃ top, s.cursor.all? (· == ·) top = some s'.cursor ∧ ts = [] := by
  obtain rfl | rfl := hp
  all_goals
    simp only [Pattern.run] at h
    split at h
    · exact ⟨_, Reply.reading_eq_matched h⟩
    · cases h

end

end ThreeAddress.Grammar

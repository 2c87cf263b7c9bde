import ThreeAddress.Proofs.Progress

/-!
# Matching terminates

Why the bound of a run does not matter. A run that did not reach its bound is the same under every
larger one (`Rule.run_eq_of_le`). The two ways in which a run could go on for ever are closed:
**a rule that is entered again inside itself is entered further on in the text**
(`Rule.Enters.reads`), and **every round of a repetition reads something** (`Round.reads`), be it a
repetition in a rule or the one that skips blanks and comments.
-/

namespace ThreeAddress.Grammar

/-! ## Larger bounds -/

/-- A reply that did not reach its bound stays as it is. -/
def Reply.Settles (r r' : Reply) : Prop :=
  r ≠ .exhausted → r' = r

namespace Reply.Settles

theorem refl (r : Reply) : r.Settles r :=
  fun _ => rfl

theorem andThen {r r' : Reply} {next next' : State → Reply} (h : r.Settles r')
    (hnext : ∀ s, (next s).Settles (next' s)) : (r.andThen next).Settles (r'.andThen next') := by
  intro hne
  cases r with
  | exhausted => exact absurd rfl hne
  | failed a =>
    rw [h failed_ne_exhausted]
    rfl
  | matched s ts =>
    rw [h matched_ne_exhausted]
    -- the second run settles as well, for its bound would show in the whole
    have hs : next' s = next s := by
      refine hnext s fun hs => hne ?_
      unfold Reply.andThen
      simp only [hs]
    unfold Reply.andThen
    simp only [hs]

end Reply.Settles

theorem repeatRun_settles {step step' : State → Reply} (h : ∀ s, (step s).Settles (step' s))
    {n m : Nat} (hnm : n ≤ m) (before : List (List ParseTree)) (s : State) :
    (repeatRun step n before s).Settles (repeatRun step' m before s) := by
  induction n generalizing m before s with
  | zero => exact fun hne => absurd rfl hne
  | succ n ih =>
    obtain ⟨m, rfl⟩ : ∃ k, m = k + 1 := ⟨m - 1, by omega⟩
    intro hne
    unfold repeatRun at hne ⊢
    cases hs : step s with
    | exhausted => exact absurd (by simp only [hs]) hne
    | failed a =>
      have hs' : step' s = .failed a := (h s (by rw [hs]; exact Reply.failed_ne_exhausted)).trans hs
      simp only [hs']
    | matched s₁ ts =>
      have hs' : step' s = .matched s₁ ts :=
        (h s (by rw [hs]; exact Reply.matched_ne_exhausted)).trans hs
      simp only [hs, hs'] at hne ⊢
      exact ih (by omega) _ _ hne

section

variable {n m : Nat} {skip skip' : State → Reply} {call call' : Rule → Run}

/-- **A pattern settles if what it calls does.** -/
theorem Pattern.run_settles (hnm : n ≤ m) (hskip : ∀ s, (skip s).Settles (skip' s))
    (hcall : ∀ r sc s, (call r sc s).Settles (call' r sc s)) (p : Pattern) (sc : Scope) (s : State) :
    (p.run n skip call sc s).Settles (p.run m skip' call' sc s) := by
  have hbetween (sc : Scope) (s : State) :
      (run.between skip sc s).Settles (run.between skip' sc s) := by
    unfold run.between
    split
    · exact hskip s
    · exact .refl _
  -- a reply that is looked at settles with the one that is made of it
  have look {r r' t t' : Reply} (h : r.Settles r') (hex : r = .exhausted → t = .exhausted)
      (heq : r' = r → t.Settles t') : t.Settles t' := by
    intro hne
    exact heq (h fun hr => hne (hex hr)) hne
  induction p generalizing sc s with
  | start | finish | one | literal | caseless | peek | pop => exact .refl _
  | rule r => exact hcall r sc s
  | seq p q hp hq => exact ((hp sc s).andThen (hbetween sc)).andThen (hq sc)
  | alt p q hp hq =>
    rw [run_alt, run_alt]
    refine look (hp sc s) (fun hr => by rw [hr]) fun hr => ?_
    rw [hr]
    cases p.run n skip call sc s with
    | failed a => exact hq sc _
    | matched _ _ | exhausted => exact .refl _
  | many p hp =>
    rw [run_many, run_many]
    refine look (hp sc s) (fun hr => by rw [hr]) fun hr => ?_
    rw [hr]
    cases p.run n skip call sc s with
    | matched s₁ ts =>
      exact repeatRun_settles (fun s => (hbetween sc s).andThen (hp sc)) hnm _ _
    | failed _ | exhausted => exact .refl _
  | maybe p hp =>
    rw [run_maybe, run_maybe]
    refine look (hp sc s) (fun hr => by rw [hr]) fun hr => ?_
    rw [hr]
    exact .refl _
  | ahead p hp =>
    rw [run_ahead, run_ahead]
    refine look (hp { sc with lookahead := sc.lookahead.ahead } s) (fun hr => by rw [hr])
      fun hr => ?_
    rw [hr]
    exact .refl _
  | notAhead p hp =>
    rw [run_notAhead, run_notAhead]
    refine look (hp { sc with lookahead := sc.lookahead.notAhead } s) (fun hr => by rw [hr])
      fun hr => ?_
    rw [hr]
    exact .refl _
  | push p hp =>
    simp only [Pattern.run]
    refine look (hp sc s) (fun hr => by rw [hr]) fun hr => ?_
    rw [hr]
    exact .refl _

end

theorem skipBlanks_settles {n m : Nat} (hnm : n ≤ m) (s : State) :
    (skipBlanks n s).Settles (skipBlanks m s) :=
  Pattern.run_settles hnm (fun _ => .refl _) (fun _ _ _ => .refl _) _ _ _

theorem Rule.run_settles {n m : Nat} (hnm : n ≤ m) (r : Rule) (sc : Scope) (s : State) :
    (Rule.run n r sc s).Settles (Rule.run m r sc s) := by
  induction n generalizing m r sc s with
  | zero => exact fun hne => absurd rfl hne
  | succ n ih =>
    obtain ⟨m, rfl⟩ : ∃ k, m = k + 1 := ⟨m - 1, by omega⟩
    have hle : n ≤ m := by omega
    have hbody := Pattern.run_settles hle (skipBlanks_settles hle) (fun r => ih hle r)
      r.definition.body { sc with atomicity := r.definition.mode.inner sc.atomicity } s
    intro hne
    unfold Rule.run Rule.enter at hne ⊢
    rw [hbody fun hr => hne (by simp only [hr])]

/-- **Above a bound that is not reached, a run does not change.** -/
theorem Rule.run_eq_of_le {n m : Nat} {r : Rule} {sc : Scope} {s : State} (hnm : n ≤ m)
    (h : Rule.run n r sc s ≠ .exhausted) : Rule.run m r sc s = Rule.run n r sc s :=
  Rule.run_settles hnm r sc s h

/-! ## Rules inside rules -/

/-- While the pattern is run from a state, a rule is called from another one. -/
inductive Pattern.Enters (n : Nat) (skip : State → Reply) (call : Rule → Run) :
    Pattern → Scope → State → Rule → Scope → State → Prop
  | rule {r : Rule} {sc : Scope} {s : State} : Enters n skip call (.rule r) sc s r sc s
  | first {p q : Pattern} {sc sc' : Scope} {s s' : State} {r : Rule} :
      Enters n skip call p sc s r sc' s' → Enters n skip call (.seq p q) sc s r sc' s'
  | second {p q : Pattern} {sc sc' : Scope} {s s₁ s₂ s' : State} {r : Rule}
      {us vs : List ParseTree} : p.run n skip call sc s = .matched s₁ us →
      Pattern.run.between skip sc s₁ = .matched s₂ vs → Enters n skip call q sc s₂ r sc' s' →
      Enters n skip call (.seq p q) sc s r sc' s'
  | attempt {p q : Pattern} {sc sc' : Scope} {s s' : State} {r : Rule} :
      Enters n skip call p sc s r sc' s' → Enters n skip call (.alt p q) sc s r sc' s'
  | fallback {p q : Pattern} {sc sc' : Scope} {s s' : State} {a : Attempts} {r : Rule} :
      p.run n skip call sc s = .failed a →
      Enters n skip call q sc { s with attempts := a } r sc' s' →
      Enters n skip call (.alt p q) sc s r sc' s'
  | round {p : Pattern} {sc sc' : Scope} {s s' : State} {r : Rule} :
      Enters n skip call p sc s r sc' s' → Enters n skip call (.many p) sc s r sc' s'
  /-- The rounds behind a match are like those of a repetition that starts there. -/
  | again {p : Pattern} {sc sc' : Scope} {s s₁ s₂ s' : State} {r : Rule}
      {us vs : List ParseTree} : p.run n skip call sc s = .matched s₁ us →
      Pattern.run.between skip sc s₁ = .matched s₂ vs →
      Enters n skip call (.many p) sc s₂ r sc' s' → Enters n skip call (.many p) sc s r sc' s'
  | maybe {p : Pattern} {sc sc' : Scope} {s s' : State} {r : Rule} :
      Enters n skip call p sc s r sc' s' → Enters n skip call (.maybe p) sc s r sc' s'
  | ahead {p : Pattern} {sc sc' : Scope} {s s' : State} {r : Rule} :
      Enters n skip call p { sc with lookahead := sc.lookahead.ahead } s r sc' s' →
      Enters n skip call (.ahead p) sc s r sc' s'
  | notAhead {p : Pattern} {sc sc' : Scope} {s s' : State} {r : Rule} :
      Enters n skip call p { sc with lookahead := sc.lookahead.notAhead } s r sc' s' →
      Enters n skip call (.notAhead p) sc s r sc' s'
  | push {p : Pattern} {sc sc' : Scope} {s s' : State} {r : Rule} :
      Enters n skip call p sc s r sc' s' → Enters n skip call (.push p) sc s r sc' s'

section

variable {n : Nat} {skip : State → Reply} {call call' : Rule → Run}

theorem Reply.andThen_congr {r : Reply} {next next' : State → Reply}
    (h : ∀ s ts, r = .matched s ts → next s = next' s) : r.andThen next = r.andThen next' := by
  cases r with
  | failed a | exhausted => rfl
  | matched s ts =>
    simp only [Reply.andThen]
    rw [h s ts rfl]

/-- A repetition asks for the calls of its rounds only. -/
theorem repeatRun_congr {p : Pattern} {sc : Scope}
    (hp : ∀ s, (∀ r sc' s', p.Enters n skip call sc s r sc' s' → call' r sc' s' = call r sc' s') →
      p.run n skip call' sc s = p.run n skip call sc s) {rounds : Nat}
    {before : List (List ParseTree)} {s : State}
    (h : ∀ s₁ us, Pattern.run.between skip sc s = .matched s₁ us → ∀ r sc' s',
      Pattern.Enters n skip call (.many p) sc s₁ r sc' s' → call' r sc' s' = call r sc' s') :
    repeatRun (fun s => (Pattern.run.between skip sc s).andThen (p.run n skip call' sc)) rounds
        before s
      = repeatRun (fun s => (Pattern.run.between skip sc s).andThen (p.run n skip call sc)) rounds
        before s := by
  induction rounds generalizing before s with
  | zero => rfl
  | succ rounds ih =>
    have hstep : (Pattern.run.between skip sc s).andThen (p.run n skip call' sc)
        = (Pattern.run.between skip sc s).andThen (p.run n skip call sc) :=
      Reply.andThen_congr fun s₁ us hgap =>
        hp s₁ fun r sc' s' he => h s₁ us hgap r sc' s' (.round he)
    unfold repeatRun
    simp only [hstep]
    cases hround : (Pattern.run.between skip sc s).andThen (p.run n skip call sc) with
    | failed a | exhausted => rfl
    | matched s₂ ts =>
      obtain ⟨s₁, us, vs, hgap, hrun, -⟩ := Reply.andThen_eq_matched hround
      exact ih fun s₃ ws hgap' r sc' s' he => h s₁ us hgap r sc' s' (.again hrun hgap' he)

/-- **No other calls are made than those of the rules that are entered**: a run does not change
with what any other call would give. -/
theorem Pattern.run_congr (p : Pattern) {sc : Scope} {s : State}
    (h : ∀ r sc' s', p.Enters n skip call sc s r sc' s' → call' r sc' s' = call r sc' s') :
    p.run n skip call' sc s = p.run n skip call sc s := by
  induction p generalizing sc s with
  | start | finish | one | literal | caseless | peek | pop => rfl
  | rule r => exact h r sc s .rule
  | seq p q hp hq =>
    simp only [run, hp fun r sc' s' he => h r sc' s' (.first he)]
    refine Reply.andThen_congr fun s₂ vs hfront => ?_
    obtain ⟨s₁, us, ws, hr, hgap, -⟩ := Reply.andThen_eq_matched hfront
    exact hq fun r sc' s' he => h r sc' s' (.second hr hgap he)
  | alt p q hp hq =>
    rw [run_alt, run_alt, hp fun r sc' s' he => h r sc' s' (.attempt he)]
    cases hr : p.run n skip call sc s with
    | matched _ _ | exhausted => rfl
    | failed a => exact hq fun r sc' s' he => h r sc' s' (.fallback hr he)
  | many p hp =>
    rw [run_many, run_many, hp fun r sc' s' he => h r sc' s' (.round he)]
    cases hr : p.run n skip call sc s with
    | failed _ | exhausted => rfl
    | matched s₁ us =>
      exact repeatRun_congr (fun _ => hp) fun s₂ vs hgap r sc' s' he =>
        h r sc' s' (.again hr hgap he)
  | maybe p hp => rw [run_maybe, run_maybe, hp fun r sc' s' he => h r sc' s' (.maybe he)]
  | ahead p hp => rw [run_ahead, run_ahead, hp fun r sc' s' he => h r sc' s' (.ahead he)]
  | notAhead p hp =>
    rw [run_notAhead, run_notAhead, hp fun r sc' s' he => h r sc' s' (.notAhead he)]
  | push p hp => simp only [run, hp fun r sc' s' he => h r sc' s' (.push he)]

end

section

variable {n : Nat} {skip : State → Reply} {call : Rule → Run} {empty : Rule → Bool}

/-- A match of a pattern that reads nothing may do so. -/
theorem Pattern.run_reads {sc : Scope}
    (hgap : ReadsSome (Pattern.run.between skip sc) fun _ => True)
    (hcall : ∀ r, ReadsSome (call r sc) fun cs => cs = [] → empty r = true) (p : Pattern) :
    ReadsSome (p.run n skip call sc) fun cs => cs = [] → p.nullable empty = true := by
  refine (Pattern.run_spells hgap hcall p).mono ?_
  rintro cs hspells rfl
  exact nullable_of_spells (fun r hr => hr rfl) hspells

/-- **A rule that is called before anything is read is one that leads.** -/
theorem Pattern.Enters.leads
    (hgap : ∀ sc, ReadsSome (Pattern.run.between skip sc) fun _ => True)
    (hcall : ∀ r sc, ReadsSome (call r sc) fun cs => cs = [] → empty r = true) {p : Pattern}
    {sc sc' : Scope} {s s' : State} {r : Rule} (h : Enters n skip call p sc s r sc' s') :
    ∃ cs, s.cursor.Reaches cs s'.cursor ∧ (cs = [] → r ∈ p.leading empty) := by
  induction h with
  | rule => exact ⟨[], .refl _, fun _ => List.mem_cons_self⟩
  | first _ ih | attempt _ ih =>
    obtain ⟨cs, hcs, hlead⟩ := ih
    exact ⟨cs, hcs, fun hnil => List.mem_append_left _ (hlead hnil)⟩
  | fallback _ _ ih =>
    obtain ⟨cs, hcs, hlead⟩ := ih
    exact ⟨cs, hcs, fun hnil => List.mem_append_right _ (hlead hnil)⟩
  | round _ ih | maybe _ ih | ahead _ ih | notAhead _ ih | push _ ih => exact ih
  | @second p q sc _ _ _ _ _ _ _ _ hp hbetween _ ih =>
    obtain ⟨front, hfront, hnull⟩ := Pattern.run_reads (hgap sc) (fun r => hcall r sc) p _ _ _ hp
    obtain ⟨between, hread, -⟩ := hgap sc _ _ _ hbetween
    obtain ⟨back, hback, hlead⟩ := ih
    refine ⟨front ++ (between ++ back), hfront.append (hread.append hback), fun hnil => ?_⟩
    -- nothing is read before the second part, so the first one may read nothing
    obtain ⟨hfnil, hlater⟩ := List.append_eq_nil_iff.mp hnil
    obtain ⟨-, hbnil⟩ := List.append_eq_nil_iff.mp hlater
    show _ ∈ p.leading empty ++ if p.nullable empty then q.leading empty else []
    rw [hnull hfnil, if_pos rfl]
    exact List.mem_append_right _ (hlead hbnil)
  | @again p sc _ _ _ _ _ _ _ _ hp hbetween _ ih =>
    obtain ⟨front, hfront, -⟩ := Pattern.run_reads (hgap sc) (fun r => hcall r sc) p _ _ _ hp
    obtain ⟨between, hread, -⟩ := hgap sc _ _ _ hbetween
    obtain ⟨back, hback, hlead⟩ := ih
    refine ⟨front ++ (between ++ back), hfront.append (hread.append hback), fun hnil => ?_⟩
    obtain ⟨-, hlater⟩ := List.append_eq_nil_iff.mp hnil
    obtain ⟨-, hbnil⟩ := List.append_eq_nil_iff.mp hlater
    exact hlead hbnil

end

theorem between_skipBlanks_reads (n : Nat) (sc : Scope) :
    ReadsSome (Pattern.run.between (skipBlanks n) sc) fun _ => True := by
  intro s s' ts hs
  unfold Pattern.run.between at hs
  split at hs
  · exact skipBlanks_reads s s' ts hs
  · cases hs
    exact ⟨[], .refl _, trivial⟩

/-- While a rule is run from a state, a rule is called from another one, by the first rule itself
or by a rule that it calls. -/
inductive Rule.Enters : Nat → Rule → Scope → State → Rule → Scope → State → Prop
  | direct {n : Nat} {r q : Rule} {sc sc' : Scope} {s s' : State} :
      r.definition.body.Enters n (skipBlanks n) (Rule.run n)
        { sc with atomicity := r.definition.mode.inner sc.atomicity } s q sc' s' →
      Enters (n + 1) r sc s q sc' s'
  | through {n : Nat} {r q t : Rule} {sc sc₁ sc' : Scope} {s s₁ s' : State} :
      r.definition.body.Enters n (skipBlanks n) (Rule.run n)
        { sc with atomicity := r.definition.mode.inner sc.atomicity } s q sc₁ s₁ →
      Enters n q sc₁ s₁ t sc' s' → Enters (n + 1) r sc s t sc' s'

/-- **Without reading, rules are entered at a lower rank.** -/
theorem Rule.Enters.rank_lt {n : Nat} {r q : Rule} {sc sc' : Scope} {s s' : State}
    (h : Rule.Enters n r sc s q sc' s') :
    ∃ cs, s.cursor.Reaches cs s'.cursor ∧ (cs = [] → q.rank < r.rank) := by
  induction h with
  | @direct n _ _ _ _ _ _ hbody =>
    obtain ⟨cs, hcs, hlead⟩ := hbody.leads (between_skipBlanks_reads n) (Rule.run_reads n)
    exact ⟨cs, hcs, fun hnil => Rule.rank_leading (hlead hnil)⟩
  | @through n _ _ _ _ _ _ _ _ _ hbody _ ih =>
    obtain ⟨cs, hcs, hlead⟩ := hbody.leads (between_skipBlanks_reads n) (Rule.run_reads n)
    obtain ⟨ds, hds, hrank⟩ := ih
    refine ⟨cs ++ ds, hcs.append hds, fun hnil => ?_⟩
    obtain ⟨hcnil, hdnil⟩ := List.append_eq_nil_iff.mp hnil
    exact Nat.lt_trans (hrank hdnil) (Rule.rank_leading (hlead hcnil))

/-- **A rule that is entered inside itself is entered further on.** -/
theorem Rule.Enters.reads {n : Nat} {r : Rule} {sc sc' : Scope} {s s' : State}
    (h : Rule.Enters n r sc s r sc' s') : ∃ cs, cs ≠ [] ∧ s.cursor.Reaches cs s'.cursor := by
  obtain ⟨cs, hcs, hrank⟩ := h.rank_lt
  exact ⟨cs, fun hnil => Nat.lt_irrefl _ (hrank hnil), hcs⟩

/-! ## Rounds of repetitions -/

/-- The pattern and all patterns inside it. -/
def Pattern.parts : Pattern → List Pattern
  | .seq p q => .seq p q :: (p.parts ++ q.parts)
  | .alt p q => .alt p q :: (p.parts ++ q.parts)
  | .many p => .many p :: p.parts
  | .maybe p => .maybe p :: p.parts
  | .ahead p => .ahead p :: p.parts
  | .notAhead p => .notAhead p :: p.parts
  | .push p => .push p :: p.parts
  | p => [p]

/-- What is repeated inside a pattern whose repetitions read something may not read nothing. -/
theorem Pattern.not_nullable_of_many {empty : Rule → Bool} {p q : Pattern}
    (hp : p.advances empty = true) (hq : .many q ∈ p.parts) : q.nullable empty = false := by
  induction p with
  | seq p₁ p₂ h₁ h₂ | alt p₁ p₂ h₁ h₂ =>
    obtain ⟨hp₁, hp₂⟩ := Bool.and_eq_true_iff.mp hp
    rcases List.mem_cons.mp hq with heq | hq
    · cases heq
    · exact (List.mem_append.mp hq).elim (h₁ hp₁) (h₂ hp₂)
  | many p ih =>
    obtain ⟨hnull, hp⟩ := Bool.and_eq_true_iff.mp hp
    rcases List.mem_cons.mp hq with heq | hq
    · cases heq
      simpa using hnull
    · exact ih hp hq
  | maybe p ih | ahead p ih | notAhead p ih | push p ih =>
    rcases List.mem_cons.mp hq with heq | hq
    · cases heq
    · exact ih hp hq
  | _ => cases List.mem_singleton.mp hq

/-- A round of a repetition of the grammar: one in the definition of a rule, or one in the pattern
that skips blanks and comments. -/
inductive Round : (State → Reply) → Prop
  | ofRule {n : Nat} {r : Rule} {p : Pattern} {sc : Scope} :
      .many p ∈ r.definition.body.parts → Round (p.run n (skipBlanks n) (Rule.run n) sc)
  | ofBlanks {n : Nat} {p : Pattern} {sc : Scope} :
      .many p ∈ (Pattern.many (.alt blank comment)).parts →
      Round (p.run n (.matched · []) (fun _ _ s => .failed s.attempts) sc)

/-- **A round that matches has read something.** -/
theorem Round.reads {x : State → Reply} (h : Round x) : ReadsSome x (· ≠ []) := by
  cases h with
  | @ofRule n r p sc hp =>
    have hadvances := (Bool.and_eq_true_iff.mp (Bool.and_eq_true_iff.mp r.isRanked_eq).2).1
    have hnull := Pattern.not_nullable_of_many hadvances hp
    refine (Pattern.run_reads (between_skipBlanks_reads n sc)
      (fun r => Rule.run_reads n r sc) p).mono fun cs hcs hnil => ?_
    rw [hcs hnil] at hnull
    cases hnull
  | @ofBlanks n p sc hp =>
    have hadvances : (Pattern.many (.alt blank comment)).advances (fun _ => false) = true := by
      decide
    have hnull := Pattern.not_nullable_of_many hadvances hp
    have hgap : ReadsSome (Pattern.run.between (.matched · []) sc) fun _ => True := by
      intro s s' ts hs
      unfold Pattern.run.between at hs
      rw [ite_self] at hs
      cases hs
      exact ⟨[], .refl _, trivial⟩
    have hcall (r : Rule) : ReadsSome (fun s => .failed s.attempts)
        fun cs => cs = [] → (fun _ => false) r = true := by
      intro s s' ts hs
      cases hs
    refine (Pattern.run_reads hgap hcall p).mono fun cs hcs hnil => ?_
    rw [hcs hnil] at hnull
    cases hnull

/-- **Parsing terminates.** A text is matched or it is not, and no larger bound changes the answer:
a rule inside itself is entered further on, and a repetition goes on only after reading. -/
theorem parsing_terminates :
    (∀ text : String, parse text ≠ .exhausted ∧
      ∀ n, boundFor text.length ≤ n → parseWithin n text = parse text) ∧
    (∀ r sc s, ∃ bound, Rule.run bound r sc s ≠ .exhausted ∧
      ∀ n, bound ≤ n → Rule.run n r sc s = Rule.run bound r sc s) ∧
    (∀ n r sc s sc' s', Rule.Enters n r sc s r sc' s' →
      ∃ cs, cs ≠ [] ∧ s.cursor.Reaches cs s'.cursor) ∧
    ∀ round, Round round → ∀ s s' ts, round s = .matched s' ts →
      ∃ cs, s.cursor.Reaches cs s'.cursor ∧ cs ≠ [] := by
  have hrun (r : Rule) (sc : Scope) (s : State) {bound : Nat}
      (hbound : 256 * s.cursor.rest.length + r.rank < bound) :
      Rule.run bound r sc s ≠ .exhausted ∧
        ∀ n, bound ≤ n → Rule.run n r sc s = Rule.run bound r sc s := by
    have hne := Rule.run_ne_exhausted hbound sc
    exact ⟨hne, fun n hn => Rule.run_eq_of_le hn hne⟩
  refine ⟨fun text => ⟨parse_ne_exhausted text, fun n hn => ?_⟩, fun r sc s => ?_, ?_, ?_⟩
  · have hlength : 256 * text.toList.length + Rule.script.rank < boundFor text.length := by
      show 256 * text.toList.length + 2 < (text.length + 1) * 256
      rw [String.length_toList]
      omega
    have hscript := (hrun .script ⟨.spaced, .none⟩ ⟨.ofText text, [], .none⟩ hlength).2 n hn
    unfold parse parseWithin
    rw [hscript]
  · exact ⟨_, hrun r sc s (Nat.lt_succ_self _)⟩
  · exact fun _ _ _ _ _ _ h => h.reads
  · exact fun _ h => h.reads

end ThreeAddress.Grammar

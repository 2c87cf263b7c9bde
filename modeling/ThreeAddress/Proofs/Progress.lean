import ThreeAddress.Proofs.Spelling

/-!
# Progress

Matching never runs into its bound. A repetition reads something in every round, and between two
characters that are read **every rule is entered at a lower rank than the rule around it**
(`Rule.rank_leading`), so the bound of `parse` is never reached (`parse_ne_exhausted`): a text is
matched or it is not.
-/

namespace ThreeAddress.Grammar

namespace Pattern

variable (empty : Rule → Bool)

/-- Whether a match of the pattern may read nothing, if `empty` tells so of its rules. -/
def nullable : Pattern → Bool
  | .one _ => false
  | .literal text | .caseless text => text.isEmpty
  | .rule r => empty r
  | .seq p q => p.nullable && q.nullable
  | .alt p q => p.nullable || q.nullable
  | .push p => p.nullable
  | _ => true

/-- The rules that may be entered before anything is read. -/
def leading : Pattern → List Rule
  | .rule r => [r]
  | .seq p q => p.leading ++ if p.nullable empty then q.leading else []
  | .alt p q => p.leading ++ q.leading
  | .many p | .maybe p | .ahead p | .notAhead p | .push p => p.leading
  | _ => []

/-- Whether every round of a repetition reads something. -/
def advances : Pattern → Bool
  | .seq p q | .alt p q => p.advances && q.advances
  | .many p => !p.nullable empty && p.advances
  | .maybe p | .ahead p | .notAhead p | .push p => p.advances
  | _ => true

variable {empty}

/-- A pattern that reads nothing may read nothing. -/
theorem nullable_of_spells {gap : List Char → Prop} {S : Rule → List Char → Prop}
    (hS : ∀ r, S r [] → empty r = true) {p : Pattern} (h : p.Spells gap S []) :
    p.nullable empty = true := by
  induction p with
  | one c =>
    obtain ⟨x, hx, -⟩ := h
    cases hx
  | literal text =>
    obtain rfl : [] = text := h
    rfl
  | caseless text =>
    have h : [] = text.map Char.toLower := h
    obtain rfl := List.map_eq_nil_iff.mp h.symm
    rfl
  | rule r => exact hS r h
  | seq p q hp hq =>
    obtain ⟨front, between, back, hnil, hfront, -, hback⟩ := h
    obtain ⟨rfl, hlater⟩ := List.append_eq_nil_iff.mp hnil.symm
    obtain ⟨-, rfl⟩ := List.append_eq_nil_iff.mp hlater
    exact Bool.and_eq_true_iff.mpr ⟨hp hfront, hq hback⟩
  | alt p q hp hq => exact Bool.or_eq_true_iff.mpr (h.imp hp hq)
  | push p hp => exact hp h
  | _ => rfl

end Pattern

/-! ## Runs that read on -/

/-- A match of the run leaves no more to read, and less if it may not read nothing. -/
def Advances (x : State → Reply) (mayBeEmpty : Bool) : Prop :=
  ∀ s s' ts, x s = .matched s' ts →
    s'.cursor.rest.length ≤ s.cursor.rest.length ∧
      (mayBeEmpty = false → s'.cursor.rest.length < s.cursor.rest.length)

theorem ReadsSome.advances {x : State → Reply} {P : List Char → Prop} {b : Bool}
    (h : ReadsSome x P) (hb : b = false → ¬ P []) : Advances x b := by
  intro s s' ts hs
  obtain ⟨cs, hcs, hp⟩ := h s s' ts hs
  have hlength := hcs.length_eq
  refine ⟨by omega, fun hne => ?_⟩
  cases cs with
  | nil => exact absurd hp (hb hne)
  | cons c cs => simp only [List.length_cons] at hlength; omega

theorem Reply.matched_ne_exhausted {s : State} {ts : List ParseTree} :
    Reply.matched s ts ≠ .exhausted :=
  Reply.noConfusion

theorem Reply.failed_ne_exhausted {a : Attempts} : Reply.failed a ≠ .exhausted :=
  Reply.noConfusion

/-- A repetition whose rounds read something ends before the text does. -/
theorem repeatRun_ne_exhausted {step : State → Reply} {l : Nat} (hstep : Advances step false)
    (h : ∀ s, s.cursor.rest.length ≤ l → step s ≠ .exhausted) {rounds : Nat}
    {before : List (List ParseTree)} {s : State} (hs : s.cursor.rest.length ≤ l)
    (hrounds : s.cursor.rest.length < rounds) :
    repeatRun step rounds before s ≠ .exhausted := by
  induction rounds generalizing before s with
  | zero => omega
  | succ rounds ih =>
    unfold repeatRun
    cases hr : step s with
    | exhausted => exact absurd hr (h s hs)
    | failed a => exact Reply.matched_ne_exhausted
    | matched s₁ ts =>
      have hless := (hstep s s₁ ts hr).2 rfl
      exact ih (by omega) (by omega)

theorem Reply.andThen_ne_exhausted {r : Reply} {next : State → Reply} (hr : r ≠ .exhausted)
    (hnext : ∀ s ts, r = .matched s ts → next s ≠ .exhausted) : r.andThen next ≠ .exhausted := by
  cases r with
  | exhausted => exact absurd rfl hr
  | failed a => exact Reply.failed_ne_exhausted
  | matched s ts =>
    have h := hnext s ts rfl
    unfold Reply.andThen
    cases hs : next s with
    | exhausted => exact absurd hs h
    | failed a | matched s' ts' => simp [hs]

section

variable {n : Nat} {skip : State → Reply} {call : Rule → Run} {empty : Rule → Bool}

/-- What is known of the calls and blanks in a pattern that is run with `l` characters left; the
calls before anything is read are among `rs`. -/
structure Bounded (skip : State → Reply) (call : Rule → Run) (empty : Rule → Bool) (rs : List Rule)
    (l : Nat) : Prop where
  blanks : ReadsSome skip fun _ => True
  calls : ∀ r sc, ReadsSome (call r sc) fun cs => cs = [] → empty r = true
  skips : ∀ s, s.cursor.rest.length ≤ l → skip s ≠ .exhausted
  later : ∀ r sc s, s.cursor.rest.length < l → call r sc s ≠ .exhausted
  leading : ∀ r ∈ rs, ∀ sc s, s.cursor.rest.length ≤ l → call r sc s ≠ .exhausted

namespace Bounded

variable {rs qs : List Rule} {l m : Nat}

theorem subset (h : Bounded skip call empty rs l) (hsub : qs ⊆ rs) :
    Bounded skip call empty qs l :=
  { h with leading := fun r hr => h.leading r (hsub hr) }

theorem le (h : Bounded skip call empty rs l) (hm : m ≤ l) : Bounded skip call empty rs m :=
  { h with
    skips := fun s hs => h.skips s (Nat.le_trans hs hm)
    later := fun r sc s hs => h.later r sc s (Nat.lt_of_lt_of_le hs hm)
    leading := fun r hr sc s hs => h.leading r hr sc s (Nat.le_trans hs hm) }

/-- Once something was read, all calls are later ones. -/
theorem lt (h : Bounded skip call empty rs l) (hm : m < l) : Bounded skip call empty qs m :=
  { h.le (Nat.le_of_lt hm) with
    leading := fun r _ sc s hs => h.later r sc s (Nat.lt_of_le_of_lt hs hm) }

theorem between_ne_exhausted (h : Bounded skip call empty rs l) (sc : Scope) {s : State}
    (hs : s.cursor.rest.length ≤ l) : Pattern.run.between skip sc s ≠ .exhausted := by
  unfold Pattern.run.between
  split
  · exact h.skips s hs
  · exact Reply.matched_ne_exhausted

theorem between_reads (h : Bounded skip call empty rs l) (sc : Scope) :
    ReadsSome (Pattern.run.between skip sc) fun _ => True := by
  intro s s' ts hs
  unfold Pattern.run.between at hs
  split at hs
  · exact h.blanks s s' ts hs
  · cases hs
    exact ⟨[], .refl _, trivial⟩

theorem between_le (h : Bounded skip call empty rs l) {sc : Scope} {s s' : State}
    {ts : List ParseTree} (hs : Pattern.run.between skip sc s = .matched s' ts) :
    s'.cursor.rest.length ≤ s.cursor.rest.length := by
  obtain ⟨cs, hcs, -⟩ := h.between_reads sc s s' ts hs
  have hlength := hcs.length_eq
  omega

/-- A match of a pattern reads something unless the pattern may read nothing. -/
theorem run_advances (h : Bounded skip call empty rs l) (p : Pattern) (sc : Scope) :
    Advances (p.run n skip call sc) (p.nullable empty) := by
  refine (Pattern.run_spells (h.between_reads sc) (fun r => h.calls r sc) p).advances ?_
  intro hne hspells
  rw [Pattern.nullable_of_spells (fun r hr => hr rfl) hspells] at hne
  cases hne

end Bounded

/-- **A pattern whose repetitions read something is run to its end.** -/
theorem Pattern.run_ne_exhausted {p : Pattern} (hp : p.advances empty = true) {s : State}
    (h : Bounded skip call empty (p.leading empty) s.cursor.rest.length)
    (hn : s.cursor.rest.length ≤ n) (sc : Scope) : p.run n skip call sc s ≠ .exhausted := by
  induction p generalizing s sc with
  | start | finish =>
    simp only [Pattern.run]
    split
    · exact Reply.matched_ne_exhausted
    · exact Reply.failed_ne_exhausted
  | one c | literal text | caseless text =>
    intro hr
    unfold Pattern.run Reply.reading at hr
    split at hr <;> cases hr
  | rule r => exact h.leading r List.mem_cons_self sc s (Nat.le_refl _)
  | seq p q ihp ihq =>
    obtain ⟨hp, hq⟩ := Bool.and_eq_true_iff.mp hp
    have hfirst := ihp hp (h.subset (List.subset_append_left ..)) hn sc
    refine Reply.andThen_ne_exhausted (Reply.andThen_ne_exhausted hfirst fun s₁ ts₁ h₁ => ?_)
      fun s₂ ts₂ h₂ => ?_
    · exact h.between_ne_exhausted sc (h.run_advances p sc _ _ _ h₁).1
    · obtain ⟨s₁, us, vs, h₁, hgap, -⟩ := Reply.andThen_eq_matched h₂
      obtain ⟨hle, hlt⟩ := h.run_advances p sc _ _ _ h₁
      have hle' := h.between_le hgap
      refine ihq hq ?_ (by omega) sc
      -- the second part leads as well if the first one may read nothing
      cases hnull : p.nullable empty with
      | true =>
        have hsub : q.leading empty ⊆ (seq p q).leading empty := by
          show q.leading empty ⊆ p.leading empty ++ if p.nullable empty then q.leading empty else []
          rw [hnull, if_pos rfl]
          exact List.subset_append_right ..
        exact (h.subset hsub).le (by omega)
      | false => exact h.lt (Nat.lt_of_le_of_lt hle' (hlt hnull))
  | alt p q ihp ihq =>
    obtain ⟨hp, hq⟩ := Bool.and_eq_true_iff.mp hp
    have hfirst := ihp hp (h.subset (List.subset_append_left ..)) hn sc
    rw [run_alt]
    split
    · rename_i a _
      exact ihq hq (s := { s with attempts := a }) (h.subset (List.subset_append_right ..)) hn sc
    · exact hfirst
  | many p ih =>
    obtain ⟨hnull, hp⟩ := Bool.and_eq_true_iff.mp hp
    have hnull : p.nullable empty = false := by simpa using hnull
    rw [run_many]
    cases hr : p.run n skip call sc s with
    | exhausted => exact absurd hr (ih hp h hn sc)
    | failed a => exact Reply.matched_ne_exhausted
    | matched s₁ ts =>
      have hless := (h.run_advances p sc _ _ _ hr).2 hnull
      -- every round reads something, so there are fewer of them than characters
      refine repeatRun_ne_exhausted ?_ (fun s₂ hs₂ => ?_) (Nat.le_refl _) (by omega)
      · intro s₂ s₄ ts h₂
        obtain ⟨s₃, us, vs, hgap, hround, -⟩ := Reply.andThen_eq_matched h₂
        have hle := h.between_le hgap
        have hlt := (h.run_advances p sc _ _ _ hround).2 hnull
        exact ⟨by omega, fun _ => by omega⟩
      · refine Reply.andThen_ne_exhausted (h.between_ne_exhausted sc (by omega)) ?_
        intro s₃ us hgap
        have hle := h.between_le hgap
        exact ih hp (h.lt (by omega)) (by omega) sc
  | maybe p ih =>
    have hfirst := ih hp h hn sc
    rw [run_maybe]
    split
    · exact Reply.matched_ne_exhausted
    · exact hfirst
  | ahead p ih =>
    have hfirst := ih hp h hn { sc with lookahead := sc.lookahead.ahead }
    rw [run_ahead]
    split
    · exact Reply.matched_ne_exhausted
    · exact hfirst
  | notAhead p ih =>
    have hfirst := ih hp h hn { sc with lookahead := sc.lookahead.notAhead }
    rw [run_notAhead]
    split
    · exact Reply.failed_ne_exhausted
    · exact Reply.matched_ne_exhausted
    · rename_i hr
      exact absurd hr hfirst
  | push p ih =>
    have hfirst := ih hp h hn sc
    simp only [Pattern.run]
    split
    · exact Reply.matched_ne_exhausted
    · exact hfirst
  | peek | pop =>
    simp only [Pattern.run]
    split
    · unfold Reply.reading
      split
      · exact Reply.matched_ne_exhausted
      · exact Reply.failed_ne_exhausted
    · exact Reply.failed_ne_exhausted

end

/-! ## The rules of the grammar -/

/-- The rules that may match without reading anything. -/
def Rule.mayBeEmpty : Rule → Bool
  | .eoi | .script | .forClause | .inlineText | .arrayItems | .arraySlot => true
  | _ => false

/-- How deep rules may be entered before anything is read. -/
def Rule.rank : Rule → Nat
  | .keyword _ | .identifier | .variableName | .openTag | .closeTag | .byRef | .braceExpr | .varVar
  | .digits => 0
  | .script | .useItem | .useGroup | .typeAtom | .classDecl | .nameList | .classConst | .methodDecl
  | .propertyDecl | .operand | .classRef => 2
  | .useGroupItem | .typeHint | .classMember | .expr => 3
  | .forClause | .foreachBinding | .expressionStmt | .param | .argument | .arrayItem => 4
  | .statement | .paramList | .arraySlot => 5
  | .arrayItems => 6
  | _ => 1

theorem Rule.rank_le (r : Rule) : r.rank ≤ 6 := by
  unfold rank
  split <;> omega

/-- The definition of a rule in which repetitions read something and rules are entered at a lower
rank. -/
def Rule.isRanked (r : Rule) : Bool :=
  (r.mayBeEmpty || !r.definition.body.nullable mayBeEmpty) &&
    (r.definition.body.advances mayBeEmpty &&
      (r.definition.body.leading mayBeEmpty).all fun q => q.rank < r.rank)

theorem Rule.isRanked_eq (r : Rule) : r.isRanked = true := by
  cases r with
  | keyword k => cases k <;> decide +kernel
  | _ => decide +kernel

theorem Rule.not_nullable {r : Rule} (h : r.mayBeEmpty = false) :
    r.definition.body.nullable mayBeEmpty = false := by
  have hranked := (Bool.and_eq_true_iff.mp r.isRanked_eq).1
  rw [h, Bool.false_or] at hranked
  simpa using hranked

/-- Before anything is read, rules are entered at a lower rank. -/
theorem Rule.rank_leading {r q : Rule} (hq : q ∈ r.definition.body.leading mayBeEmpty) :
    q.rank < r.rank := by
  have hranked := (Bool.and_eq_true_iff.mp (Bool.and_eq_true_iff.mp r.isRanked_eq).2).2
  simpa using List.all_eq_true.mp hranked q hq

theorem Rule.run_reads (n : Nat) (r : Rule) (sc : Scope) :
    ReadsSome (Rule.run n r sc) fun cs => cs = [] → r.mayBeEmpty = true := by
  refine Rule.run_spells (S := fun r cs => cs = [] → r.mayBeEmpty = true) ?_ n r sc
  intro r cs hspells hnil
  cases hempty : r.mayBeEmpty with
  | true => rfl
  | false =>
    subst hnil
    rw [← Rule.not_nullable hempty]
    exact Pattern.nullable_of_spells (fun q hq => hq rfl) hspells

theorem skipBlanks_ne_exhausted {n : Nat} {s : State} (h : s.cursor.rest.length ≤ n) :
    skipBlanks n s ≠ .exhausted := by
  have hbounded : Bounded (.matched · []) (fun _ _ s => .failed s.attempts) (fun _ => false)
      ((Pattern.many (.alt blank comment)).leading fun _ => false) s.cursor.rest.length := by
    refine ⟨fun s s' ts hs => ?_, fun r sc s s' ts hs => ?_, fun _ _ hs => ?_,
      fun _ _ _ _ hs => ?_, fun _ _ _ _ _ hs => ?_⟩
    · cases hs
      exact ⟨[], .refl _, trivial⟩
    all_goals cases hs
  exact Pattern.run_ne_exhausted (by decide) hbounded h _

/-- **A rule is run to its end** if the bound is above the length of the text, once for every
rank. -/
theorem Rule.run_ne_exhausted {n : Nat} {r : Rule} {s : State}
    (h : 256 * s.cursor.rest.length + r.rank < n) (sc : Scope) :
    Rule.run n r sc s ≠ .exhausted := by
  induction n generalizing r s sc with
  | zero => omega
  | succ n ih =>
    have hbody : r.definition.body.run n (skipBlanks n) (Rule.run n)
        { sc with atomicity := r.definition.mode.inner sc.atomicity } s ≠ .exhausted := by
      refine Pattern.run_ne_exhausted (Bool.and_eq_true_iff.mp
        (Bool.and_eq_true_iff.mp r.isRanked_eq).2).1
        ⟨skipBlanks_reads, Rule.run_reads n, ?_, ?_, ?_⟩
        (by omega) _
      · exact fun s' hs' => skipBlanks_ne_exhausted (by omega)
      · intro q sc' s' hs'
        have hrank := q.rank_le
        exact ih (by omega) sc'
      · intro q hq sc' s' hs'
        have hrank := Rule.rank_leading hq
        exact ih (by omega) sc'
    unfold Rule.run Rule.enter
    cases hr : r.definition.body.run n (skipBlanks n) (Rule.run n)
        { sc with atomicity := r.definition.mode.inner sc.atomicity } s with
    | exhausted => exact absurd hr hbody
    | failed a | matched s₁ ts => simp

/-- **Matching a text never runs into its bound.** -/
theorem parse_ne_exhausted (text : String) : parse text ≠ .exhausted := by
  have hrun := Rule.run_ne_exhausted (n := boundFor text.length) (r := .script)
    (s := ⟨.ofText text, [], .none⟩) (by
      show 256 * text.toList.length + 2 < (text.length + 1) * 256
      rw [String.length_toList]
      omega) ⟨.spaced, .none⟩
  unfold parse parseWithin
  split
  · exact nofun
  · exact nofun
  · exact nofun
  · rename_i hr
    exact absurd hr hrun

end ThreeAddress.Grammar

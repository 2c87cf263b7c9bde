import ThreeAddress.Grammar.Match

/-!
# Reading

What a pattern does at a place of the text, apart from the attempts that are noted on the way
and from the stack: it reads up to another place and leaves trees, or it refuses. **Each way to
put patterns together has its lemmas**, so that a match is put together from the matches of its
parts, and a repetition is followed round by round (`Repeats`).
-/

namespace ThreeAddress

namespace Cursor

theorem forward_of_rest_eq_nil {k : Cursor} (h : k.rest = []) (n : Nat) : k.forward n = k := by
  cases n with
  | zero => rfl
  | succ n =>
    unfold forward
    rw [h]

theorem forward_succ {k : Cursor} {c : Char} {cs : List Char} (h : k.rest = c :: cs) (n : Nat) :
    k.forward (n + 1) = (k.past c cs).forward n := by
  rw [forward, h]

theorem forward_add (k : Cursor) (m n : Nat) : k.forward (m + n) = (k.forward m).forward n := by
  induction m generalizing k with
  | zero => rw [Nat.zero_add]; rfl
  | succ m ih =>
    rw [Nat.add_right_comm]
    cases h : k.rest with
    | nil => rw [forward_of_rest_eq_nil h, forward_of_rest_eq_nil h, forward_of_rest_eq_nil h]
    | cons c cs =>
      rw [forward_succ h, forward_succ h]
      exact ih _

theorem rest_past (k : Cursor) (c : Char) (cs : List Char) : (k.past c cs).rest = cs := by
  unfold past
  split <;> rfl

theorem forward_one {k : Cursor} {c : Char} {cs : List Char} (h : k.rest = c :: cs) :
    k.forward 1 = k.past c cs :=
  forward_succ h 0

theorem rest_forward {k : Cursor} {cs later : List Char} (h : k.rest = cs ++ later) :
    (k.forward cs.length).rest = later := by
  induction cs generalizing k with
  | nil => exact h
  | cons c cs ih =>
    rw [List.length_cons, forward_succ h]
    exact ih (rest_past k c _)

theorem index_past (k : Cursor) (c : Char) (cs : List Char) :
    (k.past c cs).index = k.index + 1 := by
  unfold past
  split <;> rfl

theorem index_forward {k : Cursor} {cs later : List Char} (h : k.rest = cs ++ later) :
    (k.forward cs.length).index = k.index + cs.length := by
  induction cs generalizing k with
  | nil => rfl
  | cons c cs ih =>
    have h : k.rest = c :: (cs ++ later) := h
    rw [List.length_cons, forward_succ h, ih (rest_past k c _), index_past]
    omega

/-- The text between two places is what was read from one to the other. -/
theorem textTo_forward {k : Cursor} {cs later : List Char} (h : k.rest = cs ++ later) :
    k.textTo (k.forward cs.length) = cs := by
  unfold textTo
  rw [index_forward h, Nat.add_sub_cancel_left, h, List.take_left']
  rfl

theorem one?_of_rest {k : Cursor} {c : Char} {cs : List Char} (h : k.rest = c :: cs)
    (p : Char → Bool) : k.one? p = if p c then some (k.forward 1) else none := by
  rw [forward_one h]
  unfold one?
  rw [h]

end Cursor

namespace Grammar

/-- The run reads from one place up to another one and leaves the trees. -/
def Reads (x : State → Reply) (k k' : Cursor) (ts : List ParseTree) : Prop :=
  ∀ stack a, ∃ a', x ⟨k, stack, a⟩ = .matched ⟨k', stack, a'⟩ ts

/-- The run does not match at the place. -/
def Refuses (x : State → Reply) (k : Cursor) : Prop :=
  ∀ stack a, ∃ a', x ⟨k, stack, a⟩ = .failed a'

theorem Reads.nothing {k : Cursor} : Reads (.matched · []) k k [] :=
  fun _ a => ⟨a, rfl⟩

theorem Reads.andThen {x y : State → Reply} {k k₁ k₂ : Cursor} {ts ts' : List ParseTree}
    (hx : Reads x k k₁ ts) (hy : Reads y k₁ k₂ ts') :
    Reads (fun s => (x s).andThen y) k k₂ (ts ++ ts') := by
  intro stack a
  obtain ⟨a₁, h₁⟩ := hx stack a
  obtain ⟨a₂, h₂⟩ := hy stack a₁
  exact ⟨a₂, by simp only [Reply.andThen, h₁, h₂]⟩

theorem Refuses.andThen {x y : State → Reply} {k : Cursor} (hx : Refuses x k) :
    Refuses (fun s => (x s).andThen y) k := by
  intro stack a
  obtain ⟨a', h⟩ := hx stack a
  exact ⟨a', by simp only [Reply.andThen, h]⟩

theorem Reads.andThen_refuses {x y : State → Reply} {k k₁ : Cursor} {ts : List ParseTree}
    (hx : Reads x k k₁ ts) (hy : Refuses y k₁) : Refuses (fun s => (x s).andThen y) k := by
  intro stack a
  obtain ⟨a₁, h₁⟩ := hx stack a
  obtain ⟨a₂, h₂⟩ := hy stack a₁
  exact ⟨a₂, by simp only [Reply.andThen, h₁, h₂]⟩

theorem Reply.andThen_assoc (r : Reply) (x y : State → Reply) :
    (r.andThen x).andThen y = r.andThen fun s => (x s).andThen y := by
  cases r with
  | failed a | exhausted => rfl
  | matched s ts =>
    cases hx : x s with
    | failed a | exhausted => simp only [Reply.andThen, hx]
    | matched s₁ ts₁ => cases hy : y s₁ <;> simp [Reply.andThen, hx, hy]

/-! ## Repetitions -/

/-- Round by round, the run reads up to a place where it refuses. -/
inductive Repeats (x : State → Reply) : Cursor → Cursor → List (List ParseTree) → Prop
  | done {k : Cursor} : Refuses x k → Repeats x k k []
  | round {k k₁ k' : Cursor} {ts : List ParseTree} {tss : List (List ParseTree)} :
      Reads x k k₁ ts → Repeats x k₁ k' tss → Repeats x k k' (ts :: tss)

theorem Reads.repeatRun {x : State → Reply} {k k₁ k' : Cursor} {ts ts' : List ParseTree}
    {rounds : Nat} {before : List (List ParseTree)} (hx : Reads x k k₁ ts)
    (h : Reads (repeatRun x rounds (ts :: before)) k₁ k' ts') :
    Reads (repeatRun x (rounds + 1) before) k k' ts' := by
  intro stack a
  obtain ⟨a₁, h₁⟩ := hx stack a
  obtain ⟨a', h'⟩ := h stack a₁
  exact ⟨a', by rw [Grammar.repeatRun, h₁]; exact h'⟩

theorem Refuses.repeatRun {x : State → Reply} {k : Cursor} {rounds : Nat}
    {before : List (List ParseTree)} (hx : Refuses x k) :
    Reads (repeatRun x (rounds + 1) before) k k before.reverse.flatten := by
  intro stack a
  obtain ⟨a', h⟩ := hx stack a
  exact ⟨a', by rw [Grammar.repeatRun, h]⟩

theorem Repeats.reads_repeatRun {x : State → Reply} {k k' : Cursor}
    {tss : List (List ParseTree)} (h : Repeats x k k' tss) {rounds : Nat}
    (hrounds : tss.length < rounds) (before : List (List ParseTree)) :
    Reads (repeatRun x rounds before) k k' (before.reverse ++ tss).flatten := by
  obtain ⟨rounds, rfl⟩ := Nat.exists_eq_add_of_lt hrounds
  induction h generalizing rounds before with
  | done hx =>
    rw [List.append_nil]
    exact hx.repeatRun
  | @round k k₁ k' ts tss hx _ ih =>
    have h' := ih (ts :: before) rounds (by omega)
    rw [List.reverse_cons, List.append_assoc] at h'
    rw [List.length_cons, Nat.add_right_comm tss.length]
    exact hx.repeatRun h'

/-! ## Patterns -/

section Patterns

variable {n : Nat} {skip : State → Reply} {call : Rule → Run} {sc : Scope}
variable {p q : Pattern} {k k₁ k₂ k₃ k' : Cursor} {ts ts' : List ParseTree}

theorem run_alt (s : State) :
    Pattern.run n skip call (.alt p q) sc s = match p.run n skip call sc s with
      | .failed a => q.run n skip call sc { s with attempts := a }
      | r => r :=
  rfl

theorem run_many (s : State) :
    Pattern.run n skip call (.many p) sc s = match p.run n skip call sc s with
      | .matched s' ts => repeatRun
          (fun s => (Pattern.run.between skip sc s).andThen (p.run n skip call sc)) n [ts] s'
      | .failed a => .matched { s with attempts := a } []
      | .exhausted => .exhausted :=
  rfl

theorem run_maybe (s : State) :
    Pattern.run n skip call (.maybe p) sc s = match p.run n skip call sc s with
      | .failed a => .matched { s with attempts := a } []
      | r => r :=
  rfl

theorem run_ahead (s : State) :
    Pattern.run n skip call (.ahead p) sc s
      = match p.run n skip call { sc with lookahead := sc.lookahead.ahead } s with
        | .matched s' _ => .matched { s with attempts := s'.attempts } []
        | r => r :=
  rfl

theorem run_notAhead (s : State) :
    Pattern.run n skip call (.notAhead p) sc s
      = match p.run n skip call { sc with lookahead := sc.lookahead.notAhead } s with
        | .matched s' _ => .failed s'.attempts
        | .failed a => .matched { s with attempts := a } []
        | .exhausted => .exhausted :=
  rfl

theorem reads_start (h : k.index = 0) : Reads (Pattern.run n skip call .start sc) k k [] :=
  fun _ a => ⟨a, if_pos h⟩

theorem reads_finish (h : k.rest = []) : Reads (Pattern.run n skip call .finish sc) k k [] :=
  fun _ a => ⟨a, if_pos (List.isEmpty_iff.mpr h)⟩

theorem refuses_finish {c : Char} {cs : List Char} (h : k.rest = c :: cs) :
    Refuses (Pattern.run n skip call .finish sc) k :=
  fun _ a => ⟨a, if_neg fun he => nomatch h ▸ List.isEmpty_iff.mp he⟩

theorem reads_one {c : CharClass} (h : k.one? c.contains = some k') :
    Reads (Pattern.run n skip call (.one c) sc) k k' [] :=
  fun stack a => ⟨a, congrArg (Reply.reading ⟨k, stack, a⟩) h⟩

theorem refuses_one {c : CharClass} (h : k.one? c.contains = none) :
    Refuses (Pattern.run n skip call (.one c) sc) k :=
  fun stack a => ⟨a, congrArg (Reply.reading ⟨k, stack, a⟩) h⟩

theorem reads_literal {text : List Char} (h : k.all? (· == ·) text = some k') :
    Reads (Pattern.run n skip call (.literal text) sc) k k' [] :=
  fun stack a => ⟨a, congrArg (Reply.reading ⟨k, stack, a⟩) h⟩

theorem refuses_literal {text : List Char} (h : k.all? (· == ·) text = none) :
    Refuses (Pattern.run n skip call (.literal text) sc) k :=
  fun stack a => ⟨a, congrArg (Reply.reading ⟨k, stack, a⟩) h⟩

namespace Reads

theorem seq (hp : Reads (p.run n skip call sc) k k₁ ts)
    (hb : Reads (Pattern.run.between skip sc) k₁ k₂ [])
    (hq : Reads (q.run n skip call sc) k₂ k₃ ts') :
    Reads (Pattern.run n skip call (.seq p q) sc) k k₃ (ts ++ ts') := by
  have h := (hp.andThen hb).andThen hq
  rwa [List.append_nil] at h

theorem alt_left (hp : Reads (p.run n skip call sc) k k' ts) :
    Reads (Pattern.run n skip call (.alt p q) sc) k k' ts := by
  intro stack a
  obtain ⟨a', h⟩ := hp stack a
  exact ⟨a', by rw [run_alt, h]⟩

theorem alt_right (hq : Reads (q.run n skip call sc) k k' ts)
    (hp : Refuses (p.run n skip call sc) k) :
    Reads (Pattern.run n skip call (.alt p q) sc) k k' ts := by
  intro stack a
  obtain ⟨a₁, h₁⟩ := hp stack a
  obtain ⟨a', h⟩ := hq stack a₁
  exact ⟨a', by rw [run_alt, h₁]; exact h⟩

/-- The first of the patterns that does not refuse reads. -/
theorem firstOf {before after : List Pattern}
    (hbefore : ∀ q ∈ before, Refuses (q.run n skip call sc) k)
    (hp : Reads (p.run n skip call sc) k k' ts) :
    Reads (Pattern.run n skip call (.firstOf (before ++ p :: after)) sc) k k' ts := by
  induction before with
  | nil =>
    cases after with
    | nil => exact hp
    | cons q after => exact hp.alt_left
  | cons q before ih =>
    have hrest := ih fun q hq => hbefore q (List.mem_cons_of_mem _ hq)
    have hq := hbefore q List.mem_cons_self
    cases before with
    | nil => exact hrest.alt_right hq
    | cons q' before => exact hrest.alt_right hq

theorem many_nil (hp : Refuses (p.run n skip call sc) k) :
    Reads (Pattern.run n skip call (.many p) sc) k k [] := by
  intro stack a
  obtain ⟨a', h⟩ := hp stack a
  exact ⟨a', by rw [run_many, h]⟩

/-- After the first round, every round starts with the blanks before it. -/
theorem many {tss : List (List ParseTree)} (hp : Reads (p.run n skip call sc) k k₁ ts)
    (hrounds : Repeats
      (fun s => (Pattern.run.between skip sc s).andThen (p.run n skip call sc)) k₁ k' tss)
    (hn : tss.length < n) :
    Reads (Pattern.run n skip call (.many p) sc) k k' (ts ++ tss.flatten) := by
  intro stack a
  obtain ⟨a₁, h₁⟩ := hp stack a
  obtain ⟨a', h⟩ := hrounds.reads_repeatRun hn [ts] stack a₁
  exact ⟨a', by rw [run_many, h₁]; exact h⟩

theorem maybe (hp : Reads (p.run n skip call sc) k k' ts) :
    Reads (Pattern.run n skip call (.maybe p) sc) k k' ts := by
  intro stack a
  obtain ⟨a', h⟩ := hp stack a
  exact ⟨a', by rw [run_maybe, h]⟩

theorem maybe_nil (hp : Refuses (p.run n skip call sc) k) :
    Reads (Pattern.run n skip call (.maybe p) sc) k k [] := by
  intro stack a
  obtain ⟨a', h⟩ := hp stack a
  exact ⟨a', by rw [run_maybe, h]⟩

theorem ahead
    (hp : Reads (p.run n skip call { sc with lookahead := sc.lookahead.ahead }) k k' ts) :
    Reads (Pattern.run n skip call (.ahead p) sc) k k [] := by
  intro stack a
  obtain ⟨a', h⟩ := hp stack a
  exact ⟨a', by simp only [Pattern.run, h]⟩

theorem notAhead
    (hp : Refuses (p.run n skip call { sc with lookahead := sc.lookahead.notAhead }) k) :
    Reads (Pattern.run n skip call (.notAhead p) sc) k k [] := by
  intro stack a
  obtain ⟨a', h⟩ := hp stack a
  exact ⟨a', by rw [run_notAhead, h]⟩

end Reads

namespace Refuses

theorem seq (hp : Refuses (p.run n skip call sc) k) :
    Refuses (Pattern.run n skip call (.seq p q) sc) k :=
  hp.andThen.andThen

theorem seq_between (hp : Reads (p.run n skip call sc) k k₁ ts)
    (hq : Refuses (fun s => (Pattern.run.between skip sc s).andThen (q.run n skip call sc)) k₁) :
    Refuses (Pattern.run n skip call (.seq p q) sc) k := by
  intro stack a
  obtain ⟨a', h⟩ := hp.andThen_refuses hq stack a
  exact ⟨a', (Reply.andThen_assoc _ _ _).trans h⟩

theorem alt (hp : Refuses (p.run n skip call sc) k) (hq : Refuses (q.run n skip call sc) k) :
    Refuses (Pattern.run n skip call (.alt p q) sc) k := by
  intro stack a
  obtain ⟨a₁, h₁⟩ := hp stack a
  obtain ⟨a', h⟩ := hq stack a₁
  exact ⟨a', by rw [run_alt, h₁]; exact h⟩

theorem firstOf {ps : List Pattern} (hps : ∀ p ∈ ps, Refuses (p.run n skip call sc) k)
    (hne : ps ≠ []) : Refuses (Pattern.run n skip call (.firstOf ps) sc) k := by
  induction ps with
  | nil => exact absurd rfl hne
  | cons p ps ih =>
    obtain ⟨hp, hps⟩ := List.forall_mem_cons.mp hps
    cases ps with
    | nil => exact hp
    | cons q ps => exact hp.alt (ih hps (List.cons_ne_nil q ps))

theorem ahead (hp : Refuses (p.run n skip call { sc with lookahead := sc.lookahead.ahead }) k) :
    Refuses (Pattern.run n skip call (.ahead p) sc) k := by
  intro stack a
  obtain ⟨a', h⟩ := hp stack a
  exact ⟨a', by rw [run_ahead, h]⟩

theorem notAhead
    (hp : Reads (p.run n skip call { sc with lookahead := sc.lookahead.notAhead }) k k' ts) :
    Refuses (Pattern.run n skip call (.notAhead p) sc) k := by
  intro stack a
  obtain ⟨a', h⟩ := hp stack a
  exact ⟨a', by rw [run_notAhead, h]⟩

end Refuses

/-- Where blanks count, nothing is read between the parts. -/
theorem between_andThen {x : State → Reply} (hsc : sc.atomicity ≠ .spaced) :
    (fun s => (Pattern.run.between skip sc s).andThen x) = x := by
  funext s
  unfold Pattern.run.between
  rw [if_neg hsc]
  simp only [Reply.andThen, List.nil_append]
  cases x s <;> rfl

theorem Repeats.reads_many {tss : List (List ParseTree)}
    (h : Repeats (p.run n skip call sc) k k' tss) (hsc : sc.atomicity ≠ .spaced)
    (hn : tss.length ≤ n) : Reads (Pattern.run n skip call (.many p) sc) k k' tss.flatten := by
  cases h with
  | done hp => exact .many_nil hp
  | round hp hrest => exact hp.many ((between_andThen hsc).symm ▸ hrest) hn

/-! ## Characters -/

theorem reads_any {c : Char} {cs : List Char} (hk : k.rest = c :: cs) :
    Reads (Pattern.run n skip call (.one .any) sc) k (k.forward 1) [] :=
  reads_one (by rw [Cursor.one?_of_rest hk]; rfl)

theorem reads_char {c : Char} {cs : List Char} (hk : k.rest = c :: cs) :
    Reads (Pattern.run n skip call (.literal [c]) sc) k (k.forward 1) [] := by
  refine reads_literal ?_
  show (k.one? (c == ·)).bind _ = _
  rw [Cursor.one?_of_rest hk, if_pos (beq_self_eq_true c)]
  rfl

theorem refuses_char {c : Char} (hk : k.rest.head? ≠ some c) :
    Refuses (Pattern.run n skip call (.literal [c]) sc) k := by
  refine refuses_literal ?_
  show (k.one? (c == ·)).bind _ = none
  cases hrest : k.rest with
  | nil =>
    unfold Cursor.one?
    rw [hrest]
    rfl
  | cons d cs =>
    have hne : ¬(c == d) = true := by
      rw [hrest] at hk
      exact fun h => hk (congrArg some (eq_of_beq h).symm)
    rw [Cursor.one?_of_rest hrest, if_neg hne]
    rfl

/-- A character of a class, or an underscore. -/
theorem reads_classOr {cl : CharClass} {c : Char} {cs : List Char} (hk : k.rest = c :: cs)
    (hc : (cl.contains c || c == '_') = true) :
    Reads (Pattern.run n skip call (.alt (.one cl) "_") sc) k (k.forward 1) [] := by
  have hone := Cursor.one?_of_rest hk cl.contains
  cases hcl : cl.contains c with
  | true => exact .alt_left (reads_one (by rw [hone, hcl, if_pos rfl]))
  | false =>
    rw [hcl, Bool.false_or, beq_iff_eq] at hc
    subst hc
    exact .alt_right (reads_char hk) (refuses_one (by rw [hone, hcl, if_neg Bool.false_ne_true]))

theorem refuses_classOr {cl : CharClass}
    (hk : ∀ c ∈ k.rest.head?, (cl.contains c || c == '_') = false) :
    Refuses (Pattern.run n skip call (.alt (.one cl) "_") sc) k := by
  refine .alt (refuses_one ?_) (refuses_char fun h => ?_)
  · cases hrest : k.rest with
    | nil =>
      unfold Cursor.one?
      rw [hrest]
    | cons c cs =>
      rw [hrest] at hk
      obtain ⟨hcl, -⟩ := Bool.or_eq_false_iff.mp (hk c rfl)
      rw [Cursor.one?_of_rest hrest, hcl, if_neg Bool.false_ne_true]
  · obtain ⟨-, hc⟩ := Bool.or_eq_false_iff.mp (hk '_' h)
    cases hc

/-- Characters of a class, one in each round. -/
theorem repeats_classOr {cl : CharClass} {cs later : List Char} (hk : k.rest = cs ++ later)
    (hcs : ∀ c ∈ cs, (cl.contains c || c == '_') = true)
    (hlater : ∀ c ∈ later.head?, (cl.contains c || c == '_') = false) :
    Repeats (Pattern.run n skip call (.alt (.one cl) "_") sc) k (k.forward cs.length)
      (List.replicate cs.length []) := by
  induction cs generalizing k with
  | nil => exact .done (refuses_classOr (by rwa [hk]))
  | cons c cs ih =>
    have hk : k.rest = c :: (cs ++ later) := hk
    have hfirst : Reads (Pattern.run n skip call (.alt (.one cl) "_") sc) k (k.forward 1) [] :=
      reads_classOr hk (hcs c List.mem_cons_self)
    have hrest := ih (k := k.forward 1) (by rw [Cursor.forward_one hk, Cursor.rest_past])
      fun d hd => hcs d (List.mem_cons_of_mem c hd)
    rw [List.length_cons, Nat.add_comm, Cursor.forward_add, Nat.add_comm, List.replicate_succ]
    exact .round hfirst hrest

theorem reads_many_classOr {cl : CharClass} (hsc : sc.atomicity ≠ .spaced) {cs later : List Char}
    (hk : k.rest = cs ++ later) (hcs : ∀ c ∈ cs, (cl.contains c || c == '_') = true)
    (hlater : ∀ c ∈ later.head?, (cl.contains c || c == '_') = false) (hn : cs.length ≤ n) :
    Reads (Pattern.run n skip call (.many (.alt (.one cl) "_")) sc) k (k.forward cs.length) [] := by
  have hmany : Reads (Pattern.run n skip call (.many (.alt (.one cl) "_")) sc) k _ _ :=
    (repeats_classOr hk hcs hlater).reads_many hsc (by rwa [List.length_replicate])
  rwa [List.flatten_replicate_nil] at hmany

end Patterns

/-! ## Rules -/

section Rules

variable {r : Rule} {mode : Mode} {body : Run} {sc : Scope} {k k' : Cursor}
variable {ts : List ParseTree}

/-- A rule leaves one tree, unless blanks count where it is called. -/
theorem reads_enter
    (h : Reads (body { sc with atomicity := mode.inner sc.atomicity }) k k' ts) :
    Reads (r.enter mode body sc) k k'
      (if mode.outer sc.atomicity = .atomic then ts else [⟨r, ⟨k, k'⟩, ts⟩]) := by
  intro stack a
  obtain ⟨a', h'⟩ := h stack a
  unfold Rule.enter
  rw [h']
  by_cases hl : sc.lookahead = .negative
  · simp only [hl, if_true]
    exact ⟨_, rfl⟩
  · simp only [hl, if_false]
    exact ⟨_, rfl⟩

theorem reads_rule {n : Nat} (h : Reads (r.definition.body.run n (skipBlanks n) (Rule.run n)
      { sc with atomicity := r.definition.mode.inner sc.atomicity }) k k' ts) :
    Reads (Rule.run (n + 1) r sc) k k'
      (if r.definition.mode.outer sc.atomicity = .atomic then ts else [⟨r, ⟨k, k'⟩, ts⟩]) :=
  reads_enter h

theorem refuses_enter (h : Refuses (body { sc with atomicity := mode.inner sc.atomicity }) k) :
    Refuses (r.enter mode body sc) k := by
  intro stack a
  obtain ⟨a', h'⟩ := h stack a
  unfold Rule.enter
  rw [h']
  exact ⟨_, rfl⟩

end Rules

end Grammar

end ThreeAddress

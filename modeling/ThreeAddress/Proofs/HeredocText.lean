import ThreeAddress.Proofs.QuotedReading
import ThreeAddress.Proofs.Tokens

/-!
# Heredoc text in double quotes

The text of a heredoc is printed between double quotes, with its line breaks and tabs escaped.
**It is one quoted text again unless it holds a bare quote, and it stands for the same characters
unless a backslash escapes one of its breaks** (`heredocText_requoted`): the one is not escaped, and
of the other the backslash is taken as escaped.
-/

namespace ThreeAddress

namespace Text

/-! ## Open backslashes -/

/-- Whether a backslash is open after one more character. -/
def opensAfter (opened : Bool) (c : Char) : Bool :=
  !opened && c == '\\'

theorem opensAfter_of_ne {opened : Bool} {c : Char} (h : c ≠ '\\') : opensAfter opened c = false := by
  simp [opensAfter, h]

/-- Somewhere in the text stands a character with the property, which also says whether a
backslash that is not itself escaped stands right before it. -/
def Somewhere (P : Bool → Char → Prop) (opened : Bool) (cs : List Char) : Prop :=
  ∃ before c after, cs = before ++ c :: after ∧ P (before.foldl opensAfter opened) c

variable {P : Bool → Char → Prop} {opened : Bool} {c : Char} {cs : List Char}

@[simp] theorem somewhere_nil : ¬ Somewhere P opened [] := by
  rintro ⟨before, c, after, h, -⟩
  cases before <;> cases h

@[simp] theorem somewhere_cons :
    Somewhere P opened (c :: cs) ↔ P opened c ∨ Somewhere P (opensAfter opened c) cs := by
  constructor
  · rintro ⟨before, d, after, h, hP⟩
    cases before with
    | nil =>
      obtain ⟨rfl, rfl⟩ := List.cons.inj h
      exact .inl hP
    | cons b before =>
      obtain ⟨rfl, rfl⟩ := List.cons.inj h
      exact .inr ⟨before, d, after, rfl, hP⟩
  · rintro (hP | ⟨before, d, after, rfl, hP⟩)
    · exact ⟨[], c, cs, rfl, hP⟩
    · exact ⟨c :: before, d, after, rfl, hP⟩

/-- A quote that no backslash escapes. -/
def HasBareQuote (t : String) : Prop :=
  Somewhere (fun opened c => opened = false ∧ c = '"') false t.toList

/-- A line break or a tab that a backslash escapes. -/
def HasEscapedBreak (t : String) : Prop :=
  Somewhere (fun opened c => opened = true ∧ c ∈ ['\r', '\n', '\t']) false t.toList

/-! ## Escaping the breaks -/

/-- A line break or a tab, and the letter that stands for it after a backslash. -/
inductive Break : Char → Char → Prop
  | carriageReturn : Break '\r' 'r'
  | lineFeed : Break '\n' 'n'
  | tab : Break '\t' 't'

theorem Break.mem {d : Char} (h : Break c d) : c ∈ ['\r', '\n', '\t'] := by
  cases h <;> decide

theorem Break.ne {d : Char} (h : Break c d) : (c ≠ '"' ∧ c ≠ '\\') ∧ d ≠ '"' ∧ d ≠ '\\' ∧ d ≠ c := by
  cases h <;> decide

/-- What escaping does to a character: a break becomes a backslash and its letter. -/
theorem escapeFragmentChar_cases (c : Char) :
    (∃ d, Break c d ∧ escapeFragmentChar c = ['\\', d]) ∨
      (c ∉ ['\r', '\n', '\t'] ∧ escapeFragmentChar c = [c]) := by
  unfold escapeFragmentChar
  split
  · exact .inl ⟨'r', .carriageReturn, rfl⟩
  · exact .inl ⟨'n', .lineFeed, rfl⟩
  · exact .inl ⟨'t', .tab, rfl⟩
  · rename_i h₁ h₂ h₃
    exact .inr ⟨by simpa using ⟨h₁, h₂, h₃⟩, rfl⟩

theorem flatMap_escapeFragmentChar_ne_nil (h : cs ≠ []) : cs.flatMap escapeFragmentChar ≠ [] := by
  obtain ⟨c, cs, rfl⟩ := List.exists_cons_of_ne_nil h
  rw [List.flatMap_cons]
  obtain ⟨d, -, hd⟩ | ⟨-, hsame⟩ := escapeFragmentChar_cases c
  · rw [hd]
    exact List.cons_ne_nil _ _
  · rw [hsame]
    exact List.cons_ne_nil _ _

/-- Escaping keeps everything on one line. -/
theorem not_mem_escapeFragment (t : String) {c : Char} (hc : c ∈ ['\r', '\n', '\t']) :
    c ∉ (escapeFragment t).toList := by
  unfold escapeFragment
  rw [String.toList_ofList, List.mem_flatMap]
  rintro ⟨d, -, hmem⟩
  obtain ⟨l, hbreak, hl⟩ | ⟨hd, hsame⟩ := escapeFragmentChar_cases d
  · rw [hl] at hmem
    simp only [List.mem_cons, List.not_mem_nil, or_false] at hc
    obtain rfl | rfl | rfl := hc <;> cases hbreak <;> exact absurd hmem (by decide)
  · rw [hsame, List.mem_singleton] at hmem
    exact hd (hmem ▸ hc)

/-- Escaping neither makes a bare quote nor takes one away. -/
theorem bareQuote_flatMap :
    Somewhere (fun opened c => opened = false ∧ c = '"') opened (cs.flatMap escapeFragmentChar) ↔
      Somewhere (fun opened c => opened = false ∧ c = '"') opened cs := by
  induction cs generalizing opened with
  | nil => rfl
  | cons c cs ih =>
    rw [List.flatMap_cons]
    obtain ⟨d, hbreak, hd⟩ | ⟨-, hsame⟩ := escapeFragmentChar_cases c
    · obtain ⟨⟨hquote, hslash⟩, hquote', hslash', -⟩ := hbreak.ne
      rw [hd, List.cons_append, List.cons_append, List.nil_append]
      simp [ih, opensAfter_of_ne hslash, opensAfter_of_ne hslash', hquote, hquote']
    · rw [hsame, List.singleton_append, somewhere_cons, somewhere_cons, ih]

namespace Escape

/-- A character that cannot go on with what is open ends it. -/
theorem step_eq_plain {e : Escape} {c : Char} (he : e ≠ .backslash) (hhex : hexValue? c = Option.none)
    (hoctal : octalValue? c = Option.none) : e.step c = plain e.close c := by
  cases e with
  | none => rfl
  | backslash => exact absurd rfl he
  | hexMark => rw [step, hhex]; rfl
  | hexDigit v => rw [step, hhex]; rfl
  | octal v more =>
    cases more with
    | zero => rfl
    | succ more => rw [step, hoctal]; rfl

theorem step_ne_backslash {e : Escape} {c : Char} (hc : c ≠ '\\') : (e.step c).2 ≠ .backslash := by
  fun_cases step e c <;> simp_all [plain]

/-- A backslash is open after a character if the character is one that is not escaped. -/
theorem step_eq_backslash (e : Escape) (c : Char) :
    decide ((e.step c).2 = .backslash) = opensAfter (decide (e = .backslash)) c := by
  by_cases hc : c = '\\'
  · subst hc
    by_cases he : e = .backslash
    · subst he
      rfl
    · rw [step_eq_plain he rfl rfl]
      simp [plain, opensAfter, he]
  · rw [opensAfter_of_ne hc, decide_eq_false (step_ne_backslash hc)]

/-- Unless a backslash is open, a break and its escape are read as the same. -/
theorem step_break {e : Escape} {c d : Char} (h : Break c d) (he : e ≠ .backslash) :
    e.step c = ((e.step '\\').1 ++ (step .backslash d).1, (step .backslash d).2) ∧
      (e.step '\\').2 = .backslash := by
  have hplain : e.step c = plain e.close c := by
    cases h <;> exact step_eq_plain he rfl rfl
  rw [hplain, step_eq_plain he rfl rfl]
  cases h <;> exact ⟨rfl, rfl⟩

/-- **A text is read with its breaks escaped as without, exactly if no backslash escapes a
break.** -/
theorem read_escapeFragment (e : Escape) (cs : List Char) :
    e.read (cs.flatMap escapeFragmentChar) = e.read cs ↔
      ¬ Somewhere (fun opened c => opened = true ∧ c ∈ ['\r', '\n', '\t'])
        (decide (e = .backslash)) cs := by
  induction cs generalizing e with
  | nil => simp
  | cons c cs ih =>
    rw [List.flatMap_cons, somewhere_cons, ← step_eq_backslash]
    obtain ⟨d, hbreak, hd⟩ | ⟨hc, hsame⟩ := escapeFragmentChar_cases c
    · rw [hd, List.cons_append, List.cons_append, List.nil_append]
      by_cases he : e = .backslash
      · -- the backslash of the escape is escaped, and its letter is left
        subst he
        have hleft : read .backslash ('\\' :: d :: cs.flatMap escapeFragmentChar) =
            '\\' :: d :: read .none (cs.flatMap escapeFragmentChar) := by
          cases hbreak <;> rfl
        have hright : read .backslash (c :: cs) = '\\' :: c :: read .none cs := by
          cases hbreak <;> rfl
        rw [hleft, hright]
        simp [hbreak.ne.2.2.2, hbreak.mem]
      · obtain ⟨hstep, hopen⟩ := step_break hbreak he
        have hleft : e.read ('\\' :: d :: cs.flatMap escapeFragmentChar) =
            (e.step c).1 ++ read (e.step c).2 (cs.flatMap escapeFragmentChar) := by
          rw [read, hopen, read, hstep, List.append_assoc]
        rw [hleft, read, List.append_cancel_left_eq, ih]
        simp [he]
    · rw [hsame, List.singleton_append, read, read, List.append_cancel_left_eq, ih]
      simp [hc]

end Escape

end Text

namespace Grammar

open Pattern Text

/-! ## Pieces of text -/

/-- What a lookahead must not find is not there. -/
theorem notAhead_refused {n : Nat} {skip : State → Reply} {call : Rule → Run} {sc : Scope}
    {p : Pattern} {s s' : State} {ts : List ParseTree}
    (h : Pattern.run n skip call (.notAhead p) sc s = .matched s' ts) :
    s'.cursor = s.cursor ∧ ∀ k us,
      ¬ Reads (p.run n skip call { sc with lookahead := sc.lookahead.notAhead }) s.cursor k us := by
  rw [run_notAhead] at h
  cases hp : p.run n skip call { sc with lookahead := sc.lookahead.notAhead } s with
  | exhausted | matched s₁ us => simp [hp] at h
  | failed a =>
    simp only [hp, Reply.matched.injEq] at h
    exact ⟨h.1 ▸ rfl, fun k us hreads => Reads.ne_failed (s := s) hreads hp⟩

/-- Where blanks count, the second part starts where the first one ends. -/
theorem seq_eq_matched_tight {n : Nat} {skip : State → Reply} {call : Rule → Run} {sc : Scope}
    {p q : Pattern} {s s' : State} {ts : List ParseTree} (hsc : sc.atomicity ≠ .spaced)
    (h : Pattern.run n skip call (.seq p q) sc s = .matched s' ts) :
    ∃ s₁ us vs, p.run n skip call sc s = .matched s₁ us ∧ q.run n skip call sc s₁ = .matched s' vs := by
  obtain ⟨s₁, s₂, us, vs, ws, hp, hbetween, hq, -⟩ := seq_eq_matched h
  unfold Pattern.run.between at hbetween
  rw [if_neg hsc] at hbetween
  cases hbetween
  exact ⟨s₁, us, ws, hp, hq⟩

/-- The first characters of words. -/
def startsWord (c : Char) : Bool :=
  c.isAlpha || c == '_'

/-- A text in pieces that a string takes one by one, where `later` follows it: escapes, dollars
without a name, braces without a dollar, and characters that are not special. -/
inductive Pieces (special later : List Char) : List Char → Prop
  | nil : Pieces special later []
  | escaped (c : Char) {cs : List Char} : Pieces special later cs →
      Pieces special later ('\\' :: c :: cs)
  | dollar {cs : List Char} : (∀ c ∈ (cs ++ later).head?, startsWord c = false) →
      Pieces special later cs → Pieces special later ('$' :: cs)
  | brace {cs : List Char} : (cs ++ later).head? ≠ some '$' → Pieces special later cs →
      Pieces special later ('\x7b' :: cs)
  | plain {c : Char} {cs : List Char} : c ∉ special → Pieces special later cs →
      Pieces special later (c :: cs)

/-- One round of a text whose special characters are those that `bare` matches. -/
abbrev pieceRound (bare : Pattern) : Pattern :=
  firstOf [escapePair, .seq "$" (.notAhead (.alt (.one .letter) "_")), .seq "\x7b" (.notAhead "$"),
    .seq (.notAhead bare) (.one .any)]

section

variable {n : Nat} {skip : State → Reply} {call : Rule → Run} {sc : Scope} {bare : Pattern}
  {special : List Char} {s s' : State} {ts : List ParseTree}

/-- From one place to the other stand pieces that others may follow. -/
def Puts (special : List Char) (k k' : Cursor) : Prop :=
  ∃ cs, cs ≠ [] ∧ k.Reaches cs k' ∧ ∀ ds later, k'.rest = ds ++ later → Pieces special later ds →
    Pieces special later (cs ++ ds)

theorem char_eq_matched {c : Char}
    (h : Pattern.run n skip call (.literal [c]) sc s = .matched s' ts) :
    s.cursor.Reaches [c] s'.cursor :=
  Cursor.reaches_of_all? (Reply.reading_eq_matched h).1

theorem any_eq_matched (h : Pattern.run n skip call (.one .any) sc s = .matched s' ts) :
    ∃ c, s.cursor.Reaches [c] s'.cursor := by
  obtain ⟨c, hc, -⟩ := Cursor.one?_eq_some (Reply.reading_eq_matched h).1
  exact ⟨c, hc⟩

theorem reads_wordStart {k : Cursor} {c : Char} {rest : List Char} (hc : startsWord c = true)
    (hk : k.rest = c :: rest) :
    ∃ k', Reads (Pattern.run n skip call (.alt (.one .letter) "_") sc) k k' [] := by
  by_cases hletter : CharClass.letter.contains c = true
  · exact ⟨_, .alt_left (reads_one (by rw [Cursor.one?_of_rest hk, if_pos hletter]))⟩
  · obtain rfl : c = '_' := by
      obtain h | h := Bool.or_eq_true_iff.mp hc
      · exact absurd h hletter
      · exact beq_iff_eq.mp h
    exact ⟨_, .alt_right (reads_char hk)
      (refuses_one (by rw [Cursor.one?_of_rest hk, if_neg hletter]))⟩

/-- **A round puts one piece.** -/
theorem puts_of_round (hsc : sc.atomicity ≠ .spaced)
    (hbare : ∀ c ∈ special, ∀ (k : Cursor) rest, k.rest = c :: rest → ∃ k' us,
      Reads (bare.run n skip call { sc with lookahead := sc.lookahead.notAhead }) k k' us)
    (h : (pieceRound bare).run n skip call sc s = .matched s' ts) :
    Puts special s.cursor s'.cursor := by
  obtain h | ⟨a, h⟩ := alt_eq_matched h
  · obtain ⟨s₁, _, _, hslash, hany⟩ := seq_eq_matched_tight hsc h
    obtain ⟨c, hc⟩ := any_eq_matched hany
    exact ⟨['\\', c], nofun, (char_eq_matched hslash).append hc, fun ds later _ hds => .escaped c hds⟩
  obtain h | ⟨a, h⟩ := alt_eq_matched h
  · obtain ⟨s₁, _, _, hdollar, hname⟩ := seq_eq_matched_tight hsc h
    obtain ⟨hcursor, hrefused⟩ := notAhead_refused hname
    have hread := char_eq_matched hdollar
    rw [hcursor]
    refine ⟨['$'], nofun, hread, fun ds later hrest hds => .dollar (fun c hc => ?_) hds⟩
    rw [← Bool.not_eq_true]
    intro hword
    obtain ⟨k', hreads⟩ := reads_wordStart hword (hrest.trans (List.eq_cons_of_mem_head? hc))
    exact hrefused _ _ hreads
  obtain h | ⟨a, h⟩ := alt_eq_matched h
  · obtain ⟨s₁, _, _, hbrace, hname⟩ := seq_eq_matched_tight hsc h
    obtain ⟨hcursor, hrefused⟩ := notAhead_refused hname
    have hread := char_eq_matched hbrace
    rw [hcursor]
    refine ⟨['\x7b'], nofun, hread, fun ds later hrest hds => .brace (fun hc => ?_) hds⟩
    exact hrefused _ _ (reads_char (hrest.trans (List.eq_cons_of_mem_head? hc)))
  · obtain ⟨s₁, _, _, hnot, hany⟩ := seq_eq_matched_tight hsc h
    obtain ⟨hcursor, hrefused⟩ := notAhead_refused hnot
    obtain ⟨c, hc⟩ := any_eq_matched hany
    rw [hcursor] at hc
    refine ⟨[c], nofun, hc, fun ds later _ hds => .plain (fun hmem => ?_) hds⟩
    obtain ⟨k', us, hreads⟩ := hbare c hmem _ _ hc.rest
    exact hrefused _ _ hreads

theorem Rounds.puts {step : State → Reply} {tss : List (List ParseTree)}
    (h : Rounds step s s' tss)
    (hstep : ∀ s s' ts, step s = .matched s' ts → Puts special s.cursor s'.cursor) :
    ∃ cs, s.cursor.Reaches cs s'.cursor ∧ Pieces special s'.cursor.rest cs := by
  induction h with
  | stop _ => exact ⟨[], .refl _, .nil⟩
  | round hround _ ih =>
    obtain ⟨cs, -, hcs, hput⟩ := hstep _ _ _ hround
    obtain ⟨ds, hds, hpieces⟩ := ih
    exact ⟨cs ++ ds, hcs.append hds, hput ds _ hds.rest hpieces⟩

/-- **What rounds read is a text in pieces.** -/
theorem pieces_of_many1 (hsc : sc.atomicity ≠ .spaced) {p : Pattern}
    (hround : ∀ s s' ts, p.run n skip call sc s = .matched s' ts → Puts special s.cursor s'.cursor)
    (h : (Pattern.many1 p).run n skip call sc s = .matched s' ts) :
    ∃ cs, cs ≠ [] ∧ s.cursor.Reaches cs s'.cursor ∧ Pieces special s'.cursor.rest cs := by
  obtain ⟨s₁, us, vs, hfirst, hmany⟩ := seq_eq_matched_tight hsc h
  obtain ⟨cs, hne, hcs, hput⟩ := hround _ _ _ hfirst
  have happend (ds : List Char) : cs ++ ds ≠ [] := List.append_ne_nil_of_left_ne_nil hne ds
  obtain ⟨a, -, rfl, -⟩ | ⟨s₂, us, tss, hsecond, hrounds, -⟩ := many_eq_matched hmany
  · exact ⟨cs ++ [], happend _, hcs.append (.refl _), hput [] _ rfl .nil⟩
  · rw [between_andThen hsc] at hrounds
    obtain ⟨ds, hds, hpieces⟩ := (Rounds.round hsecond hrounds).puts hround
    exact ⟨cs ++ ds, happend _, hcs.append hds, hput ds _ hds.rest hpieces⟩

end

/-- What is special in a heredoc. -/
def specialInHeredoc : List Char :=
  ['$', '\x7b', '\\']

section

variable {n : Nat} {sc : Scope} {s s' : State} {ts : List ParseTree}

theorem reads_firstOf_chars {skip : State → Reply} {call : Rule → Run} {c : Char} {rest : List Char}
    {k : Cursor} {special : List Char} (hc : c ∈ special) (hk : k.rest = c :: rest) :
    Reads (Pattern.run n skip call (firstOf (special.map fun d => .literal [d])) sc) k
      (k.forward 1) [] := by
  induction special with
  | nil => cases hc
  | cons d special ih =>
    have hfirst : c = d → Reads (Pattern.run n skip call (.literal [d]) sc) k (k.forward 1) [] := by
      rintro rfl
      exact reads_char hk
    cases special with
    | nil => exact hfirst (List.mem_singleton.mp hc)
    | cons b special =>
      by_cases hcd : c = d
      · exact .alt_left (hfirst hcd)
      · refine .alt_right (ih ((List.mem_cons.mp hc).resolve_left hcd)) (refuses_char ?_)
        rw [hk]
        exact fun h => hcd (Option.some.inj h)

/-- A rule reads what its pattern reads. -/
theorem Rule.run_eq_matched {r : Rule} (h : Rule.run n r sc s = .matched s' ts) :
    ∃ m s₁ us, r.definition.body.run m (skipBlanks m) (Rule.run m)
      { sc with atomicity := r.definition.mode.inner sc.atomicity } s = .matched s₁ us ∧
      s'.cursor = s₁.cursor := by
  cases n with
  | zero => cases h
  | succ n =>
    unfold Rule.run Rule.enter at h
    cases hr : r.definition.body.run n (skipBlanks n) (Rule.run n)
        { sc with atomicity := r.definition.mode.inner sc.atomicity } s with
    | failed a | exhausted => simp [hr] at h
    | matched s₁ us =>
      simp only [hr, Reply.matched.injEq] at h
      refine ⟨n, s₁, us, hr, ?_⟩
      rw [← h.1]
      split <;> rfl

/-- The text of a heredoc comes in pieces. -/
theorem pieces_of_heredocText (h : Rule.run n .heredocText sc s = .matched s' ts) :
    ∃ cs, cs ≠ [] ∧ s.cursor.Reaches cs s'.cursor ∧ Pieces specialInHeredoc s'.cursor.rest cs := by
  obtain ⟨m, s₁, us, hbody, hcursor⟩ := Rule.run_eq_matched h
  have hatomic : Atomicity.atomic ≠ .spaced := nofun
  rw [hcursor]
  refine pieces_of_many1 hatomic (fun s s' ts hround => ?_) hbody
  -- before each piece the end of the heredoc is looked for, and not found
  obtain ⟨s₁, _, _, hend, hpiece⟩ := seq_eq_matched_tight hatomic hround
  rw [← (notAhead_refused hend).1]
  exact puts_of_round hatomic (fun c hc k rest hk => ⟨_, _, reads_firstOf_chars hc hk⟩) hpiece

/-- The text of a string comes in pieces. -/
theorem pieces_of_quotedText (h : Rule.run n .quotedText sc s = .matched s' ts) :
    ∃ cs, cs ≠ [] ∧ s.cursor.Reaches cs s'.cursor ∧ Pieces specialInDouble s'.cursor.rest cs := by
  obtain ⟨m, s₁, us, hbody, hcursor⟩ := Rule.run_eq_matched h
  have hatomic : Atomicity.atomic ≠ .spaced := nofun
  rw [hcursor]
  refine pieces_of_many1 hatomic (fun s s' ts hround => ?_) hbody
  exact puts_of_round hatomic (fun c hc k rest hk => ⟨_, _, reads_firstOf_chars hc hk⟩) hround

end

/-! ## Pieces between quotes -/

variable {later cs : List Char}

/-- A text of a string has no bare quote. -/
theorem Pieces.not_bareQuote (h : Pieces specialInDouble later cs) :
    ¬ Somewhere (fun opened c => opened = false ∧ c = '"') false cs := by
  induction h with
  | nil => exact somewhere_nil
  | escaped c _ ih => simpa [opensAfter] using ih
  | dollar _ _ ih => simpa [opensAfter] using ih
  | brace _ _ ih => simpa [opensAfter] using ih
  | @plain c cs hc _ ih =>
    have hne : c ≠ '"' ∧ c ≠ '\\' := by
      constructor <;> rintro rfl <;> exact hc (by decide)
    simpa [opensAfter_of_ne hne.2, hne.1] using ih

/-- Escaped breaks start with a backslash, so what may come first in the text may come first in the
escaped one. -/
theorem head?_escapeFragment {P : Char → Prop} (hslash : P '\\') (hquote : P '"') {rest : List Char}
    (h : ∀ c ∈ (cs ++ later).head?, P c) :
    ∀ c ∈ (cs.flatMap escapeFragmentChar ++ '"' :: rest).head?, P c := by
  intro d hd
  cases cs with
  | nil =>
    obtain rfl := Option.some.inj hd
    exact hquote
  | cons c cs =>
    rw [List.flatMap_cons] at hd
    obtain ⟨l, -, hl⟩ | ⟨-, hsame⟩ := escapeFragmentChar_cases c
    · rw [hl] at hd
      obtain rfl := Option.some.inj hd
      exact hslash
    · rw [hsame] at hd
      obtain rfl := Option.some.inj hd
      exact h c rfl

/-- **The text of a heredoc without a bare quote is a text of a string**, once its breaks are
escaped. -/
theorem Pieces.requoted (h : Pieces specialInHeredoc later cs) {rest : List Char}
    (hquote : ¬ Somewhere (fun opened c => opened = false ∧ c = '"') false cs) :
    Pieces specialInDouble ('"' :: rest) (cs.flatMap escapeFragmentChar) := by
  induction h with
  | nil => exact .nil
  | @escaped c cs _ ih =>
    have ih := ih (by simpa [opensAfter] using hquote)
    rw [List.flatMap_cons, List.flatMap_cons]
    obtain ⟨l, hbreak, hl⟩ | ⟨-, hsame⟩ := escapeFragmentChar_cases c
    · rw [hl]
      exact .escaped '\\' (.plain (by cases hbreak <;> decide) ih)
    · rw [hsame]
      exact .escaped c ih
  | @dollar cs hname _ ih =>
    exact .dollar (head?_escapeFragment (P := (startsWord · = false)) rfl rfl hname)
      (ih (by simpa [opensAfter] using hquote))
  | @brace cs hdollar _ ih =>
    refine .brace (fun h => ?_) (ih (by simpa [opensAfter] using hquote))
    exact head?_escapeFragment (P := (· ≠ '$')) (by decide) (by decide)
      (fun c hc hdollar' => hdollar (hdollar' ▸ hc)) '$' h rfl
  | @plain c cs hc _ ih =>
    have hslash : c ≠ '\\' := by
      rintro rfl
      exact hc (by decide)
    rw [somewhere_cons, not_or, opensAfter_of_ne hslash] at hquote
    have ih := ih hquote.2
    rw [List.flatMap_cons]
    obtain ⟨l, -, hl⟩ | ⟨-, hsame⟩ := escapeFragmentChar_cases c
    · rw [hl]
      exact .escaped l ih
    · rw [hsame]
      refine .plain (fun hmem => ?_) ih
      have hsplit : c = '"' ∨ c ∈ specialInHeredoc := by
        simp only [specialInDouble, specialInHeredoc, List.mem_cons, List.not_mem_nil, or_false]
          at hmem ⊢
        grind
      exact hsplit.elim (fun h => hquote.1 ⟨rfl, h⟩) hc

/-- The rounds of a string take a text in pieces up to the quote. -/
theorem Pieces.taken {n : Nat} {rest : List Char} (h : Pieces specialInDouble ('"' :: rest) cs) :
    Taken (doubleRound.tight n) '"' rest cs := by
  induction h with
  | nil => exact fun k hk => ⟨0, Nat.le_refl 0, .done (takes_double.stops hk), fun _ => rfl⟩
  | escaped c _ ih => exact ih.piece ['\\', c] Nat.two_pos fun _ hk => takes_double.escaped hk
  | @dollar cs hname _ ih =>
    refine ih.piece ['$'] Nat.one_pos fun k hk => ?_
    have hk₁ : (k.forward 1).rest = cs ++ '"' :: rest := Cursor.rest_forward hk
    have hletter : (k.forward 1).one? CharClass.letter.contains = none := by
      cases hrest : cs ++ '"' :: rest with
      | nil => simp at hrest
      | cons c ds =>
        have hc : CharClass.letter.contains c = false :=
          (Bool.or_eq_false_iff.mp (hname c (by rw [hrest]; rfl))).1
        rw [Cursor.one?_of_rest (hk₁.trans hrest), if_neg (Bool.eq_false_iff.mp hc)]
    have hmark : (k.forward 1).rest.head? ≠ some '_' := by
      rw [hk₁]
      exact fun h => absurd (hname '_' h) (by decide)
    have hdollar : Reads (Pattern.tight n (.seq "$" (.notAhead (.alt (.one .letter) "_")))) k
        (k.forward 1) [] :=
      (reads_char hk).seq .nothing (.notAhead (.alt (refuses_one hletter) (refuses_char hmark)))
    exact .alt_right (.alt_left hdollar) (.seq (refuses_char (by rw [hk]; exact nofun)))
  | brace hdollar _ ih =>
    exact ih.piece ['\x7b'] Nat.one_pos fun _ hk => takes_double.brace hdollar hk
  | @plain c _ hc _ ih => exact ih.piece [c] Nat.one_pos fun _ hk => takes_double.plain hc hk

/-- The text is read as one text of a string, wherever it stands before a quote. -/
def ReadAsQuoted (t : String) : Prop :=
  ∀ (k : Cursor) (rest : List Char) (n : Nat), k.rest = t.toList ++ '"' :: rest → t.length ≤ n →
    Reads (Rule.run (n + 1) .quotedText ⟨.compound, .none⟩) k (k.forward t.length)
      [⟨.quotedText, ⟨k, k.forward t.length⟩, []⟩]

theorem Pieces.readAsQuoted {t : String} (hne : t ≠ "")
    (h : ∀ rest, Pieces specialInDouble ('"' :: rest) t.toList) : ReadAsQuoted t := by
  intro k rest n hk hn
  rw [← String.length_toList] at hn ⊢
  exact (h rest).taken.reads_quotedText (fun h => hne (String.toList_eq_nil_iff.mp h)) hk hn

theorem ReadAsQuoted.not_bareQuote {t : String} (h : ReadAsQuoted t) : ¬ HasBareQuote t := by
  obtain ⟨a, hrun⟩ := h ⟨t.toList ++ ['"'], 0, 1, 1⟩ [] t.length rfl (Nat.le_refl _) [] .none
  obtain ⟨cs, -, hcs, hpieces⟩ := pieces_of_quotedText hrun
  have hrest : (Cursor.forward t.length ⟨t.toList ++ ['"'], 0, 1, 1⟩).rest = ['"'] := by
    rw [← String.length_toList]
    exact Cursor.rest_forward rfl
  have htext : t.toList ++ ['"'] = cs ++ ['"'] := hcs.rest.trans (congrArg (cs ++ ·) hrest)
  unfold HasBareQuote
  rw [List.append_cancel_right htext]
  exact hpieces.not_bareQuote

/-- **Heredoc text keeps its meaning between double quotes, but for bare quotes and escaped
breaks.** With its breaks escaped, every text of a heredoc is on one line; it is one text of a
string exactly if no quote in it is bare, and it stands for what it stood for exactly if no
backslash escapes one of its breaks. -/
theorem heredocText_requoted (e : Extent) (h : Rule.Takes .heredocText e) :
    (∀ c ∈ ['\r', '\n', '\t'], c ∉ (escapeFragment e.text).toList) ∧
      (ReadAsQuoted (escapeFragment e.text) ↔ ¬ HasBareQuote e.text) ∧
      (unescapeDouble (escapeFragment e.text) = unescapeDouble e.text ↔
        ¬ HasEscapedBreak e.text) := by
  refine ⟨fun c hc => not_mem_escapeFragment e.text hc, ⟨fun hread => ?_, fun hquote => ?_⟩, ?_⟩
  · have hescaped := hread.not_bareQuote
    unfold HasBareQuote escapeFragment at hescaped
    rwa [String.toList_ofList, bareQuote_flatMap] at hescaped
  · obtain ⟨n, sc, s, s', ts, hrun, hstart, hstop⟩ := h
    obtain ⟨cs, hne, hcs, hpieces⟩ := pieces_of_heredocText hrun
    have hchars : e.text.toList = cs := by
      rw [hstart, hstop] at hcs
      rw [Extent.text, String.toList_ofList, Extent.chars, hcs.textTo_eq]
    have hescaped : (escapeFragment e.text).toList = cs.flatMap escapeFragmentChar := by
      rw [escapeFragment, String.toList_ofList, hchars]
    refine Pieces.readAsQuoted (fun hempty => ?_) fun rest => ?_
    · rw [hempty] at hescaped
      exact flatMap_escapeFragmentChar_ne_nil hne hescaped.symm
    · rw [hescaped]
      exact hpieces.requoted (hchars ▸ hquote)
  · rw [unescapeDouble, unescapeDouble, String.ofList_inj, escapeFragment, String.toList_ofList]
    exact Escape.read_escapeFragment .none e.text.toList

/-- The first characters of a text. -/
def startOf (text : String) (n : Nat) : Extent :=
  ⟨.ofText text, (Cursor.ofText text).forward n⟩

theorem heredocText_twoLines :
    Rule.Takes .heredocText (startOf "one\\\"\n$5\nX;" 8) ∧
      ReadAsQuoted "one\\\"\\n$5" ∧
      unescapeDouble "one\\\"\\n$5" = unescapeDouble "one\\\"\n$5" := by
  have htakes : Rule.Takes .heredocText (startOf "one\\\"\n$5\nX;" 8) :=
    ⟨20, ⟨.compound, .none⟩, ⟨.ofText "one\\\"\n$5\nX;", [['X']], .none⟩, _, _, rfl, rfl, rfl⟩
  obtain ⟨-, hread, hvalue⟩ := heredocText_requoted _ htakes
  have hchars : (startOf "one\\\"\n$5\nX;" 8).text.toList =
      ['o', 'n', 'e', '\\', '"', '\n', '$', '5'] := rfl
  refine ⟨htakes, hread.mpr ?_, hvalue.mpr ?_⟩
  · simp [HasBareQuote, hchars, opensAfter]
  · simp [HasEscapedBreak, hchars, opensAfter]

/-- A quote is not escaped, so the string ends there; and a backslash before the end of a line
escapes the backslash that the end of the line is written with. -/
theorem heredocText_not_kept :
    (Rule.Takes .heredocText (startOf "say \"hi\" \nX;" 9) ∧
      ¬ ReadAsQuoted (escapeFragment (startOf "say \"hi\" \nX;" 9).text)) ∧
    (Rule.Takes .heredocText (startOf "\\\n\nX;" 2) ∧
      unescapeDouble (escapeFragment (startOf "\\\n\nX;" 2).text) ≠
        unescapeDouble (startOf "\\\n\nX;" 2).text) := by
  refine ⟨⟨?_, fun hread => ?_⟩, ?_, ?_⟩
  · exact ⟨20, ⟨.compound, .none⟩, ⟨.ofText "say \"hi\" \nX;", [['X']], .none⟩, _, _, rfl, rfl, rfl⟩
  · exact hread.not_bareQuote ⟨"say ".toList, '"', "hi\" ".toList, rfl, rfl, rfl⟩
  · exact ⟨20, ⟨.compound, .none⟩, ⟨.ofText "\\\n\nX;", [['X']], .none⟩, _, _, rfl, rfl, rfl⟩
  · decide

end Grammar

end ThreeAddress

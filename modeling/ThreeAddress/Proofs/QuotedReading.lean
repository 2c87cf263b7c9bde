import ThreeAddress.Proofs.Escapes
import ThreeAddress.Proofs.Preview
import ThreeAddress.Proofs.Progress
import ThreeAddress.Proofs.Shape

/-!
# Reading strings

How the grammar reads a text between quotes. The rounds of a string take the pieces of a quoted
text one by one (`Takes.taken`) and stop at the quote that closes it, so **a quoted text is read
as one string** (`reads_stringSingle`, `reads_stringDouble`).

Double quotes first try an expression in braces. Blanks and comments are skipped after its brace,
and **skipping never stops before a dollar whose backslash it has read** (`clear_skipBlanks`), so
the expression is refused.
-/

namespace ThreeAddress.Grammar

open Pattern Text

/-! ## Where repetitions stop -/

section

variable {n : Nat} {skip : State → Reply} {call : Rule → Run} {sc : Scope}

theorem Reads.ne_failed {x : State → Reply} {s : State} {k : Cursor} {ts : List ParseTree}
    {a : Attempts} (h : Reads x s.cursor k ts) : x s ≠ .failed a := by
  intro hfailed
  obtain ⟨a', hmatched⟩ := h s.stack s.attempts
  cases hfailed.symm.trans hmatched

/-- Rounds keep what each of them keeps, and stop where the next one fails. -/
theorem Rounds.stops {step : State → Reply} {P : Cursor → Prop} {s s' : State}
    {tss : List (List ParseTree)} (h : Rounds step s s' tss)
    (hstep : ∀ s s' ts, step s = .matched s' ts → P s.cursor → P s'.cursor) (hs : P s.cursor) :
    P s'.cursor ∧ ¬∃ k ts, Reads step s'.cursor k ts := by
  induction h with
  | @stop s a hfailed =>
    exact ⟨hs, fun ⟨k, us, hreads⟩ => Reads.ne_failed (s := s) hreads hfailed⟩
  | round hround _ ih => exact ih (hstep _ _ _ hround hs)

/-- Where blanks count, a repetition stops where its pattern fails. -/
theorem many_stops {p : Pattern} {P : Cursor → Prop} {s s' : State} {ts : List ParseTree}
    (hsc : sc.atomicity ≠ .spaced)
    (hp : ∀ s s' ts, p.run n skip call sc s = .matched s' ts → P s.cursor → P s'.cursor)
    (h : Pattern.run n skip call (.many p) sc s = .matched s' ts) (hs : P s.cursor) :
    P s'.cursor ∧ ¬∃ k ts, Reads (p.run n skip call sc) s'.cursor k ts := by
  obtain ⟨a, hfailed, rfl, -⟩ | ⟨s₁, us, tss, hfirst, hrounds, -⟩ := many_eq_matched h
  · exact ⟨hs, fun ⟨k, us, hreads⟩ => Reads.ne_failed (s := s) hreads hfailed⟩
  · rw [between_andThen hsc] at hrounds
    exact hrounds.stops hp (hp _ _ _ hfirst hs)

end

/-! ## Blanks before dollars -/

/-- No dollar comes next, and later ones have their backslashes. -/
structure Clear (k : Cursor) : Prop where
  head : k.rest.head? ≠ some '$'
  rest : DollarsEscaped k.rest

/-- After a text that does not end with a backslash. -/
theorem Clear.reaches {k k' : Cursor} (cs : List Char) {c : Char} (h : Clear k)
    (hread : k.Reaches (cs ++ [c]) k') (hc : c ≠ '\\') : Clear k' := by
  have hrest := h.rest
  rw [hread.rest] at hrest
  refine ⟨fun hhead => hc ?_, hrest.of_append⟩
  exact (List.isChain_append.mp hrest).2.2 c (by simp) '$' hhead rfl

section

variable {n : Nat}

theorem alone_spells (n : Nat) (p : Pattern) :
    ReadsSome (p.alone n) (p.Spells (· = []) fun _ _ => False) := by
  refine Pattern.run_spells (fun s s' ts h => ?_) (fun r s s' ts h => ?_) p
  · cases h
    exact ⟨[], .refl _, rfl⟩
  · cases h

/-- A comment to the end of its line reads on before a dollar. -/
theorem reads_lineComment {k : Cursor} {cs : List Char} (hk : k.rest = '$' :: cs) :
    Reads (alone n (.seq (.notAhead (.alt newline "?>")) (.one .any))) k (k.forward 1) [] := by
  have hdollar := alone_sound (Nat.zero_le n) false (.seq (.notAhead (.alt newline "?>"))
    (.one .any)) k ['$'] cs hk nofun
  exact hdollar.2

/-- A blank or a comment ends with something else than a backslash, or where its line ends. -/
theorem clear_blank {s s' : State} {ts : List ParseTree}
    (h : alone n (.alt blank comment) s = .matched s' ts) (hs : Clear s.cursor) :
    Clear s'.cursor := by
  obtain h | ⟨a, h⟩ := alt_eq_matched h
  · obtain ⟨cs, hread, hcs⟩ := alone_spells n blank _ _ _ h
    obtain rfl | rfl | rfl | rfl := hcs
    all_goals exact hs.reaches [] hread (by decide)
  obtain h | ⟨a', h⟩ := alt_eq_matched h
  -- a comment between stars ends with a slash
  · obtain ⟨cs, hread, front, _, _, rfl, _, rfl, middle, _, _, rfl, _, rfl, rfl⟩ :=
      alone_spells n _ _ _ _ h
    refine hs.reaches (front ++ (middle ++ ['*'])) (c := '/') ?_ (by decide)
    simpa using hread
  -- any other comment may end with a backslash, but then it would read the dollar too
  · obtain ⟨cs, hread, -⟩ := alone_spells n _ _ _ _ h
    obtain ⟨_, _, _, _, _, -, -, hmany, -⟩ := seq_eq_matched h
    have hrest : DollarsEscaped s'.cursor.rest := by
      have hrest := hs.rest
      rw [hread.rest] at hrest
      exact hrest.of_append
    obtain ⟨-, hstops⟩ := many_stops (P := fun _ => True) (by decide) (fun _ _ _ _ => id) hmany
      trivial
    refine ⟨fun hhead => hstops ?_, hrest⟩
    obtain ⟨cs, hcs⟩ := List.head?_eq_some_iff.mp hhead
    exact ⟨_, _, reads_lineComment hcs⟩

/-- **Skipping blanks does not stop before a dollar.** -/
theorem clear_skipBlanks {s s' : State} {ts : List ParseTree}
    (h : skipBlanks n s = .matched s' ts) (hs : Clear s.cursor) : Clear s'.cursor :=
  (many_stops (by decide) (fun _ _ _ => clear_blank) h hs).1

end

/-! ## Interpolations that do not start -/

/-- What needs a dollar is refused after blanks. -/
theorem Refuses.after_blanks {n : Nat} {x : State → Reply} {k : Cursor} (hk : Clear k)
    (hn : k.rest.length ≤ n) (hx : ∀ k, Clear k → Refuses x k) :
    Refuses (fun s => (skipBlanks n s).andThen x) k := by
  intro stack a
  cases hskip : skipBlanks n ⟨k, stack, a⟩ with
  | exhausted => exact absurd hskip (skipBlanks_ne_exhausted hn)
  | failed a' => exact ⟨a', by simp only [hskip, Reply.andThen]⟩
  | matched s ts =>
    obtain ⟨a', h⟩ := hx s.cursor (clear_skipBlanks hskip hk) s.stack s.attempts
    exact ⟨a', by simp only [hskip, Reply.andThen, h]⟩

/-- **No expression in braces starts**, however far the blanks after the brace go. -/
theorem refuses_braceInterp {n : Nat} {sc : Scope} {k : Cursor} (hk : DollarsEscaped k.rest)
    (hn : k.rest.length ≤ n) : Refuses (Rule.run (n + 1) .braceInterp sc) k := by
  refine refuses_enter (r := .braceInterp) ?_
  by_cases hbrace : k.rest.head? = some '\x7b'
  · obtain ⟨cs, hcs⟩ := List.head?_eq_some_iff.mp hbrace
    rw [hcs] at hk hn
    have hrest : (k.forward 1).rest = cs := by rw [Cursor.forward_one hcs, Cursor.rest_past]
    -- the brace is no backslash, so no dollar comes right after it
    have hclear : Clear (k.forward 1) := by
      obtain ⟨hhead, hk⟩ := List.isChain_cons.mp hk
      rw [← hrest] at hhead hk
      exact ⟨fun h => absurd (hhead '$' h rfl) (by decide), hk⟩
    exact .seq_between (reads_char hcs) (.after_blanks hclear (hrest ▸ Nat.le_of_succ_le hn)
      fun k hk => .seq (.ahead (refuses_char hk.head)))
  · exact .seq (refuses_char hbrace)

theorem refuses_simpleInterp {n : Nat} {sc : Scope} {k : Cursor} (hk : k.rest.head? ≠ some '$') :
    Refuses (Rule.run (n + 2) .simpleInterp sc) k :=
  refuses_enter (r := .simpleInterp)
    (.seq (refuses_enter (r := .variableName) (.seq (refuses_char hk))))

/-! ## Strings -/

/-- One round of a string takes one piece of a quoted text, and stops at the quote. -/
structure Takes (x : State → Reply) (special : List Char) (quote : Char) : Prop where
  escaped {k : Cursor} {c : Char} {later : List Char} : k.rest = '\\' :: c :: later →
    Reads x k (k.forward 2) []
  plain {k : Cursor} {c : Char} {later : List Char} : c ∉ special → k.rest = c :: later →
    Reads x k (k.forward 1) []
  brace {k : Cursor} {later : List Char} : later.head? ≠ some '$' → k.rest = '\x7b' :: later →
    Reads x k (k.forward 1) []
  stops {k : Cursor} {later : List Char} : k.rest = quote :: later → Refuses x k

/-- Rounds take the text up to its quote, and one of them at least if there is any text. -/
def Taken (x : State → Reply) (quote : Char) (later cs : List Char) : Prop :=
  ∀ k : Cursor, k.rest = cs ++ quote :: later →
    ∃ m ≤ cs.length, Repeats x k (k.forward cs.length) (List.replicate m []) ∧ (m = 0 → cs = [])

/-- One piece more. -/
theorem Taken.piece {x : State → Reply} {quote : Char} {later cs : List Char}
    (h : Taken x quote later cs) (ds : List Char) (hds : 0 < ds.length)
    (hpiece : ∀ k : Cursor, k.rest = ds ++ (cs ++ quote :: later) →
      Reads x k (k.forward ds.length) []) :
    Taken x quote later (ds ++ cs) := by
  intro k hk
  rw [List.append_assoc] at hk
  obtain ⟨m, hm, hrepeats, -⟩ := h _ (Cursor.rest_forward hk)
  rw [List.length_append, Cursor.forward_add]
  exact ⟨m + 1, by omega, .round (hpiece k hk) hrepeats, nofun⟩

/-- **The rounds take a quoted text to its end.** -/
theorem Takes.taken {x : State → Reply} {special : List Char} {quote : Char}
    (h : Takes x special quote) (hquote : quote ≠ '$') {cs later : List Char}
    (hcs : Quotable special cs) : Taken x quote later cs := by
  induction hcs with
  | nil => exact fun k hk => ⟨0, Nat.le_refl 0, .done (h.stops hk), fun _ => rfl⟩
  | escaped c _ ih => exact ih.piece ['\\', c] Nat.two_pos fun _ hk => h.escaped hk
  | @plain c _ hc _ ih => exact ih.piece [c] Nat.one_pos fun _ hk => h.plain hc hk
  | @brace cs hhead _ ih =>
    refine ih.piece ['\x7b'] Nat.one_pos fun _ hk => h.brace ?_ hk
    cases cs with
    | nil => exact fun h => hquote (Option.some.inj h)
    | cons c cs => exact hhead

/-- A character that is never special. -/
abbrev escapePair : Pattern :=
  .seq "\\" (.one .any)

/-- One round of a string in single quotes. -/
abbrev singleRound : Pattern :=
  firstOf [escapePair, .seq (.notAhead "'") (.one .any)]

/-- One round of a text in double quotes. -/
abbrev doubleRound : Pattern :=
  firstOf [escapePair, .seq "$" (.notAhead (.alt (.one .letter) "_")),
    .seq "\x7b" (.notAhead "$"),
    .seq (.notAhead (firstOf ["\"", "\\", "$", "\x7b"])) (.one .any)]

/-- The pattern is run by a rule where blanks count. -/
abbrev Pattern.tight (n : Nat) (p : Pattern) : State → Reply :=
  p.run n (skipBlanks n) (Rule.run n) ⟨.atomic, .none⟩

section

variable {n : Nat} {k : Cursor}

theorem reads_escapePair {c : Char} {later : List Char} (hk : k.rest = '\\' :: c :: later) :
    Reads (escapePair.tight n) k (k.forward 2) [] := by
  have hk₁ : (k.forward 1).rest = c :: later := by rw [Cursor.forward_one hk, Cursor.rest_past]
  have hpair : Reads (escapePair.tight n) k ((k.forward 1).forward 1) [] :=
    (reads_char hk).seq .nothing (reads_any hk₁)
  rwa [← Cursor.forward_add] at hpair

theorem head?_ne_of_mem {c d : Char} {special later : List Char} (hc : c ∉ special)
    (hk : k.rest = c :: later) (hd : d ∈ special) : k.rest.head? ≠ some d := by
  rw [hk]
  rintro ⟨⟩
  exact hc hd

theorem takes_single : Takes (singleRound.tight n) specialInSingle '\'' := by
  have hplain {k : Cursor} {c : Char} {later : List Char} (hc : c ∉ specialInSingle)
      (hk : k.rest = c :: later) : Reads (singleRound.tight n) k (k.forward 1) [] := by
    have hquote : k.rest.head? ≠ some '\'' := head?_ne_of_mem hc hk (by decide)
    have hbackslash : k.rest.head? ≠ some '\\' := head?_ne_of_mem hc hk (by decide)
    exact .alt_right (.seq (.notAhead (refuses_char hquote)) .nothing (reads_any hk))
      (.seq (refuses_char hbackslash))
  refine ⟨fun hk => .alt_left (reads_escapePair hk), hplain, fun _ => hplain (by decide),
    fun {k later} hk => ?_⟩
  exact .alt (.seq (refuses_char (by rw [hk]; exact nofun))) (.seq (.notAhead (reads_char hk)))

theorem takes_double : Takes (doubleRound.tight n) specialInDouble '"' := by
  refine ⟨fun hk => .alt_left (reads_escapePair hk), fun {k c later} hc hk => ?_,
    fun {k later} hlater hk => ?_, fun {k later} hk => ?_⟩
  · have hquote : k.rest.head? ≠ some '"' := head?_ne_of_mem hc hk (by decide)
    have hbackslash : k.rest.head? ≠ some '\\' := head?_ne_of_mem hc hk (by decide)
    have hdollar : k.rest.head? ≠ some '$' := head?_ne_of_mem hc hk (by decide)
    have hbrace : k.rest.head? ≠ some '\x7b' := head?_ne_of_mem hc hk (by decide)
    have hother : Reads (tight n (.seq (.notAhead (firstOf ["\"", "\\", "$", "\x7b"]))
        (.one .any))) k (k.forward 1) [] :=
      .seq (.notAhead (.alt (refuses_char hquote) (.alt (refuses_char hbackslash)
        (.alt (refuses_char hdollar) (refuses_char hbrace))))) .nothing (reads_any hk)
    exact .alt_right (.alt_right (.alt_right hother (.seq (refuses_char hbrace)))
      (.seq (refuses_char hdollar))) (.seq (refuses_char hbackslash))
  · have hk₁ : (k.forward 1).rest = later := by rw [Cursor.forward_one hk, Cursor.rest_past]
    have hbrace : Reads (tight n (.seq "\x7b" (.notAhead "$"))) k (k.forward 1) [] :=
      (reads_char hk).seq .nothing (.notAhead (refuses_char (hk₁ ▸ hlater)))
    have hdollar : k.rest.head? ≠ some '$' := by rw [hk]; exact nofun
    have hbackslash : k.rest.head? ≠ some '\\' := by rw [hk]; exact nofun
    exact .alt_right (.alt_right (.alt_left hbrace) (.seq (refuses_char hdollar)))
      (.seq (refuses_char hbackslash))
  · have hother : Refuses (tight n (.seq (.notAhead (firstOf ["\"", "\\", "$", "\x7b"]))
        (.one .any))) k :=
      .seq (.notAhead (.alt_left (reads_char hk)))
    have hne {d : Char} (hd : d ≠ '"') : k.rest.head? ≠ some d := by
      rw [hk]
      exact fun h => hd (Option.some.inj h).symm
    exact .alt (.seq (refuses_char (hne (by decide)))) (.alt (.seq (refuses_char (hne (by decide))))
      (.alt (.seq (refuses_char (hne (by decide)))) hother))

/-- **A quoted text is read as a string in single quotes.** -/
theorem reads_stringSingle {cs later : List Char} (hcs : Quotable specialInSingle cs)
    (hk : k.rest = ('\'' :: cs ++ ['\'']) ++ later) (hn : cs.length ≤ n) :
    Reads (inside (n + 1) (rule .stringSingle)) k (k.forward ('\'' :: cs ++ ['\'']).length)
      [⟨.stringSingle, ⟨k, k.forward ('\'' :: cs ++ ['\'']).length⟩, []⟩] := by
  have hk : k.rest = '\'' :: (cs ++ '\'' :: later) := by rw [hk]; simp
  have hk₁ : (k.forward 1).rest = cs ++ '\'' :: later := by
    rw [Cursor.forward_one hk, Cursor.rest_past]
  obtain ⟨m, hm, hrounds, -⟩ := (takes_single (n := n)).taken (by decide) hcs _ hk₁
  have hmany := hrounds.reads_many (by decide) (by rw [List.length_replicate]; omega)
  have hlength : ('\'' :: cs ++ ['\'']).length = 1 + (cs.length + 1) := by simp; omega
  rw [hlength, Cursor.forward_add, Cursor.forward_add]
  rw [List.flatten_replicate_nil] at hmany
  exact reads_rule (r := .stringSingle)
    ((reads_char hk).seq .nothing (hmany.seq .nothing (reads_char (Cursor.rest_forward hk₁))))

/-- A text that the rounds take is read as one text in double quotes. -/
theorem Taken.reads_quotedText {cs later : List Char} (h : Taken (doubleRound.tight n) '"' later cs)
    (hne : cs ≠ []) (hk : k.rest = cs ++ '"' :: later) (hn : cs.length ≤ n) :
    Reads (Rule.run (n + 1) .quotedText ⟨.compound, .none⟩) k (k.forward cs.length)
      [⟨.quotedText, ⟨k, k.forward cs.length⟩, []⟩] := by
  obtain ⟨m, hm, hrounds, hzero⟩ := h _ hk
  obtain ⟨m, rfl⟩ := Nat.exists_eq_succ_of_ne_zero fun h => hne (hzero h)
  rw [List.replicate_succ] at hrounds
  generalize k.forward cs.length = k' at hrounds ⊢
  cases hrounds with
  | round hfirst hrest =>
    have hmany := hrest.reads_many (by decide) (by rw [List.length_replicate]; omega)
    rw [List.flatten_replicate_nil] at hmany
    exact reads_rule (r := .quotedText) (hfirst.seq .nothing hmany)

/-- Nothing of a string in double quotes starts with its quote. -/
theorem refuses_stringDouble_round {later : List Char} (hk : k.rest = '"' :: later) (hn : 5 ≤ n) :
    Refuses (Pattern.run n (skipBlanks n) (Rule.run n) (firstOf [rule .braceInterp,
      rule .simpleInterp, rule .quotedText]) ⟨.compound, .none⟩) k := by
  have hrefuses (r : Rule) (hr : Rule.preview false 5 r .compound ['"'] = .failed) :
      Refuses (Rule.run n r ⟨.compound, .none⟩) k := by
    have hsound := Rule.preview_sound hn false r ⟨.compound, .none⟩ k ['"'] later hk nofun
    rwa [hr] at hsound
  exact .alt (hrefuses .braceInterp (by decide +kernel))
    (.alt (hrefuses .simpleInterp (by decide +kernel)) (hrefuses .quotedText (by decide +kernel)))

/-- **A quoted text is read as a string in double quotes** with nothing but the text. -/
theorem reads_stringDouble {cs later : List Char} (hcs : Quotable specialInDouble cs)
    (hne : cs ≠ []) (hk : k.rest = ('"' :: cs ++ ['"']) ++ later)
    (hlater : DollarsEscaped ('"' :: later)) (hn : (cs ++ '"' :: later).length + 5 ≤ n) :
    Reads (inside (n + 1) (rule .stringDouble)) k (k.forward ('"' :: cs ++ ['"']).length)
      [⟨.stringDouble, ⟨k, k.forward ('"' :: cs ++ ['"']).length⟩,
        [⟨.quotedText, ⟨k.forward 1, (k.forward 1).forward cs.length⟩, []⟩]⟩] := by
  have hk : k.rest = '"' :: (cs ++ '"' :: later) := by rw [hk]; simp
  have hk₁ : (k.forward 1).rest = cs ++ '"' :: later := by
    rw [Cursor.forward_one hk, Cursor.rest_past]
  have hk₂ := Cursor.rest_forward hk₁
  have hlength : ('"' :: cs ++ ['"']).length = 1 + (cs.length + 1) := by simp; omega
  obtain ⟨m, rfl⟩ : ∃ m, n = m + 2 := ⟨n - 2, by omega⟩
  have hm : cs.length ≤ m := by
    rw [List.length_append] at hn
    omega
  have hbraces : Refuses (Rule.run (m + 2) .braceInterp ⟨.compound, .none⟩) (k.forward 1) :=
    refuses_braceInterp (hk₁ ▸ hcs.dollarsEscaped nofun hlater) (by rw [hk₁]; omega)
  have hvariable : Refuses (Rule.run (m + 2) .simpleInterp ⟨.compound, .none⟩) (k.forward 1) :=
    refuses_simpleInterp (hk₁ ▸ hcs.head?_ne nofun)
  -- the first round takes the whole text, and the second one meets the quote
  have htext := (takes_double.taken (by decide) hcs).reads_quotedText hne hk₁ (n := m + 1) (by omega)
  have hround : Reads (Pattern.run (m + 2) (skipBlanks (m + 2)) (Rule.run (m + 2))
      (firstOf [rule .braceInterp, rule .simpleInterp, rule .quotedText]) ⟨.compound, .none⟩)
      (k.forward 1) ((k.forward 1).forward cs.length) _ :=
    .alt_right (.alt_right htext hvariable) hbraces
  have hrounds := Repeats.round hround (.done (refuses_stringDouble_round hk₂ (by omega)))
  have hmany := hrounds.reads_many (by decide) (by simp)
  rw [hlength, Cursor.forward_add, Cursor.forward_add]
  exact reads_rule (r := .stringDouble)
    ((reads_char hk).seq .nothing (hmany.seq .nothing (reads_char hk₂)))

end

end ThreeAddress.Grammar

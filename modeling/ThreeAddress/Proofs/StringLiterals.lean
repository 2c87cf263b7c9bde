import ThreeAddress.Proofs.OneExpression
import ThreeAddress.Proofs.QuotedReading
import ThreeAddress.Proofs.TokenRuns

/-!
# Printing and parsing strings

**The literal of a string is parsed as the string** (`parse_literal`), whatever characters it
holds: a literal is read as one string by the grammar, and what stands between its quotes is read
back character by character.
-/

namespace ThreeAddress

namespace Grammar

open Pattern Syntax

/-! ## An atom on its own -/

/-- The first character of the text rules out the operators and the other atoms before the rule. -/
structure StartsAtom (c : Char) (r : Rule) : Prop where
  leads : Leads [c]
  operators : prefixOperator.glance false [c] = .failed
  still : previewBlanks 20 false [c] = .matched 0 [c] []
  atoms : ∃ (before : List Rule) (after : List Pattern),
    atom = firstOf (before.map rule ++ rule r :: after) ∧
    ∀ q ∈ before, (rule q).glance false [c] = .failed

theorem startsAtom_single : StartsAtom '\'' .stringSingle where
  leads := ⟨forall_mem_of_all (by decide +kernel), by decide +kernel⟩
  operators := by decide +kernel
  still := by decide +kernel
  atoms := ⟨atomsBeforeVariable.take 13, _, rfl, forall_mem_of_all (by decide +kernel)⟩

theorem startsAtom_double : StartsAtom '"' .stringDouble where
  leads := ⟨forall_mem_of_all (by decide +kernel), by decide +kernel⟩
  operators := by decide +kernel
  still := by decide +kernel
  atoms := ⟨atomsBeforeVariable.take 14, _, rfl, forall_mem_of_all (by decide +kernel)⟩

/-- A text that is read as an atom is an expression on its own. -/
theorem readAsExpression_atom {c : Char} {r : Rule} (hc : StartsAtom c r) {text cs : List Char}
    (htext : text = c :: cs) {bound : Nat} {T : ParseTree → Prop}
    (h : ∀ n k, bound ≤ n → k.rest = text ++ [';'] →
      ∃ t, Reads (inside n (rule r)) k (k.forward text.length) [t] ∧ T t) :
    ReadAsExpression text (bound + 22) fun ts => ∃ e t, ts = [⟨.operand, e, [t]⟩] ∧ T t := by
  intro n k hn hk
  obtain ⟨m, rfl⟩ : ∃ m, n = m + 2 := ⟨n - 2, by omega⟩
  have hstart : k.rest = [c] ++ (cs ++ [';']) := by rw [hk, htext]; rfl
  have hk₁ := Cursor.rest_forward hk
  obtain ⟨hblanks, haccessor, hback, hbetween⟩ := glance_semicolon
  have hstill {n : Nat} (hn : 20 ≤ n) :
      Reads (skipBlanks n) (k.forward text.length) (k.forward text.length) [] :=
    reads_blanks hn hblanks hk₁
  obtain ⟨t, hread, ht⟩ := h m k (by omega) hk
  obtain ⟨before, after, heq, hbefore⟩ := hc.atoms
  have hatom : Reads (inside m atom) k _ _ :=
    heq ▸ reads_firstOf after (by omega) hbefore hstart hread
  have hoperand := reads_accessed hatom (hstill (by omega)) .nil
    (refuses_of_glance (by omega) haccessor hk₁) (Nat.zero_le m)
  have hprefixed := Prefixed.operand
    (refuses_of_glance (n := m + 1) (by omega) hc.operators hstart)
    (reads_blanks (by omega) hc.still hstart) hoperand
  have hend := hstill (n := m + 1) (by omega)
  obtain ⟨e, he, hexpr⟩ := (TokenRun.single ⟨⟨hend, hend⟩, _, _, _, _, [], hprefixed, hend, .nil,
    .inl rfl, rfl⟩).reads_expr (refuses_of_glance (by omega) hback hk₁)
    (.seq (refuses_of_glance (by omega) hbetween hk₁)) (Nat.le_add_left 1 m)
  rw [or_self] at he
  subst he
  exact ⟨_, hexpr, _, t, rfl, ht⟩

/-! ## Trees of strings -/

/-- **An operand is its atom** where nothing is accessed and the atom is a value. -/
theorem gives_operand {t : ParseTree} {e : Extent} {n : Node} {file : String} {next next' : Nat}
    {r : Rule} (ht : t.rule = r) (hr : r ∈ Expected.atom.rules)
    (hn : (t.annotate buildRule).value.Gives file next n next') (hvalue : asValue n = pure n) :
    ((⟨.operand, e, [t]⟩ : ParseTree).annotate buildRule).value.Gives file next n next' := by
  have hrule : (t.annotate buildRule).rule ∈ Expected.atom.rules := by
    rwa [ParseTree.rule_annotate, ht]
  have hparts : [t.annotate buildRule].filter (!·.rule.isKeyword) = [t.annotate buildRule] := by
    simp [isKeyword_of_mem_rules hrule]
  show (operandNode e ([t.annotate buildRule].filter (!·.rule.isKeyword))).Gives _ _ _ _
  rw [hparts]
  refine Build.gives_bind.mpr ⟨n, next', ?_, Build.gives_bind.mpr ⟨n, next', ?_, ?_⟩⟩
  · show (buildAmong _ _ _).Gives _ _ _ _
    rwa [buildAmong, if_pos hrule]
  · exact Build.gives_pure.mpr ⟨rfl, rfl⟩
  · rw [hvalue]
    exact Build.gives_pure.mpr ⟨rfl, rfl⟩

/-- The tree of a string. -/
inductive Denotes (s : String) : ParseTree → Prop
  | single {e : Extent} : Text.unescapeSingle (String.ofList e.chars.tail.dropLast) = s →
      Denotes s ⟨.stringSingle, e, []⟩
  | double {e e' : Extent} : Text.unescapeDouble e'.text = s →
      Denotes s ⟨.stringDouble, e, [⟨.quotedText, e', []⟩]⟩

namespace Denotes

variable {s : String} {t : ParseTree}

theorem gives (h : Denotes s t) (file : String) (next : Nat) :
    ∃ m next', (t.annotate buildRule).value.Gives file next m next' ∧ m.kind = .string s := by
  cases h with
  | single hs =>
    rw [← hs]
    exact ⟨_, _, Build.gives_nodeAt.mpr ⟨rfl, rfl⟩, rfl⟩
  | @double e e' hs =>
    have htext : (Build.nodeAt e' (.stringPart e'.text)).Gives file next _ _ :=
      Build.gives_nodeAt.mpr ⟨rfl, rfl⟩
    have hparts : (stringParts [(⟨.quotedText, e', []⟩ : ParseTree).annotate buildRule]).Gives
        file next _ _ :=
      Build.gives_bind.mpr ⟨_, _, htext, Build.gives_pure.mpr ⟨rfl, rfl⟩⟩
    refine ⟨_, _, Build.gives_bind.mpr ⟨_, _, hparts, Build.gives_nodeAt.mpr ⟨rfl, rfl⟩⟩, ?_⟩
    show Kind.string (Text.unescapeDouble (String.join [e'.text])) = _
    rw [← hs]
    simp [String.join]

theorem builds (h : Denotes s t) (e e' : Extent) (file : String) (next : Nat) :
    ∃ m next', ((⟨.expr, e, [⟨.operand, e', [t]⟩]⟩ : ParseTree).annotate buildRule).value.Gives
      file next m next' ∧ m.kind = .string s := by
  obtain ⟨m, next', hm, hkind⟩ := h.gives file next
  have hrules : .stringSingle ∈ Expected.atom.rules ∧ .stringDouble ∈ Expected.atom.rules := by
    decide
  have hrule : t.rule ∈ Expected.atom.rules := by
    cases h with
    | single _ => exact hrules.1
    | double _ => exact hrules.2
  have hvalue : asValue m = pure m := by
    unfold asValue
    rw [hkind]
  exact ⟨m, next', gives_operand rfl hrule hm hvalue, hkind⟩

theorem firstTooDeep (h : Denotes s t) {limit : Nat} (hlimit : 2 ≤ limit) (k k₁ k' : Cursor)
    (e e' : Extent) :
    (scriptTree k k₁ k' (statementTree e [⟨.operand, e', [t]⟩] k')).firstTooDeep limit = none := by
  have hone : ¬limit < 1 := by omega
  have htwo : ¬limit < 2 := by omega
  cases h
  all_goals
    simp [ParseTree.firstTooDeep, ParseTree.edges, scriptTree, statementTree,
      ParseTree.edgesBefore, ParseTree.edgesOfAllBefore, Nesting.firstAbove, Nesting.outside,
      Nesting.enter, Nesting.leave, Rule.isOperator, hone, htwo]

end Denotes

/-! ## Literals -/

theorem reads_single (s : String) {n : Nat} {k : Cursor}
    (hk : k.rest = ('\'' :: s.toList.flatMap Text.escapeSingle ++ ['\'']) ++ [';'])
    (hn : ('\'' :: s.toList.flatMap Text.escapeSingle ++ ['\'']).length ≤ n) :
    ∃ t, Reads (inside n (rule .stringSingle)) k
      (k.forward ('\'' :: s.toList.flatMap Text.escapeSingle ++ ['\'']).length) [t] ∧
      Denotes s t := by
  simp only [List.length_append, List.length_cons, List.length_nil] at hn
  obtain ⟨n, rfl⟩ : ∃ m, n = m + 1 := ⟨n - 1, by omega⟩
  refine ⟨_, reads_stringSingle (Text.quotable_flatMap_escapeSingle _) hk (by omega), .single ?_⟩
  rw [Extent.chars, Cursor.textTo_forward hk]
  simp [Text.unescapeSingle, Text.readSingle_flatMap]

theorem reads_double {s : String} (hs : s.toList ≠ []) {n : Nat} {k : Cursor}
    (hk : k.rest = ('"' :: s.toList.flatMap Text.escapeDouble ++ ['"']) ++ [';'])
    (hn : ('"' :: s.toList.flatMap Text.escapeDouble ++ ['"']).length + 10 ≤ n) :
    ∃ t, Reads (inside n (rule .stringDouble)) k
      (k.forward ('"' :: s.toList.flatMap Text.escapeDouble ++ ['"']).length) [t] ∧
      Denotes s t := by
  have hbody : s.toList.flatMap Text.escapeDouble ≠ [] := by
    intro h
    refine hs ?_
    rw [← Text.Escape.read_flatMap s.toList, h]
    rfl
  have hlater : Text.DollarsEscaped ['"', ';'] := List.isChain_pair.mpr (by decide)
  have hk₁ : (k.forward 1).rest = s.toList.flatMap Text.escapeDouble ++ ['"', ';'] := by
    rw [Cursor.forward_one hk, Cursor.rest_past]
    simp
  -- the text between the quotes is the tree inside, so its quotes need not be dropped
  simp only [List.length_append, List.length_cons, List.length_nil] at hn
  obtain ⟨n, rfl⟩ : ∃ m, n = m + 1 := ⟨n - 1, by omega⟩
  refine ⟨_, reads_stringDouble (Text.quotable_flatMap_escapeDouble _) hbody hk hlater
    (by simp only [List.length_append, List.length_cons, List.length_nil]; omega), .double ?_⟩
  rw [Extent.text, Extent.chars, Cursor.textTo_forward hk₁]
  simp [Text.unescapeDouble, Text.Escape.read_flatMap]

/-- The literal of a string is read as the tree of the string. -/
theorem readAsExpression_literal (s : String) :
    ∃ c cs r, StartsAtom c r ∧ (Text.literal s).toList = c :: cs ∧
      ReadAsExpression (Text.literal s).toList ((Text.literal s).toList.length + 40) fun ts =>
        ∃ e t, ts = [⟨.operand, e, [t]⟩] ∧ Denotes s t := by
  unfold Text.literal
  by_cases hcontrol : s.toList.any Text.isControl
  · have hs : s.toList ≠ [] := by
      intro h
      rw [h] at hcontrol
      cases hcontrol
    simp only [hcontrol, if_true, String.toList_ofList]
    refine ⟨_, _, _, startsAtom_double, rfl, ?_⟩
    exact fun n k hn => readAsExpression_atom startsAtom_double rfl
      (fun n k hn hk => reads_double hs hk hn) n k (by omega)
  · simp only [hcontrol, Bool.false_eq_true, if_false, String.toList_ofList]
    refine ⟨_, _, _, startsAtom_single, rfl, ?_⟩
    exact fun n k hn => readAsExpression_atom startsAtom_single rfl
      (fun n k hn hk => reads_single s hk hn) n k (by omega)

end Grammar

namespace Syntax

/-- **Strings survive printing.** The literal of any string, as a script of its own, is parsed as
a statement whose expression is the string, if statements and expressions may be nested at all. -/
theorem parse_literal (s : String) {limit : Nat} (hlimit : 2 ≤ limit) (name : String) :
    ∃ script stmt m,
      parse (.ofSource name ("<?php " ++ Text.literal s ++ ";")) limit = .ok script ∧
      script.kind = .script [stmt] ∧ stmt.kind = .expressionStmt m ∧ m.kind = .string s := by
  obtain ⟨c, cs, r, hc, htext, hread⟩ := Grammar.readAsExpression_literal s
  obtain ⟨k, k₁, e, ts, k', ⟨e', t, rfl, ht⟩, hparse⟩ :=
    parse_oneExpression (Q := fun m => m.kind = .string s) hc.leads htext hread (by omega) (by
      rintro _ ⟨e', t, rfl, ht⟩ e file next
      exact ht.builds e e' file next)
  rw [String.ofList_toList] at hparse
  exact hparse limit (ht.firstTooDeep hlimit k k₁ k' e e') name

/-- A control character before a digit, a brace before a dollar, both quotes, and a backslash at
the end. -/
theorem parse_literal_mixed :
    2 ≤ 256 ∧ ∃ script stmt m,
      parse (.ofSource "a.php" ("<?php " ++ Text.literal "\x01A\x7b$x\x7f'\"\\" ++ ";")) 256
        = .ok script ∧
      script.kind = .script [stmt] ∧ stmt.kind = .expressionStmt m ∧
      m.kind = .string "\x01A\x7b$x\x7f'\"\\" :=
  ⟨by decide, parse_literal _ (by decide) _⟩

end Syntax

end ThreeAddress

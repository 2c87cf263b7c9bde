import ThreeAddress.Proofs.Operands

/-!
# Scripts of one expression

A script that is an open tag, the text of one expression and a semicolon. If the text is read as
an expression wherever a semicolon follows, the whole script is matched, and **what the expression
builds is the expression of the only statement** (`parse_oneExpression`).
-/

namespace ThreeAddress

namespace Grammar

/-! ## Nesting -/

theorem Nesting.level_enter_le (n : Nesting) (r : Rule) : (n.enter r).level ≤ n.level + 1 := by
  unfold Nesting.enter
  split
  · exact Nat.le_refl _
  · exact Nat.le_refl _
  · split
    · exact Nat.le_refl _
    · exact Nat.le_succ _
  · exact Nat.le_succ _

theorem Nesting.level_leave_le (n : Nesting) (r : Rule) : (n.leave r).level ≤ n.level := by
  unfold Nesting.leave
  split
  · exact Nat.sub_le _ _
  · exact Nat.sub_le _ _
  · exact Nat.le_refl _

/-- A limit that is at least the number of edges is never exceeded. -/
theorem Nesting.firstAbove_eq_none {limit : Nat} {n : Nesting} {es : List Edge}
    (h : n.level + es.length ≤ limit) : firstAbove limit n es = none := by
  induction es generalizing n with
  | nil => rfl
  | cons e es ih =>
    rw [List.length_cons] at h
    cases e with
    | opens r start =>
      have hlevel := n.level_enter_le r
      rw [firstAbove, if_neg (by omega)]
      exact ih (by omega)
    | closes r =>
      have hlevel := n.level_leave_le r
      rw [firstAbove]
      exact ih (by omega)

/-! ## Reading -/

open Pattern Syntax

/-- The statements that are tried before an expression. -/
def statementsBeforeExpression : List Rule :=
  [.block, .ifStmt, .whileStmt, .doStmt, .forStmt, .foreachStmt, .switchStmt, .breakStmt,
    .continueStmt, .returnStmt, .echoStmt, .globalStmt, .staticStmt, .unsetStmt, .throwStmt,
    .tryStmt, .functionDecl, .classDecl, .interfaceDecl, .traitDecl, .namespaceStmt, .useStmt,
    .constStmt, .declareStmt, .gotoStmt, .inlineHtmlStmt, .nopStmt, .labelStmt]

/-- A statement that starts like this is an expression, and no blank goes on with it. -/
structure Leads (start : List Char) : Prop where
  statements : ∀ r ∈ statementsBeforeExpression, (rule r).glance false start = .failed
  blank : previewBlanks 20 false (' ' :: start) = .matched 1 start []

/-- Before a semicolon, the text is read as an expression with such trees in it. -/
def ReadAsExpression (text : List Char) (bound : Nat) (P : List ParseTree → Prop) : Prop :=
  ∀ n k, bound ≤ n → k.rest = text ++ [';'] →
    ∃ ts, Reads (inside n Rule.expr) k (k.forward text.length)
      [⟨.expr, ⟨k, k.forward text.length⟩, ts⟩] ∧ P ts

theorem glance_openTag : previewBlanks 20 false ['<'] = .matched 0 ['<'] [] ∧
    (rule .inlineHtml).glance false "<?php ".toList = .failed ∧
    (rule .openTag).glance false "<?php ".toList = .matched 5 [' '] [⟨.openTag, 0, 5⟩] := by
  decide +kernel

theorem glance_end : previewBlanks 20 true [] = .matched 0 [] [] ∧
    (rule .statement).glance true [] = .failed ∧ (rule .closeTag).glance true [] = .failed ∧
    (rule .eoi).glance true [] = .matched 0 [] [⟨.eoi, 0, 0⟩] := by
  decide +kernel

/-- The trees around the expression of a script. -/
def statementTree (e : Extent) (ts : List ParseTree) (stop : Cursor) : ParseTree :=
  ⟨.statement, ⟨e.start, stop⟩, [⟨.expressionStmt, ⟨e.start, stop⟩, [⟨.expr, e, ts⟩]⟩]⟩

/-- What a script of one statement is read as. -/
def scriptTree (k k₁ k' : Cursor) (t : ParseTree) : ParseTree :=
  ⟨.script, ⟨k, k'⟩, [⟨.openTag, ⟨k, k₁⟩, []⟩, t, ⟨.eoi, ⟨k', k'⟩, []⟩]⟩

section

variable {text start cs : List Char} {bound n : Nat} {P : List ParseTree → Prop} {k : Cursor}

theorem reads_statement (hstart : Leads start) (htext : text = start ++ cs)
    (h : ReadAsExpression text bound P) (hk : k.rest = text ++ [';']) (hbound : bound + 2 ≤ n)
    (hn : 22 ≤ n) :
    ∃ ts, Reads (inside n Rule.statement) k (k.forward (text.length + 1))
        [statementTree ⟨k, k.forward text.length⟩ ts (k.forward (text.length + 1))] ∧ P ts := by
  obtain ⟨m, rfl⟩ : ∃ m, n = m + 2 := ⟨n - 2, by omega⟩
  obtain ⟨ts, hexpr, hts⟩ := h m k (by omega) hk
  have hk₁ := Cursor.rest_forward hk
  obtain ⟨hstill, -⟩ := glance_semicolon
  have hend : Reads (inside m endOfStatement) (k.forward text.length)
      ((k.forward text.length).forward 1) [] := .alt_left (reads_char hk₁)
  have hstatement : Reads (inside (m + 1) Rule.expressionStmt) k
      ((k.forward text.length).forward 1) [⟨.expressionStmt, ⟨k, _⟩, _⟩] :=
    reads_rule (r := .expressionStmt)
      (hexpr.seq (reads_blanks (n := m) (by omega) hstill hk₁) hend)
  have hfirst := reads_firstOf [] (by omega) hstart.statements
    (by rw [hk, htext, List.append_assoc] : k.rest = start ++ (cs ++ [';'])) hstatement
  rw [Cursor.forward_add]
  exact ⟨ts, reads_rule (r := .statement) hfirst, hts⟩

theorem reads_script (hstart : Leads start) (htext : text = start ++ cs)
    (h : ReadAsExpression text bound P) (hk : k.rest = "<?php ".toList ++ (text ++ [';'])) (hindex : k.index = 0)
    (hbound : bound + 3 ≤ n) (hn : 30 ≤ n) :
    ∃ k₁ e ts k', Reads (inside n Rule.script) k k' [scriptTree k k₁ k' (statementTree e ts k')] ∧
      P ts := by
  obtain ⟨m, rfl⟩ : ∃ m, n = m + 1 := ⟨n - 1, by omega⟩
  have hm : 20 ≤ m := by omega
  obtain ⟨hstill, hhtml, htag⟩ := glance_openTag
  obtain ⟨hblanks, hstatement, hcloseTag, heoi⟩ := glance_end
  obtain ⟨hk₁, hopen⟩ := reads_of_glance hm htag hk
  have hk₁ : (k.forward 5).rest = ' ' :: (text ++ [';']) := hk₁
  have hk₂ : ((k.forward 5).forward 1).rest = text ++ [';'] := by
    rw [Cursor.forward_one hk₁, Cursor.rest_past]
  have hspace := reads_blanks hm hstart.blank
    (by rw [hk₁, htext, List.append_assoc]; rfl :
      (k.forward 5).rest = (' ' :: start) ++ (cs ++ [';']))
  obtain ⟨ts, hread, hts⟩ := reads_statement (n := m) hstart htext h hk₂ (by omega) (by omega)
  have hk₃ : (((k.forward 5).forward 1).forward (text.length + 1)).rest = [] := by
    have hlength : text.length + 1 = (text ++ [';']).length := by simp
    rw [hlength]
    exact Cursor.rest_forward (by rw [hk₂, List.append_nil])
  generalize ((k.forward 5).forward 1).forward (text.length + 1) = k' at hread hk₃
  -- nothing comes after the statement
  have hnone : Reads (skipBlanks m) k' k' [] := by
    have h := previewBlanks_sound hm true k' [] [] hk₃ fun _ => rfl
    rw [hblanks] at h
    exact h.2
  have hstatements : Reads (inside m (.many Rule.statement)) _ k' _ :=
    hread.many (.done (hnone.andThen_refuses (refuses_at_end hm hstatement hk₃))) (by
      rw [List.length_nil]; omega)
  have hnoTag : Reads (inside m (.maybe (.seq Rule.closeTag (.maybe Rule.inlineHtml)))) k' k' [] :=
    .maybe_nil (.seq (refuses_at_end hm hcloseTag hk₃))
  have heof : Reads (inside m Rule.eoi) k' k' [⟨.eoi, ⟨k', k'⟩, []⟩] := by
    have h := glance_sound hm true (rule .eoi) k' [] [] hk₃ fun _ => rfl
    rw [heoi] at h
    exact h.2
  have hbefore : Reads (skipBlanks m) k k [] := reads_blanks hm hstill hk
  have hnoHtml : Reads (inside m (.maybe Rule.inlineHtml)) k k [] :=
    .maybe_nil (refuses_of_glance hm hhtml hk)
  have hbegin : Reads (inside m .start) k k [] := reads_start hindex
  have hbody := hbegin.seq hbefore (hnoHtml.seq hbefore
    ((Reads.maybe (hopen.seq hspace (hstatements.seq hnone hnoTag))).seq hnone heof))
  exact ⟨_, _, ts, k', reads_rule (r := .script) hbody, hts⟩

/-- The whole text is matched. -/
theorem parse_eq_tree (hstart : Leads start) (htext : text = start ++ cs)
    (h : ReadAsExpression text bound P) (hbound : bound ≤ 256 * text.length + 256) :
    ∃ k k₁ e ts k', parse ("<?php " ++ String.ofList text ++ ";")
        = .tree (scriptTree k k₁ k' (statementTree e ts k')) ∧ P ts := by
  have hchars : ("<?php " ++ String.ofList text ++ ";").toList
      = "<?php ".toList ++ (text ++ [';']) := by
    simp
  have hlength : ("<?php " ++ String.ofList text ++ ";").length = text.length + 7 := by
    simp [← String.length_toList]
  obtain ⟨k₁, e, ts, k', hread, hts⟩ :=
    reads_script (n := boundFor (text.length + 7)) hstart htext h
      (k := .ofText ("<?php " ++ String.ofList text ++ ";")) hchars rfl
      (by unfold boundFor; omega) (by unfold boundFor; omega)
  obtain ⟨a, hrun⟩ := hread [] .none
  refine ⟨.ofText ("<?php " ++ String.ofList text ++ ";"), k₁, e, ts, k', ?_, hts⟩
  unfold parse parseWithin
  rw [hlength]
  have hrun : Rule.run (boundFor (text.length + 7)) .script ⟨.spaced, .none⟩ _ = _ := hrun
  rw [hrun]

end

/-! ## Refusing -/

/-- What starts like this is not the end of a script. -/
structure GoesOn (start : List Char) : Prop where
  still : previewBlanks 20 false start = .matched 0 start []
  closeTag : (rule .closeTag).glance false start = .failed
  eoi : (rule .eoi).glance false start = .failed

/-- The text and a semicolon are not an expression and its end. -/
def NoStatement (text : List Char) (bound : Nat) : Prop :=
  ∀ n k, bound ≤ n → k.rest = text ++ [';'] → Refuses (inside n Rule.expressionStmt) k

section

variable {text start cs : List Char} {bound n : Nat} {k : Cursor}

theorem refuses_statement (hstart : Leads start) (htext : text = start ++ cs)
    (h : NoStatement text bound) (hk : k.rest = text ++ [';']) (hbound : bound + 1 ≤ n)
    (hn : 21 ≤ n) : Refuses (inside n Rule.statement) k := by
  obtain ⟨m, rfl⟩ : ∃ m, n = m + 1 := ⟨n - 1, by omega⟩
  have hk₀ : k.rest = start ++ (cs ++ [';']) := by rw [hk, htext, List.append_assoc]
  have hall : ∀ p ∈ statementsBeforeExpression.map rule ++ [rule .expressionStmt],
      Refuses (inside m p) k := by
    refine List.forall_mem_append.mpr ⟨fun p hp => ?_, List.forall_mem_singleton.mpr ?_⟩
    · obtain ⟨r, hr, rfl⟩ := List.mem_map.mp hp
      exact refuses_of_glance (by omega) (hstart.statements r hr) hk₀
    · exact h m k (by omega) hk
  exact refuses_enter (r := .statement) (.firstOf hall (by simp))

/-- A script of no statement is refused where its text starts. -/
theorem refuses_script (hstart : Leads start) (hgoes : GoesOn start) (htext : text = start ++ cs)
    (h : NoStatement text bound) (hk : k.rest = "<?php ".toList ++ (text ++ [';']))
    (hindex : k.index = 0) (hbound : bound + 2 ≤ n) (hn : 30 ≤ n) :
    Refuses (inside n Rule.script) k := by
  obtain ⟨m, rfl⟩ : ∃ m, n = m + 1 := ⟨n - 1, by omega⟩
  have hm : 20 ≤ m := by omega
  obtain ⟨hstill, hhtml, htag⟩ := glance_openTag
  obtain ⟨hk₁, hopen⟩ := reads_of_glance hm htag hk
  have hk₁ : (k.forward 5).rest = ' ' :: (text ++ [';']) := hk₁
  have hk₂ : ((k.forward 5).forward 1).rest = text ++ [';'] := by
    rw [Cursor.forward_one hk₁, Cursor.rest_past]
  have hspace := reads_blanks hm hstart.blank
    (by rw [hk₁, htext, List.append_assoc]; rfl :
      (k.forward 5).rest = (' ' :: start) ++ (cs ++ [';']))
  have hnone := refuses_statement (n := m) hstart htext h hk₂ (by omega) (by omega)
  have hk₃ : ((k.forward 5).forward 1).rest = start ++ (cs ++ [';']) := by
    rw [hk₂, htext, List.append_assoc]
  generalize (k.forward 5).forward 1 = k' at hnone hk₃ hspace
  have hblanks := reads_blanks hm hgoes.still hk₃
  have hnoTag : Reads (inside m (.maybe (.seq Rule.closeTag (.maybe Rule.inlineHtml)))) k' k' [] :=
    .maybe_nil (.seq (refuses_of_glance hm hgoes.closeTag hk₃))
  have hbefore : Reads (skipBlanks m) k k [] := reads_blanks hm hstill hk
  have hnoHtml : Reads (inside m (.maybe Rule.inlineHtml)) k k [] :=
    .maybe_nil (refuses_of_glance hm hhtml hk)
  have hbegin : Reads (inside m .start) k k [] := reads_start hindex
  have hstatements := hopen.seq hspace ((Reads.many_nil hnone).seq hblanks hnoTag)
  have heof := hblanks.andThen_refuses (refuses_of_glance hm hgoes.eoi hk₃)
  exact refuses_enter (r := .script) (.seq_between hbegin (hbefore.andThen_refuses
    (.seq_between hnoHtml (hbefore.andThen_refuses (.seq_between (.maybe hstatements) heof)))))

end

/-! ## Building -/

theorem builds_script {e : Extent} {ts : List ParseTree} {file : String} {next next₁ : Nat}
    {m : Node} (k k₁ k' : Cursor)
    (hm : ((⟨.expr, e, ts⟩ : ParseTree).annotate buildRule).value.Gives file next m next₁) :
    ∃ script stmt next', (buildTree (scriptTree k k₁ k' (statementTree e ts k'))).Gives
        file next script next' ∧ script.kind = .script [stmt] ∧ stmt.kind = .expressionStmt m := by
  have hstmt : ((statementTree e ts k').annotate buildRule).value.Gives file next
      ⟨next₁, .expressionStmt m, some (e.start.location file), some (e.start.spanTo k' file)⟩
      (next₁ + 1) :=
    Build.gives_bind.mpr ⟨m, next₁, hm, Build.gives_nodeAt.mpr ⟨rfl, rfl⟩⟩
  have hall : ([(statementTree e ts k').annotate buildRule].mapM fun p : Part => p.value).Gives
      file next [_] (next₁ + 1) :=
    Build.gives_bind.mpr ⟨_, _, hstmt, Build.gives_pure.mpr ⟨rfl, rfl⟩⟩
  exact ⟨_, _, _, Build.gives_bind.mpr ⟨_, _, hall, Build.gives_nodeAt.mpr ⟨rfl, rfl⟩⟩, rfl, rfl⟩

end Grammar

namespace Syntax

open Grammar (ParseTree Leads ReadAsExpression scriptTree statementTree)

/-- Parsing a matched text is building its tree, if that is not too deep. -/
theorem parse_of_tree {source : String} {t : ParseTree} (ht : Grammar.parse source = .tree t)
    (name : String) (l : Nat) : parse (.ofSource name source) l = match t.firstTooDeep l with
      | some place => .error (.atPlace (.tooDeep l) (place.location name))
      | none => ((buildTree t).outcome name 1).1 := by
  unfold parse parseFrom checkedTree
  simp only [Script.ofSource, ht]
  cases t.firstTooDeep l <;> rfl

/-- **A text that is read as an expression is parsed as the only statement of its script**, if the
trees stay within the limit. -/
theorem parse_oneExpression {text start cs : List Char} {bound : Nat}
    {P : List ParseTree → Prop} {Q : Node → Prop} (hstart : Leads start) (htext : text = start ++ cs)
    (h : ReadAsExpression text bound P) (hbound : bound ≤ 256 * text.length + 256)
    (hbuild : ∀ ts, P ts → ∀ e file next, ∃ m next',
      ((⟨.expr, e, ts⟩ : ParseTree).annotate buildRule).value.Gives file next m next' ∧ Q m) :
    ∃ k k₁ e ts k', P ts ∧
      ∀ l, (scriptTree k k₁ k' (statementTree e ts k')).firstTooDeep l = none →
      ∀ name, ∃ script stmt m,
        parse (.ofSource name ("<?php " ++ String.ofList text ++ ";")) l = .ok script ∧
        script.kind = .script [stmt] ∧ stmt.kind = .expressionStmt m ∧ Q m := by
  obtain ⟨k, k₁, e, ts, k', htree, hts⟩ := Grammar.parse_eq_tree hstart htext h hbound
  refine ⟨k, k₁, e, ts, k', hts, fun l hdeep name => ?_⟩
  obtain ⟨m, next₁, hm, hq⟩ := hbuild ts hts e name 1
  obtain ⟨script, stmt, next', hscript, hkind, hstmt⟩ := Grammar.builds_script k k₁ k' hm
  refine ⟨script, stmt, m, ?_, hkind, hstmt, hq⟩
  rw [parse_of_tree htree, hdeep]
  exact congrArg Prod.fst hscript

/-- **Nothing else is parsed from such a script.** -/
theorem holds_of_parse_oneExpression {text start cs : List Char} {bound : Nat}
    {P : List ParseTree → Prop} {Q : Node → Prop} (hstart : Leads start)
    (htext : text = start ++ cs) (h : ReadAsExpression text bound P)
    (hbound : bound ≤ 256 * text.length + 256)
    (hbuild : ∀ ts, P ts → ∀ e file next, ∃ m next',
      ((⟨.expr, e, ts⟩ : ParseTree).annotate buildRule).value.Gives file next m next' ∧ Q m)
    {name : String} {l : Nat} {script stmt m : Node}
    (hparse : parse (.ofSource name ("<?php " ++ String.ofList text ++ ";")) l = .ok script)
    (hkind : script.kind = .script [stmt]) (hstmt : stmt.kind = .expressionStmt m) : Q m := by
  obtain ⟨k, k₁, e, ts, k', htree, hts⟩ := Grammar.parse_eq_tree hstart htext h hbound
  obtain ⟨m', next₁, hm, hq⟩ := hbuild ts hts e name 1
  obtain ⟨script', stmt', next', hscript, hkind', hstmt'⟩ := Grammar.builds_script k k₁ k' hm
  rw [parse_of_tree htree] at hparse
  cases hdeep : (scriptTree k k₁ k' (statementTree e ts k')).firstTooDeep l with
  | some place =>
    rw [hdeep] at hparse
    cases hparse
  | none =>
    rw [hdeep] at hparse
    obtain rfl : script' = script := Except.ok.inj ((congrArg Prod.fst hscript).symm.trans hparse)
    obtain rfl : stmt' = stmt := by
      rw [hkind] at hkind'
      exact (List.singleton_inj.mp (Kind.script.inj hkind')).symm
    obtain rfl : m' = m := by
      rw [hstmt] at hstmt'
      exact (Kind.expressionStmt.inj hstmt').symm
    exact hq

/-- **Nothing is parsed from a script of no statement.** -/
theorem parse_ne_ok {text start cs : List Char} {bound : Nat} (hstart : Leads start)
    (hgoes : Grammar.GoesOn start) (htext : text = start ++ cs)
    (h : Grammar.NoStatement text bound) (hbound : bound ≤ 256 * text.length + 256) (name : String)
    (l : Nat) (script : Node) :
    parse (.ofSource name ("<?php " ++ String.ofList text ++ ";")) l ≠ .ok script := by
  have hchars : ("<?php " ++ String.ofList text ++ ";").toList
      = "<?php ".toList ++ (text ++ [';']) := by
    simp
  have hlength : ("<?php " ++ String.ofList text ++ ";").length = text.length + 7 := by
    simp [← String.length_toList]
  have hrefused := Grammar.refuses_script (n := Grammar.boundFor (text.length + 7)) hstart hgoes
    htext h (k := .ofText ("<?php " ++ String.ofList text ++ ";")) hchars rfl
    (by unfold Grammar.boundFor; omega) (by unfold Grammar.boundFor; omega)
  obtain ⟨a, hrun⟩ := hrefused [] .none
  have hrun : Grammar.Rule.run (Grammar.boundFor (text.length + 7)) .script ⟨.spaced, .none⟩ _ = _ :=
    hrun
  have hparse : Grammar.parse ("<?php " ++ String.ofList text ++ ";") = .unmatched a := by
    unfold Grammar.parse Grammar.parseWithin
    rw [hlength, hrun]
  unfold parse parseFrom checkedTree
  simp only [Script.ofSource, hparse]
  exact nofun

end Syntax

end ThreeAddress

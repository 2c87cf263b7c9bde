import ThreeAddress.Proofs.OneExpression
import ThreeAddress.Proofs.PhraseReading

/-!
# Parsing phrases

**A script that is the text of a legible phrase is parsed as the term that the tokens of the phrase
are grouped into**, and as nothing else (`exists_parse_phrase`, `is_of_parse_phrase`). So a node that
was written as such a phrase is read back if and only if every operator of the phrase is where the
table of powers expects it (`readsBack_iff_kept`).
-/

namespace ThreeAddress.Syntax

/-! ## Nodes of terms -/

namespace Term

/-- The constructor of a term. -/
def index : Term → Nat
  | .var _ => 0
  | .member _ _ _ => 1
  | .before _ _ => 2
  | .after _ _ => 3
  | .between _ _ _ => 4
  | .choice _ _ _ => 5

/-- The constructor of the terms that nodes of the kind are. -/
def indexOf : Kind Node → Nat
  | .propertyFetch .. => 1
  | .unaryOp op _ => if op.followsOperand then 3 else 2
  | .clone _ | .cast .. => 2
  | .instanceOf .. => 3
  | .binaryOp .. | .assign .. | .ternary _ none _ => 4
  | .ternary .. => 5
  | _ => 0

theorem indexOf_node (t : Term) : indexOf t.node.kind = t.index := by
  cases t with
  | before f x => cases f <;> rfl
  | after x b => cases b <;> rfl
  | between l o r => cases o <;> rfl
  | _ => rfl

theorem front_kind_inj {f g : Front} {m n : Node} (h : f.kind m = g.kind n) : f = g ∧ m = n := by
  cases f <;> cases g <;> cases h <;> exact ⟨rfl, rfl⟩

theorem link_kind_inj {o o' : Link} {l r l' r' : Node} (h : o.kind l r = o'.kind l' r') :
    l = l' ∧ o = o' ∧ r = r' := by
  cases o <;> cases o' <;> cases h <;> exact ⟨rfl, rfl, rfl⟩

/-- **A node is one term only.** -/
theorem node_injective {t u : Term} (h : t.node = u.node) : t = u := by
  induction t generalizing u with
  | var x =>
    have hindex := congrArg (fun n : Node => indexOf n.kind) h
    simp only [indexOf_node] at hindex
    cases u with
    | var y => exact congrArg var (Kind.var.inj (congrArg Node.kind h))
    | _ => cases hindex
  | member x safe p ih =>
    have hindex := congrArg (fun n : Node => indexOf n.kind) h
    simp only [indexOf_node] at hindex
    cases u with
    | member y safe' q =>
      obtain ⟨hx, hp, rfl⟩ := Kind.propertyFetch.inj (congrArg Node.kind h)
      rw [ih hx, Kind.var.inj (congrArg Node.kind hp)]
    | _ => cases hindex
  | before f x ih =>
    have hindex := congrArg (fun n : Node => indexOf n.kind) h
    simp only [indexOf_node] at hindex
    cases u with
    | before g y =>
      obtain ⟨rfl, hx⟩ := front_kind_inj (congrArg Node.kind h)
      rw [ih hx]
    | _ => cases hindex
  | after x b ih =>
    have hindex := congrArg (fun n : Node => indexOf n.kind) h
    simp only [indexOf_node] at hindex
    cases u with
    | after y c =>
      have hkind := congrArg Node.kind h
      cases b with
      | postInc =>
        cases c with
        | postInc => rw [ih (Kind.unaryOp.inj hkind).2]
        | _ => cases hkind
      | postDec =>
        cases c with
        | postDec => rw [ih (Kind.unaryOp.inj hkind).2]
        | _ => cases hkind
      | isA owner =>
        cases c with
        | isA owner' =>
          obtain ⟨hx, ho⟩ := Kind.instanceOf.inj hkind
          rw [ih hx, Kind.var.inj (congrArg Node.kind ho)]
        | _ => cases hkind
    | _ => cases hindex
  | between l o r ihl ihr =>
    have hindex := congrArg (fun n : Node => indexOf n.kind) h
    simp only [indexOf_node] at hindex
    cases u with
    | between l' o' r' =>
      obtain ⟨hl, rfl, hr⟩ := link_kind_inj (congrArg Node.kind h)
      rw [ihl hl, ihr hr]
    | _ => cases hindex
  | choice c y n ihc ihy ihn =>
    have hindex := congrArg (fun n : Node => indexOf n.kind) h
    simp only [indexOf_node] at hindex
    cases u with
    | choice c' y' n' =>
      obtain ⟨hc, hy, hn⟩ := Kind.ternary.inj (congrArg Node.kind h)
      rw [ihc hc, ihy (Option.some.inj hy), ihn hn]
    | _ => cases hindex

end Term

end ThreeAddress.Syntax

namespace ThreeAddress.Grammar

open Pattern Syntax

/-! ## Scripts of a phrase -/

/-- A script that starts with the text is an expression, or is refused. -/
inductive Opens (text : List Char) : Prop
  | intro (start cs : List Char) (htext : text = start ++ cs) (hleads : Leads start)
    (hgoes : GoesOn start)

theorem leads_of_mem_phraseStarts : ∀ c ∈ phraseStarts, c ≠ 'c' → Leads [c] ∧ GoesOn [c] := by
  have hall : ∀ c ∈ phraseStarts, c ≠ 'c' →
      ((∀ r ∈ statementsBeforeExpression, (rule r).glance false [c] = .failed) ∧
        previewBlanks 20 false [' ', c] = .matched 1 [c] []) ∧
      previewBlanks 20 false [c] = .matched 0 [c] [] ∧
        (rule .closeTag).glance false [c] = .failed ∧ (rule .eoi).glance false [c] = .failed :=
    forall_mem_of_all (by decide +kernel)
  intro c hc hne
  obtain ⟨⟨hstatements, hblank⟩, hstill, hclose, heoi⟩ := hall c hc hne
  exact ⟨⟨hstatements, hblank⟩, ⟨hstill, hclose, heoi⟩⟩

theorem leads_clone :
    ∀ c ∈ phraseStarts, Leads ("clone ".toList ++ [c]) ∧ GoesOn ("clone ".toList ++ [c]) := by
  have hall : ∀ c ∈ phraseStarts,
      ((∀ r ∈ statementsBeforeExpression,
        (rule r).glance false ("clone ".toList ++ [c]) = .failed) ∧
        previewBlanks 20 false (' ' :: ("clone ".toList ++ [c]))
          = .matched 1 ("clone ".toList ++ [c]) []) ∧
      previewBlanks 20 false ("clone ".toList ++ [c]) = .matched 0 ("clone ".toList ++ [c]) [] ∧
        (rule .closeTag).glance false ("clone ".toList ++ [c]) = .failed ∧
        (rule .eoi).glance false ("clone ".toList ++ [c]) = .failed :=
    forall_mem_of_all (by decide +kernel)
  intro c hc
  obtain ⟨⟨hstatements, hblank⟩, hstill, hclose, heoi⟩ := hall c hc
  exact ⟨⟨hstatements, hblank⟩, ⟨hstill, hclose, heoi⟩⟩

/-- The text of every phrase opens an expression. -/
theorem opens_phrase (p : Phrase) : Opens p.text := by
  have happend {cs ds : List Char} (h : Opens cs) : Opens (cs ++ ds) := by
    obtain ⟨start, cs', rfl, hleads, hgoes⟩ := h
    exact ⟨start, cs' ++ ds, List.append_assoc _ _ _, hleads, hgoes⟩
  have hone {c : Char} {cs : List Char} (hc : c ∈ phraseStarts) (hne : c ≠ 'c') :
      Opens (c :: cs) := by
    obtain ⟨hleads, hgoes⟩ := leads_of_mem_phraseStarts c hc hne
    exact ⟨[c], cs, rfl, hleads, hgoes⟩
  induction p with
  | var x => exact hone (by decide) (by decide)
  | group p => exact hone (by decide) (by decide)
  | member p safe property ih => exact happend ih
  | before f p =>
    cases f with
    | clone =>
      obtain ⟨c, cs, htext, hc⟩ := text_phrase_starts p
      obtain ⟨hleads, hgoes⟩ := leads_clone c hc
      refine ⟨"clone ".toList ++ [c], cs, ?_, hleads, hgoes⟩
      show "clone ".toList ++ p.text = _
      rw [htext]
      simp
    | cast type => cases type <;> exact hone (by decide) (by decide)
    | _ => exact hone (by decide) (by decide)
  | after p b ih => exact happend ih
  | between l o r ih => exact happend ih
  | choice c y n ih => exact happend ih

/-- The text of a phrase is read as an expression that builds what its tokens are grouped into. -/
theorem readAsExpression_phrase {p : Phrase} (hlegible : p.Legible) (hnamed : p.term.Named) :
    ReadAsExpression p.text (3 * p.text.length + 40) fun ts =>
      ∀ e, (regroup p.tokens).MadeBy ((⟨.expr, e, ts⟩ : ParseTree).annotate buildRule).value := by
  intro n k hn hk
  obtain ⟨m, rfl⟩ : ∃ m, n = m + 1 := ⟨n - 1, by omega⟩
  have hread := (reads_phrase hlegible hnamed).1 [';'] 0 (.tight (s := [';']) [] (by decide)) m k
    (by omega) hk
  obtain ⟨e, ts, he, hexpr, hmade⟩ := hread.exists_expr (s := [';']) (by decide)
    (by rw [Nat.add_zero]; exact Cursor.rest_forward hk) (by omega) (by omega)
  rw [Nat.add_zero, or_self] at he
  rw [he] at hexpr
  exact ⟨ts, hexpr, hmade⟩

end ThreeAddress.Grammar

namespace ThreeAddress.Syntax

open Grammar (ParseTree)

/-- **The text of a phrase is parsed as what its tokens are grouped into**, as the only
statement. -/
theorem exists_parse_phrase {p : Phrase} (hlegible : p.Legible) (hnamed : p.term.Named) :
    ∃ limit, ∀ l ≥ limit, ∀ name, ∃ script stmt m,
      parse (.ofSource name ("<?php " ++ String.ofList p.text ++ ";")) l = .ok script ∧
      script.kind = .script [stmt] ∧ stmt.kind = .expressionStmt m ∧ (regroup p.tokens).Is m := by
  obtain ⟨start, cs, htext, hstart, -⟩ := Grammar.opens_phrase p
  obtain ⟨k, k₁, e, ts, k', -, hparse⟩ :=
    parse_oneExpression (Q := (regroup p.tokens).Is) hstart htext
      (Grammar.readAsExpression_phrase hlegible hnamed) (by omega) fun ts hts e => hts e
  refine ⟨(Grammar.scriptTree k k₁ k' (Grammar.statementTree e ts k')).edges.length,
    fun l hl => hparse l (Grammar.Nesting.firstAbove_eq_none ?_)⟩
  exact (Nat.zero_add _).symm ▸ hl

/-- **Nothing else is parsed from the text of a phrase.** -/
theorem is_of_parse_phrase {p : Phrase} (hlegible : p.Legible) (hnamed : p.term.Named)
    {name : String} {l : Nat} {script stmt m : Node}
    (hparse : parse (.ofSource name ("<?php " ++ String.ofList p.text ++ ";")) l = .ok script)
    (hkind : script.kind = .script [stmt]) (hstmt : stmt.kind = .expressionStmt m) :
    (regroup p.tokens).Is m := by
  obtain ⟨start, cs, htext, hstart, -⟩ := Grammar.opens_phrase p
  exact holds_of_parse_oneExpression hstart htext
    (Grammar.readAsExpression_phrase hlegible hnamed) (by omega) (fun ts hts e => hts e) hparse hkind
    hstmt

/-- Parsing the value as a script of its own gives the node back, up to numbers and places. -/
def ReadsBack (v : String) (n : Node) : Prop :=
  ∃ limit, ∀ l ≥ limit, ∀ name, ∃ script stmt m,
    parse (.ofSource name ("<?php " ++ v ++ ";")) l = .ok script ∧
    script.kind = .script [stmt] ∧ stmt.kind = .expressionStmt m ∧ m.bare = n.bare

/-- A node is read back from the text of a legible phrase if the phrase says it. -/
theorem readsBack_iff_regroup {p : Phrase} (hlegible : p.Legible) (hnamed : p.term.Named)
    {t : Term} {n : Node} (hn : t.Is n) :
    ReadsBack (.ofList p.text) n ↔ regroup p.tokens = t := by
  constructor
  · rintro ⟨limit, hparse⟩
    obtain ⟨script, stmt, m, hscript, hkind, hstmt, hm⟩ := hparse limit (Nat.le_refl _) ""
    have hterm := is_of_parse_phrase hlegible hnamed hscript hkind hstmt
    rw [hterm.bare, hn.bare] at hm
    exact Term.node_injective hm
  · rintro rfl
    obtain ⟨limit, hparse⟩ := exists_parse_phrase hlegible hnamed
    refine ⟨limit, fun l hl name => ?_⟩
    obtain ⟨script, stmt, m, hscript, hkind, hstmt, hterm⟩ := hparse l hl name
    exact ⟨script, stmt, m, hscript, hkind, hstmt, hterm.bare.trans hn.bare.symm⟩

/-- **A node that was written as a legible phrase is read back if and only if every operator of the
phrase is where the table of powers expects it.** -/
theorem readsBack_iff_kept {p : Phrase} (hlegible : p.Legible) (hnamed : p.term.Named) {n : Node}
    (hn : p.term.Is n) : ReadsBack (.ofList p.text) n ↔ p.Kept 0 :=
  (readsBack_iff_regroup hlegible hnamed hn).trans p.regroup_eq_term_iff

end ThreeAddress.Syntax

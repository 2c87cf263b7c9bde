import ThreeAddress.Proofs.Blocks

/-!
# Jumps respect blocks

Which blocks a plan opens. The lines of a value are plain (`Plan.IsPlain`), and code is nested
(`Plan.Nested`): a block is a header, code and a brace, and either its header tells that it may be
left or its body stands apart, where no frame of the code around it is left. **A nested plan runs to
contained code** (`Plan.Nested.contained`), and all code is nested (`nested_as`).
-/

namespace ThreeAddress.Lowering

open Syntax (Node)

/-! ## Plain lines -/

namespace Plan

/-- The plan has no control flow, and each line that it writes ends as a statement or a label
does. -/
def IsPlain : Plan → Prop
  | .nothing | .text _ | .mark _ | .fail _ | .closed _ _ => True
  | .both p q | .shownBefore p q => p.IsPlain ∧ q.IsPlain
  | .guarded _ p | .expression _ p | .unlessEmpty _ p _ | .compact p | .bind p | .effects p
  | .valueLine p => p.IsPlain
  | .line p => p.isEnded = true ∧ p.IsPlain
  | _ => False

theorem isPlain_joined {s : String} {ps : List Plan} (h : ∀ p ∈ ps, p.IsPlain) :
    (joined s ps).IsPlain := by
  fun_induction joined s ps with
  | case1 => trivial
  | case2 p => exact h p List.mem_cons_self
  | case3 p q ps ih =>
    obtain ⟨hp, hps⟩ := List.forall_mem_cons.mp h
    exact ⟨⟨hp, trivial⟩, ih hps⟩

end Plan

theorem isPlain_instantiation {n : Planned} {args : List Planned}
    (hn : (instantiation n []).IsPlain) (hargs : ∀ m ∈ args, (argument m).IsPlain) :
    (instantiation n args).IsPlain := by
  have hjoined : (arguments args).IsPlain :=
    Plan.isPlain_joined (List.forall_mem_map.mpr hargs)
  obtain ⟨id, k, location, span, plan⟩ := n
  cases k with
  | classDecl => exact ⟨⟨⟨⟨⟨trivial, trivial⟩, hjoined⟩, trivial⟩, hn.1.2⟩, trivial⟩
  | _ => exact ⟨⟨⟨hn.1.1.1, trivial⟩, hjoined⟩, trivial⟩

/-- The lines are texts that end as a statement or a label does. -/
def PlainText (code : List Instruction) : Prop :=
  Straight code ∧ ∀ i ∈ code, i.isPlain = true

namespace PlainText

variable {code code' : List Instruction}

theorem nil : PlainText [] :=
  ⟨.nil, List.forall_mem_nil _⟩

theorem append (h : PlainText code) (h' : PlainText code') : PlainText (code ++ code') :=
  ⟨h.1.append h'.1, List.forall_mem_append.mpr ⟨h.2, h'.2⟩⟩

theorem singleton {s : String} (h : (Instruction.text s).isPlain = true) : PlainText [.text s] :=
  ⟨.text s, List.forall_mem_singleton.mpr h⟩

/-- A text with a semicolon behind it. -/
theorem statement (s : String) : PlainText [.text (s ++ ";")] :=
  singleton (Instruction.isPlain_of_append (by decide))

theorem contained {gotos : Prop} (h : PlainText code) (outs : List String) :
    Contained gotos outs [] code := by
  refine (Contained.plain h.2).mono ?_ (List.nil_subset _)
  rw [h.1.targetsIn]
  exact List.nil_subset _

end PlainText

namespace Plan

variable {p q r : Plan} {c c' d : Context} {a : Lowered}

theorem Runs.isPlain_value (h : Runs p c a c') (hp : p.isEnded = true) :
    (Instruction.text a.value).isPlain = true := by
  induction h with
  | both _ _ _ ih => exact Instruction.isPlain_of_append (ih hp)
  | text => exact hp
  | _ => cases hp

/-- **Plain plans write plain lines.** -/
theorem Runs.plainText (h : Runs p c a c') (hp : p.IsPlain) : PlainText a.effects := by
  induction h with
  | nothing | text | mark | guardedAgain | expressionAgain | closed => exact .nil
  | both _ _ h₁ h₂ => exact (h₁ hp.1).append (h₂ hp.2)
  | shownBefore _ _ h₁ h₂ => exact (h₁ hp.2).append (h₂ hp.1)
  | guarded _ _ ih | expression _ _ _ ih => exact ih hp
  | compact _ ih | effects _ ih => exact ih hp
  | unlessEmpty _ ih =>
    unfold Lowered.wrapped
    split <;> exact ih hp
  | bind _ ih => exact (ih hp).append (.statement _)
  | line hrun ih => exact (ih hp.2).append (.singleton (hrun.isPlain_value hp.1))
  | valueLine _ ih =>
    unfold Lowered.asValueLine
    split
    · exact ih hp
    · exact (ih hp).append (.statement _)
  | _ => exact hp.elim

end Plan

/-! ## Control structures -/

section

variable {gotos : Prop}

namespace Contained

/-- Plain lines around two pieces of contained code take care of the jumps to their labels. -/
theorem around {outs outs₁ outs₂ : List String} {front middle back inner inner' : List Instruction}
    (hfront : ∀ i ∈ front, i.isPlain = true) (h : Contained gotos outs₁ [] inner)
    (hmiddle : ∀ i ∈ middle, i.isPlain = true) (h' : Contained gotos outs₂ [] inner')
    (hback : ∀ i ∈ back, i.isPlain = true)
    (houts : ∀ t ∈ targetsIn front ++ outs₁ ++ targetsIn middle ++ outs₂ ++ targetsIn back,
      t ∈ outs ∨ t ∈ labelsIn front ++ labelsIn middle ++ labelsIn back) :
    Contained gotos outs [] (front ++ inner ++ middle ++ inner' ++ back) := by
  have hall := ((((plain hfront).append h).append (plain hmiddle)).append h').append (plain hback)
  rw [List.append_nil, List.append_nil] at hall
  exact hall.resolve houts

theorem nil : Contained gotos [] [] [] :=
  PlainText.nil.contained []

end Contained

namespace Shape

variable {n : Nat} {outs : List String} {a b : Lowered} {code code' : List Instruction}

theorem isPlain_test (ha : PlainText a.effects) (yes no : String) :
    ∀ i ∈ test a yes no, i.isPlain = true := by
  refine List.forall_mem_append.mpr ⟨ha.2, ?_⟩
  simp [Instruction.isPlain_ifGoto, Instruction.isPlain_goto]

theorem contained_ifThen (ha : PlainText a.effects) (l : Labels)
    (h : Contained gotos outs [] code) : Contained gotos outs [] (ifThen a l code) := by
  have hshape : ifThen a l code = (test a l.start l.stop ++ [Instruction.label l.start]) ++ code
      ++ [Instruction.goto l.stop, .label l.stop] ++ [] ++ [] := by
    simp [ifThen]
  rw [hshape]
  refine .around ?_ h ?_ .nil (List.forall_mem_nil _) ?_
  · exact List.forall_mem_append.mpr ⟨isPlain_test ha _ _, by simp [Instruction.isPlain_label]⟩
  · simp [Instruction.isPlain_goto, Instruction.isPlain_label]
  · simp only [test, targetsIn_append, labelsIn_append, ha.1.targetsIn, ha.1.labelsIn]
    grind [targetsIn_nil, targetsIn_goto, targetsIn_ifGoto, targetsIn_label, labelsIn_nil,
      labelsIn_goto, labelsIn_ifGoto, labelsIn_label]

theorem contained_ifThenElse (ha : PlainText a.effects) (l : Labels) (other : String)
    (h : Contained gotos outs [] code) (h' : Contained gotos outs [] code') :
    Contained gotos outs [] (ifThenElse a l other code code') := by
  have hshape : ifThenElse a l other code code'
      = (test a l.start other ++ [Instruction.label l.start]) ++ code
        ++ [Instruction.goto l.stop, .label other] ++ code'
        ++ [Instruction.goto l.stop, .label l.stop] := by
    simp [ifThenElse]
  rw [hshape]
  refine .around ?_ h ?_ h' ?_ ?_
  · exact List.forall_mem_append.mpr ⟨isPlain_test ha _ _, by simp [Instruction.isPlain_label]⟩
  · simp [Instruction.isPlain_goto, Instruction.isPlain_label]
  · simp [Instruction.isPlain_goto, Instruction.isPlain_label]
  · simp only [test, targetsIn_append, labelsIn_append, ha.1.targetsIn, ha.1.labelsIn]
    grind [targetsIn_nil, targetsIn_goto, targetsIn_ifGoto, targetsIn_label, labelsIn_nil,
      labelsIn_goto, labelsIn_ifGoto, labelsIn_label]

theorem contained_whileLoop (ha : PlainText a.effects) (l : Labels) (round : String)
    (h : Contained gotos (l.stop :: l.start :: outs) [] code) :
    Contained gotos outs [] (whileLoop a l round code) := by
  have hshape : whileLoop a l round code
      = (.label l.start :: test a round l.stop ++ [Instruction.label round]) ++ code
        ++ (test a round l.stop ++ [Instruction.label l.stop]) ++ [] ++ [] := by
    simp [whileLoop]
  rw [hshape]
  refine .around ?_ h ?_ .nil (List.forall_mem_nil _) ?_
  · refine List.forall_mem_cons.mpr ⟨Instruction.isPlain_label _, ?_⟩
    exact List.forall_mem_append.mpr ⟨isPlain_test ha _ _, by simp [Instruction.isPlain_label]⟩
  · exact List.forall_mem_append.mpr ⟨isPlain_test ha _ _, by simp [Instruction.isPlain_label]⟩
  · simp only [test, List.cons_append, targetsIn_append, labelsIn_append, targetsIn_label,
      labelsIn_label, ha.1.targetsIn, ha.1.labelsIn]
    grind [targetsIn_nil, targetsIn_goto, targetsIn_ifGoto, targetsIn_label, labelsIn_nil,
      labelsIn_goto, labelsIn_ifGoto, labelsIn_label]

theorem contained_doWhile (ha : PlainText a.effects) (l : Labels) (next : String)
    (h : Contained gotos (l.stop :: next :: outs) [] code) :
    Contained gotos outs [] (doWhile a l next code) := by
  have hshape : doWhile a l next code = [Instruction.label l.start] ++ code
      ++ (.label next :: a.effects ++ [Instruction.ifGoto a.value l.start, .label l.stop])
      ++ [] ++ [] := by
    simp [doWhile]
  rw [hshape]
  refine .around ?_ h ?_ .nil (List.forall_mem_nil _) ?_
  · simp [Instruction.isPlain_label]
  · refine List.forall_mem_cons.mpr ⟨Instruction.isPlain_label _, ?_⟩
    refine List.forall_mem_append.mpr ⟨ha.2, ?_⟩
    simp [Instruction.isPlain_ifGoto, Instruction.isPlain_label]
  · simp only [List.cons_append, targetsIn_append, labelsIn_append, targetsIn_label,
      labelsIn_label, ha.1.targetsIn, ha.1.labelsIn]
    grind [targetsIn_nil, targetsIn_goto, targetsIn_ifGoto, targetsIn_label, labelsIn_nil,
      labelsIn_goto, labelsIn_ifGoto, labelsIn_label]

theorem contained_foreachLoop (ha : PlainText a.effects) (hb : PlainText b.effects) (l : Labels)
    (next : String) (h : Contained gotos (l.stop :: next :: outs) [] code) :
    Contained gotos outs [] (foreachLoop a b l next code) := by
  have hshape : foreachLoop a b l next code
      = (a.effects ++ b.effects
          ++ [Instruction.foreach a.value b.value l.start, .goto l.stop, .label l.start])
        ++ code ++ [Instruction.label next, .foreach a.value b.value l.start, .label l.stop]
        ++ [] ++ [] := by
    simp [foreachLoop]
  rw [hshape]
  refine .around ?_ h ?_ .nil (List.forall_mem_nil _) ?_
  · refine List.forall_mem_append.mpr ⟨List.forall_mem_append.mpr ⟨ha.2, hb.2⟩, ?_⟩
    simp [Instruction.isPlain_foreach, Instruction.isPlain_goto, Instruction.isPlain_label]
  · simp [Instruction.isPlain_foreach, Instruction.isPlain_label]
  · simp only [targetsIn_append, labelsIn_append, ha.1.targetsIn, ha.1.labelsIn, hb.1.targetsIn,
      hb.1.labelsIn]
    grind [targetsIn_nil, targetsIn_goto, targetsIn_foreach, targetsIn_label, labelsIn_nil,
      labelsIn_goto, labelsIn_foreach, labelsIn_label]

/-- The last test of a loop with a head is made of plain lines. -/
theorem contained_forLoop {init step : List Instruction} (barriers last : List Instruction)
    (hinit : PlainText init) (hstep : PlainText step) (l : Labels) (round next : String)
    (hlast : ∀ i ∈ last, i.isPlain = true) (hexit : ∀ t ∈ targetsIn last, t = round ∨ t = l.stop)
    (hbarriers : Contained gotos (l.stop :: next :: outs) [] barriers)
    (h : Contained gotos (l.stop :: next :: outs) [] code) :
    Contained gotos outs [] (forLoop init (barriers ++ last) step l round next code) := by
  have hshape : forLoop init (barriers ++ last) step l round next code
      = (init ++ [Instruction.label l.start]) ++ barriers ++ (last ++ [Instruction.label round])
        ++ code ++ (.label next :: step ++ [Instruction.goto l.start, .label l.stop]) := by
    simp [forLoop]
  rw [hshape]
  refine .around ?_ hbarriers ?_ h ?_ ?_
  · exact List.forall_mem_append.mpr ⟨hinit.2, by simp [Instruction.isPlain_label]⟩
  · exact List.forall_mem_append.mpr ⟨hlast, by simp [Instruction.isPlain_label]⟩
  · refine List.forall_mem_cons.mpr ⟨Instruction.isPlain_label _, ?_⟩
    refine List.forall_mem_append.mpr ⟨hstep.2, ?_⟩
    simp [Instruction.isPlain_goto, Instruction.isPlain_label]
  · simp only [List.cons_append, targetsIn_append, labelsIn_append, targetsIn_label,
      labelsIn_label, hinit.1.targetsIn, hinit.1.labelsIn, hstep.1.targetsIn, hstep.1.labelsIn]
    grind [targetsIn_nil, targetsIn_goto, targetsIn_label, labelsIn_nil, labelsIn_goto,
      labelsIn_label]

end Shape

theorem isPlain_jump (c : Context) (j : Jump) (levels : Option Nat) :
    (c.jump j levels).isPlain = true := by
  unfold Context.jump
  split
  · exact Instruction.isPlain_goto _
  · decide
  · split
    · exact Instruction.isPlain_of_append (by decide)
    · exact Instruction.isPlain_of_append (by decide)

theorem contained_jump (c : Context) (j : Jump) (levels : Option Nat) :
    Contained gotos (c.frames.flatMap Frame.targets) [] [c.jump j levels] := by
  refine (Contained.plain (List.forall_mem_singleton.mpr (isPlain_jump c j levels))).mono ?_
    (List.nil_subset _)
  intro t ht
  rcases (sealed_jump 0 0 c j levels).closed t ht with hlabel | hframe
  · obtain ⟨n, -, hn, -⟩ := (sealed_jump 0 0 c j levels).numbered t hlabel
    omega
  · exact hframe

theorem contained_barrier {c : Context} {a : Lowered} (ha : PlainText a.effects) (pass : String) :
    Contained gotos (c.frames.flatMap Frame.targets) []
      (Shape.barrier a pass (c.jump .leave none)) := by
  have hshape : Shape.barrier a pass (c.jump .leave none)
      = (a.effects ++ [Instruction.ifGoto a.value pass]) ++ [c.jump .leave none]
        ++ [Instruction.label pass] ++ [] ++ [] := by
    simp [Shape.barrier]
  rw [hshape]
  refine .around ?_ (contained_jump c .leave none) ?_ .nil (List.forall_mem_nil _) ?_
  · exact List.forall_mem_append.mpr ⟨ha.2, by simp [Instruction.isPlain_ifGoto]⟩
  · simp [Instruction.isPlain_label]
  · simp only [targetsIn_append, labelsIn_append, ha.1.targetsIn, ha.1.labelsIn]
    grind [targetsIn_nil, targetsIn_ifGoto, targetsIn_label, labelsIn_nil, labelsIn_ifGoto,
      labelsIn_label]

end

/-! ## Nested plans -/

/-- The plan of code whose blocks are closed again. Lines of its own that are no text stand in it
only if there may be `gotos`. -/
inductive Plan.Nested (gotos : Prop) : Plan → Prop
  | plain {p : Plan} : p.IsPlain → Nested gotos p
  | both {p q : Plan} : Nested gotos p → Nested gotos q → Nested gotos (.both p q)
  | statement {t : Tag} {p : Plan} : Nested gotos p → Nested gotos (.statement t p)
  | emit {i : Instruction} : gotos → i.isPlain = true → Nested gotos (.emit i)
  | jump {j : Jump} {levels : Option Nat} : Nested gotos (.jump j levels)
  | closeCase : Nested gotos .closeCase
  | ifThen {p q : Plan} : p.IsPlain → Nested gotos q → Nested gotos (.ifThen p q)
  | ifThenElse {p q r : Plan} : p.IsPlain → Nested gotos q → Nested gotos r →
      Nested gotos (.ifThenElse p q r)
  | whileLoop {p q : Plan} : p.IsPlain → Nested gotos q → Nested gotos (.whileLoop p q)
  | doWhile {p q : Plan} : Nested gotos p → q.IsPlain → Nested gotos (.doWhile p q)
  | barrier {p : Plan} : p.IsPlain → Nested gotos (.barrier p)
  | forLoop {i g c s b : Plan} : i.IsPlain → Nested gotos g → c.IsPlain → s.IsPlain →
      Nested gotos b → Nested gotos (.forLoop i g c s b)
  | endless {i s b : Plan} : i.IsPlain → s.IsPlain → Nested gotos b →
      Nested gotos (.endless i s b)
  | foreachLoop {i v b : Plan} : i.IsPlain → v.IsPlain → Nested gotos b →
      Nested gotos (.foreachLoop i v b)
  | inSwitch {p : Plan} : Nested gotos p → Nested gotos (.inSwitch p)
  | apart {p : Plan} : Nested gotos p → Nested gotos (.apart p)
  | declared {kind : String} {p : Plan} : Nested gotos p → Nested gotos (.declared kind p)
  | braced {p q : Plan} : p.Leavable ∨ (∃ r, q = .apart r) → p.IsPlain → Nested gotos q →
      Nested gotos (.braced p q)

/-- The plan opens blocks as its use allows. -/
def Plan.Suits (gotos : Prop) : Use → Plan → Prop
  | .value, p => p.IsPlain
  | .code, p => p.Nested gotos

theorem Made.suits {gotos : Prop} {u : Use} {p : Plan} {ps : List Part} (h : Made u p ps)
    (hps : ∀ x ∈ ps, x.2.Suits gotos x.1) : p.Suits gotos u := by
  induction h with
  | part => exact hps _ List.mem_cons_self
  | asCode _ hp => exact .plain (hp hps)
  | @nothing u =>
    cases u with
    | value => trivial
    | code => exact .plain trivial
  | text => trivial
  | jump => exact .jump
  | closeCase => exact .closeCase
  | @append u p q _ _ _ _ hp hq =>
    obtain ⟨h₁, h₂⟩ := List.forall_mem_append.mp hps
    cases u with
    | value => exact ⟨hp h₁, hq h₂⟩
    | code => exact .both (hp h₁) (hq h₂)
  | unlessEmpty _ hp | compact _ hp | bind _ hp | effects _ hp | valueLine _ hp => exact hp hps
  | line hended _ hp => exact ⟨hended, hp hps⟩
  | barrier _ hp => exact .barrier (hp hps)
  | inSwitch _ hp => exact .inSwitch (hp hps)
  | apart _ hp => exact .apart (hp hps)
  | declared _ hp => exact .declared (hp hps)
  | closed => trivial
  | instantiation =>
    obtain ⟨hn, hargs⟩ := List.forall_mem_cons.mp hps
    exact isPlain_instantiation hn fun m hm => hargs _ (List.mem_map_of_mem hm)
  | shownBefore _ _ hp hq =>
    obtain ⟨h₁, h₂⟩ := List.forall_mem_append.mp hps
    exact ⟨hp h₁, hq h₂⟩
  | ifThen _ _ hp hq =>
    obtain ⟨h₁, h₂⟩ := List.forall_mem_append.mp hps
    exact .ifThen (hp h₁) (hq h₂)
  | whileLoop _ _ hp hq =>
    obtain ⟨h₁, h₂⟩ := List.forall_mem_append.mp hps
    exact .whileLoop (hp h₁) (hq h₂)
  | doWhile _ _ hp hq =>
    obtain ⟨h₁, h₂⟩ := List.forall_mem_append.mp hps
    exact .doWhile (hp h₁) (hq h₂)
  | braced hleave _ _ hp hq =>
    obtain ⟨h₁, h₂⟩ := List.forall_mem_append.mp hps
    exact .braced hleave (hp h₁) (hq h₂)
  | ifThenElse _ _ _ hp hq hr =>
    obtain ⟨h₁, h₃⟩ := List.forall_mem_append.mp hps
    obtain ⟨h₁, h₂⟩ := List.forall_mem_append.mp h₁
    exact .ifThenElse (hp h₁) (hq h₂) (hr h₃)
  | endless _ _ _ hp hq hr =>
    obtain ⟨h₁, h₃⟩ := List.forall_mem_append.mp hps
    obtain ⟨h₁, h₂⟩ := List.forall_mem_append.mp h₁
    exact .endless (hp h₁) (hq h₂) (hr h₃)
  | foreachLoop _ _ _ hp hq hr =>
    obtain ⟨h₁, h₃⟩ := List.forall_mem_append.mp hps
    obtain ⟨h₁, h₂⟩ := List.forall_mem_append.mp h₁
    exact .foreachLoop (hp h₁) (hq h₂) (hr h₃)
  | forLoop _ _ _ _ _ hi hg hc hs hb =>
    obtain ⟨h₁, h₅⟩ := List.forall_mem_append.mp hps
    obtain ⟨h₁, h₄⟩ := List.forall_mem_append.mp h₁
    obtain ⟨h₁, h₃⟩ := List.forall_mem_append.mp h₁
    obtain ⟨h₁, h₂⟩ := List.forall_mem_append.mp h₁
    exact .forLoop (hi h₁) (hg h₂) (hc h₃) (hs h₄) (hb h₅)

theorem inherited_suits {gotos : Prop} :
    Inherited (fun _ => True) fun u p => p.Suits gotos u where
  made h hps := h.suits hps
  mark {u _} _ := by
    cases u with
    | value => trivial
    | code => exact .plain trivial
  fail {u _} := by
    cases u with
    | value => trivial
    | code => exact .plain trivial
  guarded _ hp := hp
  expression _ hp := hp
  statement _ hp := .statement hp

theorem suits_as {gotos : Prop} (n : Node) (hgotos : ∀ m ∈ n.subtree, m.kind.isGoto → gotos)
    (r : Role) : ((planned n).as r).Suits gotos r.use := by
  refine inherited_suits.as n (fun _ _ => trivial) (fun m hm hgoto i hi => ?_) r
  refine .emit (hgotos m hm hgoto) ?_
  cases i with
  | label t => exact Instruction.isPlain_label t
  | goto t => exact Instruction.isPlain_goto t
  | ifGoto v t => exact Instruction.isPlain_ifGoto v t
  | foreach v b t => exact Instruction.isPlain_foreach v b t
  | text s => exact absurd rfl (hi s)

/-- **Every node is lowered by a nested plan**, in whatever role of code it stands. -/
theorem nested_as {gotos : Prop} (n : Node) (hgotos : ∀ m ∈ n.subtree, m.kind.isGoto → gotos)
    {r : Role} (hr : r.use = .code) : ((planned n).as r).Nested gotos := by
  have hsuits := suits_as n hgotos r
  rwa [hr] at hsuits

/-! ## Runs -/

namespace Plan

variable {p q : Plan} {c c' : Context} {a : Lowered}

/-- What a block is lowered to. -/
theorem Runs.of_braced (h : Runs (.braced p q) c a c') :
    ∃ x c₁ y, Runs p c x c₁ ∧ Runs q c₁ y c' ∧
      a.effects
        = x.effects ++ .text (x.value ++ " \x7b") :: (y.effects ++ [Instruction.text "\x7d"]) := by
  cases h with
  | both hfront hclose =>
    cases hfront with
    | both hopen hq =>
      cases hopen with
      | line hheader =>
        cases hheader with
        | @both _ _ _ _ _ x t hp htext =>
          cases htext
          cases hclose with
          | line hbrace =>
            cases hbrace
            refine ⟨_, _, _, hp, hq, ?_⟩
            show (x.effects ++ [] ++ [Instruction.text (x.value ++ " \x7b")] ++ _) ++ [_] = _
            simp

theorem Runs.isSwitch_header (h : Runs (.text "switch (" ++ p ++ .text ")") c a c') (k : Nat) :
    Block.IsSwitch ⟨k, a.value ++ " \x7b"⟩ := by
  cases h with
  | both hfront hclose =>
    cases hfront with
    | @both _ _ _ _ _ _ v hword hvalue =>
      cases hword
      cases hclose
      refine ⟨v.value, ?_⟩
      show "switch (" ++ v.value ++ ")" ++ " \x7b" = _
      rw [String.append_assoc]
      rfl

theorem Leavable.isSection (hp : p.Leavable) (hother : ∀ v, p ≠ .text "switch (" ++ v ++ .text ")")
    (h : Runs p c a c') (k : Nat) : Block.IsSection ⟨k, a.value ++ " \x7b"⟩ := by
  cases hp with
  | switch => exact absurd rfl (hother _)
  | tryBody =>
    cases h
    exact .inl rfl
  | handler =>
    cases h with
    | both hfront hclose =>
      cases hfront with
      | @both _ _ _ _ _ _ w hfront hlast =>
        cases hfront with
        | @both _ _ _ _ _ _ v hfront hmiddle =>
          cases hfront with
          | both hmark hword =>
            cases hmark
            cases hword
            cases hclose
            refine .inr (.inl ⟨v.value ++ w.value, ?_⟩)
            show "" ++ "catch (" ++ v.value ++ w.value ++ ")" ++ " \x7b" = _
            simp only [String.append_assoc]
            rfl
  | finalBody =>
    cases h
    exact .inr (.inr (.inl rfl))
  | space =>
    cases h with
    | both hword hname =>
      cases hword
      cases hname with
      | @unlessEmpty _ _ _ _ _ v hname =>
        refine .inr (.inr (.inr ?_))
        unfold Lowered.wrapped
        split
        · rename_i hempty
          refine .inl ?_
          show "namespace" ++ v.value ++ " \x7b" = _
          rw [String.isEmpty_iff.mp hempty]
          rfl
        · refine .inr ⟨v.value, ?_⟩
          show "namespace" ++ (" " ++ v.value ++ "") ++ " \x7b" = _
          simp only [String.append_assoc]
          rfl

theorem Leavable.isLeavable (hp : p.Leavable) (h : Runs p c a c') (k : Nat) :
    Block.IsLeavable ⟨k, a.value ++ " \x7b"⟩ := by
  by_cases hswitch : ∃ v, p = .text "switch (" ++ v ++ .text ")"
  · obtain ⟨v, rfl⟩ := hswitch
    exact .inl (h.isSwitch_header k)
  · exact .inr (hp.isSection (fun v hv => hswitch ⟨v, hv⟩) h k)

/-- What stands apart is run as if it stood outside of every frame. -/
theorem Runs.of_apart (h : Runs (.apart p) c a c') :
    ∃ c'', Runs (.apart p) (c.framed []) a c'' := by
  cases h with
  | apart h => exact ⟨_, .apart h⟩

/-- **A nested plan runs to contained code**, and what jumps out of it goes to a frame that it was
run in. -/
theorem Nested.contained {gotos : Prop} (hp : p.Nested gotos) (h : Runs p c a c') {fs : List Frame}
    (hfs : c.frames = fs) : Contained gotos (fs.flatMap Frame.targets) [] a.effects := by
  induction hp generalizing c a c' fs with
  | plain hplain => exact (h.plainText hplain).contained _
  | both _ _ ih₁ ih₂ =>
    cases h with
    | both h₁ h₂ =>
      have hall := (ih₁ h₁ hfs).append (ih₂ h₂ (h₁.frames_eq.trans hfs))
      exact hall.mono (by simp) (List.nil_subset _)
  | statement _ ih =>
    cases h with
    | statement _ _ hp => exact ih hp hfs
    | statementAgain => exact PlainText.nil.contained _
  | emit hgotos hplain =>
    cases h
    refine ⟨.plain (List.forall_mem_singleton.mpr hplain), fun h => absurd hgotos h, ?_⟩
    exact List.forall_mem_nil _
  | jump =>
    cases h
    exact hfs ▸ contained_jump c _ _
  | closeCase =>
    cases h
    unfold Lowered.ofCode
    split
    · exact PlainText.nil.contained _
    · exact (PlainText.singleton (by decide)).contained _
  | ifThen hcond _ ih =>
    cases h with
    | ifThen h₁ h₂ =>
      exact Shape.contained_ifThen (h₁.plainText hcond) _ (ih h₂ (h₁.frames_eq.trans hfs))
  | ifThenElse hcond _ _ ih₂ ih₃ =>
    cases h with
    | ifThenElse h₁ h₂ h₃ =>
      have hframes := h₁.frames_eq.trans hfs
      exact Shape.contained_ifThenElse (h₁.plainText hcond) _ _ (ih₂ h₂ hframes)
        (ih₃ h₃ (h₂.frames_eq.trans hframes))
  | whileLoop hcond _ ih =>
    cases h with
    | whileLoop h₁ h₂ =>
      have hframes := h₁.frames_eq.trans hfs
      exact Shape.contained_whileLoop (h₁.plainText hcond) _ _
        (ih h₂ (congrArg (List.cons _) hframes))
  | doWhile _ hcond ih =>
    cases h with
    | doWhile h₁ h₂ =>
      exact Shape.contained_doWhile (h₂.plainText hcond) _ _
        (ih h₁ (congrArg (List.cons _) hfs))
  | barrier hcond =>
    cases h with
    | barrier h₁ =>
      have hframes := h₁.frames_eq.trans hfs
      exact hframes ▸ contained_barrier (h₁.plainText hcond) _
  | forLoop hinit _ htest hstep _ ihg ihb =>
    cases h with
    | @forLoop _ _ _ _ _ _ c₁ _ _ _ _ _ _ a _ _ h₁ h₂ h₃ h₄ h₅ =>
      have hframes := h₁.frames_eq.trans hfs
      have hlast := h₃.plainText htest
      refine Shape.contained_forLoop _ _ (h₁.plainText hinit) (h₅.plainText hstep) _ _ _
        (Shape.isPlain_test hlast _ _) ?_ (ihg h₂ (congrArg (List.cons _) hframes))
        (ihb h₄ (congrArg (List.cons _) (h₃.frames_eq.trans hframes)))
      intro t ht
      rw [Shape.test, targetsIn_append, hlast.1.targetsIn] at ht
      simpa using ht
  | endless hinit hstep _ ih =>
    cases h with
    | endless h₁ h₂ h₃ =>
      have hframes := h₁.frames_eq.trans hfs
      exact Shape.contained_forLoop [] [] (h₁.plainText hinit) (h₃.plainText hstep) _ _ _
        (List.forall_mem_nil _) (List.forall_mem_nil _) (PlainText.nil.contained _)
        (ih h₂ (congrArg (List.cons _) hframes))
  | foreachLoop hiter hbind _ ih =>
    cases h with
    | foreachLoop h₁ h₂ h₃ =>
      have hframes := h₂.frames_eq.trans (h₁.frames_eq.trans hfs)
      exact Shape.contained_foreachLoop (h₁.plainText hiter) (h₂.plainText hbind) _ _
        (ih h₃ (congrArg (List.cons _) hframes))
  | inSwitch _ ih =>
    cases h with
    | inSwitch h₁ =>
      have hcases : Contained gotos ((.switch :: fs).flatMap Frame.targets) [] a.effects :=
        ih h₁ (congrArg (List.cons _) hfs)
      exact hcases
  | apart _ ih =>
    cases h with
    | apart h₁ => exact (ih h₁ rfl).mono (List.nil_subset _) (List.nil_subset _)
  | declared _ ih =>
    cases h with
    | declared h₁ => exact ih h₁ hfs
  | @braced p q hleave hheader _ ih =>
    obtain ⟨x, c₁, y, hp, hq, heffects⟩ := h.of_braced
    rw [heffects]
    have hfront : Contained gotos (fs.flatMap Frame.targets) [] x.effects :=
      (hp.plainText hheader).contained _
    have hopens := Instruction.opens_text x.value
    have hblock : Contained gotos (fs.flatMap Frame.targets) []
        (.text (x.value ++ " \x7b") :: (y.effects ++ [Instruction.text "\x7d"])) := by
      rcases hleave with hp' | ⟨r, rfl⟩
      · exact (ih hq (hp.frames_eq.trans hfs)).block hopens rfl (by decide) rfl
          (.inr fun k => hp'.isLeavable hp k) rfl
      · obtain ⟨c₂, halone⟩ := hq.of_apart
        exact ((ih halone rfl).block hopens rfl (by decide) rfl (.inl rfl) rfl).mono
          (List.nil_subset _) (List.nil_subset _)
    exact (hfront.append hblock).mono (by simp) (List.nil_subset _)

end Plan

end ThreeAddress.Lowering

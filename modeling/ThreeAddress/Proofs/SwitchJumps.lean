import ThreeAddress.Proofs.Depth
import ThreeAddress.Proofs.Placement

/-!
# Jumps to a switch

A switch keeps its braces, and a jump to it is written as a plain `break`, whatever number of loops
and switches it was to leave. `Within` tells which loops and switches stand around a statement, and
`Matches` relates them to the frames and the open blocks where the statement is lowered.

So **the break always stands in the block of its switch, and it leaves that switch just when no
other switch stands between the two** (`break_leaves_switch_iff`): in nested switches a jump over
both leaves the inner one only (`break_in_nested_switches`).
-/

namespace ThreeAddress.Lowering

open Syntax (Node Kind)

/-! ## What stands around a statement -/

/-- How a node holds the code inside it. -/
inductive Enclosure where
  /-- As code of its own level. -/
  | level
  | loop
  | switch
  /-- In a block of a try, a catch, a finally or a namespace. -/
  | block
  /-- In the body of a declaration. -/
  | declaration
deriving DecidableEq, Repr

/-- The statements, cases and handlers inside a kind, each with how it is held and its role. -/
def inner {α : Type} : Kind α → List (Enclosure × Role × α)
  | .script body | .block body | .caseClause _ body => body.map (.level, .statement, ·)
  | .ifElse _ thenBranch elseBranch =>
    (thenBranch ++ elseBranch.getD []).map (.level, .statement, ·)
  | .whileLoop _ body | .doWhile body _ | .forLoop _ _ _ body | .foreachLoop _ _ _ _ body =>
    body.map (.loop, .statement, ·)
  | .switch _ cases => cases.map (.switch, .caseClause, ·)
  | .tryCatch body catches finalBody =>
    (body ++ finalBody.getD []).map (.block, .statement, ·)
      ++ catches.map (.level, .catchClause, ·)
  | .catchClause _ _ body => body.map (.block, .statement, ·)
  | .namespaceStmt _ body => (body.getD []).map (.block, .statement, ·)
  | .functionDecl _ _ body _ | .classDecl _ _ _ _ body | .interfaceDecl _ _ body
  | .traitDecl _ body => body.map (.declaration, .statement, ·)
  | .methodDecl _ _ _ body _ => (body.getD []).map (.declaration, .statement, ·)
  | _ => []

/-- The loops and switches around what a node holds, the innermost first, if `outer` are those
around the node. -/
def Enclosure.around (n : Node) (outer : List Node) : Enclosure → List Node
  | .level | .block => outer
  | .loop | .switch => n :: outer
  | .declaration => []

/-- The node stands in the tree, in a role, and the loops and switches are those around it. -/
inductive Within (root : Node) : List Node → Role → Node → Prop
  | root : Within root [] .statement root
  | inner {outer : List Node} {r r' : Role} {n m : Node} {e : Enclosure} :
      Within root outer r n → (e, r', m) ∈ inner n.kind → Within root (e.around n outer) r' m

/-- Whether the kind is a switch. -/
def isSwitch {α : Type} : Kind α → Bool
  | .switch .. => true
  | _ => false

/-- The block around the cases of a switch: they are lowered right behind its header. -/
def BlockOf (root : Node) (o : Options) (n : Node) (b : Block) : Prop :=
  ∃ header body d pre, (planned n).plan = .braced header body ∧ b.line = pre.length ∧
    Plan.Inside body d (planned root).code { options := o } (pre ++ [Instruction.text b.header])

/-- The loops and switches around a statement, the frames that it is lowered in, and the blocks that
are open there. -/
inductive Matches (root : Node) (o : Options) : List Node → List Frame → List Block → Prop
  | none {bs : List Block} : Matches root o [] [] bs
  | loop {n : Node} {outer : List Node} {fs : List Frame} {bs : List Block} {t t' : String} :
      ¬ isSwitch n.kind → Matches root o outer fs bs →
      Matches root o (n :: outer) (.loop t t' :: fs) bs
  | switch {n : Node} {outer : List Node} {fs : List Frame} {b : Block} {bs : List Block} :
      isSwitch n.kind → b.IsSwitch → BlockOf root o n b → Matches root o outer fs bs →
      Matches root o (n :: outer) (.switch :: fs) (b :: bs)
  | block {outer : List Node} {fs : List Frame} {b : Block} {bs : List Block} :
      ¬ b.IsSwitch → Matches root o outer fs bs → Matches root o outer fs (b :: bs)

/-- What a jump over so many loops and switches finds. -/
theorem Matches.of_switch {root : Node} {o : Options} {outer : List Node} {fs : List Frame}
    {bs : List Block} (h : Matches root o outer fs bs) {k : Nat} {n : Node}
    (hk : outer[k]? = some n) (hn : isSwitch n.kind) :
    fs[k]? = some .switch ∧ ∃ above b below, bs = above ++ b :: below ∧ BlockOf root o n b ∧
      b.IsSwitch ∧
      ((∀ x ∈ above, ¬ x.IsSwitch) ↔ ∀ m ∈ outer.take k, ¬ isSwitch m.kind) := by
  induction h generalizing k with
  | none => cases hk
  | @loop m outer fs bs _ _ hm _ ih =>
    cases k with
    | zero =>
      obtain rfl := Option.some.inj hk
      exact absurd hn hm
    | succ k =>
      obtain ⟨hframe, above, b, below, hbs, hblock, hswitch, hiff⟩ := ih hk
      refine ⟨hframe, above, b, below, hbs, hblock, hswitch, hiff.trans ?_⟩
      rw [List.take_succ_cons, List.forall_mem_cons]
      exact (and_iff_right hm).symm
  | @switch m outer fs b bs hm hb hof _ ih =>
    cases k with
    | zero =>
      obtain rfl := Option.some.inj hk
      exact ⟨rfl, [], b, bs, rfl, hof, hb, by simp⟩
    | succ k =>
      obtain ⟨hframe, above, b', below, hbs, hblock, hswitch, -⟩ := ih hk
      refine ⟨hframe, b :: above, b', below, by rw [hbs]; rfl, hblock, hswitch, ?_⟩
      -- the switch in between fails both sides
      constructor
      · intro hall
        exact absurd hb (hall b List.mem_cons_self)
      · intro hall
        exact absurd hm (hall m (by rw [List.take_succ_cons]; exact List.mem_cons_self))
  | @block outer fs b bs hb _ ih =>
    obtain ⟨hframe, above, b', below, hbs, hblock, hswitch, hiff⟩ := ih hk
    refine ⟨hframe, b :: above, b', below, by rw [hbs]; rfl, hblock, hswitch, Iff.trans ?_ hiff⟩
    rw [List.forall_mem_cons]
    exact and_iff_right hb

/-! ## Headers -/

namespace Plan

variable {p q : Plan} {c c' : Context} {a : Lowered}

/-- The body of a block is run behind the header. -/
theorem Runs.inside_braced (h : Runs (.braced p q) c a c') :
    ∃ x c₁ y, Runs p c x c₁ ∧ Runs q c₁ y c' ∧
      Inside q c₁ (.braced p q) c (x.effects ++ [Instruction.text (x.value ++ " \x7b")]) := by
  obtain ⟨x, c₁, y, hp, hq, -⟩ := h.of_braced
  refine ⟨x, c₁, y, hp, hq, ?_⟩
  have hinside : Inside q c₁ (.braced p q) c
      ([] ++ ((x.effects ++ [] ++ [Instruction.text (x.value ++ " \x7b")]) ++ [])) :=
    .step .first (.step (.second (.line (.both hp .text))) .here)
  simpa using hinside

theorem Runs.blocksAfter_header (h : Runs p c a c') (hp : p.IsPlain) (k : Nat) (bs : List Block) :
    blocksAfter k bs (a.effects ++ [Instruction.text (a.value ++ " \x7b")])
      = some (⟨k + a.effects.length, a.value ++ " \x7b"⟩ :: bs) := by
  rw [blocksAfter_append, (Balanced.plain (h.plainText hp).2).blocksAfter_eq]
  exact blocksAfter_opens (Instruction.opens_text a.value)

end Plan

/-! ## Coming to a statement -/

/-- When the tree is lowered, the plan is run inside of the loops and switches. -/
inductive Reached (root : Node) (o : Options) (outer : List Node) (q : Plan) : Prop
  | intro {d d' : Context} {b : Lowered} {pre : List Instruction} {bs : List Block} :
      Plan.Inside q d (planned root).code { options := o } pre → Plan.Runs q d b d' →
      Fresh q.ids d → blocksAfter 0 [] pre = some bs → Matches root o outer d.frames bs →
      Reached root o outer q

namespace Reached

open Plan (Runs Enters Inside)

variable {root n : Node} {o : Options} {outer outer' : List Node} {p q r : Plan}

/-- A run that reaches a plan goes on to a part of it. -/
theorem goOn (h : Reached root o outer p)
    (hstep : ∀ c a c', Runs p c a c' → Fresh p.ids c → ∃ d pre b d', Inside q d p c pre ∧
      Runs q d b d' ∧ Fresh q.ids d ∧ ∀ front bs,
        Inside p c (planned root).code { options := o } front → Matches root o outer c.frames bs →
        ∃ bs', blocksAfter front.length bs pre = some bs' ∧ Matches root o outer' d.frames bs') :
    Reached root o outer' q := by
  obtain ⟨hinside, hrun, hfresh, hblocks, hmatches⟩ := h
  obtain ⟨d, pre, b, d', hpart, hq, hfresh', hgo⟩ := hstep _ _ _ hrun hfresh
  obtain ⟨bs', hbs', hmatches'⟩ := hgo _ _ hinside hmatches
  refine .intro (hinside.trans hpart) hq hfresh' ?_ hmatches'
  rw [blocksAfter_append, hblocks, Nat.zero_add]
  exact hbs'

/-- A part in the same frames, behind lines whose blocks are closed. -/
theorem level (h : Reached root o outer p)
    (hstep : ∀ c a c', Runs p c a c' → Fresh p.ids c → ∃ d pre b d', Enters p c q d pre ∧
      Runs q d b d' ∧ Fresh q.ids d ∧ Balanced pre ∧ d.frames = c.frames) :
    Reached root o outer q := by
  refine h.goOn fun c a c' hrun hfresh => ?_
  obtain ⟨d, pre, b, d', henters, hq, hfresh', hpre, hframes⟩ := hstep c a c' hrun hfresh
  refine ⟨d, pre ++ [], b, d', .step henters .here, hq, hfresh', fun front bs _ hm => ⟨bs, ?_, ?_⟩⟩
  · rw [List.append_nil]
    exact hpre.blocksAfter_eq _ _
  · rw [hframes]
    exact hm

/-- A part in one more loop. -/
theorem loop (hn : ¬ isSwitch n.kind) (h : Reached root o outer p)
    (hstep : ∀ c a c', Runs p c a c' → Fresh p.ids c → ∃ d pre b d' t t', Enters p c q d pre ∧
      Runs q d b d' ∧ Fresh q.ids d ∧ Balanced pre ∧ d.frames = .loop t t' :: c.frames) :
    Reached root o (n :: outer) q := by
  refine h.goOn fun c a c' hrun hfresh => ?_
  obtain ⟨d, pre, b, d', t, t', henters, hq, hfresh', hpre, hframes⟩ := hstep c a c' hrun hfresh
  refine ⟨d, pre ++ [], b, d', .step henters .here, hq, hfresh', fun front bs _ hm => ⟨bs, ?_, ?_⟩⟩
  · rw [List.append_nil]
    exact hpre.blocksAfter_eq _ _
  · rw [hframes]
    exact .loop hn hm

theorem first (h : Reached root o outer (.both p q)) : Reached root o outer p := by
  refine h.level fun c a c' hrun hfresh => ?_
  cases hrun with
  | both h₁ _ => exact ⟨_, _, _, _, .first, h₁, hfresh.left, .plain (List.forall_mem_nil _), rfl⟩

theorem second (h : Reached root o outer (.both p q)) (hp : p.Nested True) :
    Reached root o outer q := by
  refine h.level fun c a c' hrun hfresh => ?_
  cases hrun with
  | both h₁ h₂ =>
    exact ⟨_, _, _, _, .second h₁, h₂, h₁.fresh hfresh, (hp.contained h₁ rfl).balanced,
      h₁.frames_eq⟩

theorem statement {t : Tag} (h : Reached root o outer (.statement t p)) :
    Reached root o outer p := by
  refine h.level fun c a c' hrun hfresh => ?_
  have hnew : t.id ∉ c.visited := hfresh.2 _ List.mem_cons_self
  cases hrun with
  | statement _ _ h₁ =>
    exact ⟨_, _, _, _, .statement hnew, h₁, hfresh.met, .plain (List.forall_mem_nil _), rfl⟩
  | statementAgain hold => exact absurd hold hnew

theorem declared {kind : String} (h : Reached root o outer (.declared kind p)) :
    Reached root o outer p := by
  refine h.level fun c a c' hrun hfresh => ?_
  cases hrun with
  | declared h₁ => exact ⟨_, _, _, _, .declared, h₁, hfresh, .plain (List.forall_mem_nil _), rfl⟩

/-- A plan in a sequence of plans. -/
theorem all {ps : List Plan} (h : Reached root o outer (.all ps)) (hps : ∀ p ∈ ps, p.Nested True)
    (hp : p ∈ ps) : Reached root o outer p := by
  induction ps with
  | nil => cases hp
  | cons x ps ih =>
    obtain ⟨hx, hrest⟩ := List.forall_mem_cons.mp hps
    rcases List.mem_cons.mp hp with rfl | hp
    · exact h.first
    · exact ih (h.second hx) hrest hp

theorem ifThen (h : Reached root o outer (.ifThen p q)) (hp : p.IsPlain) :
    Reached root o outer q := by
  refine h.level fun c a c' hrun hfresh => ?_
  cases hrun with
  | ifThen h₁ h₂ =>
    refine ⟨_, _, _, _, .ifThen h₁, h₂, h₁.fresh hfresh, .plain ?_, h₁.frames_eq⟩
    exact List.forall_mem_append.mpr ⟨Shape.isPlain_test (h₁.plainText hp) _ _,
      List.forall_mem_singleton.mpr (Instruction.isPlain_label _)⟩

theorem thenBranch (h : Reached root o outer (.ifThenElse p q r)) (hp : p.IsPlain) :
    Reached root o outer q := by
  refine h.level fun c a c' hrun hfresh => ?_
  cases hrun with
  | ifThenElse h₁ h₂ _ =>
    refine ⟨_, _, _, _, .thenBranch h₁, h₂, (h₁.fresh hfresh.assoc).left, .plain ?_, h₁.frames_eq⟩
    exact List.forall_mem_append.mpr ⟨Shape.isPlain_test (h₁.plainText hp) _ _,
      List.forall_mem_singleton.mpr (Instruction.isPlain_label _)⟩

theorem elseBranch (h : Reached root o outer (.ifThenElse p q r)) (hp : p.IsPlain)
    (hq : q.Nested True) : Reached root o outer r := by
  refine h.level fun c a c' hrun hfresh => ?_
  cases hrun with
  | @ifThenElse _ _ _ _ c₁ c₂ _ x y z h₁ h₂ h₃ =>
    have hfresh₁ : Fresh (q.ids ++ r.ids) c₁.labelled.labelled := h₁.fresh hfresh.assoc
    refine ⟨_, _, _, _, .elseBranch h₁ h₂, h₃, h₂.fresh hfresh₁, ?_,
      h₂.frames_eq.trans h₁.frames_eq⟩
    have hlabel (t : String) : Balanced [.label t] :=
      .plain (List.forall_mem_singleton.mpr (Instruction.isPlain_label t))
    have hbody := (hlabel (Labels.ofNat c₁.labels).start).append (hq.contained h₂ rfl).balanced
    refine ((Balanced.plain (Shape.isPlain_test (h₁.plainText hp) _ _)).append hbody).append ?_
    exact .plain (by simp [Instruction.isPlain_goto, Instruction.isPlain_label])

theorem whileLoop (hn : ¬ isSwitch n.kind) (h : Reached root o outer (.whileLoop p q))
    (hp : p.IsPlain) : Reached root o (n :: outer) q := by
  refine h.loop hn fun c a c' hrun hfresh => ?_
  cases hrun with
  | whileLoop h₁ h₂ =>
    refine ⟨_, _, _, _, _, _, .whileLoop h₁, h₂, h₁.fresh hfresh, .plain ?_,
      congrArg (List.cons _) h₁.frames_eq⟩
    refine List.forall_mem_cons.mpr ⟨Instruction.isPlain_label _, ?_⟩
    exact List.forall_mem_append.mpr ⟨Shape.isPlain_test (h₁.plainText hp) _ _,
      List.forall_mem_singleton.mpr (Instruction.isPlain_label _)⟩

theorem doWhile (hn : ¬ isSwitch n.kind) (h : Reached root o outer (.doWhile p q)) :
    Reached root o (n :: outer) p := by
  refine h.loop hn fun c a c' hrun hfresh => ?_
  cases hrun with
  | doWhile h₁ _ =>
    exact ⟨_, _, _, _, _, _, .doWhile, h₁, hfresh.left,
      .plain (List.forall_mem_singleton.mpr (Instruction.isPlain_label _)), rfl⟩

theorem forLoop {g t s b : Plan} (hn : ¬ isSwitch n.kind)
    (h : Reached root o outer (.forLoop p g t s b)) (hp : p.IsPlain) (hg : g.Nested True)
    (ht : t.IsPlain) : Reached root o (n :: outer) b := by
  refine h.loop hn fun c a c' hrun hfresh => ?_
  cases hrun with
  | @forLoop _ _ _ _ _ _ c₁ c₂ c₃ _ _ x y z _ _ h₁ h₂ h₃ h₄ _ =>
    have hfresh₁ : Fresh (g.ids ++ (t.ids ++ (s.ids ++ b.ids))) c₁ :=
      h₁.fresh (by simpa [Plan.ids] using hfresh)
    have hfresh₂ : Fresh (t.ids ++ (s.ids ++ b.ids)) c₂ := h₂.fresh hfresh₁
    have hfresh₃ : Fresh (s.ids ++ b.ids) c₃ := h₃.fresh hfresh₂
    refine ⟨_, _, _, _, _, _, .forLoop h₁ h₂ h₃, h₄, hfresh₃.swap.left, ?_,
      congrArg (List.cons _) (h₃.frames_eq.trans h₁.frames_eq)⟩
    have hlabel (t : String) : Balanced [.label t] :=
      .plain (List.forall_mem_singleton.mpr (Instruction.isPlain_label t))
    have htests := (hg.contained h₂ rfl).balanced.append
      (.plain (Shape.isPlain_test (h₃.plainText ht) (Labels.ofNat (c₁.labels + 1)).start
        (Labels.ofNat c₁.labels).stop))
    exact ((Balanced.plain (h₁.plainText hp).2).append ((hlabel _).append htests)).append (hlabel _)

theorem endless {s b : Plan} (hn : ¬ isSwitch n.kind)
    (h : Reached root o outer (.endless p s b)) (hp : p.IsPlain) :
    Reached root o (n :: outer) b := by
  refine h.loop hn fun c a c' hrun hfresh => ?_
  cases hrun with
  | endless h₁ h₂ _ =>
    refine ⟨_, _, _, _, _, _, .endless h₁, h₂, (h₁.fresh hfresh.assoc).swap.left, ?_,
      congrArg (List.cons _) h₁.frames_eq⟩
    have hlabel (t : String) : Balanced [.label t] :=
      .plain (List.forall_mem_singleton.mpr (Instruction.isPlain_label t))
    exact ((Balanced.plain (h₁.plainText hp).2).append (hlabel _)).append (hlabel _)

theorem foreachLoop {v b : Plan} (hn : ¬ isSwitch n.kind)
    (h : Reached root o outer (.foreachLoop p v b)) (hp : p.IsPlain) (hv : v.IsPlain) :
    Reached root o (n :: outer) b := by
  refine h.loop hn fun c a c' hrun hfresh => ?_
  cases hrun with
  | foreachLoop h₁ h₂ h₃ =>
    refine ⟨_, _, _, _, _, _, .foreachLoop h₁ h₂, h₃, h₂.fresh (h₁.fresh hfresh.assoc), .plain ?_,
      congrArg (List.cons _) (h₂.frames_eq.trans h₁.frames_eq)⟩
    refine List.forall_mem_append.mpr ⟨List.forall_mem_append.mpr ⟨(h₁.plainText hp).2,
      (h₂.plainText hv).2⟩, ?_⟩
    simp [Instruction.isPlain_foreach, Instruction.isPlain_goto, Instruction.isPlain_label]

/-- The body of a block that is no switch. -/
theorem block (h : Reached root o outer (.braced p q)) (hp : p.IsPlain) (hleave : p.Leavable)
    (hother : ∀ v, p ≠ .text "switch (" ++ v ++ .text ")") : Reached root o outer q := by
  refine h.goOn fun c a c' hrun hfresh => ?_
  obtain ⟨x, c₁, y, h₁, h₂, hinside⟩ := hrun.inside_braced
  rw [Plan.ids_braced] at hfresh
  refine ⟨c₁, _, y, c', hinside, h₂, h₁.fresh hfresh, fun front bs _ hm =>
    ⟨_, h₁.blocksAfter_header hp _ bs, ?_⟩⟩
  refine .block (hleave.isSection hother h₁ _).not_isSwitch ?_
  rw [h₁.frames_eq]
  exact hm

/-- The cases of a switch. -/
theorem switch {v : Plan} (hn : isSwitch n.kind)
    (hplan : (planned n).plan = .braced (.text "switch (" ++ v ++ .text ")") (.inSwitch q))
    (h : Reached root o outer (.braced (.text "switch (" ++ v ++ .text ")") (.inSwitch q)))
    (hv : v.IsPlain) : Reached root o (n :: outer) q := by
  refine h.goOn fun c a c' hrun hfresh => ?_
  obtain ⟨x, c₁, y, h₁, h₂, hinside⟩ := hrun.inside_braced
  rw [Plan.ids_braced] at hfresh
  cases h₂ with
  | inSwitch h₃ =>
    refine ⟨_, _, y, _, hinside.trans (.step .inSwitch .here), h₃, h₁.fresh hfresh, ?_⟩
    intro front bs hfront hm
    have hblock : BlockOf root o n ⟨front.length + x.effects.length, x.value ++ " \x7b"⟩ := by
      refine ⟨_, _, c₁, front ++ x.effects, hplan, List.length_append.symm, ?_⟩
      rw [List.append_assoc]
      exact hfront.trans hinside
    refine ⟨_, ?_, .switch hn (h₁.isSwitch_header _) hblock (h₁.frames_eq ▸ hm)⟩
    rw [List.append_nil, List.append_nil]
    exact h₁.blocksAfter_header ⟨⟨trivial, hv⟩, trivial⟩ _ bs

/-- The body of a declaration. -/
theorem declaration (h : Reached root o outer (.braced p (.apart q))) (hp : p.IsPlain) :
    Reached root o [] q := by
  refine h.goOn fun c a c' hrun hfresh => ?_
  obtain ⟨x, c₁, y, h₁, h₂, hinside⟩ := hrun.inside_braced
  rw [Plan.ids_braced] at hfresh
  cases h₂ with
  | apart h₃ =>
    refine ⟨_, _, y, _, hinside.trans (.step .apart .here), h₃, h₁.fresh hfresh, ?_⟩
    intro front bs _ _
    refine ⟨⟨front.length + x.effects.length, x.value ++ " \x7b"⟩ :: bs, ?_, .none⟩
    rw [List.append_nil, List.append_nil]
    exact h₁.blocksAfter_header hp _ bs

theorem not_fail {e : LoweringError} : ¬ Reached root o outer (.fail e) := by
  rintro ⟨-, hrun, -, -, -⟩
  cases hrun

end Reached

/-! ## The parts of a node -/

theorem nested_all {ps : List Plan} (h : ∀ p ∈ ps, p.Nested True) : (Plan.all ps).Nested True := by
  induction ps with
  | nil => exact .plain trivial
  | cons p ps ih =>
    obtain ⟨hp, hps⟩ := List.forall_mem_cons.mp h
    exact .both hp (ih hps)

/-- Nodes in a role of code are lowered by nested plans. -/
theorem nested_map_as {r : Role} (hr : r.use = .code) (ns : List Node) :
    ∀ p ∈ (ns.map planned).map (·.as r), p.Nested True := by
  rw [List.map_map]
  exact List.forall_mem_map.mpr fun n _ => nested_as n (fun _ _ _ => trivial) hr

/-- A node in a sequence of nodes. -/
theorem Reached.of_map {root m : Node} {o : Options} {outer ns : List Node} {r : Role}
    (hr : r.use = .code) (h : Reached root o outer (.all ((ns.map planned).map (·.as r))))
    (hm : m ∈ ns) : Reached root o outer ((planned m).as r) :=
  h.all (nested_map_as hr ns) (List.mem_map_of_mem (List.mem_map_of_mem hm))

/-- A statement in a list of statements. -/
theorem Reached.codeOf {root m : Node} {o : Options} {outer ns : List Node}
    (h : Reached root o outer (Lowering.codeOf (ns.map planned))) (hm : m ∈ ns) :
    Reached root o outer ((planned m).as .statement) :=
  Reached.of_map rfl h hm

theorem mem_map_held {α : Type} {e e' : Enclosure} {r r' : Role} {m : α} {ns : List α}
    (h : (e', r', m) ∈ ns.map (e, r, ·)) : e' = e ∧ r' = r ∧ m ∈ ns := by
  obtain ⟨x, hx, heq⟩ := List.mem_map.mp h
  cases heq
  exact ⟨rfl, rfl, hx⟩

/-- **A run that reaches a node reaches all that it holds.** -/
theorem Reached.inner {root n m : Node} {o : Options} {outer : List Node} {r r' : Role}
    {e : Enclosure} (h : Reached root o outer ((planned n).as r)) (hr : r.use = .code)
    (hm : (e, r', m) ∈ Lowering.inner n.kind) :
    Reached root o (e.around n outer) ((planned m).as r') := by
  have hn : ((planned n).as r).Nested True := nested_as n (fun _ _ _ => trivial) hr
  have hplan := congrArg Planned.plan (planned_eq n)
  rw [planned_eq] at h hn
  obtain ⟨id, k, location, span⟩ := n
  cases r with
  | statement =>
    cases k with
    | script body | block body =>
      obtain ⟨rfl, rfl, hx⟩ := mem_map_held hm
      exact h.statement.codeOf hx
    | ifElse condition thenBranch elseBranch =>
      obtain ⟨rfl, rfl, hx⟩ := mem_map_held hm
      cases elseBranch with
      | none =>
        cases hn.of_statement with
        | plain h => exact h.elim
        | ifThen hp _ => exact (h.statement.ifThen hp).codeOf (by simpa using hx)
      | some elseBranch =>
        cases hn.of_statement with
        | plain h => exact h.elim
        | ifThenElse hp hq _ =>
          rcases List.mem_append.mp hx with hx | hx
          · exact (h.statement.thenBranch hp).codeOf hx
          · exact (h.statement.elseBranch hp hq).codeOf hx
    | whileLoop condition body =>
      obtain ⟨rfl, rfl, hx⟩ := mem_map_held hm
      cases hn.of_statement with
      | plain h => exact h.elim
      | whileLoop hp _ => exact (h.statement.whileLoop (by rintro ⟨⟩) hp).codeOf hx
    | doWhile body condition =>
      obtain ⟨rfl, rfl, hx⟩ := mem_map_held hm
      exact (h.statement.doWhile (by rintro ⟨⟩)).codeOf hx
    | forLoop init conditions step body =>
      obtain ⟨rfl, rfl, hx⟩ := mem_map_held hm
      have hfor : Reached root o outer (forPlan (init.map planned) (conditions.map planned)
        (step.map planned) (body.map planned)) := h.statement
      have hnested : (forPlan (init.map planned) (conditions.map planned)
        (step.map planned) (body.map planned)).Nested True := hn.of_statement
      unfold forPlan at hfor hnested
      split at hfor
      · rename_i test htest
        rw [htest] at hnested
        cases hnested with
        | plain h => exact h.elim
        | forLoop hi hg ht _ _ => exact (hfor.forLoop (by rintro ⟨⟩) hi hg ht).codeOf hx
      · rename_i htest
        rw [htest] at hnested
        cases hnested with
        | plain h => exact h.elim
        | endless hi _ _ => exact (hfor.endless (by rintro ⟨⟩) hi).codeOf hx
    | foreachLoop iterable key value byRef body =>
      obtain ⟨rfl, rfl, hx⟩ := mem_map_held hm
      cases hn.of_statement with
      | plain h => exact h.elim
      | foreachLoop hp hv _ => exact (h.statement.foreachLoop (by rintro ⟨⟩) hp hv).codeOf hx
    | switch subject cases =>
      obtain ⟨rfl, rfl, hx⟩ := mem_map_held hm
      have hv : (planned subject).value.IsPlain := hn.of_statement.of_braced.1.1.2
      exact Reached.of_map rfl (Reached.switch rfl hplan h.statement hv) hx
    | namespaceStmt name body =>
      obtain ⟨rfl, rfl, hx⟩ := mem_map_held hm
      cases body with
      | none => cases hx
      | some body =>
        exact (h.statement.block hn.of_statement.of_braced.1 .space (by rintro v ⟨⟩)).codeOf hx
    | functionDecl | classDecl | interfaceDecl | traitDecl =>
      obtain ⟨rfl, rfl, hx⟩ := mem_map_held hm
      exact (h.statement.declared.declaration hn.of_statement.of_declared.of_braced.1).codeOf hx
    | methodDecl name modifiers params body byRef =>
      obtain ⟨rfl, rfl, hx⟩ := mem_map_held hm
      cases body with
      | none => cases hx
      | some body =>
        exact (h.statement.declared.declaration hn.of_statement.of_declared.of_braced.1).codeOf hx
    | tryCatch body catches finalBody =>
      have hbody : (Plan.braced (.text "try") (Lowering.codeOf (body.map planned))).Nested True :=
        .braced (.inl .tryBody) trivial (nested_all (nested_map_as (r := .statement) rfl body))
      have hcatches := nested_all (nested_map_as (r := .catchClause) rfl catches)
      rcases List.mem_append.mp hm with hm | hm
      · obtain ⟨rfl, rfl, hx⟩ := mem_map_held hm
        rcases List.mem_append.mp hx with hx | hx
        · exact (h.statement.first.first.block trivial .tryBody (by rintro v ⟨⟩)).codeOf hx
        · cases finalBody with
          | none => cases hx
          | some finalBody =>
            have hlast := h.statement.second (.both hbody hcatches)
            exact (hlast.block trivial .finalBody (by rintro v ⟨⟩)).codeOf hx
      · obtain ⟨rfl, rfl, hx⟩ := mem_map_held hm
        exact Reached.of_map rfl (h.statement.first.second hbody) hx
    | caseClause | catchClause => exact absurd h not_fail
    | _ => cases hm
  | caseClause =>
    cases k with
    | caseClause test body =>
      obtain ⟨rfl, rfl, hx⟩ := mem_map_held hm
      cases test with
      | none => exact (h.first.second (.plain ⟨rfl, trivial, trivial⟩)).codeOf hx
      | some test =>
        have hvalue : (planned test).value.IsPlain :=
          suits_as test (fun _ _ _ => trivial) .value
        exact (h.first.second (.plain ⟨rfl, ⟨⟨trivial, trivial⟩, hvalue⟩, trivial⟩)).codeOf hx
    | _ => exact absurd h not_fail
  | catchClause =>
    cases k with
    | catchClause types caught body =>
      obtain ⟨rfl, rfl, hx⟩ := mem_map_held hm
      exact (h.block hn.of_braced.1 .handler (by rintro v ⟨⟩)).codeOf hx
    | _ => exact absurd h not_fail
  | _ => cases hr

theorem use_of_mem_inner {α : Type} {k : Kind α} {e : Enclosure} {r : Role} {m : α}
    (h : (e, r, m) ∈ inner k) : r.use = .code := by
  cases k with
  | tryCatch =>
    rcases List.mem_append.mp h with h | h
    · obtain ⟨-, rfl, -⟩ := mem_map_held h
      rfl
    · obtain ⟨-, rfl, -⟩ := mem_map_held h
      rfl
  | script | block | caseClause | ifElse | whileLoop | doWhile | forLoop | foreachLoop | switch
  | catchClause | namespaceStmt | functionDecl | classDecl | interfaceDecl | traitDecl
  | methodDecl =>
    obtain ⟨-, rfl, -⟩ := mem_map_held h
    rfl
  | _ => cases h

/-- **All that stands in the tree is reached**, inside of the loops and switches around it. -/
theorem Within.reached {root m : Node} {o : Options} {outer : List Node} {r : Role}
    (h : Within root outer r m) (hroot : Reached root o [] (planned root).code) :
    r.use = .code ∧ Reached root o outer ((planned m).as r) := by
  induction h with
  | root => exact ⟨rfl, hroot⟩
  | inner _ hm ih => exact ⟨use_of_mem_inner hm, ih.2.inner ih.1 hm⟩

theorem Context.jump_of_switch {c : Context} {levels : Option Nat}
    (h : c.frames[max (levels.getD 1) 1 - 1]? = some .switch) (j : Jump) :
    c.jump j levels = .text "break;" := by
  have hframe : c.frame? (levels.getD 1) = some .switch := h
  unfold Context.jump
  rw [hframe]

/-- A jump to a switch is written as a plain break. -/
theorem runs_jump_of_switch {n : Node} {levels : Option Nat} {c c' : Context} {a : Lowered}
    (hn : n.kind = .breakStmt levels ∨ n.kind = .continueStmt levels)
    (hframe : c.frames[max (levels.getD 1) 1 - 1]? = some .switch)
    (hfresh : Fresh (planned n).code.ids c) (h : Plan.Runs (planned n).code c a c') :
    a.effects = [.text "break;"] := by
  obtain ⟨j, hcode⟩ : ∃ j, (planned n).code = .statement (planned n).tag (.jump j levels) := by
    obtain ⟨id, k, location, span⟩ := n
    rw [planned_eq]
    rcases hn with hk | hk
    · obtain rfl : k = .breakStmt levels := hk
      exact ⟨.leave, rfl⟩
    · obtain rfl : k = .continueStmt levels := hk
      exact ⟨.next, rfl⟩
  rw [hcode] at h hfresh
  cases h with
  | statement _ _ hjump =>
    cases hjump
    exact congrArg (fun i => [i]) (Context.jump_of_switch hframe j)
  | statementAgain hold => exact absurd hold (hfresh.2 _ List.mem_cons_self)

/-- **When a jump to a switch leaves it.** A jump whose target is a switch is written as a plain
break in the block of that switch, and no other switch is open there just when none of the loops and
switches that the jump counts before its target is a switch. -/
theorem break_leaves_switch_iff (n : Node) (o : Options) (l : Listing) (outer : List Node)
    (m s : Node) (levels : Option Nat) (hids : n.ids.Nodup) (h : listing n o = .ok l)
    (hm : Within n outer .statement m)
    (hjump : m.kind = .breakStmt levels ∨ m.kind = .continueStmt levels)
    (hs : outer[max (levels.getD 1) 1 - 1]? = some s) (hswitch : isSwitch s.kind) :
    ∃ d pre b above below,
      Plan.Inside (planned m).code d (planned n).code { options := o } pre ∧
      l.instructions[pre.length]? = some (.text "break;") ∧
      l.openAt pre.length = some (above ++ b :: below) ∧ BlockOf n o s b ∧ b.IsSwitch ∧
      ((∀ x ∈ above, ¬ x.IsSwitch) ↔
        ∀ t ∈ outer.take (max (levels.getD 1) 1 - 1), ¬ isSwitch t.kind) := by
  obtain ⟨a, c, hrun, rfl⟩ := listing_eq_ok_iff.mp h
  have hroot : Reached n o [] (planned n).code := .intro .here hrun (fresh_code hids) rfl .none
  obtain ⟨-, hinside, hjumps, hfresh, hblocks, hmatches⟩ := hm.reached hroot
  rename_i d d' x pre bs
  obtain ⟨hframe, above, b, below, rfl, hof, hb, hiff⟩ := hmatches.of_switch hs hswitch
  have hline := runs_jump_of_switch hjump hframe hfresh hjumps
  obtain ⟨y, d'', post, hjumps', hcode⟩ := hinside.runs hrun
  obtain ⟨rfl, rfl⟩ := hjumps.unique hjumps'
  refine ⟨d, pre, b, above, below, hinside, ?_, ?_, hof, hb, hiff⟩
  · rw [hcode, hline, List.getElem?_append_right le_rfl, Nat.sub_self]
    rfl
  · show blocksAfter 0 [] (a.effects.take pre.length) = _
    rw [hcode, List.take_left' rfl]
    exact hblocks

/-- A jump over two loops or switches. -/
def farJump : Node :=
  ⟨6, .breakStmt (some 2), none, none⟩

/-- A switch around a statement. -/
def outerSwitch (n : Node) : Node :=
  ⟨1, .switch ⟨2, .var "a", none, none⟩ [⟨3, .caseClause none [n], none, none⟩], none, none⟩

/-- A script that is one statement. -/
def scriptOf (n : Node) : Node :=
  ⟨0, .script [n], none, none⟩

theorem within_outerSwitch (n : Node) :
    Within (scriptOf (outerSwitch n)) [outerSwitch n] .statement n := by
  have hswitch : (.level, .statement, outerSwitch n) ∈ inner (scriptOf (outerSwitch n)).kind :=
    List.mem_cons_self
  have hclause : (.switch, .caseClause, ⟨3, .caseClause none [n], none, none⟩)
      ∈ inner (outerSwitch n).kind := List.mem_cons_self
  have hn : (.level, .statement, n) ∈ inner (Kind.caseClause none [n]) := List.mem_cons_self
  exact .inner (.inner (.inner .root hswitch) hclause) hn

/-- A loop around the jump. -/
def jumpInLoop : Node :=
  ⟨4, .whileLoop ⟨5, .var "b", none, none⟩ [farJump], none, none⟩

/-- Another switch around the jump. -/
def jumpInSwitch : Node :=
  ⟨4, .switch ⟨5, .var "b", none, none⟩ [⟨7, .caseClause none [farJump], none, none⟩], none, none⟩

/-- The listing of the loop inside of the switch. -/
def jumpInLoopListing : Listing :=
  ⟨[.text "switch ($a) \x7b", .text "default:",
    .label "L0", .ifGoto "$b" "L1", .goto "L0_end", .label "L1", .text "break;",
    .ifGoto "$b" "L1", .goto "L0_end", .label "L0_end",
    .text "break;", .text "\x7d"]⟩

theorem listing_jumpInLoop :
    listing (scriptOf (outerSwitch jumpInLoop)) {} = .ok jumpInLoopListing := by
  refine listing_eq_ok_iff.mpr ⟨_, _, .statement ?_ ?_ (.both (.statement ?_ ?_ (.both (.both
    (.line (.both (.both (.both .text (.expression ?_ ?_ .text)) .text) .text))
    (.inSwitch (.both (.both (.both (.line (.both .mark .text)) (.both (.statement ?_ ?_
      (.whileLoop (.expression ?_ ?_ .text) (.both (.statement ?_ ?_ .jump) .nothing))) .nothing))
        .closeCase) .nothing))) (.line .text))) .nothing), rfl⟩
  all_goals first
    | decide
    | simp [Context.met, Context.told, Context.below, Context.framed, Context.labelled,
        Context.above]
  all_goals decide

theorem within_jumpInLoop : Within (scriptOf (outerSwitch jumpInLoop))
    [jumpInLoop, outerSwitch jumpInLoop] .statement farJump := by
  have hjump : (.loop, .statement, farJump) ∈ inner jumpInLoop.kind := List.mem_cons_self
  exact .inner (within_outerSwitch jumpInLoop) hjump

/-- The jump out of the loop leaves the switch as well. -/
theorem jumpInLoop_leaves_switch :
    ∃ d pre b above below,
      Plan.Inside (planned farJump).code d (planned (scriptOf (outerSwitch jumpInLoop))).code {} pre ∧
      jumpInLoopListing.instructions[pre.length]? = some (.text "break;") ∧
      jumpInLoopListing.openAt pre.length = some (above ++ b :: below) ∧
      BlockOf (scriptOf (outerSwitch jumpInLoop)) {} (outerSwitch jumpInLoop) b ∧ b.IsSwitch ∧
      ∀ x ∈ above, ¬ x.IsSwitch := by
  obtain ⟨d, pre, b, above, below, hinside, hline, hopen, hblock, hswitch, hiff⟩ :=
    break_leaves_switch_iff (scriptOf (outerSwitch jumpInLoop)) {} jumpInLoopListing
      [jumpInLoop, outerSwitch jumpInLoop] farJump (outerSwitch jumpInLoop) (some 2) (by decide)
      listing_jumpInLoop within_jumpInLoop (.inl rfl) rfl rfl
  exact ⟨d, pre, b, above, below, hinside, hline, hopen, hblock, hswitch, hiff.mpr (by decide)⟩

/-- The listing of the switch inside of the switch. -/
def jumpInSwitchListing : Listing :=
  ⟨[.text "switch ($a) \x7b", .text "default:", .text "switch ($b) \x7b", .text "default:",
    .text "break;", .text "break;", .text "\x7d", .text "break;", .text "\x7d"]⟩

/-- **A jump over two switches leaves the inner one only.** -/
theorem break_in_nested_switches :
    Within (scriptOf (outerSwitch jumpInSwitch)) [jumpInSwitch, outerSwitch jumpInSwitch]
      .statement farJump ∧
    listing (scriptOf (outerSwitch jumpInSwitch)) {} = .ok jumpInSwitchListing ∧
    jumpInSwitchListing.instructions[4]? = some (.text "break;") ∧
    jumpInSwitchListing.openAt 4 = some [⟨2, "switch ($b) \x7b"⟩, ⟨0, "switch ($a) \x7b"⟩] := by
  refine ⟨?_, ?_, rfl, by decide⟩
  · have hclause : (.switch, .caseClause, ⟨7, .caseClause none [farJump], none, none⟩)
        ∈ inner jumpInSwitch.kind := List.mem_cons_self
    have hjump : (.level, .statement, farJump) ∈ inner (Kind.caseClause none [farJump]) :=
      List.mem_cons_self
    exact .inner (.inner (within_outerSwitch jumpInSwitch) hclause) hjump
  · refine listing_eq_ok_iff.mpr ⟨_, _, .statement ?_ ?_ (.both (.statement ?_ ?_ (.both (.both
      (.line (.both (.both (.both .text (.expression ?_ ?_ .text)) .text) .text))
      (.inSwitch (.both (.both (.both (.line (.both .mark .text)) (.both (.statement ?_ ?_
        (.both (.both (.line (.both (.both (.both .text (.expression ?_ ?_ .text)) .text) .text))
          (.inSwitch (.both (.both (.both (.line (.both .mark .text)) (.both (.statement ?_ ?_
            .jump) .nothing)) .closeCase) .nothing))) (.line .text))) .nothing))
        .closeCase) .nothing))) (.line .text))) .nothing), rfl⟩
    all_goals first
      | decide
      | simp [Context.met, Context.told, Context.below, Context.framed, Context.above]
    all_goals decide

end ThreeAddress.Lowering

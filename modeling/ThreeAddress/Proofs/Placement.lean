import ThreeAddress.Proofs.Containment

/-!
# Where the code of a part stands

`Plan.Enters` says how a run of a plan comes to one of the plans inside it: what it has written by
then, and the context that it goes on from. `Plan.Inside` is any number of such steps. A run is
determined by where it starts, so **what a part writes stands in the code of the whole**, right
behind the lines that were written before it (`Plan.Inside.runs`).

This tells which lines are the body of a declaration (`DeclaredBody`). In a whole listing **blocks
are closed, no jump goes into a block, and the blocks that a jump goes out of are those of
switches, handlers and namespaces**, never the body of a declaration (`jumps_respect_blocks`).
-/

namespace ThreeAddress.Lowering

open Syntax (Node)

/-! ## What stands around a body -/

namespace Shape

variable (a b : Lowered) (l : Labels) (t t' : String) (code code' : List Instruction)

theorem ifThen_eq : ifThen a l code = test a l.start l.stop ++ [Instruction.label l.start]
    ++ (code ++ [Instruction.goto l.stop, .label l.stop]) := by
  simp [ifThen]

theorem ifThenElse_eq_then : ifThenElse a l t code code'
    = test a l.start t ++ [Instruction.label l.start]
      ++ (code ++ .goto l.stop :: .label t ::
        (code' ++ [Instruction.goto l.stop, .label l.stop])) := by
  simp [ifThenElse]

theorem ifThenElse_eq_else : ifThenElse a l t code code'
    = test a l.start t ++ .label l.start :: code ++ [Instruction.goto l.stop, .label t]
      ++ (code' ++ [Instruction.goto l.stop, .label l.stop]) := by
  simp [ifThenElse]

theorem whileLoop_eq : whileLoop a l t code
    = .label l.start :: test a t l.stop ++ [Instruction.label t]
      ++ (code ++ (test a t l.stop ++ [Instruction.label l.stop])) := by
  simp [whileLoop]

theorem doWhile_eq : doWhile a l t code = [Instruction.label l.start]
    ++ (code ++ .label t :: (a.effects ++ [Instruction.ifGoto a.value l.start, .label l.stop])) := by
  simp [doWhile]

theorem forLoop_eq (init tests step : List Instruction) :
    forLoop init tests step l t t' code = init ++ .label l.start :: tests ++ [Instruction.label t]
      ++ (code ++ .label t' :: (step ++ [Instruction.goto l.start, .label l.stop])) := by
  simp [forLoop]

theorem foreachLoop_eq : foreachLoop a b l t code
    = a.effects ++ b.effects
      ++ [Instruction.foreach a.value b.value l.start, .goto l.stop, .label l.start]
      ++ (code ++ [Instruction.label t, .foreach a.value b.value l.start, .label l.stop]) := by
  simp [foreachLoop]

end Shape

/-! ## Plans inside plans -/

namespace Plan

variable {p q r : Plan} {c c' d d' : Context} {a b : Lowered} {pre : List Instruction}

/-- A run is determined by where it starts. -/
theorem Runs.unique (h : Runs p c a c') {d : Context} (h' : Runs p c b d) : b = a ∧ d = c' := by
  have hgives : (Except.ok a, c') = (Except.ok b, d) := h.gives.symm.trans h'.gives
  obtain ⟨hab, hd⟩ := Prod.mk.inj hgives
  exact ⟨(Except.ok.inj hab).symm, hd.symm⟩

/-- While the first plan is run from its context, the second one is run from another one, behind
the given lines. -/
inductive Enters : Plan → Context → Plan → Context → List Instruction → Prop
  | first {p q : Plan} {c : Context} : Enters (.both p q) c p c []
  | second {p q : Plan} {c c₁ : Context} {a : Lowered} :
      Runs p c a c₁ → Enters (.both p q) c q c₁ a.effects
  | statement {t : Tag} {p : Plan} {c : Context} :
      t.id ∉ c.visited → Enters (.statement t p) c p ((c.met t.id).told (.statement t)).below []
  | ifThen {p q : Plan} {c c₁ : Context} {a : Lowered} :
      Runs p c a c₁ → Enters (.ifThen p q) c q c₁.labelled
        (Shape.test a (Labels.ofNat c₁.labels).start (Labels.ofNat c₁.labels).stop
          ++ [Instruction.label (Labels.ofNat c₁.labels).start])
  | thenBranch {p q r : Plan} {c c₁ : Context} {a : Lowered} :
      Runs p c a c₁ → Enters (.ifThenElse p q r) c q c₁.labelled.labelled
        (Shape.test a (Labels.ofNat c₁.labels).start (Labels.ofNat (c₁.labels + 1)).start
          ++ [Instruction.label (Labels.ofNat c₁.labels).start])
  | elseBranch {p q r : Plan} {c c₁ c₂ : Context} {a b : Lowered} :
      Runs p c a c₁ → Runs q c₁.labelled.labelled b c₂ → Enters (.ifThenElse p q r) c r c₂
        (Shape.test a (Labels.ofNat c₁.labels).start (Labels.ofNat (c₁.labels + 1)).start
          ++ .label (Labels.ofNat c₁.labels).start :: b.effects
          ++ [Instruction.goto (Labels.ofNat c₁.labels).stop,
            .label (Labels.ofNat (c₁.labels + 1)).start])
  | whileLoop {p q : Plan} {c c₁ : Context} {a : Lowered} :
      Runs p c.labelled.labelled a c₁ →
      Enters (.whileLoop p q) c q
        (c₁.framed (.loop (Labels.ofNat c.labels).stop (Labels.ofNat c.labels).start ::
          c₁.frames))
        (.label (Labels.ofNat c.labels).start ::
          Shape.test a (Labels.ofNat (c.labels + 1)).start (Labels.ofNat c.labels).stop
          ++ [Instruction.label (Labels.ofNat (c.labels + 1)).start])
  | doWhile {p q : Plan} {c : Context} :
      Enters (.doWhile p q) c p
        (c.labelled.labelled.framed (.loop (Labels.ofNat c.labels).stop
          (Labels.ofNat (c.labels + 1)).start :: c.frames))
        [.label (Labels.ofNat c.labels).start]
  | forLoop {p q r s t : Plan} {c c₁ c₂ c₃ : Context} {i g a : Lowered} :
      Runs p c i c₁ →
      Runs q (c₁.labelled.labelled.labelled.framed
        (.loop (Labels.ofNat c₁.labels).stop (Labels.ofNat (c₁.labels + 2)).start ::
          c₁.frames)) g c₂ →
      Runs r (c₂.framed c₁.frames) a c₃ →
      Enters (.forLoop p q r s t) c t
        (c₃.framed (.loop (Labels.ofNat c₁.labels).stop
          (Labels.ofNat (c₁.labels + 2)).start :: c₃.frames))
        (i.effects ++ .label (Labels.ofNat c₁.labels).start :: (g.effects ++ Shape.test a
            (Labels.ofNat (c₁.labels + 1)).start (Labels.ofNat c₁.labels).stop)
          ++ [Instruction.label (Labels.ofNat (c₁.labels + 1)).start])
  | endless {p q r : Plan} {c c₁ : Context} {i : Lowered} :
      Runs p c i c₁ →
      Enters (.endless p q r) c r
        (c₁.labelled.labelled.labelled.framed (.loop (Labels.ofNat c₁.labels).stop
          (Labels.ofNat (c₁.labels + 2)).start :: c₁.frames))
        (i.effects ++ .label (Labels.ofNat c₁.labels).start :: []
          ++ [Instruction.label (Labels.ofNat (c₁.labels + 1)).start])
  | foreachLoop {p q r : Plan} {c c₁ c₂ : Context} {i v : Lowered} :
      Runs p c i c₁ → Runs q c₁ v c₂ →
      Enters (.foreachLoop p q r) c r
        (c₂.labelled.labelled.framed (.loop (Labels.ofNat c₂.labels).stop
          (Labels.ofNat (c₂.labels + 1)).start :: c₂.frames))
        (i.effects ++ v.effects ++
          [.foreach i.value v.value (Labels.ofNat c₂.labels).start,
            .goto (Labels.ofNat c₂.labels).stop, .label (Labels.ofNat c₂.labels).start])
  | inSwitch {p : Plan} {c : Context} :
      Enters (.inSwitch p) c p (c.framed (.switch :: c.frames)) []
  | apart {p : Plan} {c : Context} : Enters (.apart p) c p (c.framed []) []
  | declared {kind : String} {p : Plan} {c : Context} : Enters (.declared kind p) c p c []

/-- The second plan is run, and what it writes stands behind the lines. -/
theorem Enters.runs (h : Enters p c q d pre) (hp : Runs p c a c') :
    ∃ b d' post, Runs q d b d' ∧ a.effects = pre ++ (b.effects ++ post) := by
  cases h with
  | first =>
    cases hp with
    | @both _ _ _ _ _ _ b h₁ h₂ => exact ⟨_, _, b.effects, h₁, rfl⟩
  | second h₁ =>
    cases hp with
    | both h₁' h₂ =>
      obtain ⟨rfl, rfl⟩ := h₁.unique h₁'
      exact ⟨_, _, [], h₂, by rw [List.append_nil]; rfl⟩
  | statement hnew =>
    cases hp with
    | statement _ _ h₁ => exact ⟨_, _, [], h₁, by simp⟩
    | statementAgain hold => exact absurd hold hnew
  | ifThen h₁ =>
    cases hp with
    | ifThen h₁' h₂ =>
      obtain ⟨rfl, rfl⟩ := h₁.unique h₁'
      exact ⟨_, _, _, h₂, Shape.ifThen_eq _ _ _⟩
  | thenBranch h₁ =>
    cases hp with
    | ifThenElse h₁' h₂ _ =>
      obtain ⟨rfl, rfl⟩ := h₁.unique h₁'
      exact ⟨_, _, _, h₂, Shape.ifThenElse_eq_then _ _ _ _ _⟩
  | elseBranch h₁ h₂ =>
    cases hp with
    | ifThenElse h₁' h₂' h₃ =>
      obtain ⟨rfl, rfl⟩ := h₁.unique h₁'
      obtain ⟨rfl, rfl⟩ := h₂.unique h₂'
      exact ⟨_, _, _, h₃, Shape.ifThenElse_eq_else _ _ _ _ _⟩
  | whileLoop h₁ =>
    cases hp with
    | whileLoop h₁' h₂ =>
      obtain ⟨rfl, rfl⟩ := h₁.unique h₁'
      exact ⟨_, _, _, h₂, Shape.whileLoop_eq _ _ _ _⟩
  | doWhile =>
    cases hp with
    | doWhile h₁ _ => exact ⟨_, _, _, h₁, Shape.doWhile_eq _ _ _ _⟩
  | forLoop h₁ h₂ h₃ =>
    cases hp with
    | forLoop h₁' h₂' h₃' h₄ _ =>
      obtain ⟨rfl, rfl⟩ := h₁.unique h₁'
      obtain ⟨rfl, rfl⟩ := h₂.unique h₂'
      obtain ⟨rfl, rfl⟩ := h₃.unique h₃'
      exact ⟨_, _, _, h₄, Shape.forLoop_eq _ _ _ _ _ _ _⟩
  | endless h₁ =>
    cases hp with
    | endless h₁' h₂ _ =>
      obtain ⟨rfl, rfl⟩ := h₁.unique h₁'
      exact ⟨_, _, _, h₂, Shape.forLoop_eq _ _ _ _ _ _ _⟩
  | foreachLoop h₁ h₂ =>
    cases hp with
    | foreachLoop h₁' h₂' h₃ =>
      obtain ⟨rfl, rfl⟩ := h₁.unique h₁'
      obtain ⟨rfl, rfl⟩ := h₂.unique h₂'
      exact ⟨_, _, _, h₃, Shape.foreachLoop_eq _ _ _ _ _⟩
  | inSwitch =>
    cases hp with
    | inSwitch h₁ => exact ⟨_, _, [], h₁, by simp⟩
  | apart =>
    cases hp with
    | apart h₁ => exact ⟨_, _, [], h₁, by simp⟩
  | declared =>
    cases hp with
    | declared h₁ => exact ⟨_, _, [], h₁, by simp⟩

/-- While `p` is run from its context, `q` is run from `d`, behind the given lines. -/
inductive Inside (q : Plan) (d : Context) : Plan → Context → List Instruction → Prop
  | here : Inside q d q d []
  | step {p r : Plan} {c c₁ : Context} {front pre : List Instruction} :
      Enters p c r c₁ front → Inside q d r c₁ pre → Inside q d p c (front ++ pre)

/-- **What a part writes stands in the code of the whole.** -/
theorem Inside.runs (h : Inside q d p c pre) (hp : Runs p c a c') :
    ∃ b d' post, Runs q d b d' ∧ a.effects = pre ++ (b.effects ++ post) := by
  induction h generalizing a c' with
  | here => exact ⟨a, c', [], hp, by simp⟩
  | step hstep _ ih =>
    obtain ⟨b, c₂, post, hr, ha⟩ := hstep.runs hp
    obtain ⟨b', d', post', hq, hb⟩ := ih hr
    exact ⟨b', d', post' ++ post, hq, by rw [ha, hb]; simp⟩

theorem Inside.trans {front : List Instruction} (h : Inside p c r c' front)
    (h' : Inside q d p c pre) : Inside q d r c' (front ++ pre) := by
  induction h with
  | here => exact h'
  | step hstep _ ih =>
    rw [List.append_assoc]
    exact .step hstep ih

end Plan

/-! ## Bodies of declarations -/

/-- The lines of the listing from the first number on and before the second one are the body of a
function, a method, a class, an interface or a trait. -/
inductive DeclaredBody (n : Node) (o : Options) : Nat → Nat → Prop
  | intro {m : Node} {kind : String} {header body : Plan} {d d' : Context} {b : Lowered}
      {pre : List Instruction} :
      m ∈ n.subtree → m.kind.isDeclaration →
      (planned m).plan = .declared kind (.braced header (.apart body)) →
      Plan.Inside (.apart body) d (planned n).code { options := o } pre →
      Plan.Runs (.apart body) d b d' →
      DeclaredBody n o pre.length (pre.length + b.effects.length)

namespace Plan.Nested

variable {gotos : Prop} {t : Tag} {kind : String} {p q : Plan}

theorem of_statement (h : Nested gotos (.statement t p)) : Nested gotos p := by
  cases h with
  | plain h => exact h.elim
  | statement h => exact h

theorem of_declared (h : Nested gotos (.declared kind p)) : Nested gotos p := by
  cases h with
  | plain h => exact h.elim
  | declared h => exact h

theorem of_braced (h : Nested gotos (.braced p q)) : p.IsPlain ∧ Nested gotos q := by
  cases h with
  | plain h => exact ⟨h.1.1.2.1, .plain h.1.2⟩
  | both h₁ _ =>
    cases h₁ with
    | plain h => exact ⟨h.1.2.1, .plain h.2⟩
    | both hline h =>
      cases hline with
      | plain hline => exact ⟨hline.2.1, h⟩
  | braced _ hp h => exact ⟨hp, h⟩

end Plan.Nested

theorem isDeclaration_planned (n : Node) :
    (planned n).kind.isDeclaration = n.kind.isDeclaration := by
  unfold planned
  rw [Node.fold_eq]
  cases n.kind <;> rfl

theorem code_of_isDeclaration {n : Planned} (h : n.kind.isDeclaration) :
    n.code = .statement n.tag n.plan := by
  have hstatement : n.kind.isStatement := by
    obtain ⟨id, k, location, span, plan⟩ := n
    cases k <;> first
      | rfl
      | exact absurd h Bool.false_ne_true
  exact if_pos hstatement

/-! ## Jumps and labels of a listing -/

section

variable {code : List Instruction} {i j : Nat} {x : Instruction} {t : String}

theorem eq_take_cons (h : code[i]? = some x) :
    code = code.take i ++ x :: code.drop (i + 1) ∧ (code.take i).length = i := by
  obtain ⟨hi, rfl⟩ := List.getElem?_eq_some_iff.mp h
  constructor
  · rw [← List.drop_eq_getElem_cons hi, List.take_append_drop]
  · rw [List.length_take]
    omega

theorem mem_labelsIn (h : code[i]? = some (.label t)) : t ∈ labelsIn code :=
  List.mem_filterMap.mpr ⟨_, List.mem_of_getElem? h, rfl⟩

/-- A label that is defined once stands on one line. -/
theorem index_unique (hnodup : (labelsIn code).Nodup) (hi : code[i]? = some (.label t))
    (hj : code[j]? = some (.label t)) : i = j := by
  induction code generalizing i j with
  | nil => cases hi
  | cons y code ih =>
    have hrest : (labelsIn code).Nodup := hnodup.sublist ((List.sublist_cons_self y code).filterMap _)
    cases i with
    | zero =>
      cases j with
      | zero => rfl
      | succ j =>
        obtain rfl := Option.some.inj hi
        have hagain : code[j]? = some (.label t) := hj
        exact absurd (mem_labelsIn hagain) (List.nodup_cons.mp hnodup).1
    | succ i =>
      cases j with
      | zero =>
        obtain rfl := Option.some.inj hj
        have hagain : code[i]? = some (.label t) := hi
        exact absurd (mem_labelsIn hagain) (List.nodup_cons.mp hnodup).1
      | succ j => exact congrArg (· + 1) (ih hrest hi hj)

/-- **A jump of contained code that has nowhere else to go** reaches its label, and leaves what may
be left. -/
theorem Contained.exists_label {gotos : Prop} (h : Contained gotos [] [] code) (hgotos : ¬ gotos)
    (hi : code[i]? = some x) (ht : x.jumpTarget? = some t) (k : Nat) :
    ∃ j left around, code[j]? = some (.label t) ∧
      blocksAfter k [] (code.take i) = some (left ++ around) ∧
      blocksAfter k [] (code.take j) = some around ∧ ∀ b ∈ left, b.IsLeavable := by
  obtain ⟨hcode, -⟩ := eq_take_cons hi
  have hbalanced : Balanced (code.take i ++ x :: code.drop (i + 1)) := hcode ▸ h.balanced
  obtain ⟨bs, hbs⟩ := hbalanced.exists_blocksAfter k
  rcases h.jumps hgotos _ x _ t hcode ht k bs hbs with ⟨hout, -⟩ | hlabel
  · cases hout
  · obtain ⟨pre, post, left, around, heq, haround, rfl, hleft⟩ := hlabel
    refine ⟨pre.length, left, around, ?_, hbs, ?_, hleft⟩
    · rw [heq, List.getElem?_append_right le_rfl, Nat.sub_self]
      rfl
    · rw [heq, List.take_left']
      · exact haround
      · rfl

end

/-- The lines of the body of a declaration are contained by themselves. -/
theorem DeclaredBody.exists_contained {gotos : Prop} {n : Node} {o : Options} {lo hi : Nat}
    {a : Lowered} {c : Context} (h : DeclaredBody n o lo hi)
    (hgotos : ∀ m ∈ n.subtree, m.kind.isGoto → gotos)
    (hrun : Plan.Runs (planned n).code { options := o } a c) :
    ∃ pre body post, a.effects = pre ++ (body ++ post) ∧ lo = pre.length ∧
      hi = pre.length + body.length ∧ Contained gotos [] [] body := by
  obtain ⟨hm, hdecl, hplan, hinside, hbody⟩ := h
  rename_i m kind header body d d' b pre
  have hcode : (planned m).code = .statement (planned m).tag (planned m).plan :=
    code_of_isDeclaration (isDeclaration_planned m ▸ hdecl)
  have hnested : (planned m).code.Nested gotos :=
    nested_as m (fun x hx => hgotos x (Node.subtree_subset_of_mem hm hx)) (r := .statement) rfl
  rw [hcode, hplan] at hnested
  obtain ⟨b', d'', post, hrun', ha⟩ := hinside.runs hrun
  obtain ⟨rfl, rfl⟩ := hbody.unique hrun'
  obtain ⟨c', halone⟩ := hbody.of_apart
  exact ⟨pre, _, post, ha, rfl, rfl,
    hnested.of_statement.of_declared.of_braced.2.contained halone rfl⟩

/-- **Blocks are closed and jumps respect them.** In the listing of a tree without labels and jumps
of its own all blocks are closed in their order. What is open at the label of a jump is open at the
jump too, and what else is open there is the block of a switch, a try, a catch, a finally or a
namespace: a jump from the body of a declaration stays in it. -/
theorem jumps_respect_blocks (n : Node) (o : Options) (l : Listing)
    (hgoto : ∀ m ∈ n.subtree, ¬ m.kind.isGoto) (h : listing n o = .ok l) :
    l.openAt l.size = some [] ∧
    ∀ i j x t, l.instructions[i]? = some x → x.jumpTarget? = some t →
      l.instructions[j]? = some (.label t) →
      (∃ left around, l.openAt i = some (left ++ around) ∧ l.openAt j = some around ∧
        ∀ b ∈ left, b.IsLeavable) ∧
      ∀ lo hi, DeclaredBody n o lo hi → lo ≤ i → i < hi → lo ≤ j ∧ j < hi := by
  obtain ⟨a, c, hrun, rfl⟩ := listing_eq_ok_iff.mp h
  have hnodup : (labelsIn a.effects).Nodup := (hrun.sealed (isRegular_code n hgoto)).nodup
  have hcontained := (nested_as n hgoto (r := .statement) rfl).contained hrun rfl
  refine ⟨?_, fun i j x t hi ht hj => ⟨?_, ?_⟩⟩
  · have hall : Listing.openAt ⟨a.effects⟩ (Listing.size ⟨a.effects⟩)
        = blocksAfter 0 [] a.effects := congrArg (blocksAfter 0 []) List.take_length
    rw [hall]
    exact hcontained.balanced 0
  · obtain ⟨j', left, around, hj', hleft, haround, hleave⟩ :=
      hcontained.exists_label not_false hi ht 0
    obtain rfl := index_unique hnodup hj hj'
    exact ⟨left, around, hleft, haround, hleave⟩
  · intro lo hi' hdecl hlo hhi
    -- the body is contained by itself, so the jump finds its label there
    obtain ⟨pre, body, post, hcode, rfl, rfl, hbody⟩ := hdecl.exists_contained hgoto hrun
    have hshift {k : Nat} (hk : k < body.length) : a.effects[pre.length + k]? = body[k]? := by
      rw [hcode, List.getElem?_append_right (Nat.le_add_right _ _), Nat.add_sub_cancel_left,
        List.getElem?_append_left hk]
    obtain ⟨i, rfl⟩ := Nat.exists_eq_add_of_le hlo
    have hjump : body[i]? = some x := (hshift (by omega)).symm.trans hi
    obtain ⟨k, -, -, hk, -⟩ := hbody.exists_label not_false hjump ht 0
    have hlt : k < body.length := (List.getElem?_eq_some_iff.mp hk).1
    obtain rfl := index_unique hnodup hj ((hshift hlt).trans hk)
    exact ⟨Nat.le_add_right _ _, Nat.add_lt_add_left hlt _⟩

/-- A loop that is gone on with from inside a switch, and that declares a function with a loop of its
own. -/
def declaringLoop : Node :=
  let clause := ⟨5, .caseClause (some ⟨6, .integer 1, none, none⟩)
    [⟨7, .continueStmt (some 2), none, none⟩], none, none⟩
  let choice := ⟨3, .switch ⟨4, .var "b", none, none⟩ [clause], none, none⟩
  let inner := ⟨9, .whileLoop ⟨10, .var "c", none, none⟩ [⟨11, .breakStmt none, none, none⟩],
    none, none⟩
  let declaration := ⟨8, .functionDecl "f" [] [inner] false, none, none⟩
  let outer := ⟨1, .whileLoop ⟨2, .var "a", none, none⟩ [choice, declaration], none, none⟩
  ⟨0, .script [outer], none, none⟩

/-- The listing of `declaringLoop`. -/
def declaringLoopListing : Listing :=
  ⟨[.label "L0", .ifGoto "$a" "L1", .goto "L0_end", .label "L1",
    .text "switch ($b) \x7b", .text "case 1:", .goto "L0", .text "break;", .text "\x7d",
    .text "function f() \x7b",
    .label "L2", .ifGoto "$c" "L3", .goto "L2_end", .label "L3", .goto "L2_end",
    .ifGoto "$c" "L3", .goto "L2_end", .label "L2_end",
    .text "\x7d",
    .ifGoto "$a" "L1", .goto "L0_end", .label "L0_end"]⟩

theorem listing_declaringLoop : listing declaringLoop {} = .ok declaringLoopListing := by
  refine listing_eq_ok_iff.mpr ⟨_, _, .statement ?_ ?_ (.both (.statement ?_ ?_
    (.whileLoop (.expression ?_ ?_ .text) (.both
      -- the switch
      (.statement ?_ ?_ (.both (.both (.line (.both (.both (.both .text (.expression ?_ ?_ .text))
        .text) .text)) (.inSwitch (.both (.both (.both (.line (.both (.both (.both .mark .text)
          (.expression ?_ ?_ .text)) .text)) (.both (.statement ?_ ?_ .jump) .nothing)) .closeCase)
            .nothing))) (.line .text)))
      -- the function
      (.both (.statement ?_ ?_ (.declared (.both (.both (.line (.both (.both (.both (.both (.both
        .text .nothing) .text) .nothing) .text) .text)) (.apart (.both (.statement ?_ ?_
          (.whileLoop (.expression ?_ ?_ .text) (.both (.statement ?_ ?_ .jump) .nothing)))
            .nothing))) (.line .text)))) .nothing)))) .nothing), rfl⟩
  all_goals first
    | decide
    | simp [Context.met, Context.told, Context.below, Context.framed, Context.labelled,
        Context.above]
  all_goals decide

theorem declaredBody_declaringLoop : DeclaredBody declaringLoop {} 10 18 := by
  have hmem : ⟨8, .functionDecl "f" [] [⟨9, .whileLoop ⟨10, .var "c", none, none⟩
      [⟨11, .breakStmt none, none, none⟩], none, none⟩] false, none, none⟩
        ∈ declaringLoop.subtree := by
    simp [declaringLoop, Node.subtree_eq, Syntax.Kind.children, Syntax.Kind.fields,
      Syntax.Field.children]
  refine DeclaredBody.intro hmem rfl rfl (.step (.statement ?_) (.step .first (.step (.statement ?_)
    (.step (.whileLoop (.expression ?_ ?_ .text)) (.step (.second
      -- the switch
      (.statement ?_ ?_ (.both (.both (.line (.both (.both (.both .text (.expression ?_ ?_ .text))
        .text) .text)) (.inSwitch (.both (.both (.both (.line (.both (.both (.both .mark .text)
          (.expression ?_ ?_ .text)) .text)) (.both (.statement ?_ ?_ .jump) .nothing)) .closeCase)
            .nothing))) (.line .text))))
      -- the function
      (.step .first (.step (.statement ?_) (.step .declared (.step .first (.step (.second
        (.line (.both (.both (.both (.both (.both .text .nothing) .text) .nothing) .text) .text)))
          .here)))))))))) (.apart (.both (.statement ?_ ?_ (.whileLoop (.expression ?_ ?_ .text)
            (.both (.statement ?_ ?_ .jump) .nothing))) .nothing))
  all_goals first
    | decide
    | simp [Context.met, Context.told, Context.below, Context.framed, Context.labelled,
        Context.above]
  all_goals decide

theorem jumps_declaringLoop :
    (∀ m ∈ declaringLoop.subtree, ¬ m.kind.isGoto) ∧
      listing declaringLoop {} = .ok declaringLoopListing ∧
      DeclaredBody declaringLoop {} 10 18 ∧
      declaringLoopListing.openAt declaringLoopListing.size = some [] ∧
      ∀ i j x t, declaringLoopListing.instructions[i]? = some x → x.jumpTarget? = some t →
        declaringLoopListing.instructions[j]? = some (.label t) →
        (∃ left around, declaringLoopListing.openAt i = some (left ++ around) ∧
          declaringLoopListing.openAt j = some around ∧ ∀ b ∈ left, b.IsLeavable) ∧
        ∀ lo hi, DeclaredBody declaringLoop {} lo hi → lo ≤ i → i < hi → lo ≤ j ∧ j < hi :=
  have hgoto : ∀ m ∈ declaringLoop.subtree, ¬ m.kind.isGoto := by decide
  ⟨hgoto, listing_declaringLoop, declaredBody_declaringLoop,
    jumps_respect_blocks declaringLoop {} declaringLoopListing hgoto listing_declaringLoop⟩

end ThreeAddress.Lowering

import ThreeAddress.Proofs.CallOrder
import ThreeAddress.Proofs.Containment
import ThreeAddress.Proofs.Numbering
import ThreeAddress.Proofs.Parsed

/-!
# Names that are handed out

Labels and temporaries are numbered, and the labels and constants of a script are printed as they
were written, so a name can be both. **The labels of a listing are those that were handed out, each
of them once, and those that the script defines outside of its closures**, so they are all different
unless the script defines one that was handed out; and **as many temporaries are handed out as there
are calls**, so a constant is printed like a temporary if it is named like one of the first of them
(`labels_perm_handed_and_defined`).
-/

namespace ThreeAddress

namespace Syntax

namespace Kind

variable {α : Type}

/-- Whether the kind is lowered to instructions: it is a statement, or a clause of one. -/
def isCode : Kind α → Bool
  | .caseClause .. | .catchClause .. => true
  | k => k.isStatement

/-- The label that the kind defines. -/
def label? : Kind α → Option String
  | .label name => some name
  | _ => none

theorem label?_foldKind {β : Type} (f : Node → Kind β → β) (k : Kind Node) :
    (Node.foldKind f k).label? = k.label? := by
  cases k <;> rfl

end Kind

namespace Node

/-- The names of all label statements of a tree. -/
def labelNames (n : Node) : List String :=
  n.subtree.filterMap (·.kind.label?)

/-- The names of the label statements of a tree that stand in no closure and in no class that is
declared in place. -/
def openLabels (n : Node) : List String :=
  n.fold fun m k => if m.kind.isCode then k.label?.toList ++ k.children.flatten else []

/-- The text of the constant that the node fetches. -/
def constant? (n : Node) : Option String :=
  match n.kind with
  | .constFetch ⟨_, .qualifiedName parts fullyQualified, _, _⟩ =>
    some (Lowering.Planned.nameText parts fullyQualified)
  | .constFetch ⟨_, .identifier name, _, _⟩ => some name
  | _ => none

theorem openLabels_eq (n : Node) : n.openLabels
    = if n.kind.isCode then n.kind.label?.toList ++ n.kind.children.flatMap openLabels else [] := by
  conv_lhs => unfold openLabels
  rw [fold_eq, children_foldKind, Kind.label?_foldKind, List.flatMap_def]
  rfl

theorem labelNames_eq (n : Node) :
    n.labelNames = n.kind.label?.toList ++ n.kind.children.flatMap labelNames := by
  conv_lhs => unfold labelNames
  rw [subtree_eq, List.filterMap_cons, List.filterMap_flatMap]
  cases n.kind.label? <;> rfl

theorem openLabels_sublist (n : Node) : n.openLabels.Sublist n.labelNames := by
  induction n using Node.induction_on_children with
  | step n ih =>
    rw [openLabels_eq, labelNames_eq]
    split
    · refine .append (.refl _) ?_
      generalize n.kind.children = ms at ih
      induction ms with
      | nil => exact .refl _
      | cons m ms ihms =>
        obtain ⟨hm, hms⟩ := List.forall_mem_cons.mp ih
        exact hm.append (ihms hms)
    · exact List.nil_sublist _

end Node

end Syntax

namespace Lowering

open Syntax (Node Kind)
open scoped List

/-! ## Labels from a stretch of the counter -/

/-- The labels are all different and have numbers from a stretch of the counter. -/
def Handed (lo hi : Nat) (ts : List String) : Prop :=
  ts.Nodup ∧ ∀ t ∈ ts, Numbered lo hi t

/-- The labels of the code are some that were handed out on the way and those that were
written. -/
def Named (lo hi : Nat) (written : List String) (code : List Instruction) : Prop :=
  ∃ handed, Handed lo hi handed ∧ (labelsIn code).Perm (handed ++ written)

theorem Handed.append {lo mid hi : Nat} {ts us : List String} (h : Handed lo mid ts)
    (h' : Handed mid hi us) (hlo : lo ≤ mid) (hhi : mid ≤ hi) : Handed lo hi (ts ++ us) := by
  refine ⟨List.nodup_append.mpr ⟨h.1, h'.1, fun t ht u hu => (h.2 t ht).ne (h'.2 u hu)⟩, ?_⟩
  exact List.forall_mem_append.mpr ⟨fun t ht => (h.2 t ht).mono le_rfl hhi,
    fun t ht => (h'.2 t ht).mono hlo le_rfl⟩

namespace Named

variable {lo mid hi n : Nat} {us vs : List String} {code code' : List Instruction}

theorem of_nil (h : labelsIn code = []) : Named lo hi [] code :=
  ⟨[], ⟨List.nodup_nil, List.forall_mem_nil _⟩, .of_eq h⟩

theorem mono {lo' hi' : Nat} (h : Named lo hi us code) (hlo : lo' ≤ lo) (hhi : hi ≤ hi') :
    Named lo' hi' us code := by
  obtain ⟨ts, ⟨hnodup, hnumbered⟩, hperm⟩ := h
  exact ⟨ts, ⟨hnodup, fun t ht => (hnumbered t ht).mono hlo hhi⟩, hperm⟩

theorem append (h : Named lo mid us code) (h' : Named mid hi vs code') (hlo : lo ≤ mid)
    (hhi : mid ≤ hi) : Named lo hi (us ++ vs) (code ++ code') := by
  obtain ⟨ts, hts, hperm⟩ := h
  obtain ⟨ts', hts', hperm'⟩ := h'
  refine ⟨ts ++ ts', hts.append hts' hlo hhi, ?_⟩
  rw [labelsIn_append]
  refine (hperm.append hperm').trans ?_
  simp only [List.append_assoc]
  refine .append_left _ ?_
  rw [← List.append_assoc, ← List.append_assoc]
  exact List.perm_append_comm.append_right _

/-- A construct adds its own labels to those of the code inside it. -/
theorem around {inner : List Instruction} (h : Named mid hi us inner) {own : List String}
    (hown : Handed lo mid own) (hlo : lo ≤ mid) (hhi : mid ≤ hi)
    (hperm : (labelsIn code).Perm (own ++ labelsIn inner)) : Named lo hi us code := by
  obtain ⟨ts, hts, hinner⟩ := h
  refine ⟨own ++ ts, hown.append hts hlo hhi, ?_⟩
  rw [List.append_assoc]
  exact hperm.trans (hinner.append_left own)

end Named

/-! ## Plans -/

namespace Plan

/-- The labels that the plan has outside of values. -/
def written : Plan → List String
  | .both p q | .ifThenElse _ p q | .forLoop _ p _ _ q => p.written ++ q.written
  | .statement _ p | .ifThen _ p | .whileLoop _ p | .doWhile p _ | .endless _ _ p
  | .foreachLoop _ _ p | .inSwitch p | .apart p | .declared _ p => p.written
  | .emit i => i.label?.toList
  | _ => []

theorem written_braced (p q : Plan) : (braced p q).written = q.written := by
  show [] ++ q.written ++ [] = q.written
  simp

theorem IsPlain.written_eq {p : Plan} (h : p.IsPlain) : p.written = [] := by
  induction p with
  | both p q hp hq =>
    show p.written ++ q.written = []
    rw [hp h.1, hq h.2]
    rfl
  | statement | ifThenElse | forLoop | ifThen | whileLoop | doWhile | endless | foreachLoop
  | inSwitch | apart | declared | emit => exact h.elim
  | _ => rfl

variable {p : Plan} {c c' : Context} {a : Lowered}

/-- **A run hands out labels and writes those of its plan.** -/
theorem Nested.named (hp : p.Nested True) (h : Runs p c a c') (hfresh : Fresh p.ids c) :
    Named c.labels c'.labels p.written a.effects := by
  induction hp generalizing c a c' with
  | plain hplain =>
    rw [hplain.written_eq]
    exact .of_nil (h.plainText hplain).1.labelsIn
  | both _ _ ih₁ ih₂ =>
    cases h with
    | both h₁ h₂ =>
      exact (ih₁ h₁ hfresh.left).append (ih₂ h₂ (h₁.fresh hfresh)) h₁.labels_le h₂.labels_le
  | statement _ ih =>
    cases h with
    | statement _ _ h₁ =>
      have hcode := ih h₁ hfresh.met
      exact hcode
    | statementAgain hid => exact absurd hid (hfresh.2 _ List.mem_cons_self)
  | @emit i _ _ =>
    cases h
    refine ⟨[], ⟨List.nodup_nil, List.forall_mem_nil _⟩, ?_⟩
    cases i <;> exact .refl _
  | jump =>
    cases h
    exact .of_nil (labelsIn_jump c _ _)
  | closeCase =>
    cases h
    refine .of_nil ?_
    unfold Lowered.ofCode
    split <;> rfl
  | ifThen hcond _ ih =>
    cases h with
    | @ifThen _ _ _ c₁ _ _ _ h₁ h₂ =>
      have hcode : Named (c₁.labels + 1) c'.labels _ _ := ih h₂ (h₁.fresh hfresh)
      have hall := hcode.around ⟨Shape.pair_nodup _, Shape.pair_numbered _⟩ (Nat.le_succ _)
        h₂.labels_le (Shape.labels_ifThen (h₁.plainText hcond).1 _ _)
      exact hall.mono h₁.labels_le le_rfl
  | ifThenElse hcond _ _ ih₂ ih₃ =>
    cases h with
    | @ifThenElse _ _ _ _ c₁ c₂ _ _ _ _ h₁ h₂ h₃ =>
      have hrest := h₁.fresh hfresh.assoc
      have hthen : Named (c₁.labels + 2) c₂.labels _ _ := ih₂ h₂ hrest.left
      have hcode := hthen.append (ih₃ h₃ (h₂.fresh hrest)) h₂.labels_le h₃.labels_le
      have hall := hcode.around ⟨Shape.triple_nodup _, Shape.triple_numbered _⟩ (by omega)
        (h₂.labels_le.trans h₃.labels_le) (Shape.labels_ifThenElse (h₁.plainText hcond).1 _ _ _)
      exact hall.mono h₁.labels_le le_rfl
  | whileLoop hcond _ ih =>
    cases h with
    | whileLoop h₁ h₂ =>
      have hcode : Named (c.labels + 2) _ _ _ := (ih h₂ (h₁.fresh hfresh)).mono h₁.labels_le le_rfl
      exact hcode.around ⟨Shape.triple_nodup _, Shape.triple_numbered _⟩ (by omega)
        (h₁.labels_le.trans h₂.labels_le) (Shape.labels_whileLoop (h₁.plainText hcond).1 _ _)
  | doWhile _ hcond ih =>
    cases h with
    | doWhile h₁ h₂ =>
      have hcode : Named (c.labels + 2) _ _ _ := (ih h₁ hfresh.left).mono le_rfl h₂.labels_le
      exact hcode.around ⟨Shape.triple_nodup _, Shape.triple_numbered _⟩ (by omega)
        (h₁.labels_le.trans h₂.labels_le) (Shape.labels_doWhile (h₂.plainText hcond).1 _ _)
  | barrier hcond =>
    cases h with
    | @barrier _ _ c₁ _ h₁ =>
      have hown : Handed c₁.labels (c₁.labels + 1) [(Labels.ofNat c₁.labels).stop] :=
        ⟨List.nodup_singleton _, List.forall_mem_singleton.mpr (.stop le_rfl (Nat.lt_succ_self _))⟩
      have hexit := (Named.of_nil labelsIn_nil).around hown (Nat.le_succ _) le_rfl
        (.of_eq (labelsIn_barrier (c := c₁) (h₁.plainText hcond).1 _))
      exact hexit.mono h₁.labels_le le_rfl
  | forLoop hinit _ htest hstep _ ihg ihb =>
    cases h with
    | @forLoop _ _ _ _ _ _ c₁ c₂ c₃ c₄ _ _ _ a _ _ h₁ h₂ h₃ h₄ h₅ =>
      -- the run meets the body before the step
      have hrest₁ := h₁.fresh hfresh.assoc.assoc.assoc
      have hrest₂ := h₂.fresh hrest₁
      have hrest₃ := (h₃.fresh hrest₂).swap
      have hguards : Named (c₁.labels + 3) c₂.labels _ _ := ihg h₂ hrest₁.left
      have hbody : Named c₂.labels c'.labels _ _ :=
        (ihb h₄ hrest₃.left).mono h₃.labels_le h₅.labels_le
      have hhi : c₂.labels ≤ c'.labels := h₃.labels_le.trans (h₄.labels_le.trans h₅.labels_le)
      have hlast : labelsIn (Shape.test a (Labels.ofNat (c₁.labels + 1)).start
          (Labels.ofNat c₁.labels).stop) = [] := by
        simp [Shape.test, (h₃.plainText htest).1.labelsIn]
      have hall := (hguards.append hbody h₂.labels_le hhi).around
        ⟨Shape.quadruple_nodup _, Shape.quadruple_numbered _⟩ (by omega)
        (h₂.labels_le.trans hhi)
        (Shape.labels_forLoop (h₁.plainText hinit).1 (h₅.plainText hstep).1 hlast _ _)
      exact hall.mono h₁.labels_le le_rfl
  | endless hinit hstep _ ih =>
    cases h with
    | @endless _ _ _ _ c₁ _ _ _ _ _ h₁ h₂ h₃ =>
      have hrest := (h₁.fresh hfresh.assoc).swap
      have hbody : Named (c₁.labels + 3) c'.labels _ _ :=
        (ih h₂ hrest.left).mono le_rfl h₃.labels_le
      have hlabels := @Shape.labels_forLoop _ [] [] _ (h₁.plainText hinit).1
        (h₃.plainText hstep).1 labelsIn_nil
      have hall := hbody.around ⟨Shape.quadruple_nodup _, Shape.quadruple_numbered _⟩ (by omega)
        (h₂.labels_le.trans h₃.labels_le) (hlabels _ _)
      exact hall.mono h₁.labels_le le_rfl
  | foreachLoop hiter hbind _ ih =>
    cases h with
    | @foreachLoop _ _ _ _ _ c₂ _ _ _ _ h₁ h₂ h₃ =>
      have hrest := h₁.fresh hfresh.assoc
      have hbody : Named (c₂.labels + 2) _ _ _ := ih h₃ (h₂.fresh hrest)
      have hall := hbody.around ⟨Shape.triple_nodup _, Shape.triple_numbered _⟩ (by omega)
        h₃.labels_le
        (Shape.labels_foreachLoop (h₁.plainText hiter).1 (h₂.plainText hbind).1 _ _)
      exact hall.mono (h₁.labels_le.trans h₂.labels_le) le_rfl
  | inSwitch _ ih =>
    cases h with
    | inSwitch h₁ =>
      have hcode := ih h₁ hfresh
      exact hcode
  | apart _ ih =>
    cases h with
    | apart h₁ =>
      have hcode := ih h₁ hfresh
      exact hcode
  | declared _ ih =>
    cases h with
    | declared h₁ =>
      have hcode := ih h₁ hfresh
      exact hcode
  | @braced p q _ hheader _ ih =>
    obtain ⟨x, c₁, y, hp, hq, heffects⟩ := h.of_braced
    rw [ids_braced] at hfresh
    rw [heffects, written_braced]
    obtain ⟨ts, hts, hperm⟩ := (ih hq (hp.fresh hfresh)).mono hp.labels_le le_rfl
    refine ⟨ts, hts, ?_⟩
    rw [labelsIn_append, (hp.plainText hheader).1.labelsIn]
    show labelsIn (y.effects ++ [Instruction.text "\x7d"]) ~ _
    rw [labelsIn_append, show labelsIn [Instruction.text "\x7d"] = [] from rfl, List.append_nil]
    exact hperm

/-- Whether a body is put in braces behind a value. -/
def Device.isClosing : Device → Bool
  | .closing => true
  | _ => false

end Plan

/-! ## Nodes -/

section

open Plan (Device)

variable {u : Use} {p : Plan} {ps : List Part}

/-- The parts of a value without bodies are values. -/
theorem Made.uses_value (h : Made u p ps) (hu : u = .value) (hp : p.avoids Device.isClosing) :
    ∀ x ∈ ps, x.1 = .value := by
  induction h with
  | part => exact List.forall_mem_singleton.mpr hu
  | nothing | text => exact List.forall_mem_nil _
  | append _ _ h₁ h₂ | shownBefore _ _ h₁ h₂ =>
    obtain ⟨b₁, b₂⟩ := Bool.and_eq_true_iff.mp hp
    exact List.forall_mem_append.mpr ⟨h₁ hu b₁, h₂ hu b₂⟩
  | unlessEmpty _ ih | compact _ ih | bind _ ih | effects _ ih | line _ _ ih | valueLine _ ih =>
    exact ih hu hp
  | closed => exact absurd hp Bool.false_ne_true
  | instantiation => exact List.forall_mem_cons.mpr ⟨rfl, List.forall_mem_map.mpr fun _ _ => rfl⟩
  | asCode | jump | closeCase | ifThen | ifThenElse | whileLoop | doWhile | barrier | forLoop
  | endless | foreachLoop | inSwitch | apart | declared | braced => cases hu

/-- A value without bodies writes no labels, and neither do its parts. -/
theorem Made.written_value (h : Made .value p ps) (hp : p.avoids Device.isClosing)
    (hps : ∀ x ∈ ps, x.2.Suits True x.1) :
    p.written = [] ∧ (ps.flatMap fun x => x.2.written) = [] := by
  have hplain : p.IsPlain := h.suits hps
  refine ⟨hplain.written_eq, List.flatMap_eq_nil_iff.mpr fun x hx => ?_⟩
  have hx' := hps x hx
  rw [h.uses_value rfl hp x hx] at hx'
  exact Plan.IsPlain.written_eq hx'

/-- **Code without bodies behind values writes the labels that its parts write.** -/
theorem Made.written_perm (h : Made u p ps) (hu : u = .code) (hp : p.avoids Device.isClosing)
    (hps : ∀ x ∈ ps, x.2.Suits True x.1) : p.written ~ ps.flatMap fun x => x.2.written := by
  induction h with
  | part => rw [List.flatMap_singleton]
  | nothing | jump | closeCase => exact .refl _
  | asCode hv _ =>
    obtain ⟨h₁, h₂⟩ := hv.written_value hp hps
    rw [h₁, h₂]
  | barrier hv =>
    rw [(hv.written_value hp hps).2]
    exact .refl _
  | inSwitch _ ih | apart _ ih | declared _ ih => exact ih hu hp hps
  | append _ _ h₁ h₂ =>
    obtain ⟨b₁, b₂⟩ := Bool.and_eq_true_iff.mp hp
    obtain ⟨s₁, s₂⟩ := List.forall_mem_append.mp hps
    rw [List.flatMap_append]
    exact (h₁ hu b₁ s₁).append (h₂ hu b₂ s₂)
  | ifThen hv _ _ h₂ | whileLoop hv _ _ h₂ =>
    obtain ⟨b₁, b₂⟩ := Bool.and_eq_true_iff.mp hp
    obtain ⟨s₁, s₂⟩ := List.forall_mem_append.mp hps
    rw [List.flatMap_append, (hv.written_value b₁ s₁).2]
    exact h₂ rfl b₂ s₂
  | doWhile _ hv h₁ _ =>
    obtain ⟨b₁, b₂⟩ := Bool.and_eq_true_iff.mp hp
    obtain ⟨s₁, s₂⟩ := List.forall_mem_append.mp hps
    rw [List.flatMap_append, (hv.written_value b₂ s₂).2, List.append_nil]
    exact h₁ rfl b₁ s₁
  | braced _ hv _ _ h₂ =>
    rw [Plan.avoids_braced] at hp
    obtain ⟨b₁, b₂⟩ := Bool.and_eq_true_iff.mp hp
    obtain ⟨s₁, s₂⟩ := List.forall_mem_append.mp hps
    rw [Plan.written_braced, List.flatMap_append, (hv.written_value b₁ s₁).2]
    exact h₂ rfl b₂ s₂
  | ifThenElse hv _ _ _ h₂ h₃ =>
    obtain ⟨b, b₃⟩ := Bool.and_eq_true_iff.mp hp
    obtain ⟨b₁, b₂⟩ := Bool.and_eq_true_iff.mp b
    obtain ⟨s, s₃⟩ := List.forall_mem_append.mp hps
    obtain ⟨s₁, s₂⟩ := List.forall_mem_append.mp s
    rw [List.flatMap_append, List.flatMap_append, (hv.written_value b₁ s₁).2, List.nil_append]
    exact (h₂ rfl b₂ s₂).append (h₃ rfl b₃ s₃)
  | endless hv hv' _ _ _ h₃ | foreachLoop hv hv' _ _ _ h₃ =>
    obtain ⟨b, b₃⟩ := Bool.and_eq_true_iff.mp hp
    obtain ⟨b₁, b₂⟩ := Bool.and_eq_true_iff.mp b
    obtain ⟨s, s₃⟩ := List.forall_mem_append.mp hps
    obtain ⟨s₁, s₂⟩ := List.forall_mem_append.mp s
    rw [List.flatMap_append, List.flatMap_append, (hv.written_value b₁ s₁).2,
      (hv'.written_value b₂ s₂).2]
    exact h₃ rfl b₃ s₃
  | forLoop hv _ hv' hv'' _ _ h₂ _ _ h₅ =>
    obtain ⟨b, b₅⟩ := Bool.and_eq_true_iff.mp hp
    obtain ⟨b, b₄⟩ := Bool.and_eq_true_iff.mp b
    obtain ⟨b, b₃⟩ := Bool.and_eq_true_iff.mp b
    obtain ⟨b₁, b₂⟩ := Bool.and_eq_true_iff.mp b
    obtain ⟨s, s₅⟩ := List.forall_mem_append.mp hps
    obtain ⟨s, s₄⟩ := List.forall_mem_append.mp s
    obtain ⟨s, s₃⟩ := List.forall_mem_append.mp s
    obtain ⟨s₁, s₂⟩ := List.forall_mem_append.mp s
    simp only [List.flatMap_append, (hv.written_value b₁ s₁).2, (hv'.written_value b₃ s₃).2,
      (hv''.written_value b₄ s₄).2, List.nil_append, List.append_nil]
    exact (h₂ rfl b₂ s₂).append (h₅ rfl b₅ s₅)
  | text | unlessEmpty | shownBefore | compact | bind | effects | line | valueLine | closed
  | instantiation => cases hu

end

/-- Whether nodes of the category are lowered to instructions. -/
def Category.isCode : Category → Bool
  | .statement | .classDecl | .caseClause | .catchClause => true
  | _ => false

theorem category_isCode {α : Type} (k : Kind α) : (category k).isCode = k.isCode := by
  cases k <;> rfl

/-- What has a meaning as a value is no code, unless it is a class that is instantiated. -/
theorem isCode_eq_of_value {α : Type} {r : Role} {k : Kind α} (hu : r.use = .value)
    (hr : r ≠ .instantiated) (hs : standing r k ≠ .wrong) : k.isCode = false := by
  rw [← category_isCode]
  unfold standing at hs
  generalize category k = c at hs ⊢
  cases r with
  | instantiated => exact absurd rfl hr
  | statement | caseClause | catchClause => cases hu
  | _ => cases c <;> first | rfl | exact absurd rfl hs

theorem role_ne_instantiated {α : Type} {k : Kind α} (hk : k.isCode) {x : Role × α}
    (hx : x ∈ placed k) : x.1 ≠ .instantiated := by
  have hall : (slots k).all (·.1 != .instantiated) = true := by
    cases k <;> first | rfl | cases hk
  obtain ⟨slot, hslot, hx⟩ := List.mem_flatMap.mp hx
  obtain ⟨n, -, rfl⟩ := List.mem_map.mp hx
  simpa using List.all_eq_true.mp hall slot hslot

theorem isStatement_planned (n : Node) : (planned n).kind.isStatement = n.kind.isStatement := by
  rw [planned_eq]
  cases n.kind <;> rfl

theorem isCode_of_isStatement {α : Type} {k : Kind α} (h : k.isStatement) : k.isCode = true := by
  cases k <;> first | rfl | exact h

theorem label?_eq_none {α : Type} {k : Kind α} (h : ¬ k.isGoto) : k.label? = none := by
  cases k <;> first | rfl | exact absurd rfl h

/-- Clauses belong to the statement that they stand in. -/
theorem marked_of_clause {α : Type} {r : Role} {k : Kind α}
    (hr : r = .caseClause ∨ r = .catchClause) (hs : standing r k ≠ .wrong) :
    standing r k = .marked ∧ k.isCode = true ∧ k.label? = none := by
  obtain rfl | rfl := hr <;> cases k <;> first | exact ⟨rfl, rfl, rfl⟩ | exact absurd rfl hs

theorem avoids_as_clause {r : Role} (hr : r = .caseClause ∨ r = .catchClause) (n : Planned) :
    (n.as r).avoids Plan.Device.isClosing := by
  obtain rfl | rfl := hr
  · exact avoids_casePlan n rfl
  · exact avoids_catchPlan n

/-- The plan of a statement writes the labels that its parts write, or its own one. -/
theorem written_plan {n : Node} (hstmt : n.kind.isStatement) (htoken : n.kind.hasToken)
    (hsuits : ∀ x ∈ parts (planned n).kind, x.2.Suits True x.1) :
    (planned n).plan.written
      ~ n.kind.label?.toList ++ (parts (planned n).kind).flatMap fun x => x.2.written := by
  have hplan := planned_plan n
  by_cases hg : n.kind.isGoto
  · rw [parts_of_isGoto (isGoto_planned n ▸ hg), List.flatMap_nil, List.append_nil, hplan,
      planned_eq]
    cases hk : n.kind with
    | goto target => exact .refl _
    | label name => exact .refl _
    | _ =>
      rw [hk] at hg
      cases hg
  · have hexpr : ¬ (planned n).kind.isExpression := by
      rw [isExpression_planned]
      cases hk : n.kind <;> rw [hk] at hstmt <;> first | exact Bool.false_ne_true | cases hstmt
    have hmade := (made_kindPlan (t := (planned n).tag) (isGoto_planned n ▸ hg)
      (hasToken_planned n ▸ htoken)).2 (isStatement_planned n ▸ hstmt)
    rw [label?_eq_none hg, hplan]
    exact hmade.written_perm rfl
      (avoids_kindPlan_of_not_isExpression hexpr fun _ _ _ => rfl) hsuits

/-- **The plan of code writes the labels of its tree that stand in no closure.** -/
theorem written_as {r : Role} {n : Node} (h : Meaningful r n) (hr : r.use = .code) :
    ((planned n).as r).written ~ n.openLabels := by
  induction h with
  | @intro r n hwrong htoken hmeaningful ih =>
    have hsuits : ∀ x ∈ parts (planned n).kind, x.2.Suits True x.1 := by
      rw [parts_planned]
      exact List.forall_mem_map.mpr fun x _ => suits_as x.2 (fun _ _ _ => trivial) x.1
    have hchildren (hk : n.kind.isCode) : ((parts (planned n).kind).flatMap fun x => x.2.written)
        ~ n.kind.children.flatMap Node.openLabels := by
      rw [parts_planned, ← map_snd_placed, List.flatMap_map, List.flatMap_map]
      refine List.Perm.flatMap_left _ fun x hx => ?_
      cases hu : x.1.use with
      | code => exact ih x hx hu
      | value =>
        have hplain : ((planned x.2).as x.1).Suits True x.1.use :=
          suits_as x.2 (fun _ _ _ => trivial) x.1
        rw [hu] at hplain
        cases hmeaningful x hx with
        | intro hright =>
          have hcode := isCode_eq_of_value hu (role_ne_instantiated hk hx) hright
          rw [hplain.written_eq, Node.openLabels_eq, if_neg (hcode ▸ Bool.false_ne_true)]
    have clause (hclause : r = .caseClause ∨ r = .catchClause) :
        ((planned n).as r).written ~ n.openLabels := by
      obtain ⟨hmarked, hcode, hlabel⟩ := marked_of_clause hclause hwrong
      rw [Node.openLabels_eq, if_pos hcode, hlabel]
      rw [← standing_planned] at hmarked
      cases stands (planned_plan n) r with
      | marked _ hm =>
        rw [hr] at hm
        exact (hm.written_perm rfl (avoids_as_clause hclause _)
          (List.forall_mem_cons.mpr ⟨trivial, hsuits⟩)).trans (hchildren hcode)
      | level hs | guarded hs | wrong hs => rw [hmarked] at hs; cases hs
    cases r with
    | statement =>
      have hstmt : n.kind.isStatement := by
        rw [standing_statement] at hwrong
        by_contra hs
        exact hwrong (if_neg hs)
      have hcode := isCode_of_isStatement hstmt
      have hplan : (planned n).as .statement = .statement (planned n).tag (planned n).plan :=
        if_pos (isStatement_planned n ▸ hstmt)
      rw [hplan, Node.openLabels_eq, if_pos hcode]
      exact (written_plan hstmt htoken hsuits).trans ((hchildren hcode).append_left _)
    | caseClause => exact clause (.inl rfl)
    | catchClause => exact clause (.inr rfl)
    | _ => cases hr

/-! ## What is handed out -/

/-- What was told of is what was handed out, from the first label and the first temporary on. -/
def Context.Tallied (c : Context) : Prop :=
  ∀ k, (.labels k ∈ c.events ↔ k < c.labels) ∧ (.temporary k ∈ c.events ↔ k < c.temps)

namespace Context.Tallied

variable {c : Context}

theorem told {e : Event} (h : c.Tallied) (hl : ∀ k, e ≠ .labels k) (ht : ∀ k, e ≠ .temporary k) :
    (c.told e).Tallied := by
  intro k
  obtain ⟨h₁, h₂⟩ := h k
  exact ⟨(List.mem_cons.trans (or_iff_right (hl k).symm)).trans h₁,
    (List.mem_cons.trans (or_iff_right (ht k).symm)).trans h₂⟩

theorem labelled (h : c.Tallied) : c.labelled.Tallied := by
  intro k
  obtain ⟨h₁, h₂⟩ := h k
  constructor
  · show _ ∈ _ :: _ ↔ k < c.labels + 1
    rw [List.mem_cons, h₁, Event.labels.injEq]
    omega
  · show _ ∈ _ :: _ ↔ _
    rw [List.mem_cons, h₂]
    exact or_iff_right nofun

theorem temped (h : c.Tallied) : c.temped.Tallied := by
  intro k
  obtain ⟨h₁, h₂⟩ := h k
  constructor
  · show _ ∈ _ :: _ ↔ _
    rw [List.mem_cons, h₁]
    exact or_iff_right nofun
  · show _ ∈ _ :: _ ↔ k < c.temps + 1
    rw [List.mem_cons, h₂, Event.temporary.injEq]
    omega

end Context.Tallied

/-- **A run tells of all that it hands out.** -/
theorem Plan.Runs.tallied {p : Plan} {c c' : Context} {a : Lowered} (h : Runs p c a c')
    (hc : c.Tallied) : c'.Tallied := by
  induction h with
  | nothing | text | mark | guardedAgain | expressionAgain | statementAgain | emit | jump
  | closeCase => exact hc
  | guarded _ _ ih | expression _ _ _ ih | unlessEmpty _ ih | compact _ ih | effects _ ih
  | line _ ih | valueLine _ ih | inSwitch _ ih | apart _ ih => exact ih hc
  | statement _ _ _ ih => exact ih (hc.told nofun nofun)
  | declared _ ih => exact (ih hc).told nofun nofun
  | bind _ ih => exact (ih hc).temped
  | barrier _ ih => exact (ih hc).labelled
  | both _ _ h₁ h₂ | shownBefore _ _ h₁ h₂ | closed _ _ h₁ h₂ => exact h₂ (h₁ hc)
  | ifThen _ _ h₁ h₂ => exact h₂ (h₁ hc).labelled
  | ifThenElse _ _ _ h₁ h₂ h₃ => exact h₃ (h₂ (h₁ hc).labelled.labelled)
  | whileLoop _ _ h₁ h₂ | doWhile _ _ h₁ h₂ => exact h₂ (h₁ hc.labelled.labelled)
  | foreachLoop _ _ _ h₁ h₂ h₃ => exact h₃ (h₂ (h₁ hc)).labelled.labelled
  | endless _ _ _ h₁ h₂ h₃ => exact h₃ (h₂ (h₁ hc).labelled.labelled.labelled)
  | forLoop _ _ _ _ _ h₁ h₂ h₃ h₄ h₅ =>
    exact h₅ (h₄ (h₃ (h₂ (h₁ hc).labelled.labelled.labelled)))

/-- So many temporaries are handed out as there are calls. -/
theorem temps_eq_calls {n : Node} {o : Options} {a : Lowered} {c : Context} (hids : n.ids.Nodup)
    (h : Plan.Runs (planned n).code { options := o } a c) : c.temps = n.calls.length := by
  have hfresh : Fresh (planned n).code.ids { options := o } := fresh_code hids
  have hsound := (h.complete hfresh).1
  have htied : (planned n).code.Tied (n.hasNumber Kind.isCall) false :=
    tied_as n (fun m hm => Node.hasNumber_eq hids hm) (r := .statement) hsound
  obtain ⟨k, hk⟩ := h.exists_runBinds htied
  have hfinished : ((planned n).code.finished { options := o }).map Prod.fst ~ n.ids :=
    (h.finished_perm hfresh).trans (ids_as_perm n .statement hsound)
  have hcount := (hfinished.filter (n.hasNumber Kind.isCall)).length_eq
  rw [filter_ids_eq hids, List.filter_map, List.length_map, List.length_map] at hcount
  rw [hk.plain htied.isBind_eq, hk.finished.1, ← hcount]
  exact Nat.zero_add _

/-- A constant is printed as it was written. -/
theorem value_of_constant? {m : Node} {s : String} (hm : m.constant? = some s) {c c' : Context}
    {a : Lowered} (h : Plan.Runs (planned m).value c a c') (hnew : m.id ∉ c.visited) :
    a.value = s := by
  have named {t : Tag} {id : Nat} (ht : t.id ∉ c.visited)
      (hrun : Plan.Runs (.expression t (.mark id ++ .text s)) c a c') : a.value = s := by
    cases hrun with
    | expression _ _ hplan =>
      cases hplan with
      | both hmark htext =>
        cases hmark
        cases htext
        exact String.empty_append
    | expressionAgain hid => exact absurd hid ht
  obtain ⟨id, k, location, span⟩ := m
  cases k with
  | constFetch n =>
    obtain ⟨id', k', location', span'⟩ := n
    cases k' with
    | identifier | qualifiedName =>
      obtain rfl := Option.some.inj hm
      exact named hnew h
    | _ => cases hm
  | _ => cases hm

theorem events_of_runs {n : Node} {o : Options} {a : Lowered} {c : Context}
    (h : Plan.Runs (planned n).code { options := o } a c) :
    (listingWithEvents n o).2 = (c.told (.script (tagOf n) a.effects.length)).events.reverse := by
  have hgives : (lowerScript n).Gives { options := o } ⟨a.effects⟩
      (c.told (.script (tagOf n) a.effects.length)) :=
    Lower.gives_bind.mpr ⟨a, c, h.gives, Lower.gives_bind.mpr
      ⟨(), _, Lower.gives_tell.mpr rfl, Lower.gives_pure.mpr ⟨rfl, rfl⟩⟩⟩
  exact congrArg (fun x => x.2.events.reverse) hgives

/-- **A listing defines the labels that were handed out and those of the script.** If a script is
parsed and lowered, and all its label statements have different names, then

* the labels of the listing are some that were handed out, each of them once, and the labels that
  the script defines outside of its closures;
* they are all different if and only if the script defines none of these itself;
* a constant, which is printed as it is written, is printed like a temporary that was handed out if
  and only if it has the name of one whose number is less than the number of calls. -/
theorem labels_perm_handed_and_defined {next limit : Nat} {s : Script} {n : Node} {o : Options}
    {l : Listing} (hparse : (Syntax.parseFrom next s limit).1 = .ok n) (h : listing n o = .ok l)
    (hnames : n.labelNames.Nodup) :
    (∃ handed : List String, handed.Nodup ∧
      (∀ t ∈ handed, ∃ k, .labels k ∈ (listingWithEvents n o).2 ∧
        (t = (Labels.ofNat k).start ∨ t = (Labels.ofNat k).stop)) ∧
      l.labels ~ handed ++ n.openLabels ∧
      (l.labels.Nodup ↔ ∀ t ∈ n.openLabels, t ∉ handed)) ∧
    ∀ m ∈ n.subtree, ∀ name, m.constant? = some name →
      (∀ c a c', m.id ∉ c.visited → (planned m).value.run.Gives c a c' → a.value = name) ∧
      ((∃ k, .temporary k ∈ (listingWithEvents n o).2 ∧ name = temporary k) ↔
        ∃ k < n.calls.length, name = temporary k) := by
  obtain ⟨hmeaningful, hids⟩ := Syntax.meaningful_of_parseFrom hparse
  obtain ⟨a, c, hrun, rfl⟩ := listing_eq_ok_iff.mp h
  have htallied : (c.told (.script (tagOf n) a.effects.length)).Tallied :=
    (hrun.tallied fun k => by simp).told nofun nofun
  have hevents := events_of_runs hrun
  -- the labels that the plan writes are those of the tree
  have hwritten : (planned n).code.written ~ n.openLabels := written_as hmeaningful rfl
  have hopen : n.openLabels.Nodup := n.openLabels_sublist.nodup hnames
  have hnested : (planned n).code.Nested True := nested_as n (fun _ _ _ => trivial) (r := .statement) rfl
  obtain ⟨handed, ⟨hnodup, hnumbered⟩, hperm⟩ := hnested.named hrun (fresh_code hids)
  have hlabels : Listing.labels ⟨a.effects⟩ ~ handed ++ n.openLabels :=
    hperm.trans (hwritten.append_left handed)
  refine ⟨⟨handed, hnodup, fun t ht => ?_, hlabels, ?_⟩, fun m _ name hm => ⟨?_, ?_⟩⟩
  · obtain ⟨k, -, hk, hname⟩ := hnumbered t ht
    refine ⟨k, ?_, hname⟩
    rw [hevents, List.mem_reverse]
    exact (htallied k).1.mpr hk
  · rw [hlabels.nodup_iff, List.nodup_append]
    constructor
    · rintro ⟨-, -, hdiff⟩ t ht ht'
      exact hdiff t ht' t ht rfl
    · intro hdiff
      refine ⟨hnodup, hopen, fun t ht t' ht' heq => ?_⟩
      exact hdiff t' ht' (heq ▸ ht)
  · exact fun c a c' hnew hgives => value_of_constant? hm (Plan.run_gives_iff.mp hgives) hnew
  · refine exists_congr fun k => and_congr_left' ?_
    rw [hevents, List.mem_reverse, (htallied k).2, ← temps_eq_calls hids hrun]
    rfl

/-- A parsed script whose listing is known. -/
theorem exists_parsed {α : Type} {s : Script} {f : Node → Listing → α} {x : α}
    (h : ((Syntax.parseFrom 1 s 10).1.toOption.bind fun n =>
      (unguardedListing n {}).toOption.map (f n)) = some x) :
    ∃ n l, (Syntax.parseFrom 1 s 10).1 = .ok n ∧ listing n {} = .ok l ∧ f n l = x := by
  obtain ⟨n, hn, h⟩ := Option.bind_eq_some_iff.mp h
  obtain ⟨l, hl, hx⟩ := Option.map_eq_some_iff.mp h
  have hparse := congrArg Prod.fst (Syntax.eq_ok_of_toOption hn)
  obtain ⟨-, hids⟩ := Syntax.meaningful_of_parseFrom hparse
  refine ⟨n, l, hparse, ?_, hx⟩
  rw [listing_eq_unguardedListing hids]
  cases hlisting : unguardedListing n {} with
  | error e => rw [hlisting] at hl; cases hl
  | ok l' => rw [hlisting] at hl; cases hl; rfl

/-- A script with two labels, one of them in a closure. -/
def closureLabel : Script :=
  .ofSource "labels" "<?php a: $g=function()\x7bb: f();\x7d; if(c)goto a;"

/-- The label in the closure is a part of its text, and the call in it takes a temporary. -/
theorem labels_closureLabel :
    ∃ n l, (Syntax.parseFrom 1 closureLabel 10).1 = .ok n ∧ listing n {} = .ok l ∧
      n.labelNames = ["a", "b"] ∧ n.openLabels = ["a"] ∧ l.labels = ["a", "L0", "L0_end"] ∧
      (∃ handed : List String, l.labels ~ handed ++ ["a"] ∧ "a" ∉ handed) ∧
      ∀ m ∈ n.subtree, ∀ name, m.constant? = some name →
        ((∃ k, .temporary k ∈ (listingWithEvents n {}).2 ∧ name = temporary k) ↔ name = "t0") := by
  obtain ⟨n, l, hparse, hlisting, hx⟩ := exists_parsed (s := closureLabel)
    (f := fun n l => (n.labelNames, n.openLabels, l.labels, n.calls.length))
    (x := (["a", "b"], ["a"], ["a", "L0", "L0_end"], 1)) (by decide +kernel)
  obtain ⟨hnames, hopen, hlabels, hcalls⟩ : _ ∧ _ ∧ _ ∧ _ := by
    simpa only [Prod.mk.injEq] using hx
  obtain ⟨⟨handed, -, -, hperm, hdistinct⟩, hconstants⟩ :=
    labels_perm_handed_and_defined hparse hlisting (hnames ▸ by decide)
  refine ⟨n, l, hparse, hlisting, hnames, hopen, hlabels, ⟨handed, hopen ▸ hperm, ?_⟩, ?_⟩
  · rw [hlabels, hopen] at hdistinct
    exact hdistinct.mp (by decide) "a" List.mem_cons_self
  · intro m hm name hname
    rw [(hconstants m hm name hname).2, hcalls]
    constructor
    · rintro ⟨k, hk, rfl⟩
      obtain rfl := Nat.lt_one_iff.mp hk
      rfl
    · rintro rfl
      exact ⟨0, Nat.one_pos, rfl⟩

/-- A script that defines the label of its first conditional. -/
def sharedLabel : Script :=
  .ofSource "shared" "<?php L0: if ($a) \x7b\x7d"

/-- `f(); echo t0;`, in which a constant has the name of the first temporary. -/
def sharedConstant : Node :=
  let call := ⟨2, .call ⟨3, .qualifiedName ["f"] false, none, none⟩ [], none, none⟩
  let constant := ⟨5, .constFetch ⟨6, .qualifiedName ["t0"] false, none, none⟩, none, none⟩
  ⟨0, .script [⟨1, .expressionStmt call, none, none⟩, ⟨4, .echo [constant], none, none⟩], none, none⟩

/-- **Names that are handed out are not kept apart from those of the script.** -/
theorem shared_names_not_apart :
    (∃ n l, (Syntax.parseFrom 1 sharedLabel 10).1 = .ok n ∧ listing n {} = .ok l ∧
      n.labelNames = ["L0"] ∧ l.labels = ["L0", "L0", "L0_end"]) ∧
    sharedConstant.subtree.filterMap Node.constant? = [temporary 0] ∧
    listing sharedConstant {} = .ok ⟨[.text "t0 = f();", .text "echo t0;"]⟩ := by
  refine ⟨?_, by decide, ?_⟩
  · obtain ⟨n, l, hparse, hlisting, hx⟩ := exists_parsed (s := sharedLabel)
      (f := fun n l => (n.labelNames, l.labels)) (x := (["L0"], ["L0", "L0", "L0_end"]))
      (by decide +kernel)
    obtain ⟨hnames, hlabels⟩ : _ ∧ _ := by simpa only [Prod.mk.injEq] using hx
    exact ⟨n, l, hparse, hlisting, hnames, hlabels⟩
  · rw [listing_eq_unguardedListing (by decide)]
    decide +kernel

end Lowering

end ThreeAddress

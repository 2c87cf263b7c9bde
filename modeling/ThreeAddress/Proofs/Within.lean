import ThreeAddress.Proofs.BuiltParts
import ThreeAddress.Proofs.Height
import ThreeAddress.Proofs.Lines

/-!
# Nodes within a number of levels

What is known of every node that building makes, if it makes one (`Build.Ensures`). A part is
supplied within a number of levels (`Supplied`) if its words stand on one line and the nodes that
it and its parts make are legible and lie **within so many levels** (`Node.Within`). Some nodes
have a level of their own that the rule around theirs accounts for: for these `bare` is one.
-/

namespace ThreeAddress

open Text (OneLine)

/-! ## What building ensures -/

namespace Syntax.Build

variable {α β : Type} {a : α} {b : Build α} {P Q : α → Prop}

/-- Whatever building makes has the property. -/
def Ensures (b : Build α) (Q : α → Prop) : Prop :=
  ∀ file next x next', b.Gives file next x next' → Q x

namespace Ensures

theorem pure (h : Q a) : (Pure.pure a : Build α).Ensures Q :=
  fun _ _ _ _ hx => (gives_pure.mp hx).1 ▸ h

theorem bind {f : α → Build β} {R : β → Prop} (hb : b.Ensures P)
    (hf : ∀ x, P x → (f x).Ensures R) : (b >>= f).Ensures R := by
  intro file next y next' hy
  obtain ⟨x, next₁, hx, hy⟩ := gives_bind.mp hy
  exact hf x (hb _ _ _ _ hx) _ _ _ _ hy

theorem map {f : α → β} {R : β → Prop} (hb : b.Ensures P) (hf : ∀ x, P x → R (f x)) :
    (f <$> b).Ensures R := by
  rw [map_eq_pure_bind]
  exact hb.bind fun x hx => .pure (hf x hx)

theorem and (hP : b.Ensures P) (hQ : b.Ensures Q) : b.Ensures fun x => P x ∧ Q x :=
  fun _ _ _ _ hx => ⟨hP _ _ _ _ hx, hQ _ _ _ _ hx⟩

theorem mono (hb : b.Ensures P) (h : ∀ x, P x → Q x) : b.Ensures Q :=
  fun _ _ _ _ hx => h _ (hb _ _ _ _ hx)

/-- Reading the name of the file changes nothing. -/
theorem read {f : String → Build α} (hf : ∀ file, (f file).Ensures Q) :
    ((MonadReader.read : Build String) >>= f).Ensures Q :=
  .bind (P := fun _ => True) (fun _ _ _ _ _ => trivial) fun file _ => hf file

theorem fail {cause : SyntaxError.Cause} {location : Option Location} {span : Option Span} :
    (Build.fail cause location span : Build α).Ensures Q := by
  intro file next x next' hx
  cases hx

theorem failAt {e : Extent} {cause : SyntaxError.Cause} :
    (Build.failAt e cause : Build α).Ensures Q :=
  .read fun _ => .fail

theorem node {k : Kind Node} {location : Option Location} {span : Option Span} {Q : Node → Prop}
    (h : ∀ id, Q ⟨id, k, location, span⟩) : (Build.node k location span).Ensures Q :=
  fun _ _ _ _ hx => (gives_node.mp hx).1 ▸ h _

theorem nodeAt {e : Extent} {k : Kind Node} {Q : Node → Prop}
    (h : ∀ id location span, Q ⟨id, k, location, span⟩) : (Build.nodeAt e k).Ensures Q :=
  .read fun _ => .node fun id => h id _ _

theorem both {c : Build β} {R : β → Prop} (hb : b.Ensures P) (hc : c.Ensures R) :
    (Build.both b c).Ensures fun x => P x.1 ∧ R x.2 := by
  intro file next x next' hx
  obtain ⟨next₁, h₁, h₂⟩ := gives_both.mp hx
  exact ⟨hb _ _ _ _ h₁, hc _ _ _ _ h₂⟩

theorem option {b : Option (Build α)} (h : ∀ x ∈ b, x.Ensures Q) :
    (Build.option b).Ensures fun x => ∀ y ∈ x, Q y := by
  cases b with
  | none => exact .pure nofun
  | some b => exact (h b rfl).map fun x hx y hy => Option.some.inj hy ▸ hx

/-- A list that may be missing. -/
theorem optionList {b : Option (Build (List α))} (h : ∀ x ∈ b, x.Ensures fun ys => ∀ y ∈ ys, Q y) :
    (Build.option b).Ensures fun ys => ∀ y ∈ ys.getD [], Q y := by
  cases b with
  | none => exact .pure (List.forall_mem_nil _)
  | some b => exact (h b rfl).map fun ys hys => hys

theorem mapM {f : β → Build α} {xs : List β} (h : ∀ x ∈ xs, (f x).Ensures Q) :
    (xs.mapM f).Ensures fun ys => ∀ y ∈ ys, Q y := by
  induction xs with
  | nil => exact .pure (List.forall_mem_nil _)
  | cons x xs ih =>
    rw [List.mapM_cons]
    obtain ⟨hx, hxs⟩ := List.forall_mem_cons.mp h
    exact hx.bind fun y hy => (ih hxs).bind fun ys hys =>
      .pure (List.forall_mem_cons.mpr ⟨hy, hys⟩)

theorem mapM_length (f : β → Build α) (xs : List β) :
    (xs.mapM f).Ensures fun ys => ys.length = xs.length := by
  induction xs with
  | nil => exact .pure rfl
  | cons x xs ih =>
    rw [List.mapM_cons]
    exact .bind (P := fun _ => True) (fun _ _ _ _ _ => trivial) fun y _ => ih.bind fun ys hys =>
      .pure (congrArg (· + 1) hys)

/-- A property that changes from step to step. -/
theorem foldlM {f : α → β → Build α} {P : Nat → α → Prop} {ys : List β} {x : α} {k : Nat}
    (hx : P k x) (h : ∀ y ∈ ys, ∀ k x, P k x → (f x y).Ensures (P (k + 1))) :
    (ys.foldlM f x).Ensures (P (k + ys.length)) := by
  induction ys generalizing x k with
  | nil => exact .pure hx
  | cons y ys ih =>
    obtain ⟨hy, hys⟩ := List.forall_mem_cons.mp h
    rw [List.foldlM_cons, List.length_cons, Nat.add_comm ys.length, ← Nat.add_assoc]
    exact (hy k x hx).bind fun x' hx' => ih hx' hys

theorem ite {c : Prop} [Decidable c] {b' : Build α} (h : c → b.Ensures Q)
    (h' : ¬c → b'.Ensures Q) : (if c then b else b').Ensures Q := by
  split
  · exact h ‹_›
  · exact h' ‹_›

end Ensures

end Syntax.Build

/-! ## Nodes within a number of levels -/

namespace Syntax

open Lowering (Role height standing slots placed greatest category)

/-- The node is legible and goes down at most so many levels in the role. -/
structure Node.Within (r : Role) (m : Nat) (n : Node) : Prop where
  legible : n.Legible
  height_le : height n r ≤ m

/-- Everything in the fields has the property for its role. -/
def allSlots (P : Role → Node → Prop) : List (Role × Field Node) → Prop
  | [] => True
  | [x] => x.2.All (fun _ => True) (P x.1)
  | x :: xs => x.2.All (fun _ => True) (P x.1) ∧ allSlots P xs

/-- All texts in the fields have the property. -/
def allTexts {α : Type} (W : String → Prop) : List (String × Field α) → Prop
  | [] => True
  | (_, .text s) :: fs => W s ∧ allTexts W fs
  | (_, .text? s) :: fs => (∀ x ∈ s, W x) ∧ allTexts W fs
  | (_, .texts ss) :: fs => (∀ x ∈ ss, W x) ∧ allTexts W fs
  | _ :: fs => allTexts W fs

theorem forall_words {α : Type} {W : String → Prop} {k : Kind α} (h : allTexts W k.fields) :
    ∀ s ∈ k.words, W s := by
  have hnames : ∀ s ∈ k.fields.flatMap fun f => f.2.names, W s := by
    generalize k.fields = fs at h
    induction fs with
    | nil => exact List.forall_mem_nil _
    | cons f fs ih =>
      obtain ⟨name, f⟩ := f
      rw [List.flatMap_cons]
      cases f with
      | text s => exact List.forall_mem_append.mpr ⟨List.forall_mem_singleton.mpr h.1, ih h.2⟩
      | text? s =>
        exact List.forall_mem_append.mpr ⟨fun x hx => h.1 x (Option.mem_toList.mp hx), ih h.2⟩
      | texts ss => exact List.forall_mem_append.mpr ⟨h.1, ih h.2⟩
      | _ => exact ih h
  cases k with
  | string | stringPart | inlineHtml => exact List.forall_mem_nil _
  | _ => exact hnames

theorem Field.forall_children {α : Type} {W : String → Prop} {C : α → Prop} {f : Field α}
    (h : f.All W C) : ∀ c ∈ f.children, C c := by
  cases f with
  | node c => exact List.forall_mem_singleton.mpr h
  | node? c => exact fun x hx => h x (Option.mem_toList.mp hx)
  | nodes | nodes? | slots => exact h
  | _ => exact List.forall_mem_nil _

theorem forall_placed {P : Role → Node → Prop} {k : Kind Node} (h : allSlots P (slots k)) :
    ∀ x ∈ placed k, P x.1 x.2 := by
  have hslots : ∀ s ∈ slots k, s.2.All (fun _ => True) (P s.1) := by
    generalize slots k = xs at h
    fun_induction allSlots P xs with
    | case1 => exact List.forall_mem_nil _
    | case2 x => exact List.forall_mem_singleton.mpr h
    | case3 x xs _ ih => exact List.forall_mem_cons.mpr ⟨h.1, ih h.2⟩
  intro x hx
  obtain ⟨s, hs, hx⟩ := List.mem_flatMap.mp hx
  obtain ⟨c, hc, rfl⟩ := List.mem_map.mp hx
  exact Field.forall_children (hslots s hs) c hc

theorem greatest_le {ns : List Nat} {m : Nat} (h : ∀ n ∈ ns, n ≤ m) : greatest ns ≤ m := by
  induction ns with
  | nil => exact Nat.zero_le m
  | cons n ns ih =>
    obtain ⟨hn, hns⟩ := List.forall_mem_cons.mp h
    exact Nat.max_le.mpr ⟨hn, ih hns⟩

namespace Node.Within

variable {r r' : Role} {m m' : Nat} {n : Node}

theorem mono (h : n.Within r m) (hle : m ≤ m') : n.Within r m' :=
  ⟨h.legible, h.height_le.trans hle⟩

/-- A node in a role in which it adds no more levels. -/
theorem as (h : n.Within r m)
    (hle : (standing r' n.kind).levels ≤ (standing r n.kind).levels) : n.Within r' m := by
  refine ⟨h.legible, le_trans ?_ h.height_le⟩
  rw [Lowering.height_eq, Lowering.height_eq]
  exact Nat.add_le_add_right hle _

/-- A value in any role that takes values. -/
theorem value_as (h : n.Within .value m) (hr : r.takesValue = true) : n.Within r m := by
  refine h.as ?_
  unfold standing
  cases r <;> cases hr <;> cases category n.kind <;> decide

/-- **A node lies one level above its children**, if it adds a level of its own. -/
theorem node {id : Nat} {k : Kind Node} {location : Option Location} {span : Option Span}
    (hwords : ∀ s ∈ k.words, OneLine s) (h : allSlots (fun r n => n.Within r m) (slots k)) :
    (⟨id, k, location, span⟩ : Node).Within r (m + (standing r k).levels) := by
  have hplaced := forall_placed h
  constructor
  · refine .intro hwords fun c hc => ?_
    rw [← Lowering.map_snd_placed] at hc
    obtain ⟨x, hx, rfl⟩ := List.mem_map.mp hc
    exact (hplaced x hx).legible
  · rw [Lowering.height_eq, Nat.add_comm]
    refine Nat.add_le_add_right (greatest_le fun x hx => ?_) _
    obtain ⟨y, hy, rfl⟩ := List.mem_map.mp hx
    exact (hplaced y hy).height_le

/-- What stands inside a node lies within as many levels. -/
theorem placed (h : n.Within r m) : ∀ x ∈ Lowering.placed n.kind, x.2.Within x.1 m := by
  intro x hx
  obtain ⟨⟨-, hchildren⟩, hle⟩ := h
  refine ⟨hchildren x.2 ?_, le_trans ?_ hle⟩
  · rw [← Lowering.map_snd_placed]
    exact List.mem_map_of_mem hx
  · rw [Lowering.height_eq n]
    refine Nat.le_add_left_of_le ?_
    have hmem := List.mem_map_of_mem (f := fun x : Role × Node => height x.2 x.1) hx
    generalize List.map _ _ = ns at hmem
    induction ns with
    | nil => cases hmem
    | cons k ns ih =>
      obtain heq | hmem := List.mem_cons.mp hmem
      · exact heq ▸ Nat.le_max_left _ _
      · exact (ih hmem).trans (Nat.le_max_right _ _)

end Node.Within

/-- A node that is a name. -/
structure Node.IsName (n : Node) : Prop where
  legible : n.Legible
  category : category n.kind = .name

/-- A name has nothing below it. -/
theorem Node.IsName.height_eq {n : Node} (h : n.IsName) (r : Role) :
    height n r = (r.standing .name).levels := by
  have hcategory := h.category
  rw [Lowering.height_eq]
  unfold standing
  rw [hcategory]
  have hplaced : Lowering.placed n.kind = [] := by
    generalize n.kind = k at hcategory
    cases k with
    | identifier | qualifiedName => rfl
    | _ => cases hcategory
  rw [hplaced]
  rfl

/-- A name adds no level where names are expected. -/
theorem Node.IsName.within {n : Node} (h : n.IsName) {r : Role} (m : Nat)
    (hr : (r.standing .name).levels = 0) : n.Within r m :=
  ⟨h.legible, by rw [h.height_eq, hr]; exact Nat.zero_le m⟩

section

variable {r : Role} {m m' : Nat} {k : Kind Node}

/-- **A node that is made lies one level above its parts**, if it adds a level of its own. -/
theorem ensures_node {location : Option Location} {span : Option Span}
    (hwords : ∀ s ∈ k.words, OneLine s) (h : allSlots (fun r n => n.Within r m) (slots k))
    (hle : m + (standing r k).levels ≤ m') :
    (Build.node k location span).Ensures (Node.Within r m') :=
  .node fun _ => (Node.Within.node hwords h).mono hle

theorem ensures_nodeAt {e : Extent} (hwords : ∀ s ∈ k.words, OneLine s)
    (h : allSlots (fun r n => n.Within r m) (slots k)) :
    (Build.nodeAt e k).Ensures (Node.Within r (m + (standing r k).levels)) :=
  .read fun _ => ensures_node hwords h (Nat.le_refl _)

end

/-! ## Parts -/

open Grammar (Rule)

/-- The role that the node of a rule has to fit: a class that is looked up counts as a name. -/
def placeOf? : Rule → Option Role
  | .classRef => some .name
  | r => nodeRole? r

/-- One for a rule whose node has a level that the rule around it accounts for. -/
def bare : Rule → Nat
  | .expr | .parenExpr | .braceInterp | .classRef | .dynamicClass | .simpleInterp | .quotedText
  | .heredocText | .backtickText | .closureUse | .arrayItem | .argument | .script | .inlineHtml
  | .statement | .classMember | .caseClause | .catchClause | .staticItem | .useItem
  | .useGroupItem | .constItem | .param | .propertyItem => 0
  | _ => 1

/-- The words of the part stand on one line, and what it and its parts make lies within `m`
levels. -/
inductive Supplied (m : Nat) : Part → Prop
  | intro {p : Part} : (p.rule.isWord = true → OneLine p.text) →
      (∀ r ∈ placeOf? p.rule, p.value.Ensures (Node.Within r (m + bare p.rule))) →
      (p.rule = .qualifiedName ∨ p.rule = .groupPrefix → p.value.Ensures Node.IsName) →
      (∀ c ∈ p.children, Supplied m c) → Supplied m p

namespace Supplied

variable {m m' : Nat} {p : Part} {q : Rule} {r : Role}

theorem mono (h : Supplied m p) (hle : m ≤ m') : Supplied m' p := by
  induction h with
  | intro htext hvalue hname _ ih =>
    refine .intro htext (fun r hr => (hvalue r hr).mono fun n hn => hn.mono ?_) hname ih
    exact Nat.add_le_add_right hle _

theorem text (h : Supplied m p) (hword : p.rule.isWord = true) : OneLine p.text := by
  obtain ⟨htext, -, -, -⟩ := h
  exact htext hword

theorem word (h : Supplied m p) (hword : p.rule.isWord = true) : OneLine p.word :=
  Text.oneLine_map_toLower (h.text hword)

theorem variableName (h : Supplied m p) (hword : p.rule.isWord = true) :
    OneLine p.variableName := by
  refine (h.text hword).subset ?_
  show (String.ofList _).toList ⊆ (String.ofList _).toList
  rw [String.toList_ofList, String.toList_ofList]
  exact (List.dropWhile_sublist _).subset

theorem value (h : Supplied m p) (hq : p.rule = q) (hr : placeOf? q = some r) :
    p.value.Ensures (Node.Within r (m + bare q)) := by
  obtain ⟨-, hvalue, -, -⟩ := h
  subst hq
  exact hvalue r hr

theorem name (h : Supplied m p) (hq : p.rule = .qualifiedName ∨ p.rule = .groupPrefix) :
    p.value.Ensures Node.IsName := by
  obtain ⟨-, -, hname, -⟩ := h
  exact hname hq

theorem children (h : Supplied m p) : ∀ c ∈ p.children, Supplied m c := by
  obtain ⟨-, -, -, hchildren⟩ := h
  exact hchildren

theorem parts (h : Supplied m p) : ∀ c ∈ p.parts, Supplied m c :=
  fun c hc => h.children c (List.mem_filter.mp hc).1

theorem partsOf (h : Supplied m p) (q : Rule) : ∀ c ∈ p.partsOf q, Supplied m c :=
  fun c hc => h.parts c (List.mem_filter.mp hc).1

end Supplied

section

variable {m : Nat} {p : Part} {ps : List Part} {e : Extent} {q : Rule} {r : Role}

theorem ensures_buildAs (h : Supplied m p) (hr : placeOf? q = some r) :
    (buildAs q p).Ensures (Node.Within r (m + bare q)) :=
  .ite (fun hq => h.value hq hr) fun _ => .failAt

/-- A name that has to be one. -/
theorem ensures_buildAs_name (h : Supplied m p) (hq : q = .qualifiedName ∨ q = .groupPrefix) :
    (buildAs q p).Ensures Node.IsName :=
  .ite (fun hrule => h.name (hrule ▸ hq)) fun _ => .failAt

/-- A part of one of several rules that all fit the role, with at most one level of their own. -/
theorem ensures_buildAmong {what : Expected} (h : Supplied m p)
    (hrules : what.rules.all (fun q => placeOf? q == some r) = true) :
    (buildAmong what e p).Ensures (Node.Within r (m + 1)) := by
  refine .ite (fun hmem => ?_) fun _ => .failAt
  have hr := beq_iff_eq.mp (List.all_eq_true.mp hrules _ hmem)
  refine (h.value rfl hr).mono fun n hn => hn.mono (Nat.add_le_add_left ?_ m)
  unfold bare
  split <;> decide

theorem ensures_withFirst {α : Type} {f : Part → Build α} {Q : α → Prop}
    (h : ∀ p ∈ ps, Supplied m p) (hf : ∀ p, Supplied m p → (f p).Ensures Q) :
    (withFirst e f ps).Ensures Q := by
  cases ps with
  | nil => exact .failAt
  | cons p ps => exact hf p (h p List.mem_cons_self)

theorem ensures_buildFirst (h : ∀ p ∈ ps, Supplied m p) (hr : placeOf? q = some r) :
    (buildFirst q e ps).Ensures (Node.Within r (m + bare q)) :=
  ensures_withFirst h fun _ hp => ensures_buildAs hp hr

theorem ensures_buildAll (h : ∀ p ∈ ps, Supplied m p) (hr : placeOf? q = some r) :
    (buildAll q ps).Ensures fun ns => ∀ n ∈ ns, n.Within r (m + bare q) :=
  .mapM fun p hp => ensures_buildAs (h p hp) hr

theorem ensures_buildOption {p : Option Part} (h : ∀ c ∈ p, Supplied m c)
    (hr : placeOf? q = some r) :
    (buildOption q p).Ensures fun n => ∀ x ∈ n, x.Within r (m + bare q) := by
  refine .option fun b hb => ?_
  obtain ⟨c, hc, rfl⟩ := Option.mem_map.mp hb
  exact ensures_buildAs (h c hc) hr

theorem supplied_partOf? (h : ∀ p ∈ ps, Supplied m p) : ∀ p ∈ partOf? q ps, Supplied m p :=
  fun p hp => h p (List.mem_of_find?_eq_some hp)

theorem rule_of_partOf? (h : p ∈ partOf? q ps) : p.rule = q := by
  simpa using List.find?_some h

theorem supplied_head? (h : ∀ p ∈ ps, Supplied m p) : ∀ p ∈ ps.head?, Supplied m p :=
  fun p hp => h p (List.mem_of_mem_head? hp)

theorem supplied_tail (h : ∀ p ∈ ps, Supplied m p) : ∀ p ∈ ps.tail, Supplied m p :=
  fun p hp => h p (List.mem_of_mem_tail hp)

theorem supplied_drop (h : ∀ p ∈ ps, Supplied m p) (k : Nat) : ∀ p ∈ ps.drop k, Supplied m p :=
  fun p hp => h p (List.mem_of_mem_drop hp)

theorem supplied_filter (h : ∀ p ∈ ps, Supplied m p) (f : Part → Bool) :
    ∀ p ∈ ps.filter f, Supplied m p :=
  fun p hp => h p (List.mem_filter.mp hp).1

end

end Syntax

end ThreeAddress

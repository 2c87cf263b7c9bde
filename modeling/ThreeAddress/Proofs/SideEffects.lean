import ThreeAddress.Proofs.MarkedText

/-!
# The order of side effects

Calls and inclusions leave lines of their own, while assignments and counters act where they stand
in the text. **The effects of an expression statement show in the order of evaluation exactly if
nothing that acts in place stands before something that leaves a line**, at no node of the
expression (`effects_in_order_iff`). `$i++ + f()` has such a node: the counter is left in the value
and the call is written before it (`counter_overtaken`).
-/

namespace ThreeAddress

namespace Syntax.Node

open scoped List

/-- The nodes that have effects, in the order in which they are evaluated. -/
def effects (n : Node) : List Node :=
  n.evaluation.filter (·.kind.acts)

/-- Whether something acts in the text for the value of the node. What leaves a line takes along
what acts in its operands. -/
def actsInValue (n : Node) : Bool :=
  n.fold fun n k => !n.kind.hoists && (n.kind.actsInPlace || (n.operands k).any fun b => b)

/-- Whether a line is left before the value of the node. -/
def leavesLine (n : Node) : Bool :=
  n.evaluation.any (·.kind.hoists)

/-- No effect is overtaken: of two operands of a node that is evaluated, the first does not act in
its value if the second leaves a line. -/
def Undisturbed (n : Node) : Prop :=
  ∀ m ∈ n.evaluation, (m.operands m.kind).Pairwise fun x y => ¬ (x.actsInValue ∧ y.leavesLine)

instance (n : Node) : Decidable n.Undisturbed :=
  inferInstanceAs (Decidable (∀ m ∈ n.evaluation, _))

theorem actsInValue_eq (n : Node) :
    n.actsInValue
      = (!n.kind.hoists && (n.kind.actsInPlace || (n.operands n.kind).any actsInValue)) := by
  unfold actsInValue
  rw [fold_eq, operands_foldKind, List.any_map]
  rfl

theorem leavesLine_eq (n : Node) :
    n.leavesLine = ((n.operands n.kind).any leavesLine || n.kind.hoists) := by
  unfold leavesLine
  rw [evaluation_eq, List.any_append, List.any_flatMap, List.any_cons, List.any_nil, Bool.or_false]

theorem effects_eq (n : Node) :
    n.effects = (n.operands n.kind).flatMap effects ++ [n].filter (·.kind.acts) := by
  unfold effects
  rw [evaluation_eq, List.filter_append, List.filter_flatMap]

theorem undisturbed_iff (n : Node) :
    n.Undisturbed ↔ (∀ m ∈ n.operands n.kind, m.Undisturbed) ∧
      (n.operands n.kind).Pairwise fun x y => ¬ (x.actsInValue ∧ y.leavesLine) := by
  unfold Undisturbed
  rw [evaluation_eq]
  simp only [List.mem_append, List.mem_flatMap, List.mem_singleton]
  constructor
  · intro h
    exact ⟨fun m hm x hx => h x (.inl ⟨m, hm, hx⟩), h n (.inr rfl)⟩
  · rintro ⟨hoperands, hself⟩ m (⟨x, hx, hm⟩ | rfl)
    · exact hoperands x hx m hm
    · exact hself

/-- A node is evaluated once at most. -/
theorem evaluation_subperm (n : Node) : n.evaluation <+~ n.subtree := by
  have flatMap {f g : Node → List Node} {xs ys : List Node} (hsub : xs <+ ys)
      (h : ∀ m ∈ ys, f m <+~ g m) : xs.flatMap f <+~ ys.flatMap g := by
    induction hsub with
    | slnil => exact .refl _
    | cons y _ ih =>
      obtain ⟨-, h⟩ := List.forall_mem_cons.mp h
      exact (ih h).trans (List.sublist_append_right _ _).subperm
    | cons_cons y _ ih =>
      obtain ⟨hy, h⟩ := List.forall_mem_cons.mp h
      exact hy.append (ih h)
  induction n using induction_on_children with
  | step n ih =>
    rw [evaluation_eq, subtree_eq]
    obtain ⟨xs, hperm, hsub⟩ := n.operands_subperm
    have hoperands : (n.operands n.kind).flatMap evaluation <+~ n.kind.children.flatMap subtree :=
      (hperm.symm.flatMap_right _).subperm.trans (flatMap hsub ih)
    exact List.perm_append_comm.subperm.trans ((List.subperm_cons n).mpr hoperands)

theorem nodup_effects {n : Node} (h : n.ids.Nodup) : (n.effects.map id).Nodup := by
  obtain ⟨ms, hperm, hsub⟩ := n.evaluation_subperm
  have hevaluation : (n.evaluation.map id).Nodup := (hperm.map id).nodup ((hsub.map id).nodup h)
  exact (List.filter_sublist.map id).nodup hevaluation

end Syntax.Node

namespace Lowering

open Syntax (Node)
open scoped List

/-! ## Two orders of one list -/

/-- Two lists, each of two parts, with the parts in the order of the lists or not. -/
theorem append_parts_eq_iff {a b w as bs ws : List Nat} (hw : a ++ b ~ w) (hws : as ++ bs ~ ws)
    (hdisjoint : w.Disjoint ws) :
    a ++ as ++ (b ++ bs) = w ++ ws ↔ a ++ b = w ∧ as ++ bs = ws ∧ (b = [] ∨ as = []) := by
  have inside {v l : List Nat} (h : l ⊆ v) : l.filter (· ∈ v) = l :=
    List.filter_eq_self.mpr fun x hx => decide_eq_true (h hx)
  have outside {v v' l : List Nat} (hv : v.Disjoint v') (h : l ⊆ v') : l.filter (· ∈ v) = [] :=
    List.filter_eq_nil_iff.mpr fun x hx hxv => hv (of_decide_eq_true hxv) (h hx)
  obtain ⟨ha, hb⟩ := List.append_subset.mp hw.subset
  obtain ⟨has, hbs⟩ := List.append_subset.mp hws.subset
  constructor
  · intro h
    -- each whole is what the order has of its elements
    have hfirst : a ++ b = w := by
      have hall := congrArg (List.filter (· ∈ w)) h
      simpa only [List.filter_append, inside ha, inside hb, inside (List.Subset.refl w),
        outside hdisjoint has, outside hdisjoint hbs, outside hdisjoint (List.Subset.refl ws),
        List.append_nil] using hall
    have hrest : as ++ bs = ws := by
      have hall := congrArg (List.filter (· ∈ ws)) h
      simpa only [List.filter_append, inside has, inside hbs, inside (List.Subset.refl ws),
        outside hdisjoint.symm ha, outside hdisjoint.symm hb,
        outside hdisjoint.symm (List.Subset.refl w), List.nil_append] using hall
    refine ⟨hfirst, hrest, ?_⟩
    -- the second part and the first part of the rest have no element in common
    rw [← hfirst, ← hrest, List.append_assoc, List.append_assoc, List.append_cancel_left_eq,
      ← List.append_assoc, ← List.append_assoc, List.append_cancel_right_eq] at h
    cases b with
    | nil => exact .inl rfl
    | cons x b =>
      cases as with
      | nil => exact .inr rfl
      | cons y as =>
        obtain ⟨rfl, -⟩ := List.cons.inj h
        exact absurd (has List.mem_cons_self) (hdisjoint (hb List.mem_cons_self))
  · rintro ⟨rfl, rfl, rfl | rfl⟩ <;> simp

section

variable {α : Type} {first second whole : α → List Nat}

/-- Lists that are put together part by part have the elements of the wholes. -/
theorem perm_flatMap_parts {xs : List α} (hparts : ∀ x ∈ xs, first x ++ second x ~ whole x) :
    xs.flatMap first ++ xs.flatMap second ~ xs.flatMap whole :=
  (List.flatMap_append_perm xs first second).trans (List.Perm.flatMap_left xs hparts)

/-- **All first parts before all second parts is the order of the wholes exactly if it is within
every whole, and of two wholes one part is missing: the second of the one or the first of the
other.** -/
theorem flatMap_parts_eq_iff {xs : List α} (hparts : ∀ x ∈ xs, first x ++ second x ~ whole x)
    (hnodup : (xs.flatMap whole).Nodup) :
    xs.flatMap first ++ xs.flatMap second = xs.flatMap whole ↔
      (∀ x ∈ xs, first x ++ second x = whole x) ∧
      xs.Pairwise fun x y => second x = [] ∨ first y = [] := by
  induction xs with
  | nil => simp
  | cons x xs ih =>
    obtain ⟨hx, hxs⟩ := List.forall_mem_cons.mp hparts
    rw [List.flatMap_cons] at hnodup
    have hrest := ih hxs hnodup.of_append_right
    rw [List.flatMap_cons, List.flatMap_cons, List.flatMap_cons,
      append_parts_eq_iff hx (perm_flatMap_parts hxs) (List.disjoint_of_nodup_append hnodup), hrest,
      List.forall_mem_cons, List.pairwise_cons, List.flatMap_eq_nil_iff]
    constructor
    · rintro ⟨hself, ⟨hothers, hpairs⟩, hor⟩
      exact ⟨⟨hself, hothers⟩, fun y hy => hor.imp_right fun h => h y hy, hpairs⟩
    · rintro ⟨⟨hself, hothers⟩, hor, hpairs⟩
      refine ⟨hself, ⟨hothers, hpairs⟩, ?_⟩
      by_cases h : second x = []
      · exact .inl h
      · exact .inr fun y hy => (hor y hy).resolve_left h

end

/-! ## Trees -/

/-- The nodes of the tree that count are those that have effects. -/
def CountsEffects (E : Nat → Bool) (n : Node) : Prop :=
  ∀ m ∈ n.subtree, E m.id = m.kind.acts

section

variable {E : Nat → Bool} {n : Node}

theorem CountsEffects.operand (h : CountsEffects E n) {m : Node} (hm : m ∈ n.operands n.kind) :
    CountsEffects E m :=
  fun x hx => h x (Node.subtree_subset_of_mem_children (Node.mem_children_of_mem_operands hm) hx)

theorem order_settled (n : Node) (l : Layout) :
    (l.settled E n).order = l.order ++ Layout.note E n.id := by
  unfold Layout.settled Layout.order
  cases n.kind.hoists with
  | false => simp [Layout.ended]
  | true => simp [Layout.ended_asLine]

/-- The marks of a tree are those of its operands, and its own one at the end. -/
theorem order_treeLayout (n : Node) :
    (treeLayout E n).order
      = (n.operands n.kind).flatMap (fun m => (treeLayout E m).lines.flatMap Prod.fst)
        ++ (n.operands n.kind).flatMap (fun m => (treeLayout E m).value)
        ++ Layout.note E n.id := by
  rw [treeLayout_eq, order_settled]
  unfold Layout.order Layout.concat
  rw [List.flatMap_map, List.flatMap_map, List.flatMap_assoc]

theorem note_eq (h : CountsEffects E n) :
    Layout.note E n.id = ([n].filter (·.kind.acts)).map Node.id := by
  unfold Layout.note
  rw [h n n.mem_subtree_self, List.filter_singleton]
  cases n.kind.acts <;> rfl

/-- The text for a tree has a mark for every effect. -/
theorem order_treeLayout_perm (h : CountsEffects E n) :
    (treeLayout E n).order ~ n.effects.map Node.id := by
  induction n using Node.induction_on_children with
  | step n ih =>
    rw [order_treeLayout, Node.effects_eq, note_eq h, List.map_append, List.map_flatMap]
    refine (perm_flatMap_parts fun m hm => ?_).append (.refl _)
    exact ih m (Node.mem_children_of_mem_operands hm) (h.operand hm)

/-- Nothing comes of operands exactly if nothing comes of any of them. -/
theorem flatMap_eq_nil_iff_any {ms : List Node} {f : Node → List Nat} {p : Node → Bool}
    (h : ∀ m ∈ ms, f m = [] ↔ ¬ p m) : ms.flatMap f = [] ↔ ¬ ms.any p := by
  rw [List.flatMap_eq_nil_iff, List.any_eq_true]
  constructor
  · rintro hnil ⟨m, hm, hp⟩
    exact (h m hm).mp (hnil m hm) hp
  · exact fun hany m hm => (h m hm).mpr fun hp => hany ⟨m, hm, hp⟩

theorem value_treeLayout_eq_nil_iff (h : CountsEffects E n) :
    (treeLayout E n).value = [] ↔ ¬ n.actsInValue := by
  induction n using Node.induction_on_children with
  | step n ih =>
    have hoperands : (n.operands n.kind).flatMap (fun m => (treeLayout E m).value) = [] ↔
        ¬ (n.operands n.kind).any Node.actsInValue :=
      flatMap_eq_nil_iff_any fun m hm =>
        ih m (Node.mem_children_of_mem_operands hm) (h.operand hm)
    rw [treeLayout_eq, Node.actsInValue_eq]
    unfold Layout.settled
    cases hh : n.kind.hoists with
    | true => simp [Layout.ended_asLine]
    | false =>
      have hself : E n.id = n.kind.actsInPlace := by
        rw [h n n.mem_subtree_self, Syntax.Kind.acts, hh, Bool.false_or]
      show List.flatMap _ (List.map _ _) ++ Layout.note E n.id = [] ↔ _
      rw [List.flatMap_map, List.append_eq_nil_iff, hoperands, Layout.note, hself]
      cases n.kind.actsInPlace <;> simp

theorem lines_treeLayout_eq_nil_iff (h : CountsEffects E n) :
    (treeLayout E n).lines.flatMap Prod.fst = [] ↔ ¬ n.leavesLine := by
  induction n using Node.induction_on_children with
  | step n ih =>
    have hoperands : (n.operands n.kind).flatMap
        (fun m => (treeLayout E m).lines.flatMap Prod.fst) = [] ↔
        ¬ (n.operands n.kind).any Node.leavesLine :=
      flatMap_eq_nil_iff_any fun m hm =>
        ih m (Node.mem_children_of_mem_operands hm) (h.operand hm)
    rw [treeLayout_eq, Node.leavesLine_eq]
    unfold Layout.settled
    cases hh : n.kind.hoists with
    | true =>
      have hself : E n.id = true := by
        rw [h n n.mem_subtree_self, Syntax.Kind.acts, hh, Bool.true_or]
      simp [Layout.ended_asLine, Layout.note, hself]
    | false =>
      show List.flatMap Prod.fst (List.flatMap _ (List.map _ _)) = [] ↔ _
      rw [List.flatMap_map, List.flatMap_assoc, hoperands, Bool.or_false]

/-- **The marks stand in the order of evaluation exactly if no effect is overtaken.** -/
theorem order_treeLayout_eq_iff (h : CountsEffects E n) (hids : (n.effects.map Node.id).Nodup) :
    (treeLayout E n).order = n.effects.map Node.id ↔ n.Undisturbed := by
  induction n using Node.induction_on_children with
  | step n ih =>
    rw [Node.effects_eq, List.map_append, List.map_flatMap] at hids
    have hoperands := (List.nodup_flatMap.mp hids.of_append_left).1
    rw [order_treeLayout, Node.effects_eq, note_eq h, List.map_append, List.map_flatMap,
      List.append_cancel_right_eq, Node.undisturbed_iff, flatMap_parts_eq_iff
        (fun m hm => order_treeLayout_perm (h.operand hm)) hids.of_append_left]
    refine and_congr (forall₂_congr fun m hm => ?_) (List.Pairwise.iff_of_mem fun {x y} hx hy => ?_)
    · exact ih m (Node.mem_children_of_mem_operands hm) (h.operand hm) (hoperands m hm)
    · rw [value_treeLayout_eq_nil_iff (h.operand hx), lines_treeLayout_eq_nil_iff (h.operand hy),
        not_and_or]

end

/-! ## Statements -/

/-- The ways in which an expression is a statement. -/
theorem expressionCode_cases (n : Planned) :
    (category n.kind = .assignment ∧
      n.expressionCode = .guarded n.id (.line (n.plan ++ .text ";"))) ∨
    (n.kind.isCall ∧ n.expressionCode = .effects n.value) ∨
    n.expressionCode = .valueLine n.value := by
  obtain ⟨id, k, location, span, plan⟩ := n
  cases k with
  | assign | assignRef => exact .inl ⟨rfl, rfl⟩
  | call | methodCall | staticCall => exact .inr (.inl ⟨rfl, rfl⟩)
  | _ => exact .inr (.inr rfl)

section

variable {E : Nat → Bool} {e : Node} {c c' : Context} {a : Lowered}

/-- An assignment that is a statement is laid out like one that is a value. -/
theorem layout_assignment (hE : Counted E e) (hk : category e.kind = .assignment)
    (h : (planned e).plan.Sound) :
    let p := Plan.guarded (planned e).id (.line ((planned e).plan ++ .text ";"))
    (p.layout E).total ∧ (p.layout E).order = (treeLayout E e).order := by
  have he : e.kind.isExpression := by
    rw [← category_isValue, hk]
    rfl
  have hstays : e.kind.hoists = false := by
    cases hkind : e.kind <;> rw [hkind] at hk <;> first | rfl | cases hk
  have ih : ∀ m ∈ e.kind.children, LaidOut E m := fun m hm => layout_as m (hE.child hm)
  obtain ⟨-, hplan⟩ := layout_plan ih he h
  rw [hstays] at hplan
  have htotal := total_treeLayout (E := E) e
  rw [treeLayout_eq] at htotal ⊢
  intro p
  have hp : p.layout E = ((planned e).plan.layout E).asLine.ended E e.id true := by
    show (((planned e).plan.layout E ++ {}).asLine.ended E _ true).checked
      (!E (planned e).id || true || _) = _
    rw [Layout.append_empty, planned_id, Bool.or_true, Bool.true_or, Layout.checked_true]
  rw [hp, hplan, Layout.ended_asLine, order_settled]
  refine ⟨?_, ?_⟩
  · unfold Layout.settled at htotal
    rwa [hstays] at htotal
  · simp [Layout.order]

/-- What leaves a line has no text in its value that counts. -/
theorem value_treeLayout_of_hoists (h : e.kind.hoists) : (treeLayout E e).value = [] := by
  rw [treeLayout_eq]
  unfold Layout.settled
  rw [h, if_pos rfl, Layout.ended_asLine]

/-- **The marked text of an expression that is a statement** is what the run writes, and its marks
are those of the tree. -/
theorem marked_expressionCode (hE : Counted E e)
    (h : Plan.Runs (planned e).expressionCode c a c')
    (hfresh : Fresh (planned e).expressionCode.ids c) :
    ((planned e).expressionCode.marked E c).written = a ∧
      ((planned e).expressionCode.marked E c).order = (treeLayout E e).order := by
  have hvalue {b : Lowered} (hrun : Plan.Runs (planned e).value c b c')
      (hnew : Fresh (planned e).value.ids c) : ((planned e).value.layout E).total ∧
        (planned e).value.layout E = treeLayout E e := by
    have hlayout : (planned e).value.layout E = treeLayout E e :=
      layout_as e hE .value rfl (hrun.complete hnew).1
    rw [hlayout]
    exact ⟨total_treeLayout e, rfl⟩
  obtain ⟨hk, hcode⟩ | ⟨hk, hcode⟩ | hcode := expressionCode_cases (planned e)
  · rw [hcode] at h hfresh ⊢
    have hsound := (h.complete hfresh).1
    obtain ⟨htotal, horder⟩ := layout_assignment hE (by rwa [category_planned] at hk) hsound.1
    refine ⟨h.written_marked htotal hfresh, ?_⟩
    rw [(h.follows_marked htotal hfresh).order_eq]
    exact horder
  · -- a call: the value is a bare temporary and is left out
    rw [hcode] at h hfresh ⊢
    cases h with
    | effects hrun =>
      obtain ⟨htotal, hlayout⟩ := hvalue hrun hfresh
      have hwritten := hrun.written_marked htotal hfresh
      have hfollows := hrun.follows_marked htotal hfresh
      have hhoists : e.kind.hoists := by
        rw [← hoists_planned]
        exact Syntax.Kind.hoists_of_isCall hk
      refine ⟨?_, ?_⟩
      · rw [← hwritten]
        rfl
      · have hnone := value_treeLayout_of_hoists (E := E) hhoists
        unfold Layout.order
        rw [hnone, List.append_nil, ← hlayout, List.flatMap_def, ← hfollows.lines]
        exact List.append_nil _
  · rw [hcode] at h hfresh ⊢
    cases h with
    | valueLine hrun =>
      obtain ⟨htotal, hlayout⟩ := hvalue hrun hfresh
      have hwritten := hrun.written_marked htotal hfresh
      have hfollows := hrun.follows_marked htotal hfresh
      refine ⟨by rw [Plan.marked, Marked.written_asValueLine, hwritten], ?_⟩
      rw [← hlayout]
      refine hfollows.order_asValueLine fun hempty => hrun.layout_of_empty htotal hfresh ?_
      rw [← hwritten]
      exact hempty

end

theorem nodup_ids_expression {s e : Node} (hs : s.kind = .expressionStmt e) (hids : s.ids.Nodup) :
    e.ids.Nodup := by
  rw [Node.ids_eq, hs] at hids
  exact hids.of_cons.of_append_left

/-- The numbers tell the nodes that have effects. -/
theorem countsEffects_hasNumber {e : Node} (hids : e.ids.Nodup) :
    CountsEffects (e.hasNumber Syntax.Kind.acts) e :=
  fun _ hm => Node.hasNumber_eq hids hm

/-- The marked text of an expression statement. -/
theorem marked_code {s e : Node} (hs : s.kind = .expressionStmt e) {c c' : Context} {a : Lowered}
    (hids : s.ids.Nodup) (hnew : ∀ i ∈ s.ids, i ∉ c.visited)
    (h : Plan.Runs (planned s).code c a c') :
    let m := (planned s).code.marked (e.hasNumber Syntax.Kind.acts) c
    m.written = a ∧ m.order = (treeLayout (e.hasNumber Syntax.Kind.acts) e).order := by
  have hcode : (planned s).code = .statement (planned s).tag (planned e).expressionCode := by
    obtain ⟨id, k, location, span⟩ := s
    obtain rfl : k = .expressionStmt e := hs
    rfl
  have hfresh : Fresh (planned s).code.ids c :=
    Fresh.mono ⟨hids, hnew⟩ (ids_as_subperm s .statement)
  have hcounted : Counted (e.hasNumber Syntax.Kind.acts) e := fun m hm hE => by
    rwa [countsEffects_hasNumber (nodup_ids_expression hs hids) m hm] at hE
  rw [hcode] at h hfresh ⊢
  cases h with
  | statementAgain hid => exact absurd hid (hfresh.2 _ List.mem_cons_self)
  | statement hid hdepth hrun => exact marked_expressionCode hcounted hrun hfresh.met

/-- **The effects of an expression statement show in the order of evaluation exactly if none of
them is overtaken.** If the nodes of the statement are all different and new, and it can be
lowered, then the marked text is what is written. Its marks, line by line and from left to right,
are those of the calls, inclusions, assignments and counters that are evaluated, and they are in
the order of evaluation if and only if no operand that acts in its value stands before one that
leaves a line. -/
theorem effects_in_order_iff {s e : Node} (hs : s.kind = .expressionStmt e) {c c' : Context}
    {a : Lowered} (hids : s.ids.Nodup) (hnew : ∀ i ∈ s.ids, i ∉ c.visited)
    (h : (planned s).code.run.Gives c a c') :
    let m := (planned s).code.marked (e.hasNumber Syntax.Kind.acts) c
    m.written = a ∧ m.order.Perm (e.effects.map Node.id) ∧
      (m.order = e.effects.map Node.id ↔ e.Undisturbed) := by
  obtain ⟨hwritten, horder⟩ := marked_code hs hids hnew (Plan.run_gives_iff.mp h)
  have hidsE := nodup_ids_expression hs hids
  have hcounts := countsEffects_hasNumber hidsE
  intro m
  rw [horder]
  exact ⟨hwritten, order_treeLayout_perm hcounts,
    order_treeLayout_eq_iff hcounts (Node.nodup_effects hidsE)⟩

/-- `$x = f($i++) + g();` -/
def summedCalls : Node :=
  let var (id : Nat) (s : String) : Node := ⟨id, .var s, none, none⟩
  let call (id : Nat) (s : String) (args : List Node) : Node :=
    ⟨id, .call ⟨id + 1, .qualifiedName [s] false, none, none⟩ args, none, none⟩
  let counter : Node := ⟨7, .unaryOp .postInc (var 8 "i"), none, none⟩
  let sum : Node := ⟨3, .binaryOp (call 4 "f" [⟨6, .argument counter false false none, none, none⟩])
    .add (call 9 "g" []), none, none⟩
  ⟨0, .expressionStmt ⟨1, .assign (var 2 "x") sum, none, none⟩, none, none⟩

theorem summedCalls_in_order :
    summedCalls.ids.Nodup ∧ (∀ i ∈ summedCalls.ids, i ∉ ({} : Context).visited) ∧
    ∃ e c', summedCalls.kind = .expressionStmt e ∧
      (planned summedCalls).code.run.Gives {} (.ofCode [.text "t0 = f($i++);",
        .text "t1 = g();", .text "$x = t0 + t1;"]) c' ∧
      ((planned summedCalls).code.marked (e.hasNumber Syntax.Kind.acts) {}).order = [7, 4, 9, 1] ∧
      e.effects.map Node.id = [7, 4, 9, 1] := by
  have hids : summedCalls.ids.Nodup := by decide
  have hnew : ∀ i ∈ summedCalls.ids, i ∉ ({} : Context).visited := by simp
  have hrun : ∃ a c', Plan.Runs (planned summedCalls).code {} a c' ∧ a = .ofCode
      [.text "t0 = f($i++);", .text "t1 = g();", .text "$x = t0 + t1;"] := by
    -- the target, the first call with the counter as its argument, and the second call
    refine ⟨_, _, .statement ?_ ?_ (.guarded ?_ (.line (.both (.both (.both (.expression ?_ ?_ .text)
      .text) (.expression ?_ ?_ (.both (.both
        (.expression ?_ ?_ (.bind (.both (.both (.both (.guarded ?_ .text) .text)
          (.both (.both (.both (.both .mark .text) .nothing) .nothing)
            (.expression ?_ ?_ (.both (.expression ?_ ?_ .text) .text)))) .text))) .text)
        (.expression ?_ ?_ (.bind (.both (.both (.both (.guarded ?_ .text) .text) .nothing)
          .text)))))) .text))), ?_⟩
    all_goals first
      | decide
      | simp [Context.met, Context.told, Context.below, Context.above, Context.temped]
    all_goals decide
  obtain ⟨_, c', hrun, rfl⟩ := hrun
  obtain ⟨-, -, horder⟩ := effects_in_order_iff rfl hids hnew hrun.gives
  exact ⟨hids, hnew, _, c', rfl, hrun.gives, horder.mpr (by decide), by decide⟩

/-- `$i++ + f();` -/
def counterAndCall : Node :=
  let counter : Node := ⟨2, .unaryOp .postInc ⟨3, .var "i", none, none⟩, none, none⟩
  let call : Node := ⟨4, .call ⟨5, .qualifiedName ["f"] false, none, none⟩ [], none, none⟩
  ⟨0, .expressionStmt ⟨1, .binaryOp counter .add call, none, none⟩, none, none⟩

/-- The call is written before the counter, which is evaluated first. -/
theorem counter_overtaken :
    ∃ e c', counterAndCall.kind = .expressionStmt e ∧
      (planned counterAndCall).code.run.Gives {}
        (.ofCode [.text "t0 = f();", .text "$i++ + t0;"]) c' ∧
      ((planned counterAndCall).code.marked (e.hasNumber Syntax.Kind.acts) {}).order = [4, 2] ∧
      e.effects.map Node.id = [2, 4] := by
  have hids : counterAndCall.ids.Nodup := by decide
  have hnew : ∀ i ∈ counterAndCall.ids, i ∉ ({} : Context).visited := by simp
  have hrun : ∃ a c', Plan.Runs (planned counterAndCall).code {} a c' ∧ a = .ofCode
      [.text "t0 = f();", .text "$i++ + t0;"] := by
    refine ⟨_, _, .statement ?_ ?_ (.valueLine (.expression ?_ ?_ (.both (.both
      (.expression ?_ ?_ (.both (.expression ?_ ?_ .text) .text)) .text)
      (.expression ?_ ?_ (.bind (.both (.both (.both (.guarded ?_ .text) .text) .nothing)
        .text)))))), ?_⟩
    all_goals first
      | decide
      | simp [Context.met, Context.told, Context.below, Context.above]
    all_goals decide
  obtain ⟨_, c', hrun, rfl⟩ := hrun
  obtain ⟨-, horder⟩ := marked_code rfl hids hnew hrun
  exact ⟨_, c', rfl, hrun.gives, horder, by decide⟩

end Lowering

end ThreeAddress

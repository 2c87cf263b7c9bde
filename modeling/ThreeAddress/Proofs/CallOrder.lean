import ThreeAddress.Proofs.Finishing

/-!
# The lines and temporaries of calls

Before a value is used, the calls and inclusions in it have left their lines. **Each of them leaves
one line, in the order of evaluation, and calls take consecutive temporaries in the order in which
they are finished** (`calls_leave_lines_in_order`). What stands in the body of a closure or of a
class that is declared in place is finished as well and takes its temporaries, but its lines are a
part of the text and do not show among the others.
-/

namespace ThreeAddress

/-- The calls in a tree. -/
def Syntax.Node.calls (n : Syntax.Node) : List Syntax.Node :=
  n.subtree.filter (·.kind.isCall)

namespace Lowering

open Syntax (Node Kind)
open scoped List

/-- An instruction is the last one for the node that the line is of, if it is the line of a node. -/
def Owned (xs : List (Nat × Lowered)) (line : List Nat × Option Nat) (i : Instruction) : Prop :=
  ∀ id, line.2 = some id → ∃ b, (id, b) ∈ xs ∧ b.effects.getLast? = some i

theorem Owned.mono {xs ys : List (Nat × Lowered)} (hsub : xs ⊆ ys) {line : List Nat × Option Nat}
    {i : Instruction} (h : Owned xs line i) : Owned ys line i := by
  intro id hid
  obtain ⟨b, hb, hlast⟩ := h id hid
  exact ⟨b, hsub hb, hlast⟩

/-- The text for a node ends: the last line becomes its line, if it leaves one. -/
theorem owned_ended {E : Nat → Bool} {l : Layout} {xs : List (Nat × Lowered)} {a : Lowered}
    (h : List.Forall₂ (Owned xs) l.lines a.effects) (id : Nat) (hoists : Bool) :
    List.Forall₂ (Owned (xs ++ [(id, a)])) (l.ended E id hoists).lines a.effects := by
  have hall : List.Forall₂ (Owned (xs ++ [(id, a)])) l.lines a.effects :=
    h.imp fun _ _ => .mono (List.subset_append_left xs _)
  cases hoists with
  | false => exact hall
  | true =>
    unfold Layout.ended
    rw [if_pos rfl]
    obtain hnil | ⟨before, line, hlines⟩ := List.eq_nil_or_concat' l.lines
    · rw [hnil] at hall ⊢
      exact hall
    · rw [hlines] at hall ⊢
      -- the instructions split where the lines do
      have hinit := List.forall₂_take_append _ before [line] hall.flip
      have hlast := List.forall₂_drop_append _ before [line] hall.flip
      obtain ⟨i, _, -, hnil, hdrop⟩ := List.forall₂_cons_right_iff.mp hlast
      obtain rfl := List.forall₂_nil_right_iff.mp hnil
      have heffects : a.effects = a.effects.take before.length ++ [i] := by
        rw [← hdrop, List.take_append_drop]
      show List.Forall₂ _ ((before ++ [line]).dropLast
        ++ (before ++ [line]).getLast?.toList.map _) a.effects
      rw [List.dropLast_concat, List.getLast?_concat, heffects]
      refine List.rel_append hinit.flip (.cons ?_ .nil)
      rintro _ ⟨⟩
      refine ⟨a, List.mem_append_right _ List.mem_cons_self, ?_⟩
      rw [heffects, List.getLast?_concat]

/-- **Every line before a value is the last one for the node that it is the line of.** -/
theorem Plan.Runs.owned {E : Nat → Bool} {p : Plan} {c c' : Context} {a : Lowered}
    (h : Runs p c a c') (hp : (p.layout E).total) (hfresh : Fresh p.ids c) :
    List.Forall₂ (Owned (p.finished c)) (p.layout E).lines a.effects := by
  have asLine {xs : List (Nat × Lowered)} {l : Layout} {es : List Instruction} {i : Instruction}
      (h : List.Forall₂ (Owned xs) l.lines es) :
      List.Forall₂ (Owned xs) l.asLine.lines (es ++ [i]) :=
    List.rel_append h (.cons nofun .nil)
  induction h with
  | nothing | text | mark | closed => exact .nil
  | guardedAgain hid | expressionAgain hid => exact absurd hid (hfresh.2 _ List.mem_cons_self)
  | guarded hid hrun ih =>
    rw [finished, if_neg (not_contains hid), hrun.result_eq]
    exact owned_ended (ih (Layout.total_of_checked hp).1 hfresh.met) _ _
  | expression hid _ hrun ih =>
    rw [finished, if_neg (not_contains hid), hrun.result_eq]
    exact owned_ended (ih (Layout.total_of_checked hp).1 hfresh.met) _ _
  | both hp₁ _ ih₁ ih₂ =>
    obtain ⟨t₁, t₂⟩ := Bool.and_eq_true_iff.mp hp
    rw [finished, hp₁.reached_eq]
    refine List.rel_append ((ih₁ t₁ hfresh.left).imp fun _ _ => .mono (List.subset_append_left ..))
      ((ih₂ t₂ (hp₁.fresh hfresh)).imp fun _ _ => .mono (List.subset_append_right ..))
  | @unlessEmpty before after p c c' a _ ih =>
    have heffects : (a.wrapped before after).effects = a.effects := by
      unfold Lowered.wrapped
      split <;> rfl
    rw [heffects]
    exact ih hp hfresh
  | bind _ ih | line _ ih => exact asLine (ih hp hfresh)
  | _ => cases hp

/-! ## Trees -/

/-- What lowering an expression gives for the calls in it, in the order in which they are
finished. -/
def callResults (e : Node) (c : Context) : List (Nat × Lowered) :=
  ((planned e).value.finished c).filter (e.hasNumber Kind.isCall ·.1)

theorem filter_ids_eq {e : Node} (hids : e.ids.Nodup) :
    e.ids.filter (e.hasNumber Kind.isCall) = e.calls.map Node.id := by
  unfold Node.ids Node.calls
  rw [List.filter_map]
  exact congrArg _ (List.filter_congr fun m hm => Node.hasNumber_eq hids hm)

/-- **Calls and inclusions leave their lines in the order of evaluation, and calls take
consecutive temporaries in the order in which they are finished.** If the nodes of an expression
are all different and new, and it can be lowered, then

* the instructions before its value are plain lines, one for every call and every inclusion that
  is evaluated with it: the last one that was written for this node;
* every call in it is finished once, and the one that is finished as number `i` from the start has
  the temporary with this number from the first free one on as its value, and assigns it;
* so many temporaries are handed out as there are calls. -/
theorem calls_leave_lines_in_order {e : Node} {c c' : Context} {a : Lowered} (hids : e.ids.Nodup)
    (hnew : ∀ i ∈ e.ids, i ∉ c.visited) (h : (planned e).value.run.Gives c a c') :
    Straight a.effects ∧
    List.Forall₂ (fun m i => ∃ b, (m.id, b) ∈ (planned e).value.finished c ∧
        b.effects.getLast? = some i)
      (e.evaluation.filter (·.kind.hoists)) a.effects ∧
    ((callResults e c).map Prod.fst).Perm (e.calls.map Node.id) ∧
    (∀ i x, (callResults e c)[i]? = some x → BoundTo (c.temps + i) x.2) ∧
    c'.temps = c.temps + e.calls.length := by
  have hrun := Plan.run_gives_iff.mp h
  have hfresh : Fresh (planned e).value.ids c := Fresh.mono ⟨hids, hnew⟩ (ids_as_subperm e .value)
  have hsound : ((planned e).as .value).Sound := (hrun.complete hfresh).1
  -- the lines are those that the layout of the tree tells of
  have hlayout : (planned e).value.layout (fun _ => false) = treeLayout (fun _ => false) e :=
    layout_as e (fun _ _ h => absurd h Bool.false_ne_true) .value rfl hsound
  have hlines := hrun.owned (by rw [hlayout]; exact total_treeLayout e) hfresh
  have howners := lines_treeLayout (E := fun _ => false) e
  rw [hlayout] at hlines
  -- the temporaries are those of the calls
  have htied : (planned e).value.Tied (e.hasNumber Kind.isCall) false :=
    tied_as e (fun m hm => Node.hasNumber_eq hids hm) (r := .value) hsound
  obtain ⟨k, hk⟩ := hrun.exists_runBinds htied
  obtain ⟨hlength, hbound⟩ := hk.finished
  have hfinished : ((planned e).value.finished c).map Prod.fst ~ e.ids :=
    (hrun.finished_perm hfresh).trans (ids_as_perm e .value hsound)
  have hcalls : (callResults e c).map Prod.fst ~ e.calls.map Node.id := by
    have hfilter := hfinished.filter (e.hasNumber Kind.isCall)
    rwa [List.filter_map, filter_ids_eq hids] at hfilter
  refine ⟨hrun.straight (isValue_as e (r := .value) rfl), ?_, hcalls, hbound, ?_⟩
  · have hmap : List.Forall₂ (fun o i => ∀ id, o = some id →
        ∃ b, (id, b) ∈ (planned e).value.finished c ∧ b.effects.getLast? = some i)
        ((treeLayout (fun _ => false) e).lines.map Prod.snd) a.effects :=
      List.forall₂_map_left_iff.mpr hlines
    rw [howners, List.forall₂_map_left_iff] at hmap
    exact hmap.imp fun m i h => h m.id rfl
  · rw [hk.plain htied.isBind_eq, hlength]
    have hcount := hcalls.length_eq
    rw [List.length_map, List.length_map] at hcount
    exact congrArg _ hcount

/-- `f(function () { h(); }, g())`, in which a call stands in the body of a closure. -/
def callbackCall : Node :=
  let name (id : Nat) (s : String) : Node := ⟨id, .qualifiedName [s] false, none, none⟩
  let inner : Node := ⟨4, .expressionStmt ⟨5, .call (name 6 "h") [], none, none⟩, none, none⟩
  let callback : Node := ⟨3, .closure [] [] [inner] false false false, none, none⟩
  let second : Node := ⟨8, .call (name 9 "g") [], none, none⟩
  ⟨0, .call (name 1 "f") [⟨2, .argument callback false false none, none, none⟩,
    ⟨7, .argument second false false none, none, none⟩], none, none⟩

theorem callbackCall_leaves_lines :
    callbackCall.ids.Nodup ∧ (∀ i ∈ callbackCall.ids, i ∉ ({} : Context).visited) ∧
    ∃ c', (planned callbackCall).value.run.Gives {}
        ⟨"t2", [.text "t1 = g();", .text "t2 = f(function () \x7b t0 = h(); \x7d, t1);"]⟩ c' ∧
      List.Forall₂ (fun m i => ∃ b, (m.id, b) ∈ (planned callbackCall).value.finished {} ∧
          b.effects.getLast? = some i)
        (callbackCall.evaluation.filter (·.kind.hoists))
        [.text "t1 = g();", .text "t2 = f(function () \x7b t0 = h(); \x7d, t1);"] ∧
      ((callResults callbackCall {}).map Prod.fst).Perm (callbackCall.calls.map Node.id) ∧
      c'.temps = 3 := by
  have hids : callbackCall.ids.Nodup := by decide
  have hnew : ∀ i ∈ callbackCall.ids, i ∉ ({} : Context).visited := by simp
  have hrun : ∃ c', Plan.Runs (planned callbackCall).value {}
      ⟨"t2", [.text "t1 = g();", .text "t2 = f(function () \x7b t0 = h(); \x7d, t1);"]⟩ c' := by
    suffices h : ∃ a c', Plan.Runs (planned callbackCall).value {} a c' ∧ a = ⟨"t2",
        [.text "t1 = g();", .text "t2 = f(function () \x7b t0 = h(); \x7d, t1);"]⟩ by
      obtain ⟨_, c', h, rfl⟩ := h
      exact ⟨c', h⟩
    -- the callee, the closure with the call in its body, and the second argument
    refine ⟨_, _, .expression ?_ ?_ (.bind (.both (.both (.both (.guarded ?_ .text) .text)
      (.both (.both
        (.both (.both (.both (.both .mark .text) .nothing) .nothing) (.expression ?_ ?_ (.closed
          (.both (.both (.both (.both (.both (.both .nothing .text) .nothing) .text) .nothing) .text)
            .nothing)
          (.both (.statement ?_ ?_ (.effects (.expression ?_ ?_ (.bind
            (.both (.both (.both (.guarded ?_ .text) .text) .nothing) .text))))) .nothing)))) .text)
        (.both (.both (.both (.both .mark .text) .nothing) .nothing) (.expression ?_ ?_ (.bind
          (.both (.both (.both (.guarded ?_ .text) .text) .nothing) .text))))))
      .text)), ?_⟩
    all_goals first
      | decide
      | simp [Context.met, Context.told, Context.below, Context.above, Context.framed,
          Context.temped]
    all_goals decide
  obtain ⟨c', hrun⟩ := hrun
  obtain ⟨-, hlines, hcalls, -, htemps⟩ := calls_leave_lines_in_order hids hnew hrun.gives
  exact ⟨hids, hnew, c', hrun.gives, hlines, hcalls, htemps⟩

end Lowering

end ThreeAddress

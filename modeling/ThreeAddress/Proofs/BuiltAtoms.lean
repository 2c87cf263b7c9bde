import ThreeAddress.Proofs.BuiltExpressions

/-!
# Atoms are well built

What expressions are made of besides operators: names of members and classes, arguments and items
of arrays, literals, strings with variables in them, closures and instantiations. **Only integers
can be refused**: every other literal has its value, and the keys and values of items are found
where they are looked for.
-/

namespace ThreeAddress.Syntax

open Grammar (Rule)
open Lowering (Role placed slots)
open Stock

variable {e : Extent} {ps : List Part}

/-! ## Members and classes -/

theorem makes_memberNameNode (h : PartsOf .memberName ps ∨ PartsOf .braceExpr ps) :
    Makes (memberNameNode e ps) .value := by
  have hnames : ∀ q ∈ (Rule.definition .memberName).body.calls, q ≠ .expr := by
    decide
  unfold memberNameNode
  obtain h | h := h
  · obtain ⟨name, _, rfl, ⟨q, hq, hname⟩, -⟩ := h.order.choice rfl
    simp only [withFirst, hname.rule, if_neg (hnames q hq)]
    exact makes_buildAmong ⟨q, hq, hname⟩ rfl
  · obtain ⟨value, _, rfl, hvalue, -⟩ := h.order
    simp only [withFirst, hvalue.rule, if_true]
    exact hvalue.makes rfl

theorem makes_variableVariableNode (h : PartsOf .varVar ps) :
    Makes (variableVariableNode e ps) .value := by
  have hname : Makes (withFirst e (fun p =>
      if p.rule = .braceExpr then p.value else buildAmong .atom p.extent p) ps) .value := by
    obtain ⟨name, _, rfl, h, -⟩ | ⟨name, _, rfl, h, -⟩ | ⟨name, _, rfl, h, -⟩ := h.order
    · simp only [withFirst, h.rule, reduceCtorEq, if_false]
      exact makes_buildAmong ⟨_, List.mem_singleton_self _, h⟩ rfl
    · simp only [withFirst, h.rule, reduceCtorEq, if_false]
      exact makes_buildAmong ⟨_, List.mem_singleton_self _, h⟩ rfl
    · simp only [withFirst, h.rule, if_true]
      exact h.makes rfl
  exact .step hname fun n => .nodeAt rfl (.refl _)

theorem makes_classRefNode (h : PartsOf .classRef ps) : Makes (classRefNode e ps) .value := by
  obtain ⟨name, _, rfl, hname, -⟩ := h.order.choice rfl
  exact makes_buildAmong hname rfl

/-- An access in the name of a class. -/
theorem makesKind_classAccess {p : Part}
    (h : ∃ q ∈ [Rule.propAccess, .nullsafeAccess, .staticMember, .dimAccess], Built q p)
    (base : Node) : MakesKind [(.value, base)] (classAccessKind e base p) .value := by
  obtain ⟨q, hq, h⟩ := h
  unfold classAccessKind
  simp only [List.mem_cons, List.not_mem_nil, or_false] at hq
  obtain rfl | rfl | rfl | rfl := hq
  · simp only [h.rule]
    exact .step (Access.makes_nameIn (by rw [h.rule]; rfl) h.well) fun member => .pure rfl (.refl _)
  · simp only [h.rule]
    exact .step (Access.makes_nameIn (by rw [h.rule]; rfl) h.well) fun member => .pure rfl (.refl _)
  · simp only [h.rule]
    exact .step (Access.makes_nameIn (by rw [h.rule]; rfl) h.well) fun member =>
      .pure rfl (.append (.role rfl) (.refl _))
  · simp only [h.rule]
    exact .step (Access.makesOption_index h) fun index => .pure rfl (.append (.refl _) (.ended _))

theorem makes_dynamicClassNode (h : PartsOf .dynamicClass ps) :
    Makes (dynamicClassNode e ps) .value := by
  obtain ⟨start, _, rfl, hstart, accesses, _, rfl, haccesses, rfl⟩ :=
    (show (Grammar.Pattern.alt (.rule .variableName) (.rule .varVar)).FollowedBy _ Built _ ps
      from h.order).choice rfl
  refine .read fun file => .step (makes_buildAmong (r := .value) hstart rfl) fun n => ?_
  refine After.foldlM (fun p hp m => (makesKind_classAccess ?_ m).node) n
  obtain ⟨q, hq, -, hp⟩ := haccesses p (by simpa using hp)
  exact ⟨q, hq, hp⟩

/-! ## Calls and arrays -/

theorem makes_argumentNode (h : PartsOf .argument ps) : Makes (argumentNode e ps) .argument := by
  unfold argumentNode
  obtain ⟨p, _, rfl, hp, -⟩ | ⟨p, _, rfl, hp, -⟩ | ⟨p, _, rfl, hp, -⟩ := h.order
  · simp only [withFirst, hp.rule]
    obtain ⟨value, _, hparts, hvalue, -⟩ := (hp.parts nofun).order
    rw [hparts]
    exact .step (makes_buildFirst (r := .value) hvalue rfl) fun n => .nodeAt rfl (.refl _)
  · simp only [withFirst, hp.rule]
    obtain ⟨label, _, hparts, -, value, _, rfl, hvalue, -⟩ := (hp.parts nofun).order
    rw [hparts]
    exact .step (After.pure (f := fun _ => []) (.refl _)) fun label =>
      .step (makes_buildFirst (r := .value) hvalue rfl) fun n => .nodeAt rfl (.refl _)
  · simp only [withFirst, hp.rule]
    exact .step (makes_buildAs (r := .value) hp rfl) fun n => .nodeAt rfl (.refl _)

theorem reduceOption_dropLast {α : Type} {xs : List (Option α)} (h : xs.getLast? = some none) :
    xs.dropLast.reduceOption = xs.reduceOption := by
  obtain ⟨ys, rfl⟩ := List.getLast?_eq_some_iff.mp h
  rw [List.dropLast_concat, List.reduceOption_append]
  exact (List.append_nil _).symm

theorem flatMap_toList_map {α β : Type} (f : α → β) (xs : List (Option α)) :
    xs.flatMap (fun x => x.toList.map f) = xs.reduceOption.map f := by
  induction xs with
  | nil => rfl
  | cons x xs ih =>
    rw [List.flatMap_cons, ih]
    cases x <;> rfl

/-- The items of an array; an empty slot has none. -/
theorem after_arrayItems {items : Part} (h : Built .arrayItems items) :
    After [] (arrayItems items) fun slots => slots.reduceOption.map fun n => (.arrayItem, n) := by
  have hslots : ∀ slot ∈ items.parts,
      MakesOption (buildOption .arrayItem slot.children.head?) .arrayItem := by
    intro slot hslot
    have hslot := (h.parts nofun).all .arraySlot rfl slot hslot
    exact makesOption_buildOption (fun c hc =>
      hslot.children_all nofun .arrayItem rfl c (List.mem_of_mem_head? hc)) rfl
  refine .step (After.mapM hslots) fun slots => .pure (.of_eq ?_)
  rw [List.nil_append, flatMap_toList_map]
  split
  · rename_i hlast
    rw [reduceOption_dropLast hlast]
  · rfl

theorem after_arrayItemsIn
    (h : PartsOf .listExpr ps ∨ PartsOf .arrayLong ps ∨ PartsOf .arrayLiteral ps) :
    After [] (arrayItemsIn e ps) fun slots => slots.reduceOption.map fun n => (.arrayItem, n) := by
  obtain h | h | h := h
  all_goals
    obtain ⟨items, _, rfl, hitems, -⟩ := h.order
    exact after_arrayItems hitems

/-- A part of an array item holds a value. -/
theorem makes_itemValue {what : Sought} {q : Rule} {p : Part} (h : Built q p)
    (hq : q ∈ [Rule.spreadItem, .refItem, .arrayValue]) : Makes (itemValue what p) .value := by
  have hrequires : ∀ q ∈ [Rule.spreadItem, .refItem, .arrayValue], q.definition.mode ≠ .atomic ∧
      q.definition.body.requires .expr = true := by
    decide
  obtain ⟨hmode, hexpr⟩ := hrequires q hq
  obtain ⟨value, hvalue, hbuilt⟩ := (h.parts hmode).partOf?_eq_some .expr hexpr
  unfold itemValue
  rw [hvalue]
  exact hbuilt.makes rfl

theorem makes_arrayItemNode (h : PartsOf .arrayItem ps) :
    Makes (arrayItemNode e ps) .arrayItem := by
  unfold arrayItemNode
  obtain ⟨p, _, rfl, hp, -⟩ | ⟨p, _, rfl, hp, -⟩ | ⟨p, _, rfl, hp, hrest⟩ := h.order
  · simp only [withFirst, hp.rule]
    exact .step (makes_itemValue hp (by decide)) fun n => .nodeAt rfl (.refl _)
  · simp only [withFirst, hp.rule]
    exact .step (makes_itemValue hp (by decide)) fun n => .nodeAt rfl (.refl _)
  · obtain rfl | ⟨keyed, _, rfl, hkeyed, -⟩ := hrest
    · simp only [withFirst, hp.rule, List.tail_cons]
      exact .step (makes_buildAs (r := .value) hp rfl) fun n => .nodeAt rfl (.refl _)
    · simp only [withFirst, hp.rule, List.tail_cons]
      exact .step (makes_buildAs (r := .value) hp rfl) fun key =>
        .step (makes_itemValue hkeyed (by decide)) fun n => .nodeAt rfl (.refl _)

/-! ## Literals -/

theorem suits_integerKind? {text : String} {k : Kind Node} (h : integerKind? text = some k) :
    After.suits .value k = true ∧ placed k = [] := by
  obtain ⟨n | x, -, rfl⟩ := Option.map_eq_some_iff.mp h <;> exact ⟨rfl, rfl⟩

theorem makes_integerNode : Makes (integerNode e) .value := by
  unfold integerNode
  split
  · rename_i k hk
    obtain ⟨hr, hplaced⟩ := suits_integerKind? hk
    exact .nodeAt hr (hplaced ▸ .refl _)
  · rename_i hnone
    exact .failAt (Option.map_eq_none_iff.mp hnone)

theorem makes_floatNode (h : Rule.Spelled .float e.chars) : Makes (floatNode e) .value := by
  obtain ⟨x, hx⟩ := Option.isSome_iff_exists.mp h
  unfold floatNode
  rw [show Number.ofFloat? e.text = some x from hx]
  exact .nodeAt rfl (.refl _)

theorem makesAll_stringParts (h : ∀ p ∈ ps, WellBuilt p) :
    MakesAll (stringParts ps) .stringPart := by
  have hparts : ∀ p ∈ ps.filter (isInterpolation ·.rule), Makes p.value .stringPart := by
    intro p hp
    obtain ⟨hmem, hrule⟩ := List.mem_filter.mp hp
    refine Built.makes ⟨rfl, h p hmem⟩ ?_
    generalize p.rule = q at hrule
    cases q <;> first
      | rfl
      | cases hrule
  refine (After.mapM hparts).covered fun ns => ?_
  rw [← List.map_eq_flatMap]
  exact .refl _

theorem makes_doubleQuotedNode (h : ∀ p ∈ ps, WellBuilt p) :
    Makes (doubleQuotedNode e ps) .value := by
  refine .step (makesAll_stringParts h) fun parts => ?_
  split
  · exact .convert (.nil _) (.nodeAt rfl (.refl _))
  · exact .nodeAt rfl (.of_eq (by simp [placed, slots, Field.children]))

theorem makes_interpolatedIndex {key : Part} (h : WellBuilt key) :
    Makes (interpolatedIndex key) .value := by
  unfold interpolatedIndex
  split
  · exact Built.makes ⟨‹_›, h⟩ rfl
  · cases hk : integerKind? key.text with
    | none => exact .nodeAt rfl (.refl _)
    | some k =>
      obtain ⟨hr, hplaced⟩ := suits_integerKind? hk
      exact .nodeAt hr (hplaced ▸ .refl _)
  · exact .nodeAt rfl (.refl _)

theorem makesKind_suffix {suffix key : Part} (h : WellBuilt key) (base : Node) :
    MakesKind [(.value, base)] (suffixKind base suffix key) .value := by
  unfold suffixKind
  split
  · exact .step (After.nodeAt (r := .member) rfl (.refl _)) fun member => .pure rfl (.refl _)
  · exact .step (makes_interpolatedIndex h) fun index => .pure rfl (.refl _)

/-- An index or a property in a string has a key. -/
theorem key_of_suffix {suffix : Part} (h : Built .interpIndex suffix ∨ Built .interpProp suffix) :
    ∃ key rest, suffix.parts = key :: rest ∧ WellBuilt key := by
  obtain h | h := h
  · obtain ⟨key, rest, hparts, hkey, -⟩ | ⟨key, rest, hparts, hkey, -⟩ |
        ⟨key, rest, hparts, hkey, -⟩ :=
      (h.parts nofun).order
    all_goals exact ⟨key, rest, hparts, hkey.well⟩
  · obtain ⟨key, rest, hparts, hkey, -⟩ := (h.parts nofun).order
    exact ⟨key, rest, hparts, hkey.well⟩

theorem makes_simpleInterpolationNode (h : PartsOf .simpleInterp ps) :
    Makes (simpleInterpolationNode e ps) .value := by
  obtain ⟨base, rest, rfl, hbase, hrest⟩ := h.order
  refine .step (makes_buildFirst (r := .value) hbase rfl) fun n => ?_
  obtain rfl | hrest := hrest
  · exact .pure (.refl _)
  · obtain ⟨suffix, rest, rfl, hsuffix⟩ : ∃ suffix later, rest = suffix :: later ∧
        (Built .interpIndex suffix ∨ Built .interpProp suffix) := by
      obtain ⟨suffix, later, rfl, h, -⟩ | ⟨suffix, later, rfl, h, -⟩ := hrest
      · exact ⟨suffix, later, rfl, .inl h⟩
      · exact ⟨suffix, later, rfl, .inr h⟩
    obtain ⟨key, _, hparts, hkey⟩ := key_of_suffix hsuffix
    simp only [List.tail_cons, hparts]
    exact (makesKind_suffix hkey n).nodeAt

/-! ## Closures and objects -/

theorem makes_closureUseNode (h : PartsOf .closureUse ps) :
    Makes (closureUseNode e ps) .closureUse := by
  obtain ⟨v, hv, hbuilt⟩ := h.partOf?_eq_some .variableName rfl
  unfold closureUseNode
  rw [hv]
  exact .step (hbuilt.makes (r := .value) rfl) fun n => .nodeAt rfl (.refl _)

theorem makesAll_closureBody (h : ∀ p ∈ ps, WellBuilt p) :
    MakesAll (closureBody ps) .statement := by
  unfold closureBody
  split
  · rename_i block hblock
    exact makesAll_blockBody (built_of_partOf? h block hblock)
  · rename_i value _ hvalue
    exact .step ((built_of_partOf? h value hvalue).makes (r := .value) rfl) fun n =>
      .bind (After.nodeAt (r := .statement) rfl (.refl _)) fun m => .pure (.refl _)
  · exact .pure (.refl _)

/-- The parts of a part that may be missing. -/
theorem built_of_elim {p : Option Part} {q : Rule} (h : ∀ c ∈ p, Built q c)
    (hmode : q.definition.mode ≠ .atomic) (x : Rule)
    (hx : q.definition.body.calls.all (fun r => r.isKeyword || r == x) = true) :
    ∀ c ∈ p.elim [] (·.parts), Built x c := by
  cases p with
  | none => exact nofun
  | some p => exact ((h p rfl).parts hmode).all x hx

theorem makes_closureNode {arrow : Bool} (h : ∀ p ∈ ps, WellBuilt p) :
    Makes (closureNode e arrow ps) .value :=
  .step (makesAll_paramList h) fun params =>
    .step (makesAll_buildAll (r := .closureUse)
      (built_of_elim (q := .closureUses) (built_of_partOf? h) nofun .closureUse rfl) rfl)
      fun uses =>
    .step (makesAll_closureBody h) fun body =>
      .nodeAt rfl (.of_eq (by simp [placed, slots, Field.children]))

/-- What is instantiated, with its arguments. -/
def instantiatedStock (x : Node × List Node) : Stock :=
  x.2.map (fun n => (Role.argument, n)) ++ [(.instantiated, x.1)]

theorem after_anonymousClass {p : Part} (h : Built .anonymousClass p) :
    After [] (anonymousClass p) instantiatedStock := by
  have hparts := (h.parts nofun).well
  refine .step (makesAll_buildAll (r := .argument)
    (built_of_elim (q := .callArgs) (built_of_partOf? hparts) nofun .argument rfl) rfl)
    fun args => ?_
  refine .step (makesOption_parentClass hparts) fun parent => .step (makesAll_nameList hparts)
    fun interfaces => .step (makesAll_memberList hparts) fun members => ?_
  refine .bind (.read fun file => .node (z := args.map fun n => (Role.argument, n))
    (r := .instantiated) rfl (.of_eq ?_)) fun n => .pure (.refl _)
  simp [placed, slots, Field.children]

theorem after_instantiated {target : Part} {rest : List Part}
    (h : Built .anonymousClass target ∨
      Built .classRef target ∧ ∀ p ∈ rest.head?, Built .callArgs p) :
    After [] (instantiated target rest) instantiatedStock := by
  unfold instantiated
  obtain h | ⟨h, hrest⟩ := h
  · rw [if_pos h.rule]
    exact after_anonymousClass h
  · rw [if_neg (by rw [h.rule]; nofun)]
    exact .step (makes_buildAs (r := .instantiated) h rfl) fun owner =>
      .step (makesAll_buildAll (r := .argument) (built_of_elim hrest nofun .argument rfl) rfl)
        fun args => .pure (.of_perm List.perm_append_comm)

theorem makes_newNode (h : PartsOf .newExpr ps) : Makes (newNode e ps) .value := by
  have htarget : ∃ target rest, ps = target :: rest ∧ (Built .anonymousClass target ∨
      Built .classRef target ∧ ∀ p ∈ rest.head?, Built .callArgs p) := by
    obtain ⟨target, rest, rfl, h, -⟩ | ⟨target, rest, rfl, h, hrest⟩ := h.order
    · exact ⟨target, rest, rfl, .inl h⟩
    · refine ⟨target, rest, rfl, .inr ⟨h, ?_⟩⟩
      obtain rfl | ⟨args, _, rfl, hargs, -⟩ := hrest
      · exact nofun
      · exact fun p hp => Option.some.inj hp ▸ hargs
  obtain ⟨target, rest, rfl, htarget⟩ := htarget
  refine .step (after_instantiated htarget) fun x => .nodeAt rfl (.of_perm ?_)
  rw [List.nil_append, instantiatedStock]
  refine List.perm_append_comm.trans (.of_eq ?_)
  simp [placed, slots, Field.children]

end ThreeAddress.Syntax

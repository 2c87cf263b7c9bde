import ThreeAddress.Proofs.BuiltParts

/-!
# Declarations are well built

What functions, classes, interfaces and traits are made of. Most parts of a declaration are looked
up by their rule, so a declaration is made whichever of them are there; parameters, constants and
properties **have a name because their rules require one**.
-/

namespace ThreeAddress.Syntax

open Grammar (Rule)
open Lowering (placed slots)
open Stock

variable {e : Extent} {ps : List Part}

/-! ## What declarations share -/

theorem makesAll_blockBody {block : Part} (h : Built .block block) :
    MakesAll (blockBody block) .statement :=
  makesAll_buildAll (built_of_filter (h.parts nofun).well .statement) rfl

/-- The statements of a body that may be missing. -/
def bodyStock (body : Option (List Node)) : Stock :=
  (body.getD []).map fun n => (.statement, n)

theorem after_optionBody {o : Option (Build (List Node))} (h : ∀ b ∈ o, MakesAll b .statement) :
    After [] (Build.option o) bodyStock :=
  (After.option h).covered fun body => by cases body <;> exact .refl _

theorem after_blockBody? {block : Option Part} (h : ∀ p ∈ block, Built .block p) :
    After [] (blockBody? block) bodyStock := by
  refine after_optionBody fun b hb => ?_
  obtain ⟨p, hp, rfl⟩ := Option.mem_map.mp hb
  exact makesAll_blockBody (h p hp)

theorem makesAll_paramList (h : ∀ p ∈ ps, WellBuilt p) : MakesAll (paramList ps) .param := by
  unfold paramList
  split
  · rename_i params hparams
    exact makesAll_buildAll (((built_of_partOf? h params hparams).parts nofun).all .param rfl) rfl
  · exact .pure (.refl _)

theorem makesAll_memberList (h : ∀ p ∈ ps, WellBuilt p) : MakesAll (memberList ps) .statement := by
  unfold memberList
  split
  · rename_i body hbody
    exact makesAll_buildAll (((built_of_partOf? h body hbody).parts nofun).all .classMember rfl) rfl
  · exact .pure (.refl _)

theorem makesOption_parentClass (h : ∀ p ∈ ps, WellBuilt p) :
    MakesOption (parentClass ps) .fullName := by
  refine makesOption_option fun b hb => ?_
  obtain ⟨clause, hclause, rfl⟩ := Option.mem_map.mp hb
  obtain ⟨name, _, hparts, hname, -⟩ := ((built_of_partOf? h clause hclause).parts nofun).order
  rw [hparts]
  exact makes_buildFirst hname rfl

/-- Keywords among names are passed over, and a list among them is read. -/
theorem makesAll_namesAmong {cs : List Part} (h : ∀ c ∈ cs, (∃ k, Built (.keyword k) c) ∨
      Built .qualifiedName c ∨ (Built .nameList c ∧ MakesAll (namesOf c) .fullName)) :
    MakesAll (namesAmong e cs) .fullName := by
  induction cs with
  | nil =>
    unfold namesAmong
    exact .pure (.refl _)
  | cons c cs ih =>
    obtain ⟨hc, hcs⟩ := List.forall_mem_cons.mp h
    have before {b : Build (List Node)} (hb : MakesAll b .fullName) :
        MakesAll (do let names ← b; return names ++ (← namesAmong e cs)) .fullName := by
      refine .step hb fun ns => .step (ih hcs) fun ms => .pure (.of_eq ?_)
      rw [List.nil_append, List.map_append]
    unfold namesAmong
    obtain ⟨k, hc⟩ | hc | ⟨hc, hnames⟩ := hc
    · rw [hc.rule]
      exact before (.pure (.refl _))
    · rw [hc.rule]
      exact before (.map (makes_buildAmong ⟨_, List.mem_singleton_self _, hc⟩ rfl) fun n => .refl _)
    · rw [hc.rule]
      exact before hnames

/-- The names of a list, or of a clause around a list. -/
theorem makesAll_namesOf {p : Part} (h : Built .nameList p ∨ Built .implementsClause p) :
    MakesAll (namesOf p) .fullName := by
  have hlist {p : Part} (h : Built .nameList p) : MakesAll (namesOf p) .fullName := by
    obtain ⟨_, _, _, children⟩ := p
    unfold namesOf
    exact makesAll_namesAmong fun c hc =>
      .inr (.inl (h.children_all nofun .qualifiedName rfl c hc))
  obtain h | h := h
  · exact hlist h
  · obtain ⟨_, _, _, children⟩ := p
    unfold namesOf
    obtain ⟨_, _, hchildren, ⟨word, rfl, hword⟩, names, rfl, hnames⟩ := h.children nofun
    refine makesAll_namesAmong fun c hc => ?_
    obtain rfl | rfl : c = word ∨ c = names := by simpa [show children = _ from hchildren] using hc
    · exact .inl ⟨_, hword⟩
    · exact .inr (.inr ⟨hnames, hlist hnames⟩)

theorem makesAll_nameList (h : ∀ p ∈ ps, WellBuilt p) : MakesAll (nameList ps) .fullName := by
  unfold nameList
  split
  · rename_i names hnames
    refine makesAll_namesOf ?_
    obtain hnames | ⟨-, hnames⟩ := Option.or_eq_some_iff.mp hnames
    · exact .inr (built_of_partOf? h names hnames)
    · exact .inl (built_of_partOf? h names hnames)
  · exact .pure (.refl _)

/-! ## Functions -/

theorem makes_functionNode (h : ∀ p ∈ ps, WellBuilt p) : Makes (functionNode e ps) .statement :=
  .step (makesAll_paramList h) fun params => .step (after_blockBody? (built_of_partOf? h))
    fun body => .nodeAt rfl (.of_eq (by simp [placed, slots, Field.children, bodyStock]))

theorem makes_methodNode (h : ∀ p ∈ ps, WellBuilt p) : Makes (methodNode e ps) .statement :=
  .step (makesAll_paramList h) fun params => .step (after_blockBody? (built_of_partOf? h))
    fun body => .nodeAt rfl (.of_eq (by simp [placed, slots, Field.children, bodyStock]))

theorem makes_paramNode (h : PartsOf .param ps) : Makes (paramNode e ps) .param := by
  obtain ⟨v, hv, -⟩ := h.partOf?_eq_some .variableName rfl
  unfold paramNode
  rw [hv]
  exact .step (makesOption_buildOption (r := .value) (built_of_partOf? h.well) rfl) fun default =>
    .nodeAt rfl (.of_eq (by simp [placed, slots, Field.children]))

/-! ## Classes -/

theorem makes_classNode (h : ∀ p ∈ ps, WellBuilt p) : Makes (classNode e ps) .statement :=
  .step (makesOption_parentClass h) fun parent => .step (makesAll_nameList h) fun interfaces =>
    .step (makesAll_memberList h) fun members =>
      .nodeAt rfl (.of_eq (by simp [placed, slots, Field.children]))

theorem makes_interfaceNode (h : ∀ p ∈ ps, WellBuilt p) : Makes (interfaceNode e ps) .statement :=
  .step (makesAll_nameList h) fun parents => .step (makesAll_memberList h) fun members =>
    .nodeAt rfl (.of_eq (by simp [placed, slots, Field.children]))

theorem makes_traitNode (h : ∀ p ∈ ps, WellBuilt p) : Makes (traitNode e ps) .statement :=
  .step (makesAll_memberList h) fun members =>
    .nodeAt rfl (.of_eq (by simp [placed, slots, Field.children]))

theorem makes_traitUseNode (h : ∀ p ∈ ps, WellBuilt p) : Makes (traitUseNode e ps) .statement :=
  .step (makesAll_nameList h) fun traits =>
    .nodeAt rfl (.of_eq (by simp [placed, slots, Field.children]))

theorem makes_memberNode (h : PartsOf .classMember ps) : Makes (memberNode e ps) .statement := by
  obtain ⟨p, _, rfl, hp, -⟩ := h.order.choice rfl
  exact makes_buildAmong hp rfl

theorem makes_propertiesNode (h : ∀ p ∈ ps, WellBuilt p) :
    Makes (propertiesNode e ps) .statement :=
  .step (makesAll_buildAll (r := .property (modifierWords .memberModifier ps))
    (built_of_filter h .propertyItem) rfl) fun props =>
      .nodeAt rfl (.of_eq (by simp [placed, slots, Field.children]))

theorem makesAll_constItems (h : ∀ p ∈ ps, WellBuilt p) : MakesAll (constItems ps) .constItem :=
  makesAll_buildAll (built_of_filter h .constItem) rfl

theorem makes_classConstNode (h : ∀ p ∈ ps, WellBuilt p) :
    Makes (classConstNode e ps) .statement :=
  .step (makesAll_constItems h) fun items =>
    .nodeAt rfl (.of_eq (by simp [placed, slots, Field.children]))

theorem makes_propertyNode (h : PartsOf .propertyItem ps) :
    Makes (propertyNode e ps) (.property []) := by
  obtain ⟨name, rest, rfl, -, hrest⟩ := h.order
  have hdefault : ∀ p ∈ rest.head?, Built .expr p := by
    obtain rfl | ⟨default, _, rfl, hdefault, -⟩ := hrest
    · exact nofun
    · exact fun p hp => Option.some.inj hp ▸ hdefault
  exact .step (After.pure (f := fun _ => []) (.refl _)) fun _ =>
    .step (makesOption_buildOption (r := .value) hdefault rfl) fun default =>
      .nodeAt rfl (.of_eq (by simp [placed, slots, Field.children]))

theorem makes_constItemNode (h : PartsOf .constItem ps) :
    Makes (constItemNode e ps) .constItem := by
  obtain ⟨name, _, rfl, -, value, _, rfl, hvalue, -⟩ := h.order
  exact .step (After.pure (f := fun _ => []) (.refl _)) fun _ =>
    .step (makes_buildFirst (r := .value) hvalue rfl) fun value =>
      .nodeAt rfl (.of_eq (by simp [placed, slots, Field.children]))

end ThreeAddress.Syntax

import ThreeAddress.Proofs.Labels

/-!
# Blocks of a listing

A switch, a handler or a declaration keeps its braces: a line that ends with one opens a block,
and a line that is nothing else closes the block that was opened last. `blocksAfter` tells which
blocks are open behind some lines, the innermost first, and no blocks at all if there is nothing
to close.

Code is **contained** (`Contained`) if its blocks are closed again and no jump goes into a block.
What a jump leaves on its way has a header that tells so (`Block.IsLeavable`). Contained code is
put together like any other code, and labels at its top level take care of the jumps to them
(`Contained.resolve`).
-/

namespace ThreeAddress

namespace Instruction

/-- Whether the line is the header of a block. -/
def opens (i : Instruction) : Bool :=
  [' ', '\x7b'].isSuffixOf i.line.toList

/-- Whether the line closes a block. -/
def closes (i : Instruction) : Bool :=
  i.line == "\x7d"

/-- Whether the line ends as a statement or a label does. -/
def isPlain (i : Instruction) : Bool :=
  i.line.toList.getLast? == some ';' || i.line.toList.getLast? == some ':'

variable {i : Instruction}

theorem opens_of_isPlain (h : i.isPlain = true) : i.opens = false := by
  cases ho : i.opens with
  | false => rfl
  | true =>
    obtain ⟨cs, hcs⟩ := List.isSuffixOf_iff_suffix.mp ho
    have hlast : i.line.toList.getLast? = some '\x7b' := by
      rw [← hcs, List.getLast?_append]
      rfl
    rw [isPlain, hlast] at h
    exact absurd h (by decide)

theorem closes_of_isPlain (h : i.isPlain = true) : i.closes = false := by
  cases hc : i.closes with
  | false => rfl
  | true =>
    rw [isPlain, beq_iff_eq.mp hc] at h
    exact absurd h (by decide)

theorem isPlain_of_append {s t : String} (h : (Instruction.text t).isPlain = true) :
    (Instruction.text (s ++ t)).isPlain = true := by
  have hne : t.toList ≠ [] := by
    intro hnil
    have hline : (Instruction.text t).line.toList = [] := hnil
    rw [isPlain, hline] at h
    exact absurd h (by decide)
  have hlast : (Instruction.text (s ++ t)).line.toList.getLast?
      = (Instruction.text t).line.toList.getLast? := by
    show (s ++ t).toList.getLast? = t.toList.getLast?
    rw [String.toList_append, List.getLast?_append_of_ne_nil _ hne]
  rw [isPlain, hlast]
  exact h

theorem isPlain_of_line {s : String} (h : (Instruction.text s).isPlain = true)
    (hi : i.line = s) : i.isPlain = true := by
  rw [isPlain, hi]
  exact h

theorem isPlain_label (t : String) : (Instruction.label t).isPlain = true :=
  isPlain_of_line (isPlain_of_append (s := t) (t := ":") (by decide)) rfl

theorem isPlain_goto (t : String) : (Instruction.goto t).isPlain = true :=
  isPlain_of_line (isPlain_of_append (s := "goto " ++ t) (t := ";") (by decide)) rfl

theorem isPlain_ifGoto (v t : String) : (Instruction.ifGoto v t).isPlain = true :=
  isPlain_of_line (isPlain_of_append (t := ";") (by decide)) rfl

theorem isPlain_foreach (v b t : String) : (Instruction.foreach v b t).isPlain = true :=
  isPlain_of_line (isPlain_of_append (t := ";") (by decide)) rfl

theorem opens_text (s : String) : (Instruction.text (s ++ " \x7b")).opens = true := by
  refine List.isSuffixOf_iff_suffix.mpr ⟨s.toList, ?_⟩
  show _ = (s ++ " \x7b").toList
  rw [String.toList_append]
  rfl

end Instruction

/-- An open block: where its header stands, and what the header is. -/
structure Block where
  line : Nat
  header : String
deriving DecidableEq, Repr

namespace Block

/-- The block of a switch. -/
def IsSwitch (b : Block) : Prop :=
  ∃ v, b.header = "switch (" ++ v ++ ") \x7b"

/-- The block of a try, a catch, a finally or a namespace. -/
def IsSection (b : Block) : Prop :=
  b.header = "try \x7b" ∨ (∃ v, b.header = "catch (" ++ v ++ ") \x7b") ∨
    b.header = "finally \x7b" ∨ b.header = "namespace \x7b" ∨
    ∃ v, b.header = "namespace " ++ v ++ " \x7b"

/-- The block of a switch, a try, a catch, a finally or a namespace. -/
def IsLeavable (b : Block) : Prop :=
  b.IsSwitch ∨ b.IsSection

theorem IsSection.not_isSwitch {b : Block} (h : b.IsSection) : ¬ b.IsSwitch := by
  rintro ⟨v, hv⟩
  have hhead : b.header.toList.head? = some 's' := by
    rw [hv, String.append_assoc, String.toList_append]
    rfl
  rcases h with h | ⟨w, h⟩ | h | h | ⟨w, h⟩
  · rw [h] at hhead
    exact absurd hhead (by decide)
  · rw [h, String.append_assoc, String.toList_append] at hhead
    have hc : some 'c' = some 's' := hhead
    exact absurd hc (by decide)
  · rw [h] at hhead
    exact absurd hhead (by decide)
  · rw [h] at hhead
    exact absurd hhead (by decide)
  · rw [h, String.append_assoc, String.toList_append] at hhead
    have hc : some 'n' = some 's' := hhead
    exact absurd hc (by decide)

end Block

/-- The blocks that are open behind the lines, the first of which has the number `k`, if `bs` are
open before them. There is no answer if a line closes a block and none is open. -/
def blocksAfter : Nat → List Block → List Instruction → Option (List Block)
  | _, bs, [] => some bs
  | k, bs, i :: code =>
    if i.opens then blocksAfter (k + 1) (⟨k, i.line⟩ :: bs) code
    else if i.closes then
      if bs.isEmpty then none else blocksAfter (k + 1) bs.tail code
    else blocksAfter (k + 1) bs code

/-- The blocks that are open at a line of the listing. -/
def Listing.openAt (l : Listing) (i : Nat) : Option (List Block) :=
  blocksAfter 0 [] (l.instructions.take i)

section

variable {k : Nat} {bs bs' : List Block} {i : Instruction} {code code' : List Instruction}

@[simp] theorem blocksAfter_nil : blocksAfter k bs [] = some bs := rfl

theorem blocksAfter_cons : blocksAfter k bs (i :: code)
    = if i.opens then blocksAfter (k + 1) (⟨k, i.line⟩ :: bs) code
      else if i.closes then if bs.isEmpty then none else blocksAfter (k + 1) bs.tail code
      else blocksAfter (k + 1) bs code := rfl

theorem blocksAfter_opens (h : i.opens = true) :
    blocksAfter k bs (i :: code) = blocksAfter (k + 1) (⟨k, i.line⟩ :: bs) code := by
  rw [blocksAfter_cons, if_pos h]

theorem blocksAfter_closes {b : Block} (ho : i.opens = false) (hc : i.closes = true) :
    blocksAfter k (b :: bs) (i :: code) = blocksAfter (k + 1) bs code := by
  rw [blocksAfter_cons, if_neg (by rw [ho]; decide), if_pos hc]
  rfl

theorem blocksAfter_plain (h : i.isPlain = true) :
    blocksAfter k bs (i :: code) = blocksAfter (k + 1) bs code := by
  rw [blocksAfter_cons, if_neg (by rw [Instruction.opens_of_isPlain h]; decide),
    if_neg (by rw [Instruction.closes_of_isPlain h]; decide)]

theorem blocksAfter_append : blocksAfter k bs (code ++ code')
    = (blocksAfter k bs code).bind fun bs' => blocksAfter (k + code.length) bs' code' := by
  induction code generalizing k bs with
  | nil => rfl
  | cons i code ih =>
    have hlength : k + (i :: code).length = k + 1 + code.length := by
      rw [List.length_cons]
      omega
    rw [List.cons_append, blocksAfter_cons, blocksAfter_cons, hlength]
    split
    · exact ih
    · split
      · cases bs with
        | nil => rfl
        | cons b bs => exact ih
      · exact ih

/-- What is open below stays open. -/
theorem blocksAfter_below (h : blocksAfter k bs code = some bs') (cs : List Block) :
    blocksAfter k (bs ++ cs) code = some (bs' ++ cs) := by
  induction code generalizing k bs with
  | nil =>
    obtain rfl := Option.some.inj h
    rfl
  | cons i code ih =>
    rw [blocksAfter_cons] at h ⊢
    split
    · rename_i ho
      rw [if_pos ho] at h
      exact ih h
    · rename_i ho
      rw [if_neg ho] at h
      split
      · rename_i hc
        rw [if_pos hc] at h
        cases bs with
        | nil => cases h
        | cons b bs => exact ih h
      · rename_i hc
        rw [if_neg hc] at h
        exact ih h

end

namespace Lowering

/-! ## Contained code -/

/-- All blocks of the code are closed in it. -/
def Balanced (code : List Instruction) : Prop :=
  ∀ k, blocksAfter k [] code = some []

namespace Balanced

variable {code code' : List Instruction}

theorem blocksAfter_eq (h : Balanced code) (k : Nat) (bs : List Block) :
    blocksAfter k bs code = some bs :=
  blocksAfter_below (h k) bs

theorem append (h : Balanced code) (h' : Balanced code') : Balanced (code ++ code') := by
  intro k
  rw [blocksAfter_append, h k]
  exact h' _

theorem plain (h : ∀ i ∈ code, i.isPlain = true) : Balanced code := by
  intro k
  induction code generalizing k with
  | nil => rfl
  | cons i code ih =>
    obtain ⟨hi, hcode⟩ := List.forall_mem_cons.mp h
    rw [blocksAfter_plain hi]
    exact ih hcode (k + 1)

/-- The blocks that are open behind the first part of balanced code. -/
theorem exists_blocksAfter (h : Balanced (code ++ code')) (k : Nat) :
    ∃ bs, blocksAfter k [] code = some bs := by
  have hall := h k
  rw [blocksAfter_append] at hall
  obtain ⟨bs, hbs, -⟩ := Option.bind_eq_some_iff.mp hall
  exact ⟨bs, hbs⟩

end Balanced

/-- From a line at which `bs` are open, the label is reached by closing some of them, and those may
be left. -/
def ReachesLabel (code : List Instruction) (k : Nat) (bs : List Block) (t : String) : Prop :=
  ∃ pre post closed outer, code = pre ++ .label t :: post ∧ blocksAfter k [] pre = some outer ∧
    bs = closed ++ outer ∧ ∀ b ∈ closed, b.IsLeavable

/-- The blocks of the code are closed in it, and a jump reaches its label, or it goes out of the
code to one of `outs` and all that it leaves may be left. The labels `tops` are not in a block.
Nothing is said of jumps if there may be others than those of control structures (`gotos`). -/
structure Contained (gotos : Prop) (outs tops : List String) (code : List Instruction) :
    Prop where
  balanced : Balanced code
  jumps : ¬ gotos → ∀ pre i post t, code = pre ++ i :: post → i.jumpTarget? = some t →
    ∀ k bs, blocksAfter k [] pre = some bs →
      (t ∈ outs ∧ ∀ b ∈ bs, b.IsLeavable) ∨ ReachesLabel code k bs t
  topLevel : ∀ t ∈ tops, ∃ pre post, code = pre ++ .label t :: post ∧ Balanced pre

namespace Contained

variable {gotos : Prop} {outs outs' tops tops' : List String} {code code' : List Instruction}

theorem mono (h : Contained gotos outs tops code) (houts : outs ⊆ outs') (htops : tops' ⊆ tops) :
    Contained gotos outs' tops' code where
  balanced := h.balanced
  jumps hgotos pre i post t hcode ht k bs hbs :=
    (h.jumps hgotos pre i post t hcode ht k bs hbs).imp_left fun hout => ⟨houts hout.1, hout.2⟩
  topLevel t ht := h.topLevel t (htops ht)

/-- Plain lines are at the top level. -/
theorem plain (h : ∀ i ∈ code, i.isPlain = true) :
    Contained gotos (targetsIn code) (labelsIn code) code where
  balanced := .plain h
  jumps hgotos pre i post t hcode ht k bs hbs := by
    have hpre : ∀ i ∈ pre, i.isPlain = true := fun i hi => h i (by
      rw [hcode]
      exact List.mem_append_left _ hi)
    rw [Balanced.plain hpre k] at hbs
    obtain rfl := Option.some.inj hbs
    refine .inl ⟨List.mem_filterMap.mpr ⟨i, ?_, ht⟩, List.forall_mem_nil _⟩
    rw [hcode]
    exact List.mem_append_right _ List.mem_cons_self
  topLevel t ht := by
    obtain ⟨i, hi, hlabel⟩ := List.mem_filterMap.mp ht
    obtain ⟨pre, post, rfl⟩ := List.append_of_mem hi
    obtain rfl : i = .label t := by
      cases i with
      | label name =>
        obtain rfl := Option.some.inj hlabel
        rfl
      | _ => cases hlabel
    exact ⟨pre, post, rfl, .plain fun i hi => h i (List.mem_append_left _ hi)⟩

theorem append (h : Contained gotos outs tops code) (h' : Contained gotos outs' tops' code') :
    Contained gotos (outs ++ outs') (tops ++ tops') (code ++ code') where
  balanced := h.balanced.append h'.balanced
  jumps hgotos pre i post t hcode ht k bs hbs := by
    rcases List.append_eq_append_iff.mp hcode with ⟨front, rfl, hcode'⟩ | ⟨back, hpre, hback⟩
    · -- the jump stands in the second part
      rw [blocksAfter_append, h.balanced k] at hbs
      rcases h'.jumps hgotos front i post t hcode' ht _ bs hbs with ⟨hout, hleave⟩ | hlabel
      · exact .inl ⟨List.mem_append_right _ hout, hleave⟩
      · obtain ⟨pre', post', closed, outer, rfl, houter, rfl, hclosed⟩ := hlabel
        refine .inr ⟨code ++ pre', post', closed, outer, ?_, ?_, rfl, hclosed⟩
        · rw [List.append_assoc]
        · rw [blocksAfter_append, h.balanced k]
          exact houter
    · cases back with
      | nil =>
        -- the jump is the first line of the second part
        have hcode' : code' = [] ++ i :: post := hback.symm
        rw [List.append_nil] at hpre
        obtain rfl := hpre
        rw [h.balanced k] at hbs
        obtain rfl := Option.some.inj hbs
        have hfirst := h'.jumps hgotos [] i post t hcode' ht (k + code.length) [] rfl
        rcases hfirst with ⟨hout, hleave⟩ | hlabel
        · exact .inl ⟨List.mem_append_right _ hout, hleave⟩
        · obtain ⟨pre', post', closed, outer, heq, houter, hnil, hclosed⟩ := hlabel
          refine .inr ⟨code ++ pre', post', closed, outer, ?_, ?_, hnil, hclosed⟩
          · rw [heq, List.append_assoc]
          · rw [blocksAfter_append, h.balanced k]
            exact houter
      | cons j back =>
        obtain ⟨rfl, hpost⟩ := List.cons_eq_cons.mp hback
        rcases h.jumps hgotos pre i back t hpre ht k bs hbs with ⟨hout, hleave⟩ | hlabel
        · exact .inl ⟨List.mem_append_left _ hout, hleave⟩
        · obtain ⟨pre', post', closed, outer, heq, houter, rfl, hclosed⟩ := hlabel
          refine .inr ⟨pre', post' ++ code', closed, outer, ?_, houter, rfl, hclosed⟩
          rw [heq, List.append_assoc]
          rfl
  topLevel t ht := by
    rcases List.mem_append.mp ht with ht | ht
    · obtain ⟨pre, post, rfl, hpre⟩ := h.topLevel t ht
      exact ⟨pre, post ++ code', by rw [List.append_assoc]; rfl, hpre⟩
    · obtain ⟨pre, post, rfl, hpre⟩ := h'.topLevel t ht
      exact ⟨code ++ pre, post, by rw [List.append_assoc], h.balanced.append hpre⟩

/-- **Jumps out of the code that go to one of its own labels are jumps inside it.** -/
theorem resolve (h : Contained gotos outs tops code) (houts : ∀ t ∈ outs, t ∈ outs' ∨ t ∈ tops) :
    Contained gotos outs' [] code where
  balanced := h.balanced
  jumps hgotos pre i post t hcode ht k bs hbs := by
    rcases h.jumps hgotos pre i post t hcode ht k bs hbs with ⟨hout, hleave⟩ | hlabel
    · rcases houts t hout with hout' | htop
      · exact .inl ⟨hout', hleave⟩
      · obtain ⟨pre', post', rfl, hpre'⟩ := h.topLevel t htop
        exact .inr ⟨pre', post', bs, [], rfl, hpre' k, (List.append_nil _).symm, hleave⟩
    · exact .inr hlabel
  topLevel := List.forall_mem_nil _

/-- **Contained code in a block.** Jumps go out of it only if the block may be left. -/
theorem block {i j : Instruction} (h : Contained gotos outs tops code) (hopens : i.opens = true)
    (hcloses : j.closes = true) (hplain : j.opens = false) (hjumps : i.jumpTarget? = none)
    (hleave : outs = [] ∨ ∀ k, Block.IsLeavable ⟨k, i.line⟩) (hjump : j.jumpTarget? = none) :
    Contained gotos outs [] (i :: (code ++ [j])) where
  balanced k := by
    rw [blocksAfter_opens hopens, blocksAfter_append, h.balanced.blocksAfter_eq]
    show blocksAfter _ [_] [j] = _
    rw [blocksAfter_closes hplain hcloses]
    rfl
  jumps hgotos pre x post t hcode ht k bs hbs := by
    cases pre with
    | nil =>
      obtain ⟨rfl, -⟩ := List.cons_eq_cons.mp hcode
      rw [hjumps] at ht
      cases ht
    | cons y pre =>
      rw [List.cons_append] at hcode
      obtain ⟨rfl, hinside⟩ := List.cons_eq_cons.mp hcode
      -- the jump stands before the line that closes the block
      obtain ⟨back, hcode, hpost⟩ : ∃ back, code = pre ++ x :: back ∧ post = back ++ [j] := by
        rcases List.eq_nil_or_concat' post with rfl | ⟨back, z, rfl⟩
        · obtain ⟨-, hx⟩ := List.append_inj' hinside rfl
          obtain ⟨rfl, -⟩ := List.cons_eq_cons.mp hx
          rw [hjump] at ht
          cases ht
        · have hlast : code ++ [j] = (pre ++ x :: back) ++ [z] := by
            rw [hinside, List.append_assoc]
            rfl
          obtain ⟨heq, hz⟩ := List.append_inj' hlast rfl
          exact ⟨back, heq, by rw [List.singleton_inj.mp hz]⟩
      have hbalanced : Balanced (pre ++ x :: back) := hcode ▸ h.balanced
      obtain ⟨inner, hinner⟩ := hbalanced.exists_blocksAfter (k + 1)
      rw [blocksAfter_opens hopens] at hbs
      have hbelow := blocksAfter_below hinner [⟨k, i.line⟩]
      rw [List.nil_append] at hbelow
      rw [hbelow] at hbs
      obtain rfl := Option.some.inj hbs
      rcases h.jumps hgotos pre x back t hcode ht (k + 1) inner hinner with ⟨hout, hall⟩ | hlabel
      · rcases hleave with hnil | hleave
        · rw [hnil] at hout
          cases hout
        · exact .inl ⟨hout, List.forall_mem_append.mpr
            ⟨hall, List.forall_mem_singleton.mpr (hleave k)⟩⟩
      · obtain ⟨pre', post', closed, outer, heq, houter, rfl, hclosed⟩ := hlabel
        refine .inr ⟨i :: pre', post' ++ [j], closed, outer ++ [⟨k, i.line⟩], ?_, ?_, ?_, hclosed⟩
        · rw [heq, List.append_assoc]
          rfl
        · rw [blocksAfter_opens hopens]
          exact blocksAfter_below houter [⟨k, i.line⟩]
        · rw [List.append_assoc]
  topLevel := List.forall_mem_nil _

end Contained

end Lowering

end ThreeAddress

import ThreeAddress.Proofs.Spelling
import ThreeAddress.Syntax.Parse

/-!
# The texts of tokens

Some tokens stand for something that is looked up in their text: operators, the types of casts and
the values of float literals. **Every text that the grammar reads as such a token has its entry**
(`Rule.run_spelled`), whatever the case of its letters and wherever digits have marks between
them.
-/

namespace ThreeAddress

namespace Number

/-- Digits, which may have marks between them. -/
def IsDigits (cs : List Char) : Prop :=
  withoutMarks cs ≠ [] ∧ ∀ c ∈ withoutMarks cs, c.isDigit = true

theorem withoutMarks_append (cs ds : List Char) :
    withoutMarks (cs ++ ds) = withoutMarks cs ++ withoutMarks ds :=
  List.filter_append ..

theorem withoutMarks_cons {c : Char} (h : c ≠ '_') (cs : List Char) :
    withoutMarks (c :: cs) = c :: withoutMarks cs := by
  unfold withoutMarks
  rw [List.filter_cons, if_pos (by simpa using h)]

/-- Characters of a class, which may have marks between them. -/
structure IsRun (cl : Grammar.CharClass) (c : Char) (cs : List Char) : Prop where
  head : cl.contains c = true
  tail : ∀ d ∈ withoutMarks cs, cl.contains d = true
  digit_of_mark : withoutMarks cs = [] → cs = []

theorem ne_of_contains {cl : Grammar.CharClass} {c d : Char} (hc : cl.contains c = true)
    (hd : cl.contains d = false) : c ≠ d := by
  rintro rfl
  exact Bool.noConfusion (hc.symm.trans hd)

theorem IsRun.ne_mark {cl : Grammar.CharClass} {c : Char} {cs : List Char} (h : IsRun cl c cs)
    (hcl : cl.contains '_' = false) : c ≠ '_' :=
  ne_of_contains h.head hcl

theorem IsRun.forall_mem {cl : Grammar.CharClass} {c : Char} {cs : List Char} (h : IsRun cl c cs)
    (hcl : cl.contains '_' = false) : ∀ d ∈ withoutMarks (c :: cs), cl.contains d = true := by
  rw [withoutMarks_cons (h.ne_mark hcl)]
  exact List.forall_mem_cons.mpr ⟨h.head, h.tail⟩

theorem isDigits_append {cs ds : List Char} (h : IsDigits cs)
    (hds : ∀ c ∈ withoutMarks ds, c.isDigit = true) : IsDigits (cs ++ ds) := by
  unfold IsDigits
  rw [withoutMarks_append]
  exact ⟨fun hnil => h.1 (List.append_eq_nil_iff.mp hnil).1,
    List.forall_mem_append.mpr ⟨h.2, hds⟩⟩

theorem hexValue?_of_isDigit {c : Char} (h : c.isDigit = true) :
    ∃ v, Text.hexValue? c = some v ∧ v < 10 := by
  have hle : '0' ≤ c ∧ c ≤ '9' := by
    obtain ⟨h₀, h₉⟩ := Bool.and_eq_true_iff.mp h
    exact ⟨of_decide_eq_true h₀, of_decide_eq_true h₉⟩
  refine ⟨c.toNat - '0'.toNat, if_pos hle, ?_⟩
  have h₉ : c.toNat ≤ '9'.toNat := hle.2
  have h₀ : '0'.toNat = 48 := rfl
  have h₁ : '9'.toNat = 57 := rfl
  omega

/-- Digits have a value. -/
theorem digitsValue?_of_isDigit {ds : List Char} (hne : ds ≠ [])
    (h : ∀ c ∈ ds, c.isDigit = true) : ∃ n, digitsValue? 10 ds = some n := by
  have hfold : ∀ n : Nat, ∃ m, ds.foldlM (fun n c => do
      let v ← Text.hexValue? c
      if v < 10 then some (n * 10 + v) else none) n = some m := by
    clear hne
    induction ds with
    | nil => exact fun n => ⟨n, rfl⟩
    | cons c cs ih =>
      intro n
      obtain ⟨hc, hcs⟩ := List.forall_mem_cons.mp h
      obtain ⟨v, hv, hlt⟩ := hexValue?_of_isDigit hc
      obtain ⟨m, hm⟩ := ih hcs (n * 10 + v)
      refine ⟨m, ?_⟩
      rw [List.foldlM_cons, hv]
      simpa [hlt] using hm
  cases ds with
  | nil => exact absurd rfl hne
  | cons c cs => exact hfold 0

/-- What the part of a float literal after its digits may be: nothing, or an exponent. -/
def IsExponent (cs : List Char) : Prop :=
  ∃ mark sign ds, cs = mark :: (sign ++ ds) ∧ (mark = 'e' ∨ mark = 'E') ∧
    (sign = [] ∨ sign = ['+'] ∨ sign = ['-']) ∧ IsDigits ds

/-- An exponent has a value. -/
theorem exponent?_of_isExponent {cs : List Char} (h : IsExponent cs) :
    ∃ e, ofFloat?.exponent? (withoutMarks cs) = some e := by
  obtain ⟨mark, sign, ds, rfl, hmark, hsign, hds⟩ := h
  obtain ⟨n, hn⟩ := digitsValue?_of_isDigit hds.1 hds.2
  have hplain (h : ∀ c ∈ (withoutMarks ds).head?, c ≠ '-' ∧ c ≠ '+') :
      ofFloat?.exponent? (mark :: withoutMarks ds) = some (n : Int) := by
    rw [ofFloat?.exponent?, if_pos hmark, hn]
    · rfl
    · exact fun _ heq => absurd rfl (h '-' (by rw [heq]; rfl)).1
    · exact fun _ heq => absurd rfl (h '+' (by rw [heq]; rfl)).2
  have hkeep : mark ≠ '_' := by
    obtain rfl | rfl := hmark <;> decide
  rw [withoutMarks_cons hkeep]
  obtain rfl | rfl | rfl := hsign
  · refine ⟨n, hplain fun c hc => ?_⟩
    have hdigit := hds.2 c (List.mem_of_mem_head? hc)
    constructor <;> rintro rfl <;> exact absurd hdigit (by decide)
  · refine ⟨n, ?_⟩
    show ofFloat?.exponent? (mark :: '+' :: withoutMarks ds) = _
    rw [ofFloat?.exponent?, if_pos hmark, hn]
    rfl
  · refine ⟨-n, ?_⟩
    show ofFloat?.exponent? (mark :: '-' :: withoutMarks ds) = _
    rw [ofFloat?.exponent?, if_pos hmark, hn]
    rfl

theorem takeWhile_isDigit {ds rest : List Char} (h : ∀ c ∈ ds, c.isDigit = true)
    (hrest : ∀ c ∈ rest.head?, c.isDigit = false) :
    (ds ++ rest).takeWhile Char.isDigit = ds ∧ (ds ++ rest).dropWhile Char.isDigit = rest := by
  rw [List.takeWhile_append_of_pos h, List.dropWhile_append_of_pos h]
  cases rest with
  | nil => exact ⟨List.append_nil _, rfl⟩
  | cons c cs => simp [hrest c rfl]

/-- A point and digits, or neither. -/
inductive IsFraction : List Char → List Char → Prop
  | none : IsFraction [] []
  | places {cs : List Char} : (∀ c ∈ withoutMarks cs, c.isDigit = true) → IsFraction ('.' :: cs) cs

theorem afterPoint_of_isFraction {cs places tail : List Char} (h : IsFraction cs places)
    (htail : ∀ c ∈ (withoutMarks tail).head?, c.isDigit = false ∧ c ≠ '.') :
    ofFloat?.afterPoint (withoutMarks (cs ++ tail)) = (withoutMarks places, withoutMarks tail) := by
  rw [withoutMarks_append]
  cases h with
  | none =>
    show ofFloat?.afterPoint (withoutMarks tail) = _
    rw [ofFloat?.afterPoint]
    · rfl
    · exact fun r heq => (htail '.' (by rw [heq]; rfl)).2 rfl
  | places hplaces =>
    obtain ⟨ht, hd⟩ := takeWhile_isDigit hplaces fun c hc => (htail c hc).1
    show ofFloat?.afterPoint ('.' :: (withoutMarks places ++ withoutMarks tail)) = _
    rw [ofFloat?.afterPoint, ht, hd]

/-- **Digits with a fraction or an exponent or both have a value.** -/
theorem ofFloat?_isSome {whole fraction places tail : List Char}
    (hwhole : ∀ c ∈ withoutMarks whole, c.isDigit = true) (hfraction : IsFraction fraction places)
    (hdigits : IsDigits (whole ++ places)) (htail : tail = [] ∨ IsExponent tail) :
    (ofFloat? (String.ofList (whole ++ (fraction ++ tail)))).isSome = true := by
  obtain ⟨n, hn⟩ := digitsValue?_of_isDigit hdigits.1 hdigits.2
  rw [withoutMarks_append] at hn
  obtain ⟨e, he⟩ : ∃ e, ofFloat?.exponent? (withoutMarks tail) = some e := by
    obtain rfl | htail := htail
    · exact ⟨0, rfl⟩
    · exact exponent?_of_isExponent htail
  have hhead : ∀ c ∈ (withoutMarks tail).head?, c.isDigit = false ∧ c ≠ '.' := by
    obtain rfl | ⟨mark, sign, ds, rfl, hmark, -⟩ := htail
    · exact nofun
    · obtain rfl | rfl := hmark
      all_goals
        intro c hc
        obtain rfl := Option.some.inj hc
        decide
  have hlater : ∀ c ∈ (withoutMarks (fraction ++ tail)).head?, c.isDigit = false := by
    cases hfraction with
    | none => exact fun c hc => (hhead c hc).1
    | places =>
      intro c hc
      obtain rfl := Option.some.inj hc
      decide
  obtain ⟨ht, hd⟩ := takeWhile_isDigit hwhole hlater
  unfold ofFloat?
  simp only [String.toList_ofList, withoutMarks_append whole, ht, hd,
    afterPoint_of_isFraction hfraction hhead, hn, he]
  rfl

end Number

namespace Grammar

open Number Syntax

/-- What the text of a rule says, where it is looked up. -/
def Rule.Spelled : Rule → List Char → Prop
  | .digits, cs => IsDigits cs
  | .exponent, cs => IsExponent cs
  | .float, cs => (ofFloat? (String.ofList cs)).isSome = true
  | .castType, cs => (CastType.ofWord? (String.ofList cs)).isSome = true
  | .opAssign, cs => cs = ['='] ∨
      ∃ o, BinaryOperator.ofToken? (String.ofList cs.dropLast) = some o ∧
        o.assignToken?.isSome = true
  | .opCoalesce, cs | .opBoolOr, cs | .opBoolAnd, cs | .opEquality, cs | .opCompare, cs
  | .opShift, cs | .opPow, cs | .opBitOr, cs | .opBitXor, cs | .opBitAnd, cs | .opConcat, cs
  | .opAdditive, cs | .opMultiplicative, cs | .opOrKw, cs | .opXorKw, cs | .opAndKw, cs =>
    (BinaryOperator.ofToken? (String.ofList cs)).isSome = true
  | _, _ => True

variable {r : Rule} {S : Rule → List Char → Prop} {cs : List Char}

/-- A character of a class and more of them, with marks between them. -/
theorem exists_isRun_of_spells {gap : List Char → Prop} (hgap : ∀ cs, gap cs → cs = [])
    {cl : CharClass} (hcl : cl.contains '_' = false)
    (h : (Pattern.seq (.one cl) (.many (.seq (.maybe (.literal ['_'])) (.one cl)))).Spells gap S cs) :
    ∃ c ds, cs = c :: ds ∧ IsRun cl c ds := by
  obtain ⟨_, between, _, rfl, ⟨c, rfl, hc⟩, hbetween, css, rfl, hcss⟩ := h
  obtain rfl := hgap _ hbetween
  have hrounds : (∀ d ∈ withoutMarks css.flatten, cl.contains d = true) ∧
      (withoutMarks css.flatten = [] → css.flatten = []) := by
    induction css with
    | nil => exact ⟨nofun, fun _ => rfl⟩
    | cons ds css ih =>
      obtain ⟨hds, hcss⟩ := List.forall_mem_cons.mp hcss
      obtain ⟨hall, hnil⟩ := ih hcss
      rw [List.flatten_cons, withoutMarks_append]
      obtain ⟨mark, between, _, rfl, hmark, hbetween, d, rfl, hd⟩ | hds := hds
      · obtain rfl := hgap _ hbetween
        have hround : withoutMarks (mark ++ [d]) = [d] := by
          rw [withoutMarks_append, withoutMarks_cons (ne_of_contains hd hcl)]
          obtain rfl | rfl := hmark <;> rfl
        rw [List.nil_append, hround]
        exact ⟨List.forall_mem_cons.mpr ⟨hd, hall⟩, nofun⟩
      · obtain rfl := hgap _ hds
        exact ⟨hall, hnil⟩
  exact ⟨c, css.flatten, rfl, hc, hrounds.1, hrounds.2⟩

theorem isDigits_of_spells {gap : List Char → Prop} (hgap : ∀ cs, gap cs → cs = [])
    (h : (Rule.definition .digits).body.Spells gap S cs) : IsDigits cs := by
  obtain ⟨c, ds, rfl, hrun⟩ := exists_isRun_of_spells hgap rfl h
  exact ⟨by rw [withoutMarks_cons (hrun.ne_mark rfl)]; exact List.cons_ne_nil _ _,
    hrun.forall_mem rfl⟩

theorem isExponent_of_spells {gap : List Char → Prop} (hgap : ∀ cs, gap cs → cs = [])
    (hS : ∀ cs, S .digits cs → IsDigits cs)
    (h : (Rule.definition .exponent).body.Spells gap S cs) : IsExponent cs := by
  obtain ⟨mark, between, _, rfl, hmark, hbetween, sign, between', ds, rfl, hsign, hbetween',
    hds⟩ := h
  obtain rfl := hgap _ hbetween
  obtain rfl := hgap _ hbetween'
  have hsign : sign = [] ∨ sign = ['+'] ∨ sign = ['-'] := hsign
  obtain rfl | rfl := hmark
  · exact ⟨'e', sign, ds, rfl, .inl rfl, hsign, hS ds hds⟩
  · exact ⟨'E', sign, ds, rfl, .inr rfl, hsign, hS ds hds⟩

theorem float_of_spells {gap : List Char → Prop} (hgap : ∀ cs, gap cs → cs = [])
    (hdigits : ∀ cs, S .digits cs → IsDigits cs) (hexponent : ∀ cs, S .exponent cs → IsExponent cs)
    (h : (Rule.definition .float).body.Spells gap S cs) :
    (ofFloat? (String.ofList cs)).isSome = true := by
  have hpoint (cs : List Char) : ".".toList ++ cs = '.' :: cs := rfl
  obtain h | h | h := h
  · obtain ⟨whole, _, _, rfl, hwhole, hgap₁, _, _, _, rfl, rfl, hgap₂, places, _, tail, rfl,
      hplaces, hgap₃, htail⟩ := h
    obtain rfl := hgap _ hgap₁
    obtain rfl := hgap _ hgap₂
    obtain rfl := hgap _ hgap₃
    have hwhole := hdigits whole hwhole
    have htail : tail = [] ∨ IsExponent tail := htail.imp id (hexponent tail)
    have hplaces : ∀ c ∈ withoutMarks places, c.isDigit = true := by
      obtain rfl | hplaces := hplaces
      · exact nofun
      · exact (hdigits places hplaces).2
    have hfloat := ofFloat?_isSome hwhole.2 (.places hplaces) (isDigits_append hwhole hplaces) htail
    simpa only [List.nil_append, hpoint, List.cons_append] using hfloat
  · obtain ⟨_, _, _, rfl, rfl, hgap₁, places, _, tail, rfl, hplaces, hgap₂, htail⟩ := h
    obtain rfl := hgap _ hgap₁
    obtain rfl := hgap _ hgap₂
    have hplaces := hdigits places hplaces
    have htail : tail = [] ∨ IsExponent tail := htail.imp id (hexponent tail)
    have hfloat : (ofFloat? (String.ofList ([] ++ ('.' :: places ++ tail)))).isSome = true :=
      ofFloat?_isSome nofun (.places hplaces.2) hplaces htail
    simpa only [List.nil_append, hpoint, List.cons_append] using hfloat
  · obtain ⟨whole, _, tail, rfl, hwhole, hgap₁, htail⟩ := h
    obtain rfl := hgap _ hgap₁
    have hwhole := hdigits whole hwhole
    exact ofFloat?_isSome hwhole.2 .none (by rwa [List.append_nil]) (.inr (hexponent tail htail))

/-- A word in letters of any case. -/
theorem map_toLower_ofList (cs : List Char) :
    (String.ofList cs).map Char.toLower = String.ofList (cs.map Char.toLower) := by
  rw [← String.ofList_toList (s := String.map _ _), String.toList_map, String.toList_ofList]

theorem castType_of_spells {gap : List Char → Prop} (hgap : ∀ cs, gap cs → cs = [])
    (h : (Rule.definition .castType).body.Spells gap S cs) :
    (CastType.ofWord? (String.ofList cs)).isSome = true := by
  obtain ⟨word, _, _, rfl, hword, hgap₁, rfl⟩ := h
  obtain rfl := hgap _ hgap₁
  unfold CastType.ofWord?
  rw [map_toLower_ofList, List.nil_append, List.append_nil]
  obtain h | h | h | h | h | h | h | h | h | h | h | h := hword
  all_goals
    rw [show word.map Char.toLower = _ from h]
    decide +kernel

/-- A keyword that is an operator. -/
theorem operatorWord_of_spells {gap : List Char → Prop} (hgap : ∀ cs, gap cs → cs = [])
    {w : String} (h : (Pattern.word w).Spells gap S cs) :
    BinaryOperator.ofToken? (String.ofList cs) = BinaryOperator.ofToken? w := by
  obtain ⟨word, _, _, rfl, hword, hgap₁, rfl⟩ := h
  obtain rfl := hgap _ hgap₁
  have hword : word.map Char.toLower = w.toList.map Char.toLower := hword
  unfold BinaryOperator.ofToken?
  rw [List.nil_append, List.append_nil, map_toLower_ofList, hword, ← map_toLower_ofList,
    String.ofList_toList]

theorem opAssign_of_spells {gap : List Char → Prop} (hgap : ∀ cs, gap cs → cs = [])
    (h : (Rule.definition .opAssign).body.Spells gap S cs) : Rule.Spelled .opAssign cs := by
  have compound {o : BinaryOperator} {text : List Char} (hcs : cs = text)
      (h : BinaryOperator.ofToken? (String.ofList text.dropLast) = some o ∧
        o.assignToken?.isSome = true) : Rule.Spelled .opAssign cs :=
    .inr ⟨o, hcs ▸ h⟩
  obtain h | h | h | h | h | h | h | h | h | h | h | h | h | h := h
  · exact compound (o := .pow) h (by decide +kernel)
  · exact compound (o := .coalesce) h (by decide +kernel)
  · exact compound (o := .shiftLeft) h (by decide +kernel)
  · exact compound (o := .shiftRight) h (by decide +kernel)
  · exact compound (o := .add) h (by decide +kernel)
  · exact compound (o := .sub) h (by decide +kernel)
  · exact compound (o := .mul) h (by decide +kernel)
  · exact compound (o := .div) h (by decide +kernel)
  · exact compound (o := .concat) h (by decide +kernel)
  · exact compound (o := .mod) h (by decide +kernel)
  · exact compound (o := .bitAnd) h (by decide +kernel)
  · exact compound (o := .bitOr) h (by decide +kernel)
  · exact compound (o := .bitXor) h (by decide +kernel)
  · obtain ⟨_, _, _, rfl, rfl, hgap₁, rfl⟩ := h
    obtain rfl := hgap _ hgap₁
    exact .inl rfl

/-- Characters that others must not follow. -/
theorem eq_of_spells_notAhead {gap : List Char → Prop} (hgap : ∀ cs, gap cs → cs = [])
    {text : List Char} {p : Pattern}
    (h : (Pattern.seq (.literal text) (.notAhead p)).Spells gap S cs) : cs = text := by
  obtain ⟨_, _, _, rfl, rfl, hgap₁, rfl⟩ := h
  obtain rfl := hgap _ hgap₁
  exact List.append_nil _

/-- **What is spelled as a token says what the token says.** -/
theorem Rule.spelled_of_spells (r : Rule) (cs : List Char)
    (h : r.definition.body.Spells r.gap Rule.Spelled cs) : r.Spelled cs := by
  have hgap (hmode : r.definition.mode = .atomic) : ∀ cs, r.gap cs → cs = [] :=
    fun cs hcs => hcs (.inl hmode)
  have known {cs text : List Char} (hcs : cs = text)
      (h : (BinaryOperator.ofToken? (String.ofList text)).isSome = true) :
      (BinaryOperator.ofToken? (String.ofList cs)).isSome = true :=
    hcs ▸ h
  cases r with
  | digits => exact isDigits_of_spells (hgap rfl) h
  | exponent => exact isExponent_of_spells (hgap rfl) (fun _ => id) h
  | float => exact float_of_spells (hgap rfl) (fun _ => id) (fun _ => id) h
  | castType => exact castType_of_spells (hgap rfl) h
  | opAssign => exact opAssign_of_spells (hgap rfl) h
  | opCoalesce | opBoolOr | opBoolAnd | opPow | opBitOr | opBitXor | opBitAnd =>
    exact known h (by decide +kernel)
  | opEquality =>
    obtain h | h | h | h | h | h := h <;> exact known h (by decide +kernel)
  | opCompare =>
    obtain h | h | h | h := h
    · exact known h (by decide +kernel)
    · exact known h (by decide +kernel)
    · exact known (eq_of_spells_notAhead (hgap rfl) h) (by decide +kernel)
    · exact known (eq_of_spells_notAhead (hgap rfl) h) (by decide +kernel)
  | opShift | opAdditive => obtain h | h := h <;> exact known h (by decide +kernel)
  | opConcat => exact known (eq_of_spells_notAhead (hgap rfl) h) (by decide +kernel)
  | opMultiplicative => obtain h | h | h := h <;> exact known h (by decide +kernel)
  | opOrKw | opXorKw | opAndKw =>
    exact (congrArg Option.isSome (operatorWord_of_spells (hgap rfl) h)).trans (by decide +kernel)
  | _ => trivial

/-- **Every token that the grammar reads says what it should.** -/
theorem Rule.run_spelled (n : Nat) (r : Rule) (sc : Scope) :
    ReadsSome (Rule.run n r sc) r.Spelled :=
  Rule.run_spells Rule.spelled_of_spells n r sc

/-- The grammar reads the stretch as the rule. -/
def Rule.Takes (r : Rule) (e : Extent) : Prop :=
  ∃ n sc s s' ts, Rule.run n r sc s = .matched s' ts ∧ s.cursor = e.start ∧ s'.cursor = e.stop

theorem Rule.Takes.spelled {r : Rule} {e : Extent} (h : r.Takes e) : r.Spelled e.chars := by
  obtain ⟨n, sc, s, s', ts, hrun, hstart, hstop⟩ := h
  obtain ⟨cs, hcs, hspelled⟩ := Rule.run_spelled n r sc s s' ts hrun
  rw [hstart, hstop] at hcs
  rw [Extent.chars, hcs.textTo_eq]
  exact hspelled

end Grammar

end ThreeAddress

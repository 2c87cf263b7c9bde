import ThreeAddress.Proofs.PhraseBuilding
import ThreeAddress.Proofs.TokenRuns

/-!
# Reading phrases

**The text of a phrase is read as its tokens** (`readAt_phrase`), whatever stands around it, if the
phrase is legible: no sign stands right before the same sign, and members are taken of what is one
operand already. What follows a phrase inside another text is one of a few marks, by which the
grammar knows that the last token has ended.
-/

namespace ThreeAddress.Syntax

/-- Every name can be written. -/
def Term.Named : Term → Prop
  | .var x => isName x.toList = true
  | .member x _ property => x.Named ∧ isName property.toList = true
  | .before _ x => x.Named
  | .after x (.isA owner) => x.Named ∧ isName owner.toList = true
  | .after x _ => x.Named
  | .between l _ r => l.Named ∧ r.Named
  | .choice c y n => c.Named ∧ y.Named ∧ n.Named

instance Term.decidableNamed : (t : Term) → Decidable t.Named
  | .var _ => inferInstanceAs (Decidable (_ = _))
  | .member x _ _ | .after x (.isA _) =>
    have := decidableNamed x
    inferInstanceAs (Decidable (_ ∧ _))
  | .before _ x | .after x .postInc | .after x .postDec => decidableNamed x
  | .between l _ r =>
    have := decidableNamed l
    have := decidableNamed r
    inferInstanceAs (Decidable (_ ∧ _))
  | .choice c y n =>
    have := decidableNamed c
    have := decidableNamed y
    have := decidableNamed n
    inferInstanceAs (Decidable (_ ∧ _ ∧ _))

/-- The sign that the operator shares with a longer one. -/
def Front.sign? : Front → Option Char
  | .plus => some '+'
  | .minus => some '-'
  | _ => none

/-- The token of the operator. -/
def Front.word : Front → String
  | .clone => "clone"
  | .cast type => type.token
  | f => f.text

/-- The number of blanks after the token. -/
def Front.gap : Front → Nat
  | .clone | .cast _ => 1
  | _ => 0

theorem Front.length_text (f : Front) : f.text.toList.length = f.word.toList.length + f.gap := by
  cases f <;> simp [Front.text, Front.word, Front.gap]

/-- The word between the parentheses of a cast. -/
def CastType.word : CastType → String
  | .int => "int"
  | .float => "float"
  | .string => "string"
  | .bool => "bool"
  | .array => "array"
  | .object => "object"
  | .unset => "unset"

theorem CastType.token_eq (type : CastType) :
    type.token.toList = '(' :: (type.word.toList ++ [')']) := by
  cases type <;> rfl

theorem CastType.ofWord?_word (type : CastType) : ofWord? type.word = some type := by
  cases type <;> decide +kernel

/-- Every operator between two operands. -/
def Link.all : List Link :=
  .assign :: .fallback :: BinaryOperator.all.map .op

theorem Link.mem_all (o : Link) : o ∈ Link.all := by
  cases o with
  | op o => cases o <;> decide
  | assign => exact List.mem_cons_self
  | fallback => exact List.mem_cons_of_mem _ List.mem_cons_self

namespace Phrase

/-- Whether the phrase is one operand. -/
def isPrimary : Phrase → Bool
  | .var _ | .group _ | .member _ _ _ => true
  | _ => false

/-- The text of the phrase has the tokens of the phrase and no others. -/
def Legible : Phrase → Prop
  | .var _ => True
  | .group p | .after p _ => p.Legible
  | .member p _ _ => p.isPrimary = true ∧ p.Legible
  | .before f p => (f.sign? = none ∨ p.text.head? ≠ f.sign?) ∧ p.Legible
  | .between l _ r => l.Legible ∧ r.Legible
  | .choice c y n => c.Legible ∧ y.Legible ∧ n.Legible

instance decidableLegible : (p : Phrase) → Decidable p.Legible
  | .var _ => .isTrue trivial
  | .group p | .after p _ => decidableLegible p
  | .member p _ _ | .before _ p =>
    have := decidableLegible p
    inferInstanceAs (Decidable (_ ∧ _))
  | .between l _ r =>
    have := decidableLegible l
    have := decidableLegible r
    inferInstanceAs (Decidable (_ ∧ _))
  | .choice c y n =>
    have := decidableLegible c
    have := decidableLegible y
    have := decidableLegible n
    inferInstanceAs (Decidable (_ ∧ _ ∧ _))

end Phrase

end ThreeAddress.Syntax

namespace ThreeAddress.Grammar

open Pattern Syntax
open Lowering (arrow)

/-! ## What stands where -/

/-- The characters that the text of a phrase starts with; a letter starts `clone`. -/
def phraseStarts : List Char :=
  ['$', '(', '+', '-', '!', '~', '@', 'c']

/-- What follows a phrase directly. -/
def tightMarks : List (List Char) :=
  [")", ";", "]", "\x7d", "++", "--"].map (·.toList)

/-- What follows a phrase and a blank. -/
def looseMarks : List (List Char) :=
  ["? ", ": ", "instanceof $"].map (·.toList) ++ Link.all.map fun o => o.token.toList ++ [' ']

/-- What ends an expression, without the blanks before it. -/
def endMarks : List (List Char) :=
  [")", ";", "]", "\x7d", ": "].map (·.toList)

theorem mem_tightMarks {s : String} (hs : s ∈ [")", ";", "]", "\x7d", "++", "--"]) :
    s.toList ∈ tightMarks :=
  List.mem_map_of_mem hs

theorem mem_looseMarks {s : String} (hs : s ∈ ["? ", ": ", "instanceof $"]) :
    s.toList ∈ looseMarks :=
  List.mem_append_left _ (List.mem_map_of_mem hs)

theorem mem_endMarks {s : String} (hs : s ∈ [")", ";", "]", "\x7d", ": "]) : s.toList ∈ endMarks :=
  List.mem_map_of_mem hs

/-- What may be accessed of a variable that names a class. -/
def classAccessor : Pattern :=
  firstOf [Rule.propAccess, Rule.nullsafeAccess, Rule.staticMember, Rule.dimAccess]

/-- What the grammar sees at the borders of a phrase and of the operators in it. -/
structure Borders : Prop where
  mark : ∀ s ∈ tightMarks ++ looseMarks, previewBlanks 20 false s = .matched 0 s [] ∧
    accessor.glance false s = .failed ∧ classAccessor.glance false s = .failed
  tight : ∀ s ∈ tightMarks,
    s.head?.all (fun c => !(CharClass.alphanumeric.contains c || c == '_')) = true
  loose : ∀ s ∈ looseMarks, previewBlanks 20 false (' ' :: s) = .matched 1 s []
  finish : ∀ s ∈ endMarks,
    postfixOperator.glance false s = .failed ∧ infixOperator.glance false s = .failed
  start : ∀ c ∈ phraseStarts, previewBlanks 20 false [c] = .matched 0 [c] [] ∧
    previewBlanks 20 false [' ', c] = .matched 1 [c] [] ∧
    prefixOperator.glance false ['(', c] = .failed
  front : ∀ f : Front, (∀ type, f ≠ .cast type) → ∀ c ∈ phraseStarts, f.sign? ≠ some c →
    prefixOperator.glance false (f.text.toList ++ [c]) = .matched f.word.toList.length
        (List.replicate f.gap ' ' ++ [c]) [⟨f.rule, 0, f.word.toList.length⟩] ∧
      previewBlanks 20 false (List.replicate f.gap ' ' ++ [c]) = .matched f.gap [c] []
  op : ∀ o : BinaryOperator, postfixOperator.glance false (o.token.toList ++ [' ']) = .failed ∧
    infixOperator.glance false (o.token.toList ++ [' '])
      = .matched o.token.toList.length [' '] [⟨o.rule, 0, o.token.toList.length⟩]
  assign : ∀ c ∈ phraseStarts, postfixOperator.glance false "= ".toList = .failed ∧
    infixOperator.glance false ['=', ' ', c] = .matched 1 [' ', c] [⟨.opAssign, 0, 1⟩]
  fallback : ∀ c ∈ phraseStarts, postfixOperator.glance false "?: ".toList = .failed ∧
    infixOperator.glance false ['?', ':', ' ', c] = .matched 2 [' ', c] [⟨.opTernary, 0, 2⟩]
  postInc : postfixOperator.glance false "++".toList = .matched 2 [] [⟨.postInc, 0, 2⟩]
  postDec : postfixOperator.glance false "--".toList = .matched 2 [] [⟨.postDec, 0, 2⟩]
  dollar : prefixOperator.glance false ['$'] = .failed ∧
    previewBlanks 20 false ['$'] = .matched 0 ['$'] [] ∧
    ∀ r ∈ [Rule.identifier], (rule r).glance false ['$'] = .failed
  arrow : ∀ safe ∈ [false, true],
    previewBlanks 20 false (arrow safe).toList = .matched 0 (arrow safe).toList []
  plain : ("->" : Pattern).glance false "->".toList = .matched 2 [] [] ∧
    ∀ r ∈ [Rule.callArgs, .dimAccess], (rule r).glance false "->".toList = .failed
  safe : ("?->" : Pattern).glance false "?->".toList = .matched 3 [] [] ∧
    ∀ r ∈ [Rule.callArgs, .dimAccess, .propAccess], (rule r).glance false "?->".toList = .failed
  test : (rule (.keyword .instanceofKw)).glance false "instanceof $".toList
      = .matched 10 " $".toList [⟨.keyword .instanceofKw, 0, 10⟩] ∧
    previewBlanks 20 false " $".toList = .matched 1 ['$'] [] ∧
    (∀ r ∈ [Rule.postInc, .postDec], (rule r).glance false ['i'] = .failed) ∧
    ∀ r ∈ [Rule.qualifiedName], (rule r).glance false ['$'] = .failed
  question : postfixOperator.glance false "? ".toList = .failed ∧
    previewBlanks 20 false "? ".toList = .matched 0 "? ".toList [] ∧
    (notAhead (firstOf ["?->", "?>"])).glance false "? ".toList = .matched 0 "? ".toList [] ∧
    ∀ r ∈ [Rule.opAssignRef, .opAssign, .opCoalesce], (rule r).glance false "? ".toList = .failed

theorem borders : Borders where
  mark := forall_mem_of_all (by decide +kernel)
  tight := forall_mem_of_all (by decide +kernel)
  loose := forall_mem_of_all (by decide +kernel)
  finish := forall_mem_of_all (by decide +kernel)
  start := forall_mem_of_all (by decide +kernel)
  front f hf := by
    cases f with
    | cast type => exact absurd rfl (hf type)
    | _ => exact forall_mem_of_all (by decide +kernel)
  op o := by cases o <;> decide +kernel
  assign := forall_mem_of_all (by decide +kernel)
  fallback := forall_mem_of_all (by decide +kernel)
  postInc := by decide +kernel
  postDec := by decide +kernel
  dollar := ⟨by decide +kernel, by decide +kernel, forall_mem_of_all (by decide +kernel)⟩
  arrow := forall_mem_of_all (by decide +kernel)
  plain := ⟨by decide +kernel, forall_mem_of_all (by decide +kernel)⟩
  safe := ⟨by decide +kernel, forall_mem_of_all (by decide +kernel)⟩
  test := ⟨by decide +kernel, by decide +kernel, forall_mem_of_all (by decide +kernel),
    forall_mem_of_all (by decide +kernel)⟩
  question := ⟨by decide +kernel, by decide +kernel, by decide +kernel,
    forall_mem_of_all (by decide +kernel)⟩

/-- What follows the text of a phrase inside another text, and the number of blanks before it. -/
inductive Follows : List Char → Nat → Prop
  | tight {s : List Char} (more : List Char) : s ∈ tightMarks → Follows (s ++ more) 0
  | loose {s : List Char} (more : List Char) : s ∈ looseMarks → Follows (' ' :: (s ++ more)) 1

namespace Follows

variable {n d : Nat} {k : Cursor} {later : List Char}

theorem mark (h : Follows later d) (hk : k.rest = later) :
    ∃ s ∈ tightMarks ++ looseMarks, ∃ more, (k.forward d).rest = s ++ more := by
  cases h with
  | @tight s more hs => exact ⟨s, List.mem_append_left _ hs, more, hk⟩
  | @loose s more hs =>
    refine ⟨s, List.mem_append_right _ hs, more, ?_⟩
    rw [Cursor.forward_one hk, Cursor.rest_past]

theorem gap (h : Follows later d) (hk : k.rest = later) (hn : 20 ≤ n) : Gap n k (k.forward d) := by
  obtain ⟨s, hs, more, hrest⟩ := h.mark hk
  refine ⟨?_, reads_blanks hn (Borders.mark borders s hs).1 hrest⟩
  cases h with
  | @tight s more hs =>
    exact reads_blanks hn (Borders.mark borders s (List.mem_append_left _ hs)).1 hk
  | @loose s more hs => exact reads_blanks hn (Borders.loose borders s hs) hk

theorem accessor (h : Follows later d) (hk : k.rest = later) (hn : 20 ≤ n) :
    Refuses (inside n accessor) (k.forward d) ∧ Refuses (inside n classAccessor) (k.forward d) := by
  obtain ⟨s, hs, more, hrest⟩ := h.mark hk
  obtain ⟨-, haccessor, hclass⟩ := Borders.mark borders s hs
  exact ⟨refuses_of_glance hn haccessor hrest, refuses_of_glance hn hclass hrest⟩

/-- No name goes on. -/
theorem not_word (h : Follows later d) :
    ∀ c ∈ later.head?, (CharClass.alphanumeric.contains c || c == '_') = false := by
  intro c hc
  cases h with
  | @tight s more hs =>
    have hne : s ≠ [] := by
      rintro rfl
      exact absurd hs (by decide)
    obtain ⟨a, s, rfl⟩ := List.exists_cons_of_ne_nil hne
    obtain rfl := Option.some.inj hc
    simpa using Borders.tight borders _ hs
  | loose more hs =>
    obtain rfl := Option.some.inj hc
    decide

end Follows

/-! ## Operators -/

theorem glance_cast (type : CastType) :
    previewBlanks 20 false (type.word.toList ++ [')'])
        = .matched 0 (type.word.toList ++ [')']) [] ∧
      (rule .castType).glance false (type.word.toList ++ [')'])
        = .matched type.word.toList.length [')'] [⟨.castType, 0, type.word.toList.length⟩] := by
  cases type <;> decide +kernel

/-- The tree of a cast at a place. -/
def castTree (k : Cursor) (type : CastType) : ParseTree :=
  ⟨.cast, ⟨k, k.forward type.token.toList.length⟩,
    [⟨.castType, ⟨k.forward 1, (k.forward 1).forward type.word.toList.length⟩, []⟩]⟩

/-- A cast says its type. -/
theorem ofWord?_castTree {k : Cursor} {type : CastType} {later : List Char}
    (hk : k.rest = type.token.toList ++ later) :
    (((castTree k type).annotate buildRule).children.head?.bind fun w => CastType.ofWord? w.text)
      = some type := by
  have hk : k.rest = '(' :: (type.word.toList ++ ([')'] ++ later)) := by
    rw [hk, type.token_eq]
    simp
  have hk₁ : (k.forward 1).rest = type.word.toList ++ ([')'] ++ later) := by
    rw [Cursor.forward_one hk, Cursor.rest_past]
  show CastType.ofWord? (String.ofList
    ((k.forward 1).textTo ((k.forward 1).forward type.word.toList.length))) = some type
  rw [Cursor.textTo_forward hk₁, String.ofList_toList, type.ofWord?_word]

theorem reads_cast {n : Nat} {k : Cursor} {type : CastType} {later : List Char} (hn : 20 ≤ n)
    (hk : k.rest = type.token.toList ++ later) :
    Reads (inside (n + 1) prefixOperator) k (k.forward type.token.toList.length)
      [castTree k type] := by
  have hk : k.rest = '(' :: ((type.word.toList ++ [')']) ++ later) := by
    rw [hk, type.token_eq]
    rfl
  have hk₁ : (k.forward 1).rest = (type.word.toList ++ [')']) ++ later := by
    rw [Cursor.forward_one hk, Cursor.rest_past]
  obtain ⟨hstill, htype⟩ := glance_cast type
  obtain ⟨hk₂, hword⟩ := reads_of_glance hn htype hk₁
  have hopen : Reads (inside n "(") k (k.forward 1) [] := reads_char hk
  have hclose : Reads (inside n ")") _ _ [] := reads_char hk₂
  have hcast : Reads (inside (n + 1) Rule.cast) k _ [⟨.cast, ⟨k, _⟩, _⟩] :=
    reads_rule (r := .cast) (hopen.seq (reads_blanks hn hstill hk₁)
      (hword.seq (reads_blanks hn (Borders.mark borders [')'] (by decide)).1 hk₂) hclose))
  have hplace : ((k.forward 1).forward type.word.toList.length).forward 1
      = k.forward type.token.toList.length := by
    rw [← Cursor.forward_add, ← Cursor.forward_add, type.token_eq]
    congr 1
    simp
    omega
  rw [hplace] at hcast
  exact .alt_left hcast

/-- The tree of an operator before its operand. -/
def frontTree (k : Cursor) : Front → ParseTree
  | .cast type => castTree k type
  | f => ⟨f.rule, ⟨k, k.forward f.word.toList.length⟩, []⟩

section

variable {n : Nat} {k : Cursor} {later : List Char}

theorem means_frontTree {f : Front} (hk : k.rest = f.text.toList ++ later) :
    (Token.front f).Means ((frontTree k f).annotate buildRule) := by
  cases f with
  | cast type =>
    have hk : k.rest = type.token.toList ++ (' ' :: later) := by
      rw [hk]
      simp [Front.text]
    exact ⟨rfl, ofWord?_castTree hk⟩
  | _ => rfl

/-- An operator before the text of a phrase. -/
theorem reads_front {f : Front} {c : Char} (hc : c ∈ phraseStarts) (hsign : f.sign? ≠ some c)
    (hn : 21 ≤ n) (hk : k.rest = f.text.toList ++ c :: later) :
    Reads (inside n prefixOperator) k (k.forward f.word.toList.length) [frontTree k f] ∧
      Reads (skipBlanks n) (k.forward f.word.toList.length)
        (k.forward f.text.toList.length) [] := by
  rw [f.length_text, Cursor.forward_add]
  by_cases hcast : ∃ type, f = .cast type
  · obtain ⟨type, rfl⟩ := hcast
    obtain ⟨m, rfl⟩ : ∃ m, n = m + 1 := ⟨n - 1, by omega⟩
    have hk : k.rest = type.token.toList ++ ([' ', c] ++ later) := by
      rw [hk]
      simp [Front.text]
    exact ⟨reads_cast (by omega) hk, reads_blanks (by omega) (Borders.start borders c hc).2.1
      (Cursor.rest_forward hk)⟩
  · obtain ⟨hfront, hblanks⟩ :=
      Borders.front borders f (fun type h => hcast ⟨type, h⟩) c hc hsign
    have hk : k.rest = (f.text.toList ++ [c]) ++ later := by rw [hk]; simp
    obtain ⟨hrest, hread⟩ := reads_of_glance (n := n) (by omega) hfront hk
    have htree : frontTree k f = ⟨f.rule, ⟨k, k.forward f.word.toList.length⟩, []⟩ := by
      cases f with
      | cast type => exact absurd ⟨type, rfl⟩ hcast
      | _ => rfl
    rw [htree]
    exact ⟨hread, reads_blanks (by omega) hblanks hrest⟩

/-- An operator between the texts of two phrases. -/
theorem reads_link {o : Link} {c : Char} (hc : c ∈ phraseStarts) (hn : 20 ≤ n)
    (hk : k.rest = o.token.toList ++ ' ' :: c :: later) :
    Refuses (inside n postfixOperator) k ∧
      Reads (inside n infixOperator) k (k.forward o.token.toList.length)
        [⟨o.rule, ⟨k, k.forward o.token.toList.length⟩, []⟩] := by
  have hk₁ : k.rest = (o.token.toList ++ [' ']) ++ c :: later := by rw [hk]; simp
  have hk₂ : k.rest = (o.token.toList ++ [' ', c]) ++ later := by rw [hk]; simp
  cases o with
  | op o =>
    obtain ⟨hback, hbetween⟩ := Borders.op borders o
    exact ⟨refuses_of_glance hn hback hk₁, (reads_of_glance hn hbetween hk₁).2⟩
  | assign =>
    obtain ⟨hback, hbetween⟩ := Borders.assign borders c hc
    exact ⟨refuses_of_glance hn hback hk₁, (reads_of_glance hn hbetween hk₂).2⟩
  | fallback =>
    obtain ⟨hback, hbetween⟩ := Borders.fallback borders c hc
    exact ⟨refuses_of_glance hn hback hk₁, (reads_of_glance hn hbetween hk₂).2⟩

end

/-! ## Variables -/

/-- The tree of a variable with a name of the given length. -/
def variableTree (k : Cursor) (length : Nat) : ParseTree :=
  ⟨.variableName, ⟨k, k.forward (length + 1)⟩, []⟩

section

variable {n d : Nat} {k : Cursor} {later : List Char} {x : String}

theorem madeBy_variableTree (hx : isName x.toList = true) (hk : k.rest = '$' :: (x.toList ++ later)) :
    (Term.var x).MadeBy ((variableTree k x.toList.length).annotate buildRule).value := by
  have hk : k.rest = ('$' :: x.toList) ++ later := hk
  intro file next
  have hchars : (⟨k, k.forward (x.toList.length + 1)⟩ : Extent).chars = '$' :: x.toList :=
    Cursor.textTo_forward hk
  have hdrop : ('$' :: x.toList).dropWhile (· == '$') = x.toList := by
    cases hname : x.toList with
    | nil => rfl
    | cons c cs =>
      rw [hname] at hx
      obtain ⟨hc, -⟩ := Bool.and_eq_true_iff.mp hx
      have hne : (c == '$') = false := by
        rw [beq_eq_false_iff_ne]
        rintro rfl
        exact absurd hc (by decide)
      simp [List.dropWhile, hne]
  have hkind : String.ofList ((⟨k, k.forward (x.toList.length + 1)⟩ :
      Extent).chars.dropWhile (· == '$')) = x := by
    rw [hchars, hdrop, String.ofList_toList]
  refine ⟨_, _, Build.gives_nodeAt.mpr ⟨rfl, rfl⟩, ?_⟩
  rw [hkind]
  exact .var

/-- The number of characters of the arrow before a member. -/
def arrowLength (safe : Bool) : Nat :=
  if safe then 3 else 2

theorem length_arrow (safe : Bool) : (arrow safe).toList.length = arrowLength safe := by
  cases safe <;> simp [arrow, arrowLength]

/-- The tree of an access to a member that a variable with a name of the given length names. -/
def memberTree (k : Cursor) (safe : Bool) (length : Nat) : ParseTree :=
  ⟨accessRule safe, ⟨k, k.forward (arrowLength safe + (length + 1))⟩,
    [⟨.memberName, ⟨k.forward (arrowLength safe), k.forward (arrowLength safe + (length + 1))⟩,
      [variableTree (k.forward (arrowLength safe)) length]⟩]⟩

/-- The arrow and the name of a member are an access to it. -/
theorem reads_access {safe : Bool} {k' : Cursor} {ts : List ParseTree}
    (hk : k.rest = (arrow safe).toList ++ later) (hn : 20 ≤ n)
    (hblanks : Reads (skipBlanks n) (k.forward (arrowLength safe)) (k.forward (arrowLength safe)) [])
    (hname : Reads (inside n Rule.memberName) (k.forward (arrowLength safe)) k' ts) :
    Reads (inside (n + 1) accessor) k k' [⟨accessRule safe, ⟨k, k'⟩, ts⟩] := by
  obtain ⟨harrow, hothers⟩ := Borders.plain borders
  obtain ⟨hsafeArrow, hothers'⟩ := Borders.safe borders
  cases safe with
  | false =>
    have hread := (reads_of_glance hn harrow hk).2
    have haccess : Reads (inside (n + 1) Rule.propAccess) k k' [⟨.propAccess, ⟨k, k'⟩, [] ++ ts⟩] :=
      reads_rule (r := .propAccess) (hread.seq hblanks hname)
    exact reads_firstOf _ (by omega) hothers hk haccess
  | true =>
    have hread := (reads_of_glance hn hsafeArrow hk).2
    have haccess : Reads (inside (n + 1) Rule.nullsafeAccess) k k'
        [⟨.nullsafeAccess, ⟨k, k'⟩, [] ++ ts⟩] :=
      reads_rule (r := .nullsafeAccess) (hread.seq hblanks hname)
    exact reads_firstOf _ (by omega) hothers' hk haccess

theorem reads_member {safe : Bool} (hx : isName x.toList = true)
    (hk : k.rest = (arrow safe).toList ++ ('$' :: (x.toList ++ later)))
    (hlater : ∀ c ∈ later.head?, (CharClass.alphanumeric.contains c || c == '_') = false)
    (hn : x.toList.length + 24 ≤ n) :
    Reads (inside n accessor) k (k.forward (arrowLength safe + (x.toList.length + 1)))
      [memberTree k safe x.toList.length] := by
  obtain ⟨m, rfl⟩ : ∃ m, n = m + 4 := ⟨n - 4, by omega⟩
  obtain ⟨-, hdollar, hidentifier⟩ := Borders.dollar borders
  have hk₁ := Cursor.rest_forward hk
  rw [length_arrow] at hk₁
  have hvariable := reads_variableName hx hk₁ hlater (n := m) (by omega)
  have hname : Reads (inside (m + 3) Rule.memberName) _ _ [⟨.memberName, ⟨_, _⟩, _⟩] :=
    reads_rule (r := .memberName) (reads_firstOf _ (by omega) hidentifier hk₁ hvariable)
  have hstill := reads_blanks (n := m + 3) (by omega) hdollar hk₁
  have hall := reads_access hk (by omega) hstill hname
  unfold memberTree variableTree
  rwa [← Cursor.forward_add] at hall ⊢

theorem madeBy_nameIn {safe : Bool} (hx : isName x.toList = true)
    (hk : k.rest = (arrow safe).toList ++ ('$' :: (x.toList ++ later))) :
    (Term.var x).MadeBy
      (Access.nameIn ((memberTree k safe x.toList.length).annotate buildRule).extent
        ((memberTree k safe x.toList.length).annotate buildRule).parts) := by
  have hk₁ := Cursor.rest_forward hk
  rw [length_arrow] at hk₁
  exact madeBy_variableTree hx hk₁

/-- The tree of the test for a class that a variable with a name of the given length names. -/
def testTree (k : Cursor) (length d : Nat) : ParseTree :=
  ⟨.instanceofOp, ⟨k, k.forward (length + 12 + d)⟩, [⟨.keyword .instanceofKw, ⟨k, k.forward 10⟩, []⟩,
    ⟨.classRef, ⟨k.forward 11, k.forward (length + 12 + d)⟩,
      [⟨.dynamicClass, ⟨k.forward 11, k.forward (length + 12 + d)⟩,
        [variableTree (k.forward 11) length]⟩]⟩]⟩

theorem reads_test (hx : isName x.toList = true)
    (hk : k.rest = "instanceof $".toList ++ (x.toList ++ later)) (hlater : Follows later d)
    (hn : x.toList.length + 25 ≤ n) :
    Reads (inside n postfixOperator) k (k.forward (x.toList.length + 12 + d))
      [testTree k x.toList.length d] := by
  obtain ⟨m, rfl⟩ : ∃ m, n = m + 5 := ⟨n - 5, by omega⟩
  obtain ⟨hkeyword, hblank, hothers, hnames⟩ := Borders.test borders
  obtain ⟨hk₁, hread⟩ := reads_of_glance (n := m + 4) (by omega) hkeyword hk
  have hgap : Reads (skipBlanks (m + 4)) (k.forward 10) ((k.forward 10).forward 1) [] :=
    reads_blanks (by omega) hblank hk₁
  have hk₂ : ((k.forward 10).forward 1).rest = '$' :: (x.toList ++ later) := by
    have hk₁ : (k.forward 10).rest = ' ' :: '$' :: (x.toList ++ later) := hk₁
    rw [Cursor.forward_one hk₁, Cursor.rest_past]
  rw [← Cursor.forward_add] at hgap hk₂
  have hvariable := reads_variableName hx hk₂ hlater.not_word (n := m) (by omega)
  have hk₃ : ((k.forward 11).forward (x.toList.length + 1)).rest = later := by
    have hk₂ : (k.forward 11).rest = ('$' :: x.toList) ++ later := hk₂
    exact Cursor.rest_forward hk₂
  have hdynamic : Reads (inside (m + 3) Rule.dynamicClass) (k.forward 11) _
      [⟨.dynamicClass, ⟨k.forward 11, _⟩, _⟩] :=
    reads_rule (r := .dynamicClass) ((Reads.alt_left hvariable).seq
      (hlater.gap hk₃ (by omega)).blanks (.many_nil (hlater.accessor hk₃ (by omega)).2))
  have hclass : Reads (inside (m + 4) Rule.classRef) (k.forward 11) _
      [⟨.classRef, ⟨k.forward 11, _⟩, _⟩] :=
    reads_rule (r := .classRef) (reads_firstOf _ (by omega) hnames hk₂ hdynamic)
  have htest : Reads (inside (m + 5) Rule.instanceofOp) k _ [⟨.instanceofOp, ⟨k, _⟩, _⟩] :=
    reads_rule (r := .instanceofOp) (hread.seq hgap hclass)
  have hall : Reads (inside (m + 5) postfixOperator) k _ _ :=
    reads_firstOf _ (by omega) hothers hk htest
  have hend : ((k.forward 11).forward (x.toList.length + 1)).forward d
      = k.forward (x.toList.length + 12 + d) := by
    rw [← Cursor.forward_add, ← Cursor.forward_add]
    congr 1
    omega
  rw [hend] at hall
  exact hall

theorem means_testTree (hx : isName x.toList = true)
    (hk : k.rest = "instanceof $".toList ++ (x.toList ++ later)) (d : Nat) :
    (Token.back (.isA x)).Means ((testTree k x.toList.length d).annotate buildRule) := by
  have hk₁ : (k.forward 11).rest = '$' :: (x.toList ++ later) := by
    have hk₀ : k.rest = "instanceof ".toList ++ ('$' :: (x.toList ++ later)) := hk
    exact Cursor.rest_forward hk₀
  refine ⟨rfl, fun file next => ?_⟩
  obtain ⟨n, next', hn, hterm⟩ := madeBy_variableTree hx hk₁ file next
  exact ⟨n, next', Build.gives_bind.mpr ⟨file, next, Build.gives_read.mpr ⟨rfl, rfl⟩,
    Build.gives_bind.mpr ⟨n, next', hn, Build.gives_pure.mpr ⟨rfl, rfl⟩⟩⟩, hterm⟩

end

/-! ## Operands -/

theorem text_phrase_starts (p : Phrase) : ∃ c cs, p.text = c :: cs ∧ c ∈ phraseStarts := by
  have happend {cs ds : List Char} (h : ∃ c cs', cs = c :: cs' ∧ c ∈ phraseStarts) :
      ∃ c cs', cs ++ ds = c :: cs' ∧ c ∈ phraseStarts := by
    obtain ⟨c, cs', rfl, hc⟩ := h
    exact ⟨c, cs' ++ ds, rfl, hc⟩
  induction p with
  | var x => exact ⟨'$', _, rfl, by decide⟩
  | group p => exact ⟨'(', _, rfl, by decide⟩
  | before f p =>
    cases f with
    | cast type => cases type <;> exact ⟨_, _, rfl, by decide⟩
    | _ => exact ⟨_, _, rfl, by decide⟩
  | member p safe property ih | after p b ih | between l o r ih | choice c y n ih =>
    rw [Phrase.text]
    exact happend ih

/-- At `k` an atom with accesses is read, with the blanks from `b` to `k'` after it, and it is the
term. There are not more accesses than the bound. -/
inductive PrimaryRead (n : Nat) (k b k' : Cursor) (t : Term) (bound : Nat) : Prop
  | intro (a : ParseTree) (k₀ k₁ e : Cursor) (us : List ParseTree) (x : Term)
    (hatom : Reads (inside n atom) k k₀ [a]) (hgap : Reads (skipBlanks n) k₀ k₁ [])
    (hsteps : Steps n accessor k₁ k₁ e k' us) (hend : e = b ∨ e = k') (hlength : us.length ≤ bound)
    (hrule : a.rule ∈ Expected.atom.rules) (hmade : x.MadeBy (a.annotate buildRule).value)
    (haccessed : Accessed x (us.map (ParseTree.annotate buildRule)) t)

/-- At `k` a run of parts is read that stand for the tokens, with the blanks from `b` to `k'` after
it. There are not more of them than the bound. -/
def TokensRead (n : Nat) (k b k' : Cursor) (as : List Token) (bound : Nat) : Prop :=
  ∃ ts, ∃ rs : List Reading, TokenRun n k b k' ts ∧
    ts.map (ParseTree.annotate buildRule) = rs.map Reading.part ∧ rs.map Reading.token = as ∧
    ts.length ≤ bound

namespace TokensRead

variable {n m m' : Nat} {k k₁ k₂ k₃ b b₁ e k' : Cursor} {t : ParseTree} {a : Token}
variable {as as' : List Token}

theorem single (h : Wrapped n k b k' [t]) (ht : a.Means (t.annotate buildRule)) (hm : 1 ≤ m) :
    TokensRead n k b k' [a] m :=
  ⟨[t], [⟨a, _, ht⟩], .single h, rfl, rfl, hm⟩

theorem prefixed (h : TokensRead n k₂ b k' as m)
    (hfront : Reads (inside n prefixOperator) k k₁ [t]) (hgap : Reads (skipBlanks n) k₁ k₂ [])
    (ht : a.Means (t.annotate buildRule)) (hm : m < m') : TokensRead n k b k' (a :: as) m' := by
  obtain ⟨ts, rs, hrun, hparts, rfl, hts⟩ := h
  exact ⟨t :: ts, ⟨a, _, ht⟩ :: rs, hrun.prefixed hfront hgap,
    congrArg (t.annotate buildRule :: ·) hparts, rfl, Nat.lt_of_le_of_lt hts hm⟩

theorem suffixed (h : TokensRead n k b₁ k₁ as m)
    (hback : Reads (inside n postfixOperator) k₁ e [t]) (hend : Gap n b k') (he : e = b ∨ e = k')
    (ht : a.Means (t.annotate buildRule)) (hm : m < m') : TokensRead n k b k' (as ++ [a]) m' := by
  obtain ⟨ts, rs, hrun, hparts, rfl, hts⟩ := h
  refine ⟨ts ++ [t], rs ++ [⟨a, _, ht⟩], hrun.suffixed hback hend he, ?_, ?_, ?_⟩
  · rw [List.map_append, List.map_append, hparts]
    rfl
  · rw [List.map_append]
    rfl
  · rw [List.length_append]
    exact Nat.succ_le_of_lt (Nat.lt_of_le_of_lt hts hm)

theorem linked (h : TokensRead n k b₁ k₁ as m) (hstop : Refuses (inside n postfixOperator) k₁)
    (hbetween : Reads (inside n infixOperator) k₁ k₂ [t]) (hgap : Reads (skipBlanks n) k₂ k₃ [])
    (ht : a.Means (t.annotate buildRule)) {m₁ : Nat} (h' : TokensRead n k₃ b k' as' m₁)
    (hm : m + m₁ < m') : TokensRead n k b k' (as ++ a :: as') m' := by
  obtain ⟨ts, rs, hrun, hparts, rfl, hts⟩ := h
  obtain ⟨us, rs', hrun', hparts', rfl, hus⟩ := h'
  refine ⟨ts ++ t :: us, rs ++ ⟨a, _, ht⟩ :: rs', hrun.linked hstop hbetween hgap hrun', ?_, ?_, ?_⟩
  · rw [List.map_append, List.map_append, List.map_cons, hparts, hparts']
    rfl
  · rw [List.map_append]
    rfl
  · rw [List.length_append, List.length_cons]
    omega

/-- **Before something that ends it, a run of tokens is an expression.** -/
theorem exists_expr {p : Phrase} (h : TokensRead n k b k' p.tokens m) {s more : List Char}
    (hs : s ∈ endMarks) (hk : k'.rest = s ++ more) (hn : 20 ≤ n) (hm : m ≤ n) :
    ∃ e ts, (e = b ∨ e = k') ∧
      Reads (inside (n + 1) Rule.expr) k e [⟨.expr, ⟨k, e⟩, ts⟩] ∧
      ∀ f, (regroup p.tokens).MadeBy ((⟨.expr, f, ts⟩ : ParseTree).annotate buildRule).value := by
  obtain ⟨ts, rs, hrun, hparts, htokens, hts⟩ := h
  obtain ⟨hback, hstop⟩ := Borders.finish borders s hs
  obtain ⟨e, he, hread⟩ := hrun.reads_expr (refuses_of_glance hn hback hk)
    (.seq (refuses_of_glance hn hstop hk)) (Nat.le_trans hts hm)
  refine ⟨e, ts, he, hread, fun f => ?_⟩
  show (regroup p.tokens).MadeBy (expressionNode f (ParseTree.annotateAll buildRule ts))
  rw [ParseTree.annotateAll_eq_map, hparts]
  exact p.madeBy_expressionNode htokens f

end TokensRead

/-- At `k` the text of the phrase is read as its tokens, with blanks after it. -/
def ReadAt (p : Phrase) (n : Nat) (k : Cursor) (d : Nat) : Prop :=
  TokensRead n k (k.forward p.text.length) (k.forward (p.text.length + d)) p.tokens p.text.length

section

variable {n d : Nat} {k : Cursor} {later : List Char}

/-- An operand that nothing is accessed of is a run of one token. -/
theorem PrimaryRead.exists_wrapped {b k' : Cursor} {t : Term} {bound : Nat}
    (h : PrimaryRead n k b k' t bound) (hn : bound ≤ n) (hstop : Refuses (inside n accessor) k')
    (hfront : Refuses (inside (n + 1) prefixOperator) k)
    (hstill : Reads (skipBlanks (n + 1)) k k []) (hgap : Gap (n + 1) b k') :
    ∃ u, Wrapped (n + 1) k b k' [u] ∧ (Token.operand t).Means (u.annotate buildRule) := by
  obtain ⟨a, k₀, k₁, e, us, x, hatom, hblanks, hsteps, he, hus, hrule, hx, haccessed⟩ := h
  have hoperand := reads_accessed hatom hblanks hsteps hstop (Nat.le_trans hus hn)
  refine ⟨⟨.operand, ⟨k, e⟩, a :: us⟩, ⟨hgap, e, k', k', [_], [],
    .operand hfront hstill hoperand, hgap.of_or he, .nil, .inr rfl, rfl⟩, rfl, ?_⟩
  have hparts : ParseTree.annotateAll buildRule (a :: us)
      = a.annotate buildRule :: us.map (ParseTree.annotate buildRule) :=
    congrArg (a.annotate buildRule :: ·) (ParseTree.annotateAll_eq_map _ _)
  have hfilter : (a.annotate buildRule :: us.map (ParseTree.annotate buildRule)).filter
      (!·.rule.isKeyword) = a.annotate buildRule :: us.map (ParseTree.annotate buildRule) := by
    rw [List.filter_eq_self]
    refine List.forall_mem_cons.mpr ⟨?_, fun q hq => ?_⟩
    · rw [ParseTree.rule_annotate, isKeyword_of_mem_rules hrule]
      rfl
    · obtain ⟨safe, hsafe⟩ := haccessed.rule q hq
      rw [hsafe]
      cases safe <;> rfl
  show t.MadeBy (operandNode ⟨k, e⟩ ((ParseTree.annotateAll buildRule (a :: us)).filter
    (!·.rule.isKeyword)))
  rw [hparts, hfilter]
  exact haccessed.madeBy_operandNode (by rwa [ParseTree.rule_annotate]) hx _

/-- A phrase that is one operand is read as its token. -/
theorem readAt_of_primary {p : Phrase} {t : Term} (hp : p.tokens = [.operand t])
    (hk : k.rest = p.text ++ later) (hlater : Follows later d) (hn : p.text.length + 20 ≤ n)
    (hfront : Refuses (inside (n + 1) prefixOperator) k)
    (h : PrimaryRead n k (k.forward p.text.length) (k.forward (p.text.length + d)) t p.text.length) :
    ReadAt p (n + 1) k d := by
  obtain ⟨c, cs, htext, hc⟩ := text_phrase_starts p
  have hstill : Reads (skipBlanks (n + 1)) k k [] :=
    reads_blanks (by omega) (Borders.start borders c hc).1 (by rw [hk, htext]; rfl)
  have hk₁ := Cursor.rest_forward hk
  have hgap := hlater.gap hk₁ (n := n + 1) (by omega)
  have hstop := (hlater.accessor hk₁ (n := n) (by omega)).1
  rw [← Cursor.forward_add] at hgap hstop
  obtain ⟨u, hwrapped, hu⟩ := h.exists_wrapped (by omega) hstop hfront hstill hgap
  show TokensRead _ _ _ _ p.tokens _
  rw [hp]
  refine .single hwrapped hu ?_
  rw [htext]
  exact Nat.succ_pos _

theorem primaryRead_var {x : String} (hx : isName x.toList = true)
    (hk : k.rest = (Phrase.var x).text ++ later)
    (hlater : ∀ c ∈ later.head?, (CharClass.alphanumeric.contains c || c == '_') = false)
    (hgap : Gap n (k.forward (Phrase.var x).text.length)
      (k.forward ((Phrase.var x).text.length + d)))
    (hn : (Phrase.var x).text.length + 21 ≤ n) :
    PrimaryRead n k (k.forward (Phrase.var x).text.length)
      (k.forward ((Phrase.var x).text.length + d)) (.var x) (Phrase.var x).text.length := by
  have hlength : (Phrase.var x).text.length = x.toList.length + 1 := rfl
  obtain ⟨m, rfl⟩ : ∃ m, n = m + 2 := ⟨n - 2, by omega⟩
  have hk₁ : k.rest = ['$'] ++ (x.toList ++ later) := hk
  have hvariable := reads_variableName hx hk₁ hlater (n := m) (by omega)
  have hatom : Reads (inside (m + 2) atom) k _ _ :=
    atom_eq_variable ▸ reads_firstOf _ (by omega) glance_dollar hk₁ hvariable
  have hrule : Rule.variableName ∈ Expected.atom.rules := by decide
  exact ⟨_, _, _, _, [], .var x, hatom, hgap.blanks, .nil, .inr rfl, Nat.zero_le _, hrule,
    madeBy_variableTree hx hk, .nil⟩

/-- A phrase in parentheses is one operand. -/
theorem primaryRead_group {p : Phrase} (hk : k.rest = (Phrase.group p).text ++ later)
    (hgap : Gap (n + 2) (k.forward (Phrase.group p).text.length)
      (k.forward ((Phrase.group p).text.length + d)))
    (hn : p.text.length + 20 ≤ n) (h : ReadAt p n (k.forward 1) 0) :
    PrimaryRead (n + 2) k (k.forward (Phrase.group p).text.length)
      (k.forward ((Phrase.group p).text.length + d)) (regroup p.tokens)
      (Phrase.group p).text.length := by
  obtain ⟨c, cs, htext, hc⟩ := text_phrase_starts p
  have hk : k.rest = '(' :: (p.text ++ ')' :: later) := by
    rw [hk]
    simp [Phrase.text]
  have hk₁ : (k.forward 1).rest = p.text ++ ')' :: later := by
    rw [Cursor.forward_one hk, Cursor.rest_past]
  have hk₂ := Cursor.rest_forward hk₁
  have hlength : (Phrase.group p).text.length = 1 + (p.text.length + 1) := by
    simp [Phrase.text]
    omega
  obtain ⟨e, ts, he, hexpr, hmade⟩ :=
    h.exists_expr (s := [')']) (by decide) (by rw [Nat.add_zero]; exact hk₂) (by omega) (by omega)
  obtain rfl : e = (k.forward 1).forward p.text.length := by
    rw [Nat.add_zero, or_self] at he
    exact he
  have hopen : Reads (inside (n + 1) "(") k (k.forward 1) [] := reads_char hk
  have hclose : Reads (inside (n + 1) ")") _ _ [] := reads_char hk₂
  have hstill : Reads (skipBlanks (n + 1)) (k.forward 1) (k.forward 1) [] :=
    reads_blanks (by omega) (Borders.start borders c hc).1 (by rw [hk₁, htext]; rfl)
  have hend : Reads (skipBlanks (n + 1)) _ _ [] :=
    reads_blanks (by omega) (Borders.mark borders [')'] (by decide)).1 hk₂
  have hparen : Reads (inside (n + 2) Rule.parenExpr) k _ [⟨.parenExpr, ⟨k, _⟩, _⟩] :=
    reads_rule (r := .parenExpr) (hopen.seq hstill (hexpr.seq hend hclose))
  have hatom : Reads (inside (n + 2) atom) k _ _ :=
    atom_eq_group ▸ reads_firstOf [] (by omega) glance_group hk hparen
  rw [← Cursor.forward_add, ← Cursor.forward_add, ← hlength] at hatom
  have hrule : Rule.parenExpr ∈ Expected.atom.rules := by decide
  exact ⟨_, _, _, _, [], regroup p.tokens, hatom, hgap.blanks, .nil, .inr rfl, Nat.zero_le _,
    hrule, hmade _, .nil⟩

/-- A member of what is one operand is one operand. -/
theorem primaryRead_member {p : Phrase} {t : Term} {safe : Bool} {x : String} (hx : isName x.toList = true)
    (hk : k.rest = (Phrase.member p safe x).text ++ later)
    (hlater : ∀ c ∈ later.head?, (CharClass.alphanumeric.contains c || c == '_') = false)
    (hgap : Gap n (k.forward (Phrase.member p safe x).text.length)
      (k.forward ((Phrase.member p safe x).text.length + d)))
    (hn : (Phrase.member p safe x).text.length + 23 ≤ n)
    (h : PrimaryRead n k (k.forward p.text.length) (k.forward p.text.length) t p.text.length) :
    PrimaryRead n k (k.forward (Phrase.member p safe x).text.length)
      (k.forward ((Phrase.member p safe x).text.length + d)) (.member t safe x)
      (Phrase.member p safe x).text.length := by
  have hlength : (Phrase.member p safe x).text.length
      = p.text.length + (arrowLength safe + (x.toList.length + 1)) := by
    simp [Phrase.text, ← length_arrow]
  have hk₀ : k.rest = p.text ++ ((arrow safe).toList ++ ('$' :: (x.toList ++ later))) := by
    rw [hk]
    simp [Phrase.text]
  have hk₁ := Cursor.rest_forward hk₀
  obtain ⟨a, k₀, k₁, e, us, y, hatom, hblanks, hsteps, he, hus, hrule, hy, haccessed⟩ := h
  have hmember := reads_member hx hk₁ hlater (n := n) (by omega)
  rw [← Cursor.forward_add, ← hlength] at hmember
  refine ⟨a, k₀, k₁, _, us ++ [memberTree (k.forward p.text.length) safe x.toList.length], y, hatom,
    hblanks, hsteps.concat hmember hgap.blanks, .inl rfl, ?_, hrule, hy, ?_⟩
  · rw [List.length_append, List.length_singleton]
    omega
  · rw [List.map_append]
    exact haccessed.concat rfl (madeBy_nameIn hx hk₁)

/-- Where an operand starts there is no operator before it. -/
theorem refuses_prefixOperator {p : Phrase} (hp : p.isPrimary = true) (hlegible : p.Legible)
    (hk : k.rest = p.text ++ later) (hn : 20 ≤ n) : Refuses (inside n prefixOperator) k := by
  induction p generalizing later with
  | var x =>
    have hk : k.rest = ['$'] ++ (x.toList ++ later) := hk
    exact refuses_of_glance hn (Borders.dollar borders).1 hk
  | group p =>
    obtain ⟨c, cs, htext, hc⟩ := text_phrase_starts p
    have hk : k.rest = ['(', c] ++ (cs ++ ')' :: later) := by
      rw [hk, Phrase.text, htext]
      simp
    exact refuses_of_glance hn (Borders.start borders c hc).2.2 hk
  | member p safe property ih =>
    rw [Phrase.text, List.append_assoc] at hk
    exact ih hlegible.1 hlegible.2 hk
  | _ => cases hp

/-! ## Operators and their operands -/

theorem readAt_before {f : Front} {p : Phrase}
    (hsign : f.sign? = none ∨ p.text.head? ≠ f.sign?)
    (hk : k.rest = (Phrase.before f p).text ++ later) (hn : 21 ≤ n)
    (h : ReadAt p n (k.forward f.text.toList.length) d) : ReadAt (.before f p) n k d := by
  obtain ⟨c, cs, htext, hc⟩ := text_phrase_starts p
  have hsign : f.sign? ≠ some c := by
    intro heq
    rw [htext, heq] at hsign
    exact hsign.elim nofun fun h => h rfl
  have hk : k.rest = f.text.toList ++ c :: (cs ++ later) := by
    rw [hk, Phrase.text, htext, List.append_assoc]
    rfl
  obtain ⟨hfront, hgap⟩ := reads_front hc hsign hn hk
  have hlength : (Phrase.before f p).text.length = f.text.toList.length + p.text.length :=
    List.length_append
  have hpos : 0 < f.text.toList.length := by
    cases f <;> simp [Front.text]
  unfold ReadAt
  rw [hlength, Nat.add_assoc, Cursor.forward_add, Cursor.forward_add]
  exact h.prefixed hfront hgap (means_frontTree hk) (by omega)

theorem readAt_between {l r : Phrase} {o : Link}
    (hk : k.rest = (Phrase.between l o r).text ++ later) (hn : 20 ≤ n)
    (hl : ReadAt l n k 1)
    (hr : ReadAt r n (k.forward (l.text.length + 1 + (o.token.toList.length + 1))) d) :
    ReadAt (.between l o r) n k d := by
  obtain ⟨c, cs, htext, hc⟩ := text_phrase_starts r
  have hk₀ : k.rest = l.text ++ (' ' :: (o.token.toList ++ ' ' :: c :: (cs ++ later))) := by
    rw [hk]
    simp [Phrase.text, htext]
  have hlength : (Phrase.between l o r).text.length
      = l.text.length + 1 + (o.token.toList.length + 1) + r.text.length := by
    simp [Phrase.text]
    omega
  have hk₁ : (k.forward (l.text.length + 1)).rest
      = o.token.toList ++ ' ' :: c :: (cs ++ later) := by
    rw [Cursor.forward_add, Cursor.forward_one (Cursor.rest_forward hk₀), Cursor.rest_past]
  obtain ⟨hstop, hlink⟩ := reads_link hc hn hk₁
  have hk₂ := Cursor.rest_forward hk₁
  have hgap : Reads (skipBlanks n) _ _ [] := reads_blanks hn (Borders.start borders c hc).2.1 hk₂
  have htoken : (Token.link o).Means (ParseTree.annotate buildRule ⟨o.rule,
      ⟨k.forward (l.text.length + 1),
        (k.forward (l.text.length + 1)).forward o.token.toList.length⟩, []⟩) := by
    have hword : String.ofList ((k.forward (l.text.length + 1)).textTo
        ((k.forward (l.text.length + 1)).forward o.token.toList.length)) = o.token := by
      rw [Cursor.textTo_forward hk₁, String.ofList_toList]
    cases o with
    | fallback => exact ⟨rfl, rfl⟩
    | _ => exact ⟨rfl, hword⟩
  have hplace : ((k.forward (l.text.length + 1)).forward o.token.toList.length).forward 1
      = k.forward (l.text.length + 1 + (o.token.toList.length + 1)) := by
    rw [← Cursor.forward_add, ← Cursor.forward_add, Nat.add_assoc]
  rw [hplace] at hgap
  unfold ReadAt
  rw [hlength, Nat.add_assoc (l.text.length + 1 + _), Cursor.forward_add, Cursor.forward_add k _
    (r.text.length + d)]
  exact hl.linked hstop hlink hgap htoken hr (by omega)

/-- A conditional up to its second sign, around the expression that is read between the signs. -/
theorem reads_choice {k₂ k₃ : Cursor} {c : Char} {t : ParseTree} (hc : c ∈ phraseStarts)
    (hk : k.rest = '?' :: ' ' :: c :: later)
    (hexpr : Reads (inside n Rule.expr) ((k.forward 1).forward 1) k₂ [t])
    (hgap : Reads (skipBlanks n) k₂ k₃ []) {more : List Char} (hk₃ : k₃.rest = ':' :: more)
    (hn : 20 ≤ n) :
    Reads (inside (n + 1) infixOperator) k (k₃.forward 1)
      [⟨.opTernary, ⟨k, k₃.forward 1⟩, [t]⟩] := by
  obtain ⟨-, hstill, hahead, hothers⟩ := Borders.question borders
  have hk₀ : k.rest = "? ".toList ++ c :: later := hk
  have hk₁ : (k.forward 1).rest = [' ', c] ++ later := by
    rw [Cursor.forward_one hk, Cursor.rest_past]
    rfl
  have hnone : Reads (inside n (.notAhead (firstOf ["?->", "?>"]))) k k [] :=
    (reads_of_glance hn hahead hk₀).2
  have hsign : Reads (inside n "?") k (k.forward 1) [] := reads_char hk
  have hcolon : Reads (inside n ":") k₃ (k₃.forward 1) [] := reads_char hk₃
  have hblank : Reads (skipBlanks n) (k.forward 1) ((k.forward 1).forward 1) [] :=
    reads_blanks hn (Borders.start borders c hc).2.1 hk₁
  have hchoice : Reads (inside (n + 1) Rule.opTernary) k (k₃.forward 1)
      [⟨.opTernary, ⟨k, k₃.forward 1⟩, [] ++ ([] ++ ([t] ++ []))⟩] :=
    reads_rule (r := .opTernary) (hnone.seq (reads_blanks hn hstill hk₀)
      (hsign.seq hblank ((Reads.maybe hexpr).seq hgap hcolon)))
  exact reads_firstOf _ (by omega) hothers hk₀ hchoice

theorem readAt_choice {c y z : Phrase} (hk : k.rest = (Phrase.choice c y z).text ++ later)
    (hn : y.text.length + 20 ≤ n) (hc : ReadAt c (n + 2) k 1)
    (hy : ReadAt y n (k.forward (c.text.length + 3)) 1)
    (hz : ReadAt z (n + 2) (k.forward (c.text.length + 3 + (y.text.length + 3))) d) :
    ReadAt (.choice c y z) (n + 2) k d := by
  obtain ⟨a, as, hytext, ha⟩ := text_phrase_starts y
  obtain ⟨b, bs, hztext, hb⟩ := text_phrase_starts z
  have hlength : (Phrase.choice c y z).text.length
      = c.text.length + 3 + (y.text.length + 3) + z.text.length := by
    simp [Phrase.text]
    omega
  -- the places of the two signs, and of what follows them
  have hk₀ : k.rest = c.text ++ (' ' :: '?' :: ' ' :: (y.text ++
      (' ' :: ':' :: ' ' :: (z.text ++ later)))) := by
    rw [hk]
    simp [Phrase.text]
  have hk₁ : (k.forward (c.text.length + 1)).rest
      = '?' :: ' ' :: (y.text ++ (' ' :: ':' :: ' ' :: (z.text ++ later))) := by
    rw [Cursor.forward_add, Cursor.forward_one (Cursor.rest_forward hk₀), Cursor.rest_past]
  have hplace : ((k.forward (c.text.length + 1)).forward 1).forward 1
      = k.forward (c.text.length + 3) := by
    rw [← Cursor.forward_add, ← Cursor.forward_add]
  have hk₂ : (k.forward (c.text.length + 3)).rest
      = y.text ++ (' ' :: ':' :: ' ' :: (z.text ++ later)) := by
    have hblank : ((k.forward (c.text.length + 1)).forward 1).rest
        = ' ' :: (y.text ++ (' ' :: ':' :: ' ' :: (z.text ++ later))) := by
      rw [Cursor.forward_one hk₁, Cursor.rest_past]
    rw [← hplace, Cursor.forward_one hblank, Cursor.rest_past]
  have hk₃ := Cursor.rest_forward hk₂
  have hk₄ : ((k.forward (c.text.length + 3)).forward (y.text.length + 1)).rest
      = ": ".toList ++ (z.text ++ later) := by
    rw [Cursor.forward_add, Cursor.forward_one hk₃, Cursor.rest_past]
    rfl
  have hcolon : Follows (' ' :: ':' :: ' ' :: (z.text ++ later)) 1 :=
    .loose (s := ": ".toList) _ (mem_looseMarks (by simp))
  obtain ⟨e, ts, he, hexpr, hmade⟩ :=
    hy.exists_expr (s := ": ".toList) (mem_endMarks (by simp)) hk₄ (by omega) (by omega)
  have hgap := hcolon.gap hk₃ (n := n + 1) (by omega)
  rw [← Cursor.forward_add (k.forward (c.text.length + 3)) y.text.length 1] at hgap
  rw [← hplace] at hexpr
  have hchoice := reads_choice ha (by rw [hk₁, hytext]; rfl) hexpr (hgap.of_or he) hk₄ (by omega)
  have hstop : Refuses (inside (n + 2) postfixOperator) (k.forward (c.text.length + 1)) :=
    refuses_of_glance (by omega) (Borders.question borders).1 hk₁
  have hend : (((k.forward (c.text.length + 3)).forward (y.text.length + 1)).forward 1).forward 1
      = k.forward (c.text.length + 3 + (y.text.length + 3)) := by
    rw [← Cursor.forward_add, ← Cursor.forward_add, ← Cursor.forward_add]
  have hblank : Reads (skipBlanks (n + 2))
      (((k.forward (c.text.length + 3)).forward (y.text.length + 1)).forward 1)
      (k.forward (c.text.length + 3 + (y.text.length + 3))) [] := by
    have hk₅ : (((k.forward (c.text.length + 3)).forward (y.text.length + 1)).forward 1).rest
        = [' ', b] ++ (bs ++ later) := by
      rw [Cursor.forward_one hk₄, Cursor.rest_past, hztext]
      rfl
    rw [← hend]
    exact reads_blanks (by omega) (Borders.start borders b hb).2.1 hk₅
  unfold ReadAt
  rw [hlength, Nat.add_assoc (c.text.length + 3 + _), Cursor.forward_add, Cursor.forward_add k _
    (z.text.length + d)]
  exact hc.linked hstop hchoice hblank (a := .choice (regroup y.tokens))
    ⟨rfl, _, rfl, rfl, hmade _⟩ hz (by omega)

/-- A counter after its operand. -/
theorem readAt_counted {p : Phrase} {b : Back} (hb : b = .postInc ∨ b = .postDec)
    (hk : k.rest = (Phrase.after p b).text ++ later) (hn : 20 ≤ n)
    (hgap : Gap n (k.forward (Phrase.after p b).text.length)
      (k.forward ((Phrase.after p b).text.length + d)))
    (h : ReadAt p n k 0) : ReadAt (.after p b) n k d := by
  have hlength : (Phrase.after p b).text.length = p.text.length + 2 := by
    obtain rfl | rfl := hb <;> exact List.length_append
  have hk₁ : (k.forward p.text.length).rest = b.text ++ later := by
    rw [Phrase.text, List.append_assoc] at hk
    exact Cursor.rest_forward hk
  have hread : Reads (inside n postfixOperator) (k.forward p.text.length)
      ((k.forward p.text.length).forward 2)
      [⟨b.rule, ⟨k.forward p.text.length, (k.forward p.text.length).forward 2⟩, []⟩] := by
    obtain rfl | rfl := hb
    · exact (reads_of_glance hn (Borders.postInc borders) hk₁).2
    · exact (reads_of_glance hn (Borders.postDec borders) hk₁).2
  have hmeans : (Token.back b).Means (ParseTree.annotate buildRule
      ⟨b.rule, ⟨k.forward p.text.length, (k.forward p.text.length).forward 2⟩, []⟩) := by
    obtain rfl | rfl := hb <;> rfl
  rw [hlength] at hgap
  rw [← Cursor.forward_add] at hread hmeans
  unfold ReadAt
  rw [hlength]
  exact TokensRead.suffixed h hread hgap (.inl rfl) hmeans (by omega)

/-- A test for a class after its operand. -/
theorem readAt_tested {p : Phrase} {x : String} (hx : isName x.toList = true)
    (hk : k.rest = (Phrase.after p (.isA x)).text ++ later) (hlater : Follows later d)
    (hn : x.toList.length + 25 ≤ n) (h : ReadAt p n k 1) : ReadAt (.after p (.isA x)) n k d := by
  have hlength : (Phrase.after p (.isA x)).text.length
      = p.text.length + 1 + (x.toList.length + 12) := by
    show (p.text ++ (" instanceof $".toList ++ x.toList)).length = _
    simp
    omega
  have hk₀ : k.rest = p.text ++ (' ' :: ("instanceof $".toList ++ (x.toList ++ later))) := by
    rw [hk]
    show (p.text ++ (" instanceof $".toList ++ x.toList)) ++ later = _
    simp
  have hk₁ : (k.forward (p.text.length + 1)).rest
      = "instanceof $".toList ++ (x.toList ++ later) := by
    rw [Cursor.forward_add, Cursor.forward_one (Cursor.rest_forward hk₀), Cursor.rest_past]
  have hread := reads_test hx hk₁ hlater hn
  have hgap := hlater.gap (Cursor.rest_forward hk) (n := n) (by omega)
  rw [← Cursor.forward_add, hlength] at hgap
  rw [← Cursor.forward_add, ← Nat.add_assoc] at hread
  unfold ReadAt
  rw [hlength]
  exact h.suffixed hread hgap (.inr rfl) (means_testTree hx hk₁ d) (by omega)

end

/-! ## Phrases -/

/-- Before `later`, which starts with `d` blanks, the text of the phrase is read as its tokens. -/
def ReadsBefore (p : Phrase) (later : List Char) (d : Nat) : Prop :=
  ∀ (n : Nat) (k : Cursor), 3 * p.text.length + 30 ≤ n → k.rest = p.text ++ later → ReadAt p n k d

/-- Wherever the text of the phrase stands inside another text, it is read as its tokens. -/
def ReadsAsTokens (p : Phrase) : Prop :=
  ∀ (later : List Char) (d : Nat), Follows later d → ReadsBefore p later d

/-- Wherever the text of the phrase stands and no name goes on, it is read as an operand of which
something may be accessed. -/
def ReadsAsOperand (p : Phrase) (t : Term) : Prop :=
  ∀ (n d : Nat) (k : Cursor) (later : List Char), 3 * p.text.length + 29 ≤ n →
    k.rest = p.text ++ later →
    (∀ c ∈ later.head?, (CharClass.alphanumeric.contains c || c == '_') = false) →
    Gap n (k.forward p.text.length) (k.forward (p.text.length + d)) →
    PrimaryRead n k (k.forward p.text.length) (k.forward (p.text.length + d)) t p.text.length

section

variable {p l r : Phrase} {later : List Char} {d : Nat}

theorem ReadsAsOperand.readsAsTokens {t : Term} (h : ReadsAsOperand p t)
    (hp : p.isPrimary = true) (hlegible : p.Legible) (ht : p.tokens = [.operand t]) :
    ReadsAsTokens p := by
  intro later d hlater n k hn hk
  obtain ⟨m, rfl⟩ : ∃ m, n = m + 1 := ⟨n - 1, by omega⟩
  have hgap := hlater.gap (Cursor.rest_forward hk) (n := m) (by omega)
  rw [← Cursor.forward_add] at hgap
  exact readAt_of_primary ht hk hlater (by omega)
    (refuses_prefixOperator hp hlegible hk (by omega))
    (h m d k later (by omega) hk hlater.not_word hgap)

theorem readsAsOperand_group (h : ReadsAsTokens p) :
    ReadsAsOperand (.group p) (regroup p.tokens) := by
  intro n d k later hn hk hlater hgap
  obtain ⟨m, rfl⟩ : ∃ m, n = m + 2 := ⟨n - 2, by omega⟩
  have hlength : (Phrase.group p).text.length = p.text.length + 2 := by
    simp [Phrase.text]
  have hk₁ : (k.forward 1).rest = p.text ++ ([')'] ++ later) := by
    have hk : k.rest = '(' :: (p.text ++ ([')'] ++ later)) := by
      rw [hk]
      simp [Phrase.text]
    rw [Cursor.forward_one hk, Cursor.rest_past]
  exact primaryRead_group hk hgap (by omega)
    (h _ 0 (.tight later (by decide)) m (k.forward 1) (by omega) hk₁)

theorem readsAsOperand_member {t : Term} {safe : Bool} {x : String} (hx : isName x.toList = true)
    (h : ReadsAsOperand p t) : ReadsAsOperand (.member p safe x) (.member t safe x) := by
  intro n d k later hn hk hlater hgap
  have hlength : (Phrase.member p safe x).text.length
      = p.text.length + (arrowLength safe + (x.toList.length + 1)) := by
    simp [Phrase.text, ← length_arrow]
  have hk₀ : k.rest = p.text ++ ((arrow safe).toList ++ ('$' :: (x.toList ++ later))) := by
    rw [hk]
    simp [Phrase.text]
  have harrow := Borders.arrow borders safe (by cases safe <;> simp)
  have hstill : Reads (skipBlanks n) (k.forward p.text.length) (k.forward p.text.length) [] :=
    reads_blanks (by omega) harrow (Cursor.rest_forward hk₀)
  refine primaryRead_member hx hk hlater hgap (by omega)
    (h n 0 k _ (by omega) hk₀ (fun c hc => ?_) ⟨hstill, hstill⟩)
  cases safe with
  | false | true =>
    obtain rfl := Option.some.inj hc
    decide

theorem readsBefore_before {f : Front} (hsign : f.sign? = none ∨ p.text.head? ≠ f.sign?)
    (h : ReadsBefore p later d) : ReadsBefore (.before f p) later d := by
  intro n k hn hk
  have hlength : (Phrase.before f p).text.length = f.text.toList.length + p.text.length :=
    List.length_append
  have hk₁ : (k.forward f.text.toList.length).rest = p.text ++ later := by
    rw [Phrase.text, List.append_assoc] at hk
    exact Cursor.rest_forward hk
  exact readAt_before hsign hk (by omega) (h n _ (by omega) hk₁)

theorem readsBefore_counted {b : Back} (hb : b = .postInc ∨ b = .postDec) (h : ReadsAsTokens p)
    (hgap : ∀ n k, 20 ≤ n → k.rest = later → Gap n k (k.forward d)) :
    ReadsBefore (.after p b) later d := by
  intro n k hn hk
  have hlength : (Phrase.after p b).text.length = p.text.length + b.text.length :=
    List.length_append
  have hk₀ : k.rest = p.text ++ (b.text ++ later) := by
    rw [hk, Phrase.text, List.append_assoc]
  have hmark : b.text ∈ tightMarks := by
    obtain rfl | rfl := hb <;> exact mem_tightMarks (by simp)
  refine readAt_counted hb hk (by omega) ?_ (h _ 0 (.tight later hmark) n k (by omega) hk₀)
  rw [Cursor.forward_add]
  exact hgap n _ (by omega) (Cursor.rest_forward hk)

theorem readsAsTokens_tested {x : String} (hx : isName x.toList = true) (h : ReadsAsTokens p) :
    ReadsAsTokens (.after p (.isA x)) := by
  intro later d hlater n k hn hk
  have hlength : (Phrase.after p (.isA x)).text.length = p.text.length + (x.toList.length + 13) := by
    show (p.text ++ (" instanceof $".toList ++ x.toList)).length = _
    simp
  have hk₀ : k.rest = p.text ++ (' ' :: ("instanceof $".toList ++ (x.toList ++ later))) := by
    rw [hk]
    show (p.text ++ (" instanceof $".toList ++ x.toList)) ++ later = _
    simp
  exact readAt_tested hx hk hlater (by omega)
    (h _ 1 (.loose _ (mem_looseMarks (by simp))) n k (by omega) hk₀)

theorem readsBefore_between (o : Link) (hl : ReadsAsTokens l) (hr : ReadsBefore r later d) :
    ReadsBefore (.between l o r) later d := by
  intro n k hn hk
  have hlength : (Phrase.between l o r).text.length
      = l.text.length + 1 + (o.token.toList.length + 1) + r.text.length := by
    simp [Phrase.text]
    omega
  have hk₀ : k.rest = l.text ++ (' ' :: ((o.token.toList ++ [' ']) ++ (r.text ++ later))) := by
    rw [hk]
    simp [Phrase.text]
  have hmark : o.token.toList ++ [' '] ∈ looseMarks :=
    List.mem_append_right _ (List.mem_map.mpr ⟨o, o.mem_all, rfl⟩)
  have hk₁ : (k.forward (l.text.length + 1 + (o.token.toList.length + 1))).rest
      = r.text ++ later := by
    have hall : k.rest = (l.text ++ (' ' :: (o.token.toList ++ [' ']))) ++ (r.text ++ later) := by
      rw [hk₀]
      simp
    have hcount : (l.text ++ (' ' :: (o.token.toList ++ [' ']))).length
        = l.text.length + 1 + (o.token.toList.length + 1) := by
      simp
      omega
    rw [← hcount]
    exact Cursor.rest_forward hall
  exact readAt_between hk (by omega) (hl _ 1 (.loose _ hmark) n k (by omega) hk₀)
    (hr n _ (by omega) hk₁)

theorem readsBefore_choice {c y z : Phrase} (hc : ReadsAsTokens c) (hy : ReadsAsTokens y)
    (hz : ReadsBefore z later d) : ReadsBefore (.choice c y z) later d := by
  intro n k hn hk
  obtain ⟨m, rfl⟩ : ∃ m, n = m + 2 := ⟨n - 2, by omega⟩
  have hlength : (Phrase.choice c y z).text.length
      = c.text.length + 3 + (y.text.length + 3) + z.text.length := by
    simp [Phrase.text]
    omega
  have hk₀ : k.rest = c.text ++ (' ' :: ("? ".toList ++ (y.text ++ (' ' :: (": ".toList ++
      (z.text ++ later)))))) := by
    rw [hk]
    simp [Phrase.text]
  have hk₁ : (k.forward (c.text.length + 3)).rest
      = y.text ++ (' ' :: (": ".toList ++ (z.text ++ later))) := by
    have hall : k.rest = (c.text ++ " ? ".toList) ++ (y.text ++ (' ' :: (": ".toList ++
        (z.text ++ later)))) := by
      rw [hk]
      simp [Phrase.text]
    have hcount : (c.text ++ " ? ".toList).length = c.text.length + 3 := by simp
    rw [← hcount]
    exact Cursor.rest_forward hall
  have hk₂ : (k.forward (c.text.length + 3 + (y.text.length + 3))).rest = z.text ++ later := by
    have hall : (k.forward (c.text.length + 3)).rest
        = (y.text ++ " : ".toList) ++ (z.text ++ later) := by
      rw [hk₁]
      simp
    have hcount : (y.text ++ " : ".toList).length = y.text.length + 3 := by simp
    rw [Cursor.forward_add, ← hcount]
    exact Cursor.rest_forward hall
  exact readAt_choice hk (by omega) (hc _ 1 (.loose _ (mem_looseMarks (s := "? ") (by simp))) _ k
    (by omega) hk₀)
    (hy _ 1 (.loose _ (mem_looseMarks (s := ": ") (by simp))) m _ (by omega) hk₁) (hz _ _ (by omega) hk₂)

/-- **The text of a legible phrase is read as its tokens**, and if the phrase is one operand, also
where more is accessed of it. -/
theorem reads_phrase (hlegible : p.Legible) (hnamed : p.term.Named) : ReadsAsTokens p ∧
    (p.isPrimary = true → ∃ t, p.tokens = [.operand t] ∧ ReadsAsOperand p t) := by
  have primary {p : Phrase} {t : Term} (h : ReadsAsOperand p t) (hp : p.isPrimary = true)
      (hlegible : p.Legible) (ht : p.tokens = [.operand t]) : ReadsAsTokens p ∧
      (p.isPrimary = true → ∃ t, p.tokens = [.operand t] ∧ ReadsAsOperand p t) :=
    ⟨h.readsAsTokens hp hlegible ht, fun _ => ⟨t, ht, h⟩⟩
  induction p with
  | var x =>
    have hoperand : ReadsAsOperand (.var x) (.var x) := fun n d k later hn hk hlater hgap =>
      primaryRead_var hnamed hk hlater hgap (by omega)
    exact primary hoperand rfl trivial rfl
  | group p ih => exact primary (readsAsOperand_group (ih hlegible hnamed).1) rfl hlegible rfl
  | member p safe x ih =>
    obtain ⟨t, ht, hoperand⟩ := (ih hlegible.2 hnamed.1).2 hlegible.1
    refine primary (readsAsOperand_member hnamed.2 hoperand) rfl hlegible ?_
    show [Token.operand (.member (regroup p.tokens) safe x)] = _
    rw [ht]
    rfl
  | before f p ih =>
    exact ⟨fun later d hlater =>
      readsBefore_before hlegible.1 ((ih hlegible.2 hnamed).1 later d hlater), nofun⟩
  | after p b ih =>
    have hcounted {b : Back} (hb : b = .postInc ∨ b = .postDec) (h : ReadsAsTokens p) :
        ReadsAsTokens (.after p b) := fun later d hlater =>
      readsBefore_counted hb h fun n k hn hk => hlater.gap hk hn
    cases b with
    | postInc => exact ⟨hcounted (.inl rfl) (ih hlegible hnamed).1, nofun⟩
    | postDec => exact ⟨hcounted (.inr rfl) (ih hlegible hnamed).1, nofun⟩
    | isA x => exact ⟨readsAsTokens_tested hnamed.2 (ih hlegible hnamed.1).1, nofun⟩
  | between l o r ihl ihr =>
    exact ⟨fun later d hlater => readsBefore_between o (ihl hlegible.1 hnamed.1).1
      ((ihr hlegible.2 hnamed.2).1 later d hlater), nofun⟩
  | choice c y z ihc ihy ihz =>
    exact ⟨fun later d hlater => readsBefore_choice (ihc hlegible.1 hnamed.1).1
      (ihy hlegible.2.1 hnamed.2.1).1 ((ihz hlegible.2.2 hnamed.2.2).1 later d hlater), nofun⟩

end

end ThreeAddress.Grammar

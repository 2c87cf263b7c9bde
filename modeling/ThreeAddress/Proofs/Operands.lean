import ThreeAddress.Proofs.Building
import ThreeAddress.Proofs.Preview
import ThreeAddress.Proofs.Shape

/-!
# Reading operands

An operand starts with an atom, and the grammar tries one atom after another. What it tries in vain
is ruled out by the first characters, so **the first atom that they leave is read**
(`reads_firstOf`): a variable is read to the end of its name (`reads_variableName`).
-/

namespace ThreeAddress.Syntax

/-- A letter or an underscore, and then letters, digits and underscores. -/
def isName : List Char → Bool
  | [] => false
  | c :: cs => (c.isAlpha || c == '_') && cs.all fun d => d.isAlphanum || d == '_'

end ThreeAddress.Syntax

namespace ThreeAddress.Grammar

open Pattern Syntax

/-! ## Atoms -/

/-- The atoms that are tried before a variable. -/
def atomsBeforeVariable : List Rule :=
  [.closure, .arrowFn, .newExpr, .issetExpr, .emptyExpr, .exitExpr, .evalExpr, .listExpr,
    .arrayLong, .arrayLiteral, .magicConst, .float, .integer, .stringSingle, .stringDouble,
    .nowdoc, .heredoc, .shellExec]

/-- The atoms that are tried before an expression in parentheses. -/
def atomsBeforeGroup : List Rule :=
  atomsBeforeVariable ++ [.variableName, .varVar, .qualifiedName]

/-- What the grammar sees where an expression ends with its statement. -/
theorem glance_semicolon : previewBlanks 20 false [';'] = .matched 0 [';'] [] ∧
    accessor.glance false [';'] = .failed ∧ postfixOperator.glance false [';'] = .failed ∧
    infixOperator.glance false [';'] = .failed := by
  decide +kernel

theorem glance_dollar : ∀ r ∈ atomsBeforeVariable, (rule r).glance false ['$'] = .failed :=
  forall_mem_of_all (by decide +kernel)

theorem glance_group : ∀ r ∈ atomsBeforeGroup, (rule r).glance false ['('] = .failed :=
  forall_mem_of_all (by decide +kernel)

theorem atom_eq_variable : atom = firstOf (atomsBeforeVariable.map rule ++
    rule .variableName :: [rule .varVar, rule .qualifiedName, rule .parenExpr]) :=
  rfl

theorem atom_eq_group : atom = firstOf (atomsBeforeGroup.map rule ++ [rule .parenExpr]) :=
  rfl

/-- The first rule that the beginning does not rule out reads. -/
theorem reads_firstOf {n : Nat} {k k' : Cursor} {cs later : List Char} {rs : List Rule}
    {p : Pattern} (ps : List Pattern) {ts : List ParseTree} (hn : 20 ≤ n)
    (hrs : ∀ r ∈ rs, (rule r).glance false cs = .failed) (hk : k.rest = cs ++ later)
    (hp : Reads (inside n p) k k' ts) :
    Reads (inside n (firstOf (rs.map rule ++ p :: ps))) k k' ts := by
  refine .firstOf (fun q hq => ?_) hp
  obtain ⟨r, hr, rfl⟩ := List.mem_map.mp hq
  exact refuses_of_glance hn (hrs r hr) hk

/-- An identifier is read to its end. -/
theorem reads_identifier {n : Nat} {k : Cursor} {name later : List Char}
    (hname : isName name = true) (hk : k.rest = name ++ later)
    (hlater : ∀ c ∈ later.head?, (CharClass.alphanumeric.contains c || c == '_') = false)
    (hn : name.length ≤ n) :
    Reads (Rule.run (n + 1) .identifier ⟨.atomic, .none⟩) k (k.forward name.length) [] := by
  cases name with
  | nil => cases hname
  | cons c cs =>
    obtain ⟨hc, hcs⟩ := Bool.and_eq_true_iff.mp hname
    have hk : k.rest = c :: (cs ++ later) := hk
    have hk₁ : (k.forward 1).rest = cs ++ later := by
      rw [Cursor.forward_one hk, Cursor.rest_past]
    have hfirst : Reads (Pattern.run n (skipBlanks n) (Rule.run n)
        (.alt (.one .letter) "_") ⟨.atomic, .none⟩) k (k.forward 1) [] := reads_classOr hk hc
    have hrest : Reads (Pattern.run n (skipBlanks n) (Rule.run n) (.many wordChar)
        ⟨.atomic, .none⟩) (k.forward 1) ((k.forward 1).forward cs.length) [] :=
      reads_many_classOr (by decide) hk₁ (List.all_eq_true.mp hcs) hlater (Nat.le_of_succ_le hn)
    rw [List.length_cons, Nat.add_comm cs.length, Cursor.forward_add]
    exact reads_rule (r := .identifier) (hfirst.seq .nothing hrest)

/-- A variable with a name that can be written. -/
theorem reads_variableName {n : Nat} {k : Cursor} {name later : List Char}
    (hname : isName name = true) (hk : k.rest = '$' :: (name ++ later))
    (hlater : ∀ c ∈ later.head?, (CharClass.alphanumeric.contains c || c == '_') = false)
    (hn : name.length ≤ n) :
    Reads (inside (n + 2) Rule.variableName) k (k.forward (name.length + 1))
      [⟨.variableName, ⟨k, k.forward (name.length + 1)⟩, []⟩] := by
  have hk₁ : (k.forward 1).rest = name ++ later := by
    rw [Cursor.forward_one hk, Cursor.rest_past]
  have hdollar : Reads (Pattern.run (n + 1) (skipBlanks (n + 1)) (Rule.run (n + 1)) "$"
      ⟨.atomic, .none⟩) k (k.forward 1) [] := reads_char hk
  rw [Nat.add_comm name.length, Cursor.forward_add]
  exact reads_rule (r := .variableName)
    (hdollar.seq .nothing (reads_identifier hname hk₁ hlater hn))

/-- No rule that stands for a node is a keyword. -/
theorem isKeyword_of_mem_rules {what : Expected} {r : Rule} (h : r ∈ what.rules) :
    r.isKeyword = false := by
  have hall : what.rules.all (!·.isKeyword) = true := by
    cases what <;> rfl
  simpa using List.all_eq_true.mp hall r h

end ThreeAddress.Grammar

import Mathlib.Data.List.Chain
import ThreeAddress.Text.Literal

/-!
# Escapes

What is written between quotes and what is read from there. **Reading undoes writing** one
character at a time, whatever comes after it (`Escape.read_flatMap`, `readSingle_flatMap`), and a
written text **holds nothing that would end it**: it is made of pieces that a literal can hold
(`Quotable`), so neither a quote nor a variable starts inside it.
-/

namespace ThreeAddress.Text

/-! ## Reading what was written -/

theorem readSingle_escapeSingle (c : Char) (rest : List Char) :
    readSingle false (escapeSingle c ++ rest) = c :: readSingle false rest := by
  unfold escapeSingle
  by_cases hc : c = '\\' ∨ c = '\''
  · rw [if_pos hc]
    show readSingle true (c :: rest) = _
    rw [readSingle, if_pos hc]
  · rw [if_neg hc]
    show readSingle false (c :: rest) = _
    rw [readSingle, if_neg fun h => hc (.inl h)]

/-- **A single-quoted text is read as it was meant.** -/
theorem readSingle_flatMap (cs : List Char) : readSingle false (cs.flatMap escapeSingle) = cs := by
  induction cs with
  | nil => rfl
  | cons c cs ih => rw [List.flatMap_cons, readSingle_escapeSingle, ih]

/-- A hexadecimal digit, in capitals. -/
def capitalHex (d : Nat) : Char :=
  (Nat.digitChar d).toUpper

theorem hexValue?_capitalHex : ∀ d < 16, hexValue? (capitalHex d) = some d := by
  decide +kernel

theorem twoHexDigits_eq :
    ∀ n < 160, twoHexDigits n = [capitalHex (n / 16), capitalHex (n % 16)] := by
  decide +kernel

theorem toNat_lt_of_isControl {c : Char} (hc : isControl c = true) : c.toNat < 160 := by
  simp only [isControl, Bool.or_eq_true, Bool.and_eq_true, decide_eq_true_eq] at hc
  omega

/-- A character code ends after its second digit, even if a digit follows. -/
theorem Escape.read_hexMark {n : Nat} (hn : n < 160) (rest : List Char) :
    Escape.read .hexMark (twoHexDigits n ++ rest) = Char.ofNat n :: Escape.read .none rest := by
  have hhigh := hexValue?_capitalHex (n / 16) (by omega)
  have hlow := hexValue?_capitalHex (n % 16) (by omega)
  rw [twoHexDigits_eq n hn]
  show Escape.read .hexMark (capitalHex (n / 16) :: capitalHex (n % 16) :: rest) = _
  simp only [Escape.read, Escape.step, hhigh, hlow, List.nil_append]
  rw [Nat.div_add_mod']
  rfl

theorem Escape.read_escapeDouble (c : Char) (rest : List Char) :
    Escape.read .none (escapeDouble c ++ rest) = c :: Escape.read .none rest := by
  unfold escapeDouble
  split
  -- the characters with an escape of their own are settled by evaluation
  case h_10 hbackslash _ _ =>
    by_cases hc : isControl c
    · rw [if_pos hc]
      show Escape.read .hexMark (twoHexDigits c.toNat ++ rest) = _
      rw [Escape.read_hexMark (toNat_lt_of_isControl hc), Char.ofNat_toNat]
    · rw [if_neg hc]
      show (Escape.plain [] c).1 ++ Escape.read (Escape.plain [] c).2 rest = _
      rw [Escape.plain, if_neg hbackslash]
      rfl
  all_goals rfl

/-- **A double-quoted text is read as it was meant.** -/
theorem Escape.read_flatMap (cs : List Char) :
    Escape.read .none (cs.flatMap escapeDouble) = cs := by
  induction cs with
  | nil => rfl
  | cons c cs ih => rw [List.flatMap_cons, Escape.read_escapeDouble, ih]

/-! ## What a literal can hold -/

/-- A text that goes on to the quote after it: outside of escapes there is no special character,
and a brace has no dollar after it. -/
inductive Quotable (special : List Char) : List Char → Prop
  | nil : Quotable special []
  | escaped (c : Char) {cs : List Char} : Quotable special cs → Quotable special ('\\' :: c :: cs)
  | plain {c : Char} {cs : List Char} : c ∉ special → Quotable special cs →
      Quotable special (c :: cs)
  | brace {cs : List Char} : cs.head? ≠ some '$' → Quotable special cs →
      Quotable special ('\x7b' :: cs)

/-- What is special in single quotes. -/
def specialInSingle : List Char :=
  ['\'', '\\']

/-- What is special in double quotes. -/
def specialInDouble : List Char :=
  ['"', '\\', '$', '\x7b']

theorem quotable_flatMap_escapeSingle (cs : List Char) :
    Quotable specialInSingle (cs.flatMap escapeSingle) := by
  induction cs with
  | nil => exact .nil
  | cons c cs ih =>
    rw [List.flatMap_cons, escapeSingle]
    by_cases hc : c = '\\' ∨ c = '\''
    · rw [if_pos hc]
      exact .escaped c ih
    · rw [if_neg hc]
      refine .plain ?_ ih
      simpa [specialInSingle, and_comm] using hc

theorem capitalHex_not_special : ∀ d < 16, capitalHex d ∉ specialInDouble := by
  decide +kernel

theorem head?_escapeDouble (c : Char) (rest : List Char) :
    (escapeDouble c ++ rest).head? ≠ some '$' := by
  unfold escapeDouble
  split
  case h_10 hdollar =>
    by_cases hc : isControl c
    · rw [if_pos hc]
      show some '\\' ≠ _
      decide
    · rw [if_neg hc]
      exact fun h => hdollar (Option.some.inj h)
  all_goals exact fun h => absurd (Option.some.inj h) (by decide)

theorem head?_flatMap_escapeDouble (cs : List Char) :
    (cs.flatMap escapeDouble).head? ≠ some '$' := by
  cases cs with
  | nil => exact nofun
  | cons c cs =>
    rw [List.flatMap_cons]
    exact head?_escapeDouble c _

/-- One more character keeps the text together. -/
theorem Quotable.escapeDouble {cs : List Char} (h : Quotable specialInDouble cs)
    (hhead : cs.head? ≠ some '$') (c : Char) : Quotable specialInDouble (escapeDouble c ++ cs) := by
  unfold Text.escapeDouble
  split
  case h_10 hbackslash hquote hdollar =>
    by_cases hc : isControl c
    · have hn := toNat_lt_of_isControl hc
      rw [if_pos hc, twoHexDigits_eq _ hn]
      exact .escaped 'x' (.plain (capitalHex_not_special _ (by omega))
        (.plain (capitalHex_not_special _ (by omega)) h))
    · rw [if_neg hc]
      by_cases hbrace : c = '\x7b'
      · subst hbrace
        exact .brace hhead h
      · refine .plain ?_ h
        simp only [specialInDouble, List.mem_cons, List.not_mem_nil, or_false, not_or]
        exact ⟨hquote, hbackslash, hdollar, hbrace⟩
  all_goals exact .escaped _ h

theorem quotable_flatMap_escapeDouble (cs : List Char) :
    Quotable specialInDouble (cs.flatMap escapeDouble) := by
  induction cs with
  | nil => exact .nil
  | cons c cs ih =>
    rw [List.flatMap_cons]
    exact ih.escapeDouble (head?_flatMap_escapeDouble cs) c

/-! ## Dollars -/

/-- Every dollar that has a character before it has a backslash there. -/
def DollarsEscaped (cs : List Char) : Prop :=
  cs.IsChain fun a b => b = '$' → a = '\\'

theorem DollarsEscaped.of_append {cs ds : List Char} (h : DollarsEscaped (cs ++ ds)) :
    DollarsEscaped ds :=
  (List.isChain_append.mp h).2.1

theorem Quotable.head?_ne {cs later : List Char} (h : Quotable specialInDouble cs)
    (hlater : later.head? ≠ some '$') : (cs ++ later).head? ≠ some '$' := by
  cases h with
  | nil => exact hlater
  | escaped c h => exact fun h => absurd (Option.some.inj h) (by decide)
  | plain hc h =>
    intro h
    obtain rfl := Option.some.inj h
    exact hc (by decide)
  | brace hhead h => exact fun h => absurd (Option.some.inj h) (by decide)

/-- **In double quotes no variable starts.** -/
theorem Quotable.dollarsEscaped {cs later : List Char} (h : Quotable specialInDouble cs)
    (hlater : later.head? ≠ some '$') (hrest : DollarsEscaped later) :
    DollarsEscaped (cs ++ later) := by
  have hcons {a : Char} {ds : List Char} (hhead : ds.head? ≠ some '$') (hds : DollarsEscaped ds) :
      DollarsEscaped (a :: ds) :=
    List.isChain_cons.mpr ⟨fun b hb h => absurd (h ▸ hb) hhead, hds⟩
  induction h with
  | nil => exact hrest
  | escaped c h ih =>
    exact List.isChain_cons.mpr ⟨fun _ _ _ => rfl, hcons (h.head?_ne hlater) ih⟩
  | plain _ h ih => exact hcons (h.head?_ne hlater) ih
  | brace _ h ih => exact hcons (h.head?_ne hlater) ih

end ThreeAddress.Text

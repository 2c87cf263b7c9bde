import Mathlib.Data.Nat.Digits.Defs
import ThreeAddress.Proofs.Building
import ThreeAddress.Proofs.Tokens

/-!
# Integer literals

The number that an integer literal stands for is read off its text (`Denotes`): the base from its
first two characters, the number from its digits, with the marks between them left out. **A literal
has this value** (`integerKind?_of_takes`), as an integer or, if it is too large for one, as a
double. It is refused if it is too large for that, too, or if a leading zero makes it octal and it
has a digit that is not.
-/

namespace ThreeAddress

namespace Number

/-! ## Digits -/

/-- The letters from A to Z have another case, and no other character has. -/
theorem toLower_cases (c : Char) :
    (65 ≤ c.toNat ∧ c.toNat ≤ 90 ∧ c.toLower.toNat = c.toNat + 32) ∨
      (¬ (65 ≤ c.toNat ∧ c.toNat ≤ 90) ∧ c.toLower = c) := by
  unfold Char.toLower
  split
  · rename_i h
    have hfirst : 65 ≤ c.toNat := h.1
    have hlast : c.toNat ≤ 90 := h.2
    refine .inl ⟨hfirst, hlast, ?_⟩
    show (c.val + 32).toNat = _
    rw [UInt32.toNat_add]
    show (c.toNat + 32) % _ = _
    omega
  · rename_i h
    exact .inr ⟨h, rfl⟩

theorem toLower_toLower (c : Char) : c.toLower.toLower = c.toLower := by
  obtain ⟨hfirst, -, hlower⟩ | ⟨-, hlower⟩ := toLower_cases c
  · obtain ⟨-, hlast, -⟩ | ⟨-, hsame⟩ := toLower_cases c.toLower
    · omega
    · exact hsame
  · rw [hlower, hlower]

theorem toNat_digitChar {v : Nat} (h : v < 16) :
    (Nat.digitChar v).toNat = if v < 10 then 48 + v else 87 + v := by
  revert v
  decide

/-- A character is a digit if it is written like one, in either case. -/
theorem hexValue?_eq_some_iff {c : Char} {v : Nat} :
    Text.hexValue? c = some v ↔ v < 16 ∧ c.toLower = Nat.digitChar v := by
  have hvalue : Text.hexValue? c = some v ↔
      (48 ≤ c.toNat ∧ c.toNat ≤ 57 ∧ v = c.toNat - 48) ∨
      (97 ≤ c.toNat ∧ c.toNat ≤ 102 ∧ v = c.toNat - 97 + 10) ∨
      (65 ≤ c.toNat ∧ c.toNat ≤ 70 ∧ v = c.toNat - 65 + 10) := by
    have hle (a b : Char) : a ≤ b ↔ a.toNat ≤ b.toNat := Iff.rfl
    unfold Text.hexValue?
    simp only [hle]
    simp only [Char.reduceToNat]
    split
    · rw [Option.some_inj]
      omega
    · split
      · rw [Option.some_inj]
        omega
      · split
        · rw [Option.some_inj]
          omega
        · simp only [reduceCtorEq, false_iff]
          omega
  rw [hvalue, ← Char.toNat_inj]
  constructor
  · intro h
    have hv : v < 16 := by omega
    refine ⟨hv, ?_⟩
    rw [toNat_digitChar hv]
    obtain ⟨hfirst, hlast, hlower⟩ | ⟨hother, hlower⟩ := toLower_cases c
    · rw [hlower]
      split <;> omega
    · rw [hlower]
      split <;> omega
  · rintro ⟨hv, h⟩
    rw [toNat_digitChar hv] at h
    obtain ⟨hfirst, hlast, hlower⟩ | ⟨hother, hlower⟩ := toLower_cases c
    · rw [hlower] at h
      split at h <;> omega
    · rw [hlower] at h
      split at h <;> omega

/-- The text consists of digits of the base, the highest first, and they make up the number. -/
def DigitsOf (base : Nat) (cs : List Char) (v : Nat) : Prop :=
  ∃ ds : List Nat, cs.map Char.toLower = ds.map Nat.digitChar ∧ (∀ d ∈ ds, d < base) ∧
    v = Nat.ofDigits base ds.reverse

theorem digitsOf_nil {base v : Nat} : DigitsOf base [] v ↔ v = 0 := by
  constructor
  · rintro ⟨ds, hds, -, rfl⟩
    obtain rfl := List.map_eq_nil_iff.mp hds.symm
    rfl
  · rintro rfl
    exact ⟨[], rfl, nofun, rfl⟩

theorem digitsOf_cons {base : Nat} (hbase : base ≤ 16) {c : Char} {cs : List Char} {v : Nat} :
    DigitsOf base (c :: cs) v ↔ ∃ d w, Text.hexValue? c = some d ∧ d < base ∧ DigitsOf base cs w ∧
      v = d * base ^ cs.length + w := by
  constructor
  · rintro ⟨ds, hds, hlt, rfl⟩
    cases ds with
    | nil => cases hds
    | cons d ds =>
      obtain ⟨hc, hcs⟩ := List.cons.inj hds
      obtain ⟨hd, hlt⟩ := List.forall_mem_cons.mp hlt
      refine ⟨d, _, hexValue?_eq_some_iff.mpr ⟨Nat.lt_of_lt_of_le hd hbase, hc⟩, hd,
        ⟨ds, hcs, hlt, rfl⟩, ?_⟩
      have hlength : cs.length = ds.length := by simpa using congrArg List.length hcs
      rw [List.reverse_cons, Nat.ofDigits_append, Nat.ofDigits_singleton, List.length_reverse, hlength,
        Nat.add_comm, Nat.mul_comm]
  · rintro ⟨d, _, hc, hd, ⟨ds, hcs, hlt, rfl⟩, rfl⟩
    refine ⟨d :: ds, ?_, List.forall_mem_cons.mpr ⟨hd, hlt⟩, ?_⟩
    · rw [List.map_cons, List.map_cons, hcs, (hexValue?_eq_some_iff.mp hc).2]
    · have hlength : cs.length = ds.length := by simpa using congrArg List.length hcs
      rw [List.reverse_cons, Nat.ofDigits_append, Nat.ofDigits_singleton, List.length_reverse, hlength,
        Nat.add_comm, Nat.mul_comm]

/-- Digits are read from the left, each one moving the ones before it up by the base. -/
theorem foldlM_digits {base : Nat} (hbase : base ≤ 16) {cs : List Char} {n m : Nat} :
    cs.foldlM (fun n c => do
      let v ← Text.hexValue? c
      if v < base then some (n * base + v) else none) n = some m ↔
      ∃ w, DigitsOf base cs w ∧ m = n * base ^ cs.length + w := by
  induction cs generalizing n with
  | nil => simp [digitsOf_nil, eq_comm]
  | cons c cs ih =>
    rw [List.foldlM_cons]
    cases hc : Text.hexValue? c with
    | none => simp [digitsOf_cons hbase, hc]
    | some d =>
      by_cases hd : d < base
      · have hstep : (do
            let v ← some d
            if v < base then some (n * base + v) else none : Option Nat) = some (n * base + d) := by
          simp [hd]
        rw [hstep]
        show cs.foldlM _ (n * base + d) = some m ↔ _
        rw [ih]
        constructor
        · rintro ⟨w, hw, rfl⟩
          refine ⟨_, (digitsOf_cons hbase).mpr ⟨d, w, hc, hd, hw, rfl⟩, ?_⟩
          rw [List.length_cons]
          ring
        · rintro ⟨_, hw, rfl⟩
          obtain ⟨d', w, hc', -, htail, rfl⟩ := (digitsOf_cons hbase).mp hw
          obtain rfl := Option.some.inj (hc.symm.trans hc')
          refine ⟨w, htail, ?_⟩
          rw [List.length_cons]
          ring
      · simp [digitsOf_cons hbase, hc, hd]

/-- **Digits have the number that they make up as their value.** -/
theorem digitsValue?_eq_some_iff {base : Nat} (hbase : base ≤ 16) {cs : List Char} {v : Nat} :
    digitsValue? base cs = some v ↔ cs ≠ [] ∧ DigitsOf base cs v := by
  cases cs with
  | nil => simp [digitsValue?]
  | cons c cs =>
    unfold digitsValue?
    rw [foldlM_digits hbase]
    simp

theorem digitsOf_map_toLower {base : Nat} {cs : List Char} {v : Nat} :
    DigitsOf base (cs.map Char.toLower) v ↔ DigitsOf base cs v := by
  unfold DigitsOf
  rw [List.map_map, show Char.toLower ∘ Char.toLower = Char.toLower from funext toLower_toLower]

theorem DigitsOf.unique {base : Nat} (hbase : base ≤ 16) {cs : List Char} {v w : Nat}
    (hv : DigitsOf base cs v) (hw : DigitsOf base cs w) : v = w := by
  cases cs with
  | nil => rw [digitsOf_nil.mp hv, digitsOf_nil.mp hw]
  | cons c cs =>
    have hvalue := (digitsValue?_eq_some_iff hbase).mpr ⟨List.cons_ne_nil _ _, hv⟩
    exact Option.some.inj (hvalue.symm.trans
      ((digitsValue?_eq_some_iff hbase).mpr ⟨List.cons_ne_nil _ _, hw⟩))

/-- Characters make up a number if each of them is a digit of the base. -/
theorem exists_digitsOf_iff {base : Nat} (hbase : base ≤ 16) {cs : List Char} :
    (∃ v, DigitsOf base cs v) ↔ ∀ c ∈ cs, ∃ d, Text.hexValue? c = some d ∧ d < base := by
  induction cs with
  | nil => exact ⟨fun _ => nofun, fun _ => ⟨0, digitsOf_nil.mpr rfl⟩⟩
  | cons c cs ih =>
    rw [List.forall_mem_cons, ← ih]
    constructor
    · rintro ⟨v, hv⟩
      obtain ⟨d, w, hc, hd, hw, -⟩ := (digitsOf_cons hbase).mp hv
      exact ⟨⟨d, hc, hd⟩, w, hw⟩
    · rintro ⟨⟨d, hc, hd⟩, w, hw⟩
      exact ⟨_, (digitsOf_cons hbase).mpr ⟨d, w, hc, hd, hw, rfl⟩⟩

/-! ## Literals -/

/-- The base of a literal, which its first characters give, and the rest of it. -/
def literalBase : List Char → Nat × List Char
  | '0' :: m :: ds =>
    if m = 'x' ∨ m = 'X' then (16, ds)
    else if m = 'b' ∨ m = 'B' then (2, ds)
    else if m = 'o' ∨ m = 'O' then (8, ds)
    else (8, m :: ds)
  | ds => (10, ds)

/-- The literal stands for the number. -/
def Denotes (cs : List Char) (v : Nat) : Prop :=
  DigitsOf (literalBase cs).1 (withoutMarks (literalBase cs).2) v

/-- A zero and more digits, not all of them octal. -/
def HasStrayDigit (cs : List Char) : Prop :=
  ∃ d ds, cs = '0' :: d :: ds ∧ (d.isDigit = true ∨ d = '_') ∧ ('8' ∈ d :: ds ∨ '9' ∈ d :: ds)

theorem literalBase_le (cs : List Char) : (literalBase cs).1 ≤ 16 := by
  unfold literalBase
  split
  · split
    · exact Nat.le_refl 16
    · split
      · exact Nat.le_of_ble_eq_true rfl
      · split <;> exact Nat.le_of_ble_eq_true rfl
  · exact Nat.le_of_ble_eq_true rfl

/-- The mark gives the base, and the digits after it are of the class. -/
inductive Mark : Char → Nat → Grammar.CharClass → Prop
  | hexadecimal {m : Char} : m = 'x' ∨ m = 'X' → Mark m 16 .hexDigit
  | binary {m : Char} : m = 'b' ∨ m = 'B' → Mark m 2 .binaryDigit
  | octal {m : Char} : m = 'o' ∨ m = 'O' → Mark m 8 .octalDigit

/-- What the text of an integer literal looks like. -/
inductive IsLiteral : List Char → Prop
  | marked {m c : Char} {base : Nat} {cl : Grammar.CharClass} {ds : List Char} :
      Mark m base cl → IsRun cl c ds → IsLiteral ('0' :: m :: c :: ds)
  | digits {c : Char} {ds : List Char} : IsRun .digit c ds → IsLiteral (c :: ds)

/-- The value of a number, which depends on its size. -/
def Value.ofNat? (n : Nat) : Option Value :=
  if n < 2 ^ 63 then some (.integer n) else if n < 2 ^ 128 then some (.float (.ofNat n)) else none

section

variable {c m : Char} {base : Nat} {cl : Grammar.CharClass} {cs ds : List Char} {v : Nat}

theorem isDigit_iff : c.isDigit = true ↔ 48 ≤ c.toNat ∧ c.toNat ≤ 57 := by
  unfold Char.isDigit
  rw [Bool.and_eq_true, decide_eq_true_iff, decide_eq_true_iff]
  exact Iff.rfl

theorem toLower_of_isDigit (h : c.isDigit = true) : c.toLower = c := by
  have hdigit := isDigit_iff.mp h
  obtain ⟨hfirst, -, -⟩ | ⟨-, hlower⟩ := toLower_cases c
  · omega
  · exact hlower

theorem hexValue?_digit (h : c.isDigit = true) : Text.hexValue? c = some (c.toNat - 48) := by
  have hdigit := isDigit_iff.mp h
  refine hexValue?_eq_some_iff.mpr ⟨by omega, ?_⟩
  rw [toLower_of_isDigit h, ← Char.toNat_inj, toNat_digitChar (by omega), if_pos (by omega)]
  omega

/-- A character after the mark is a digit of the base. -/
theorem Mark.hexValue?_lt (h : Mark m base cl) (hc : cl.contains c = true) :
    ∃ d, Text.hexValue? c = some d ∧ d < base := by
  cases h with
  | hexadecimal _ =>
    have hle (a b : Char) : a ≤ b ↔ a.toNat ≤ b.toNat := Iff.rfl
    simp only [Grammar.CharClass.contains, Bool.or_eq_true, Bool.and_eq_true, decide_eq_true_iff,
      isDigit_iff, hle, Char.reduceToNat] at hc
    unfold Text.hexValue?
    simp only [hle, Char.reduceToNat]
    split
    · exact ⟨_, rfl, by omega⟩
    · split
      · exact ⟨_, rfl, by omega⟩
      · rw [if_pos (by omega)]
        exact ⟨_, rfl, by omega⟩
  | binary _ =>
    simp only [Grammar.CharClass.contains, Bool.or_eq_true, decide_eq_true_iff] at hc
    obtain rfl | rfl := hc
    · exact ⟨0, rfl, Nat.zero_lt_two⟩
    · exact ⟨1, rfl, Nat.one_lt_two⟩
  | octal _ =>
    simp only [Grammar.CharClass.contains, Bool.and_eq_true, decide_eq_true_iff] at hc
    have hfirst : 48 ≤ c.toNat := hc.1
    have hlast : c.toNat ≤ 55 := hc.2
    exact ⟨_, hexValue?_digit (isDigit_iff.mpr ⟨hfirst, by omega⟩), by omega⟩

theorem Mark.not_contains (h : Mark m base cl) : cl.contains '_' = false := by
  cases h <;> rfl

theorem Mark.literalBase_eq (h : Mark m base cl) : literalBase ('0' :: m :: ds) = (base, ds) := by
  obtain ⟨rfl | rfl⟩ | ⟨rfl | rfl⟩ | ⟨rfl | rfl⟩ := h <;> rfl

theorem Mark.ofInteger?_eq (h : Mark m base cl) :
    ofInteger? (String.ofList ('0' :: m :: ds)) =
      (digitsValue? base ((withoutMarks ds).map Char.toLower)).bind Value.ofNat? := by
  unfold ofInteger?
  rw [String.toList_ofList]
  obtain ⟨rfl | rfl⟩ | ⟨rfl | rfl⟩ | ⟨rfl | rfl⟩ := h <;> rfl

/-- What can follow a zero in a run of digits. -/
theorem IsRun.second (h : IsRun .digit c (m :: ds)) : m.isDigit = true ∨ m = '_' := by
  by_cases hm : m = '_'
  · exact .inr hm
  · refine .inl (h.tail m ?_)
    rw [withoutMarks_cons hm]
    exact List.mem_cons_self

theorem literalBase_of_digit (h : m.isDigit = true ∨ m = '_') :
    literalBase ('0' :: m :: ds) = (8, m :: ds) := by
  have hne (k : Char) (hk : k.isDigit = false) (hmark : k ≠ '_') : m ≠ k := by
    rintro rfl
    obtain h | h := h
    · exact Bool.noConfusion (h.symm.trans hk)
    · exact hmark h
  rw [literalBase, if_neg, if_neg, if_neg]
  all_goals exact not_or.mpr ⟨hne _ rfl (by decide), hne _ rfl (by decide)⟩

theorem literalBase_of_ne (h : c ≠ '0') : literalBase (c :: ds) = (10, c :: ds) := by
  unfold literalBase
  split
  · rename_i heq
    exact absurd (List.cons.inj heq).1 h
  · rfl

theorem baseAndDigits_of_digit (h : c.isDigit = true) :
    baseAndDigits ('0' :: c :: ds) = (8, c :: ds) := by
  have hne (k : Char) (hk : k.isDigit = false) : c ≠ k := by
    rintro rfl
    exact Bool.noConfusion (h.symm.trans hk)
  rw [baseAndDigits]
  · exact hne 'x' rfl
  · exact hne 'b' rfl
  · exact hne 'o' rfl

theorem baseAndDigits_of_ne (h : c ≠ '0') : baseAndDigits (c :: ds) = (10, c :: ds) := by
  unfold baseAndDigits
  split
  case h_5 => rfl
  all_goals
    rename_i heq
    exact absurd (List.cons.inj heq).1 h

theorem ofInteger?_of_ne (hcs : (withoutMarks cs).map Char.toLower = c :: ds) (h : c ≠ '-') :
    ofInteger? (String.ofList cs) =
      (digitsValue? (baseAndDigits (c :: ds)).1 (baseAndDigits (c :: ds)).2).bind Value.ofNat? := by
  unfold ofInteger?
  rw [String.toList_ofList, hcs]
  split
  · rename_i heq
    exact absurd (List.cons.inj heq).1 h
  · rfl

/-- Digits without a mark have the base 8 after a zero, and the base 10 otherwise. -/
theorem IsRun.baseAndDigits_eq (h : IsRun .digit c ds) :
    baseAndDigits (c :: (withoutMarks ds).map Char.toLower) = ((literalBase (c :: ds)).1,
      (withoutMarks (literalBase (c :: ds)).2).map Char.toLower) := by
  by_cases hc : c = '0'
  · subst hc
    cases ds with
    | nil => rfl
    | cons m ds =>
      rw [literalBase_of_digit h.second]
      cases hds : withoutMarks (m :: ds) with
      | nil => cases h.digit_of_mark hds
      | cons d rest =>
        have hd : d.isDigit = true := h.tail d (hds ▸ List.mem_cons_self)
        rw [List.map_cons, toLower_of_isDigit hd]
        exact baseAndDigits_of_digit hd
  · rw [literalBase_of_ne hc, baseAndDigits_of_ne hc, withoutMarks_cons (h.ne_mark rfl),
      List.map_cons, toLower_of_isDigit h.head]

/-- The value of a literal is the one of its digits in its base. -/
theorem IsLiteral.ofInteger?_eq (h : IsLiteral cs) :
    ofInteger? (String.ofList cs) =
      (digitsValue? (literalBase cs).1
        ((withoutMarks (literalBase cs).2).map Char.toLower)).bind Value.ofNat? := by
  cases h with
  | marked hm _ => rw [hm.ofInteger?_eq, hm.literalBase_eq]
  | @digits c ds h =>
    have hfirst : (withoutMarks (c :: ds)).map Char.toLower =
        c :: (withoutMarks ds).map Char.toLower := by
      rw [withoutMarks_cons (h.ne_mark rfl), List.map_cons, toLower_of_isDigit h.head]
    have hminus : c ≠ '-' := by
      rintro rfl
      exact Bool.noConfusion h.head
    rw [ofInteger?_of_ne hfirst hminus, h.baseAndDigits_eq]

theorem IsLiteral.ne_nil (h : IsLiteral cs) : withoutMarks (literalBase cs).2 ≠ [] := by
  cases h with
  | marked hm hrun =>
    rw [hm.literalBase_eq, withoutMarks_cons (hrun.ne_mark hm.not_contains)]
    exact List.cons_ne_nil _ _
  | @digits c ds h =>
    by_cases hc : c = '0'
    · subst hc
      cases ds with
      | nil => exact List.cons_ne_nil _ _
      | cons m ds =>
        rw [literalBase_of_digit h.second]
        exact fun hnil => List.cons_ne_nil _ _ (h.digit_of_mark hnil)
    · rw [literalBase_of_ne hc, withoutMarks_cons (h.ne_mark rfl)]
      exact List.cons_ne_nil _ _

/-- **A literal has the value of the number that it stands for.** -/
theorem IsLiteral.ofInteger?_eq_some_iff (h : IsLiteral cs) {x : Value} :
    ofInteger? (String.ofList cs) = some x ↔ ∃ v, Denotes cs v ∧ Value.ofNat? v = some x := by
  rw [h.ofInteger?_eq, Option.bind_eq_some_iff]
  refine exists_congr fun v => and_congr_left' ?_
  rw [digitsValue?_eq_some_iff (literalBase_le cs), digitsOf_map_toLower]
  exact and_iff_right fun hnil => h.ne_nil (List.map_eq_nil_iff.mp hnil)

theorem Denotes.unique {w : Nat} (hv : Denotes cs v) (hw : Denotes cs w) : v = w :=
  DigitsOf.unique (literalBase_le cs) hv hw

theorem HasStrayDigit.not_denotes (h : HasStrayDigit cs) : ¬ Denotes cs v := by
  intro hv
  obtain ⟨d, ds, rfl, hd, hstray⟩ := h
  unfold Denotes at hv
  rw [literalBase_of_digit hd] at hv
  have hall := (exists_digitsOf_iff (Nat.le_of_ble_eq_true rfl)).mp ⟨v, hv⟩
  have hkeep {k : Char} (hk : k ∈ d :: ds) (hmark : k ≠ '_') : k ∈ withoutMarks (d :: ds) :=
    List.mem_filter.mpr ⟨hk, by simpa using hmark⟩
  obtain h | h := hstray
  · obtain ⟨n, hn, hlt⟩ := hall '8' (hkeep h (by decide))
    obtain rfl := Option.some.inj hn
    exact absurd hlt (Nat.not_lt_of_ge (Nat.le_of_ble_eq_true rfl))
  · obtain ⟨n, hn, hlt⟩ := hall '9' (hkeep h (by decide))
    obtain rfl := Option.some.inj hn
    exact absurd hlt (Nat.not_lt_of_ge (Nat.le_of_ble_eq_true rfl))

/-- A literal stands for a number unless a digit of it is not octal, but should be. -/
theorem IsLiteral.denotes_or_stray (h : IsLiteral cs) : (∃ v, Denotes cs v) ∨ HasStrayDigit cs := by
  unfold Denotes
  rw [exists_digitsOf_iff (literalBase_le cs)]
  cases h with
  | marked hm hrun =>
    rw [hm.literalBase_eq]
    exact .inl fun d hd => hm.hexValue?_lt (hrun.forall_mem hm.not_contains d hd)
  | @digits c ds h =>
    have hdigit (d : Char) (hd : d.isDigit = true) : ∃ n, Text.hexValue? d = some n ∧ n < 10 :=
      hexValue?_of_isDigit hd
    by_cases hc : c = '0'
    · subst hc
      cases ds with
      | nil => exact .inl fun d hd => hdigit d (h.forall_mem rfl d hd)
      | cons m ds =>
        by_cases hstray : '8' ∈ m :: ds ∨ '9' ∈ m :: ds
        · exact .inr ⟨m, ds, rfl, h.second, hstray⟩
        · rw [literalBase_of_digit h.second]
          refine .inl fun d hd => ?_
          obtain ⟨h₈, h₉⟩ := not_or.mp hstray
          have hmem := (List.mem_filter.mp hd).1
          have hd := h.tail d hd
          have hne₈ : d.toNat ≠ 56 := fun heq =>
            h₈ ((Char.toNat_inj.mp heq : d = '8') ▸ hmem)
          have hne₉ : d.toNat ≠ 57 := fun heq =>
            h₉ ((Char.toNat_inj.mp heq : d = '9') ▸ hmem)
          have hbounds := isDigit_iff.mp hd
          exact ⟨_, hexValue?_digit hd, by omega⟩
    · rw [literalBase_of_ne hc]
      exact .inl fun d hd => hdigit d (h.forall_mem rfl d hd)

theorem Value.ofNat?_eq_integer {n : Int} :
    Value.ofNat? v = some (.integer n) ↔ v < 2 ^ 63 ∧ n = v := by
  grind [Value.ofNat?]

theorem Value.ofNat?_eq_float {x : Double} :
    Value.ofNat? v = some (.float x) ↔ 2 ^ 63 ≤ v ∧ v < 2 ^ 128 ∧ x = .ofNat v := by
  grind [Value.ofNat?]

theorem Value.ofNat?_eq_none : Value.ofNat? v = none ↔ 2 ^ 128 ≤ v := by
  grind [Value.ofNat?]

/-! ## Numbers in digits -/

theorem toLower_digitChar {d : Nat} (h : d < 10) : (Nat.digitChar d).toLower = Nat.digitChar d := by
  revert d
  decide

theorem DigitsOf.append_digit (h : DigitsOf 10 cs v) {d : Nat} (hd : d < 10) :
    DigitsOf 10 (cs ++ [Nat.digitChar d]) (v * 10 + d) := by
  obtain ⟨ds, hcs, hlt, rfl⟩ := h
  refine ⟨ds ++ [d], ?_, List.forall_mem_append.mpr ⟨hlt, List.forall_mem_singleton.mpr hd⟩, ?_⟩
  · rw [List.map_append, List.map_append, hcs, List.map_singleton, List.map_singleton,
      toLower_digitChar hd]
  · rw [List.reverse_append, List.reverse_singleton, List.singleton_append, Nat.ofDigits_cons,
      Nat.mul_comm, Nat.add_comm]

/-- The digits of a number make it up. -/
theorem digitsOf_toDigits (v : Nat) : DigitsOf 10 (Nat.toDigits 10 v) v := by
  induction v using Nat.strongRecOn with
  | ind v ih =>
    by_cases hv : v < 10
    · rw [Nat.toDigits_of_lt_base hv]
      simpa using DigitsOf.append_digit (digitsOf_nil.mpr rfl) hv
    · rw [Nat.toDigits_of_base_le (by decide) (Nat.le_of_not_lt hv)]
      have hstep := (ih (v / 10) (by omega)).append_digit (Nat.mod_lt v (by decide))
      rwa [Nat.div_add_mod'] at hstep

/-- No number but zero has a zero as its first digit. -/
theorem toDigits_cons (v : Nat) : v = 0 ∨ ∃ c ds, Nat.toDigits 10 v = c :: ds ∧ c ≠ '0' := by
  induction v using Nat.strongRecOn with
  | ind v ih =>
    by_cases hv : v < 10
    · rw [Nat.toDigits_of_lt_base hv]
      by_cases hzero : v = 0
      · exact .inl hzero
      · refine .inr ⟨_, [], rfl, ?_⟩
        rw [Ne, ← Char.toNat_inj, toNat_digitChar (by omega), if_pos hv]
        show 48 + v ≠ 48
        omega
    · rw [Nat.toDigits_of_base_le (by decide) (Nat.le_of_not_lt hv)]
      obtain hzero | ⟨c, ds, hds, hc⟩ := ih (v / 10) (by omega)
      · omega
      · exact .inr ⟨c, ds ++ [Nat.digitChar (v % 10)], by rw [hds]; rfl, hc⟩

theorem literalBase_toDigits (v : Nat) :
    literalBase (Nat.toDigits 10 v) = (10, Nat.toDigits 10 v) := by
  obtain rfl | ⟨c, ds, hds, hc⟩ := toDigits_cons v
  · rfl
  · rw [hds, literalBase_of_ne hc]

theorem contains_of_mem_toDigits (h : c ∈ Nat.toDigits 10 v) :
    Grammar.CharClass.digit.contains c = true :=
  Nat.isDigit_of_mem_toDigits (by decide) (Nat.le_refl 10) h

theorem withoutMarks_toDigits (v : Nat) : withoutMarks (Nat.toDigits 10 v) = Nat.toDigits 10 v := by
  refine List.filter_eq_self.mpr fun c hc => ?_
  simpa using ne_of_contains (contains_of_mem_toDigits hc) (d := '_') rfl

/-- The digits of a number are a literal. -/
theorem isLiteral_toDigits (v : Nat) : IsLiteral (Nat.toDigits 10 v) := by
  have hdigits := fun c => contains_of_mem_toDigits (c := c) (v := v)
  have hmarks := withoutMarks_toDigits v
  cases hds : Nat.toDigits 10 v with
  | nil => exact absurd hds Nat.toDigits_ne_nil
  | cons c ds =>
    rw [hds] at hdigits hmarks
    obtain ⟨hc, hall⟩ := List.forall_mem_cons.mp hdigits
    rw [withoutMarks_cons (ne_of_contains hc rfl), List.cons_inj_right] at hmarks
    exact .digits ⟨hc, by rwa [hmarks], fun hnil => hmarks ▸ hnil⟩

/-- A number in digits stands for itself. -/
theorem denotes_toDigits (v : Nat) : Denotes (Nat.toDigits 10 v) v := by
  unfold Denotes
  rw [literalBase_toDigits, withoutMarks_toDigits]
  exact digitsOf_toDigits v

end

end Number

namespace Grammar

open Number

/-- What the text of a rule looks like, for the rules of integer literals. -/
def Rule.LooksLike : Rule → List Char → Prop
  | .digits, cs => ∃ c ds, cs = c :: ds ∧ IsRun .digit c ds
  | .integer, cs => IsLiteral cs
  | _, _ => True

section

variable {S : Rule → List Char → Prop} {gap : List Char → Prop} {cs : List Char}

theorem isLiteral_of_marked (hgap : ∀ cs, gap cs → cs = []) {p : Pattern}
    {cl : CharClass} (hp : ∀ cs, p.Spells gap S cs → ∃ m base, cs = ['0', m] ∧ Mark m base cl)
    (h : (Pattern.seq p (.seq (.one cl) (.many (.seq (.maybe (.literal ['_']))
      (.one cl))))).Spells gap S cs) : IsLiteral cs := by
  obtain ⟨_, _, _, rfl, hmark, hbetween, hdigits⟩ := h
  obtain rfl := hgap _ hbetween
  obtain ⟨m, _, rfl, hm⟩ := hp _ hmark
  obtain ⟨c, ds, rfl, hrun⟩ := exists_isRun_of_spells hgap hm.not_contains hdigits
  exact .marked hm hrun

theorem isLiteral_of_spells (hgap : ∀ cs, gap cs → cs = [])
    (hdigits : ∀ cs, S .digits cs → ∃ c ds, cs = c :: ds ∧ IsRun .digit c ds)
    (h : (Rule.definition .integer).body.Spells gap S cs) : IsLiteral cs := by
  obtain h | h | h | h := h
  · refine isLiteral_of_marked hgap (fun cs hcs => ?_) h
    obtain rfl | rfl := hcs
    · exact ⟨'x', _, rfl, .hexadecimal (.inl rfl)⟩
    · exact ⟨'X', _, rfl, .hexadecimal (.inr rfl)⟩
  · refine isLiteral_of_marked hgap (fun cs hcs => ?_) h
    obtain rfl | rfl := hcs
    · exact ⟨'b', _, rfl, .binary (.inl rfl)⟩
    · exact ⟨'B', _, rfl, .binary (.inr rfl)⟩
  · refine isLiteral_of_marked hgap (fun cs hcs => ?_) h
    obtain rfl | rfl := hcs
    · exact ⟨'o', _, rfl, .octal (.inl rfl)⟩
    · exact ⟨'O', _, rfl, .octal (.inr rfl)⟩
  · obtain ⟨c, ds, rfl, hrun⟩ := hdigits cs h
    exact .digits hrun

end

theorem Rule.looksLike_of_spells (r : Rule) (cs : List Char)
    (h : r.definition.body.Spells r.gap Rule.LooksLike cs) : r.LooksLike cs := by
  have hgap (hmode : r.definition.mode = .atomic) : ∀ cs, r.gap cs → cs = [] :=
    fun cs hcs => hcs (.inl hmode)
  cases r with
  | digits => exact exists_isRun_of_spells (hgap rfl) rfl h
  | integer => exact isLiteral_of_spells (hgap rfl) (fun _ => id) h
  | _ => trivial

/-- What the grammar reads as an integer literal looks like one. -/
theorem isLiteral_of_takes {e : Extent} (h : Rule.Takes .integer e) : IsLiteral e.chars := by
  obtain ⟨n, sc, s, s', ts, hrun, hstart, hstop⟩ := h
  obtain ⟨cs, hcs, hliteral⟩ := Rule.run_spells Rule.looksLike_of_spells n .integer sc s s' ts hrun
  rw [hstart, hstop] at hcs
  rw [Extent.chars, hcs.textTo_eq]
  exact hliteral

end Grammar

namespace Syntax

open Number

theorem integerKind?_eq_integer {cs : List Char} (h : IsLiteral cs) (n : Int) :
    integerKind? (String.ofList cs) = some (.integer n) ↔
      ∃ v : Nat, Denotes cs v ∧ v < 2 ^ 63 ∧ n = v := by
  simp only [← Value.ofNat?_eq_integer]
  rw [← h.ofInteger?_eq_some_iff, integerKind?, Option.map_eq_some_iff]
  constructor
  · rintro ⟨x, hx, heq⟩
    cases x <;> cases heq
    exact hx
  · exact fun hn => ⟨_, hn, rfl⟩

theorem integerKind?_eq_float {cs : List Char} (h : IsLiteral cs) (x : Double) :
    integerKind? (String.ofList cs) = some (.float x) ↔
      ∃ v : Nat, Denotes cs v ∧ 2 ^ 63 ≤ v ∧ v < 2 ^ 128 ∧ x = .ofNat v := by
  simp only [← Value.ofNat?_eq_float]
  rw [← h.ofInteger?_eq_some_iff, integerKind?, Option.map_eq_some_iff]
  constructor
  · rintro ⟨y, hy, heq⟩
    cases y <;> cases heq
    exact hy
  · exact fun hx => ⟨_, hx, rfl⟩

theorem integerKind?_eq_none {cs : List Char} (h : IsLiteral cs) :
    integerKind? (String.ofList cs) = none ↔
      (∃ v, Denotes cs v ∧ 2 ^ 128 ≤ v) ∨ HasStrayDigit cs := by
  rw [integerKind?, Option.map_eq_none_iff, Option.eq_none_iff_forall_ne_some]
  simp only [Ne, h.ofInteger?_eq_some_iff]
  constructor
  · intro hnone
    refine h.denotes_or_stray.imp_left ?_
    rintro ⟨v, hv⟩
    refine ⟨v, hv, Value.ofNat?_eq_none.mp (Option.eq_none_iff_forall_ne_some.mpr ?_)⟩
    exact fun x hx => hnone x ⟨v, hv, hx⟩
  · rintro (⟨v, hv, hlarge⟩ | hstray) x ⟨w, hw, hx⟩
    · obtain rfl := hv.unique hw
      rw [Value.ofNat?_eq_none.mpr hlarge] at hx
      cases hx
    · exact hstray.not_denotes hw

/-- **Integer literals have their mathematical value.** A text that the grammar reads as an integer
literal stands for one number, or it has a leading zero and a digit that is not octal. The number is
its value as an integer below `2 ^ 63` and as the nearest double from there to `2 ^ 128`; all else
is refused where it stands. And each number that has a value as an integer is the value of its
decimal digits. -/
theorem integerKind?_of_takes :
    (∀ e : Extent, Grammar.Rule.Takes .integer e →
      ((∃! v, Denotes e.chars v) ∧ ¬ HasStrayDigit e.chars ∨
        (¬ ∃ v, Denotes e.chars v) ∧ HasStrayDigit e.chars) ∧
      (∀ n, integerKind? e.text = some (.integer n) ↔
        ∃ v : Nat, Denotes e.chars v ∧ v < 2 ^ 63 ∧ n = v) ∧
      (∀ x, integerKind? e.text = some (.float x) ↔
        ∃ v : Nat, Denotes e.chars v ∧ 2 ^ 63 ≤ v ∧ v < 2 ^ 128 ∧ x = .ofNat v) ∧
      (integerKind? e.text = none ↔
        (∃ v, Denotes e.chars v ∧ 2 ^ 128 ≤ v) ∨ HasStrayDigit e.chars) ∧
      (∀ file next kind, integerKind? e.text = some kind → (integerNode e).run file next =
        (.ok ⟨next, kind, some (e.location file), some (e.span file)⟩, next + 1)) ∧
      (∀ file next, integerKind? e.text = none → (integerNode e).run file next =
        (.error ⟨.badInteger e.text, some (e.location file), some (e.span file)⟩, next))) ∧
    ∀ v : Nat, v < 2 ^ 63 → integerKind? (toString (v : Int)) = some (.integer v) := by
  refine ⟨fun e htakes => ?_, fun v hv => ?_⟩
  · have h := Grammar.isLiteral_of_takes htakes
    refine ⟨?_, integerKind?_eq_integer h, integerKind?_eq_float h, integerKind?_eq_none h, ?_, ?_⟩
    · by_cases hstray : HasStrayDigit e.chars
      · exact .inr ⟨fun ⟨v, hv⟩ => hstray.not_denotes hv, hstray⟩
      · obtain ⟨v, hv⟩ := h.denotes_or_stray.resolve_right hstray
        exact .inl ⟨⟨v, hv, fun w hw => hw.unique hv⟩, hstray⟩
    · intro file next kind hkind
      unfold integerNode
      rw [hkind]
      rfl
    · intro file next hnone
      unfold integerNode
      rw [hnone]
      rfl
  · have htext : toString (v : Int) = String.ofList (Nat.toDigits 10 v) :=
      Nat.repr_eq_ofList_toDigits
    rw [htext]
    exact (integerKind?_eq_integer (isLiteral_toDigits v) v).mpr ⟨v, denotes_toDigits v, hv, rfl⟩

/-- The whole of a text. -/
def wholeOf (text : String) : Extent :=
  ⟨.ofText text, (Cursor.ofText text).forward text.length⟩

theorem integerKind?_marked :
    Grammar.Rule.Takes .integer (wholeOf "0x7F_F") ∧
      integerKind? (wholeOf "0x7F_F").text = some (.integer 2047) ∧
      integerKind? (toString (2047 : Int)) = some (.integer 2047) := by
  have htakes : Grammar.Rule.Takes .integer (wholeOf "0x7F_F") :=
    ⟨8, ⟨.spaced, .none⟩, ⟨.ofText "0x7F_F", [], .none⟩, _, _, rfl, rfl, rfl⟩
  obtain ⟨-, hinteger, -⟩ := integerKind?_of_takes.1 _ htakes
  refine ⟨htakes, (hinteger 2047).mpr ⟨2047, ?_, by decide, rfl⟩,
    integerKind?_of_takes.2 2047 (by decide)⟩
  exact ⟨[7, 15, 15], rfl, by decide, rfl⟩

end Syntax

end ThreeAddress

import Mathlib.Data.String.Basic
import ThreeAddress.Number.Layout
import ThreeAddress.Proofs.Shape
import ThreeAddress.Proofs.Spelling
import ThreeAddress.Text.Blank
import ThreeAddress.Text.Literal

/-!
# Texts on one line

A text without line breaks (`OneLine`). Numbers and string literals are written on one line
whatever their value, and **a name that the grammar reads stands on one line**
(`Grammar.parse_legible`): blanks and comments may hold line breaks, but no token of a name has
them inside.
-/

namespace ThreeAddress

namespace Text

/-- Whether a character ends a line. -/
def isLineBreak (c : Char) : Bool :=
  c == '\n' || c == '\r'

/-- Characters that are tested one by one. -/
theorem unbroken_of_all {cs : List Char} (h : cs.all (!isLineBreak ·) = true) :
    ∀ c ∈ cs, isLineBreak c = false :=
  fun c hc => by simpa using List.all_eq_true.mp h c hc

/-- A text without line breaks. -/
def OneLine (s : String) : Prop :=
  ∀ c ∈ s.toList, isLineBreak c = false

instance : DecidablePred OneLine :=
  fun s => List.decidableBAll _ s.toList

theorem oneLine_ofList {cs : List Char} :
    OneLine (String.ofList cs) ↔ ∀ c ∈ cs, isLineBreak c = false := by
  rw [OneLine, String.toList_ofList]

@[simp] theorem oneLine_append {s t : String} : OneLine (s ++ t) ↔ OneLine s ∧ OneLine t := by
  rw [OneLine, String.toList_append]
  exact List.forall_mem_append

/-- Fewer characters break no line. -/
theorem OneLine.subset {s t : String} (hs : OneLine s) (h : t.toList ⊆ s.toList) : OneLine t :=
  fun c hc => hs c (h hc)

@[simp] theorem oneLine_empty : OneLine "" := by
  decide

theorem oneLine_join {ss : List String} (h : ∀ s ∈ ss, OneLine s) : OneLine (String.join ss) := by
  intro c hc
  rw [String.toList_join] at hc
  obtain ⟨s, hs, hc⟩ := List.mem_flatMap.mp hc
  exact h s hs c hc

theorem oneLine_intercalate {divider : String} {ss : List String} (hd : OneLine divider)
    (h : ∀ s ∈ ss, OneLine s) : OneLine (divider.intercalate ss) := by
  induction ss with
  | nil => exact oneLine_empty
  | cons s ss ih =>
    obtain ⟨hs, hss⟩ := List.forall_mem_cons.mp h
    cases ss with
    | nil => rwa [String.intercalate_singleton]
    | cons t ss =>
      rw [String.intercalate_cons_cons, oneLine_append, oneLine_append]
      exact ⟨⟨hs, hd⟩, ih hss⟩

/-! ## Numbers -/

theorem isLineBreak_of_isDigit {c : Char} (h : c.isDigit = true) : isLineBreak c = false := by
  cases hc : isLineBreak c with
  | false => rfl
  | true =>
    obtain hc | hc := Bool.or_eq_true_iff.mp hc <;> rw [beq_iff_eq.mp hc] at h <;> cases h

theorem toDigits_oneLine (n : Nat) : ∀ c ∈ Nat.toDigits 10 n, isLineBreak c = false :=
  fun _ hc => isLineBreak_of_isDigit (Nat.isDigit_of_mem_toDigits (by decide) (by decide) hc)

@[simp] theorem oneLine_repr_nat (n : Nat) : OneLine n.repr :=
  oneLine_ofList.mpr (toDigits_oneLine n)

@[simp] theorem oneLine_repr_int (n : Int) : OneLine n.repr := by
  cases n with
  | ofNat n => exact oneLine_repr_nat n
  | negSucc n => exact oneLine_append.mpr ⟨by decide, oneLine_repr_nat _⟩

theorem oneLine_positional (d : Decimal) : OneLine (Double.positional d) := by
  have hzeros (n : Nat) : ∀ c ∈ List.replicate n '0', isLineBreak c = false :=
    fun c hc => (List.mem_replicate.mp hc).2 ▸ rfl
  unfold Double.positional
  split
  · refine oneLine_append.mpr ⟨oneLine_ofList.mpr ?_, by decide⟩
    exact List.forall_mem_append.mpr ⟨toDigits_oneLine _, hzeros _⟩
  · have hpadded := List.forall_mem_append.mpr
      ⟨hzeros ((-d.e).toNat + 1 - (Nat.toDigits 10 d.digits).length), toDigits_oneLine d.digits⟩
    refine oneLine_ofList.mpr (List.forall_mem_append.mpr ⟨fun c hc => ?_, ?_⟩)
    · exact hpadded c (List.mem_of_mem_take hc)
    · exact List.forall_mem_cons.mpr ⟨rfl, fun c hc => hpadded c (List.mem_of_mem_drop hc)⟩

theorem oneLine_scientific (d : Decimal) (exponent : Int) :
    OneLine (Double.Layout.listing.scientific d exponent) := by
  have hsign : OneLine (if 0 ≤ exponent then Double.Layout.listing.plus else "") := by
    split <;> decide
  have hmark : OneLine Double.Layout.listing.mark := by
    decide
  have hdigits := toDigits_oneLine d.digits
  unfold Double.Layout.scientific
  cases hd : Nat.toDigits 10 d.digits with
  | nil => exact oneLine_empty
  | cons c cs =>
    rw [hd] at hdigits
    obtain ⟨hc, hcs⟩ := List.forall_mem_cons.mp hdigits
    have hc : OneLine c.toString := oneLine_ofList.mpr (List.forall_mem_singleton.mpr hc)
    cases cs with
    | nil =>
      simp only [oneLine_append]
      exact ⟨⟨⟨⟨hc, by decide⟩, hmark⟩, hsign⟩, oneLine_repr_int _⟩
    | cons c' cs =>
      simp only [oneLine_append]
      exact ⟨⟨⟨⟨⟨hc, by decide⟩, oneLine_ofList.mpr hcs⟩, hmark⟩, hsign⟩, oneLine_repr_int _⟩

/-- A constant is written on one line. -/
@[simp] theorem oneLine_layout (x : Double) : OneLine (Double.Layout.listing.text x) := by
  have hmagnitude : OneLine (Double.Layout.listing.magnitude x) := by
    unfold Double.Layout.magnitude
    simp only []
    split
    · decide
    split
    · decide
    split
    · exact oneLine_positional _
    · exact oneLine_scientific _ _
  unfold Double.Layout.text
  split
  · decide
  split
  · exact oneLine_append.mpr ⟨by decide, hmagnitude⟩
  · exact hmagnitude

/-! ## Literals -/

theorem isLineBreak_of_isControl {c : Char} (h : isControl c = false) : isLineBreak c = false := by
  cases hc : isLineBreak c with
  | false => rfl
  | true =>
    obtain hc | hc := Bool.or_eq_true_iff.mp hc <;> rw [beq_iff_eq.mp hc] at h <;> cases h

theorem twoHexDigits_oneLine (n : Nat) (hn : n < 0xA0) :
    ∀ c ∈ twoHexDigits n, isLineBreak c = false := by
  have h : ∀ n < 0xA0, (twoHexDigits n).all (!isLineBreak ·) = true := by
    decide +kernel
  exact unbroken_of_all (h n hn)

theorem escapeDouble_oneLine (c : Char) : ∀ d ∈ escapeDouble c, isLineBreak d = false := by
  unfold escapeDouble
  split
  iterate 9 exact unbroken_of_all rfl
  split
  · rename_i hc
    refine List.forall_mem_append.mpr ⟨unbroken_of_all rfl, twoHexDigits_oneLine _ ?_⟩
    simp only [isControl, Bool.or_eq_true, Bool.and_eq_true, decide_eq_true_eq] at hc
    omega
  · rename_i hc
    exact List.forall_mem_singleton.mpr (isLineBreak_of_isControl (Bool.not_eq_true _ ▸ hc))

/-- **A string literal never holds a line break.** -/
@[simp] theorem oneLine_literal (value : String) : OneLine (literal value) := by
  unfold literal
  simp only []
  split
  · refine oneLine_ofList.mpr (List.forall_mem_cons.mpr ⟨rfl, ?_⟩)
    refine List.forall_mem_append.mpr ⟨fun d hd => ?_, unbroken_of_all rfl⟩
    obtain ⟨c, -, hd⟩ := List.mem_flatMap.mp hd
    exact escapeDouble_oneLine c d hd
  · rename_i hplain
    refine oneLine_ofList.mpr (List.forall_mem_cons.mpr ⟨rfl, ?_⟩)
    refine List.forall_mem_append.mpr ⟨fun d hd => ?_, unbroken_of_all rfl⟩
    obtain ⟨c, hc, hd⟩ := List.mem_flatMap.mp hd
    have hbreak : isLineBreak c = false := by
      refine isLineBreak_of_isControl (Bool.eq_false_iff.mpr fun hcontrol => hplain ?_)
      exact List.any_eq_true.mpr ⟨c, hc, hcontrol⟩
    unfold escapeSingle at hd
    split at hd
    · obtain rfl | rfl := List.mem_pair.mp hd
      · rfl
      · exact hbreak
    · exact List.mem_singleton.mp hd ▸ hbreak

/-- The text between the expressions of a string is written on one line. -/
@[simp] theorem oneLine_escapeFragment (raw : String) : OneLine (escapeFragment raw) := by
  refine oneLine_ofList.mpr fun d hd => ?_
  obtain ⟨c, -, hd⟩ := List.mem_flatMap.mp hd
  unfold escapeFragmentChar at hd
  split at hd
  · exact unbroken_of_all (by rfl) d hd
  · exact unbroken_of_all (by rfl) d hd
  · exact unbroken_of_all (by rfl) d hd
  · rename_i hr hn _
    obtain rfl := List.mem_singleton.mp hd
    simpa [isLineBreak] using ⟨hn, hr⟩

/-! ## Parts of texts -/

theorem oneLine_withoutBlanks (s : String) : OneLine (withoutBlanks s) := by
  refine oneLine_ofList.mpr fun c hc => ?_
  cases hbreak : isLineBreak c with
  | false => rfl
  | true =>
    have hblank := (List.mem_filter.mp hc).2
    obtain hc | hc := Bool.or_eq_true_iff.mp hbreak <;> rw [beq_iff_eq.mp hc] at hblank <;>
      exact absurd hblank (by decide)

theorem isLineBreak_toLower (c : Char) : isLineBreak c.toLower = isLineBreak c := by
  unfold Char.toLower
  split
  · rename_i h
    have hlow : ∀ d : Char, 'A'.val ≤ d.val → isLineBreak d = false := by
      intro d hd
      cases hbreak : isLineBreak d with
      | false => rfl
      | true =>
        obtain hb | hb := Bool.or_eq_true_iff.mp hbreak <;> rw [beq_iff_eq.mp hb] at hd <;>
          exact absurd hd (by decide)
    rw [hlow c h.1, hlow]
    have h₁ := UInt32.le_iff_toNat_le.mp h.1
    have h₂ := UInt32.le_iff_toNat_le.mp h.2
    refine UInt32.le_iff_toNat_le.mpr ?_
    show 'A'.val.toNat ≤ (c.val + ('a'.val - 'A'.val)).toNat
    rw [UInt32.toNat_add]
    have : 'A'.val.toNat = 65 := rfl
    have : 'Z'.val.toNat = 90 := rfl
    have : ('a'.val - 'A'.val).toNat = 32 := rfl
    omega
  · rfl

theorem oneLine_map_toLower {s : String} (h : OneLine s) : OneLine (s.map Char.toLower) := by
  intro d hd
  rw [String.toList_map] at hd
  obtain ⟨c, hc, rfl⟩ := List.mem_map.mp hd
  rw [isLineBreak_toLower]
  exact h c hc

theorem mem_of_mem_go₂ {cs : List Char} {i e : String.Pos.Raw} {c : Char}
    (h : c ∈ String.Pos.Raw.extract.go₂ cs i e) : c ∈ cs := by
  induction cs generalizing i with
  | nil => exact h
  | cons d cs ih =>
    rw [String.Pos.Raw.extract.go₂] at h
    split at h
    · cases h
    · exact List.mem_cons.mpr ((List.mem_cons.mp h).imp id ih)

theorem mem_of_mem_go₁ {cs : List Char} {i b e : String.Pos.Raw} {c : Char}
    (h : c ∈ String.Pos.Raw.extract.go₁ cs i b e) : c ∈ cs := by
  induction cs generalizing i with
  | nil => exact h
  | cons d cs ih =>
    rw [String.Pos.Raw.extract.go₁] at h
    split at h
    · exact mem_of_mem_go₂ h
    · exact List.mem_cons_of_mem _ (ih h)

/-- A stretch of a text has no other characters. -/
theorem toList_extract_subset (s : String) (b e : String.Pos.Raw) :
    (String.Pos.Raw.extract s b e).toList ⊆ s.toList := by
  intro c hc
  have heq : (String.Pos.Raw.extract s b e).toList = if b.byteIdx ≥ e.byteIdx then []
      else String.Pos.Raw.extract.go₁ s.toList 0 b e := by
    by_cases h : b.byteIdx ≥ e.byteIdx <;> simp [String.Pos.Raw.extract, h]
  rw [heq] at hc
  split at hc
  · cases hc
  · exact mem_of_mem_go₁ hc

/-- The pieces of a text on one line stand on one line. -/
theorem oneLine_of_mem_splitOn {s divider piece : String} (hs : OneLine s)
    (h : piece ∈ s.splitOn divider) : OneLine piece := by
  have haux (b i j : String.Pos.Raw) (r : List String) (hr : ∀ p ∈ r, OneLine p) :
      ∀ p ∈ s.splitOnAux divider b i j r, OneLine p := by
    have hpiece (b e : String.Pos.Raw) : OneLine (String.Pos.Raw.extract s b e) :=
      hs.subset (toList_extract_subset s b e)
    fun_induction String.splitOnAux s divider b i j r with
    | case1 b i j r =>
      intro p hp
      obtain rfl | hp := List.mem_cons.mp (List.mem_reverse.mp hp)
      · exact hpiece _ _
      · exact hr p hp
    | case2 b i j r _ _ _ _ _ ih => exact ih (List.forall_mem_cons.mpr ⟨hpiece _ _, hr⟩)
    | case3 b i j r _ _ _ _ _ ih => exact ih hr
    | case4 b i j r _ _ ih => exact ih hr
  unfold String.splitOn at h
  split at h
  · exact List.mem_singleton.mp h ▸ hs
  · exact haux _ _ _ _ (List.forall_mem_nil _) piece h

end Text

/-! ## The words of the grammar -/

namespace Grammar

open Text (isLineBreak OneLine)

/-- Whether a text that the pattern spells has no line break, if the given rules have none.
Where blanks count, nothing stands between the parts. -/
def Pattern.isOneLine (tight : Bool) (known : Rule → Bool) : Pattern → Bool
  | .one c => !c.contains '\n' && !c.contains '\r'
  | .literal text | .caseless text => text.all (!isLineBreak ·)
  | .rule r => known r
  | .seq p q => tight && p.isOneLine tight known && q.isOneLine tight known
  | .alt p q => p.isOneLine tight known && q.isOneLine tight known
  | .many p => tight && p.isOneLine tight known
  | .maybe p | .push p => p.isOneLine tight known
  | .peek | .pop => false
  | _ => true

theorem Pattern.isOneLine_spells {gap : List Char → Prop} {S : Rule → List Char → Prop}
    {tight : Bool} {known : Rule → Bool} (hgap : tight = true → ∀ cs, gap cs → cs = [])
    (hS : ∀ r cs, S r cs → known r = true → ∀ c ∈ cs, isLineBreak c = false) {p : Pattern}
    (hp : p.isOneLine tight known = true) {cs : List Char} (h : p.Spells gap S cs) :
    ∀ c ∈ cs, isLineBreak c = false := by
  induction p generalizing cs with
  | one k =>
    obtain ⟨x, rfl, hx⟩ := h
    refine List.forall_mem_singleton.mpr (Bool.eq_false_iff.mpr fun hbreak => ?_)
    obtain hb | hb := Bool.or_eq_true_iff.mp hbreak <;> rw [beq_iff_eq.mp hb] at hx <;>
      simp [isOneLine, hx] at hp
  | literal text =>
    obtain rfl := h
    simpa [isOneLine] using hp
  | caseless text =>
    intro c hc
    have hlower : c.toLower ∈ text.map Char.toLower := h ▸ List.mem_map_of_mem hc
    obtain ⟨d, hd, hsame⟩ := List.mem_map.mp hlower
    rw [← Text.isLineBreak_toLower, ← hsame, Text.isLineBreak_toLower]
    simpa using List.all_eq_true.mp hp d hd
  | rule r => exact hS r cs h hp
  | seq p q ihp ihq =>
    obtain ⟨front, between, back, rfl, hfront, hbetween, hback⟩ := h
    simp only [isOneLine, Bool.and_eq_true] at hp
    obtain rfl := hgap hp.1.1 between hbetween
    exact List.forall_mem_append.mpr ⟨ihp hp.1.2 hfront, ihq hp.2 hback⟩
  | alt p q ihp ihq =>
    obtain ⟨hp, hq⟩ := Bool.and_eq_true_iff.mp hp
    exact h.elim (ihp hp) (ihq hq)
  | many p ih =>
    obtain ⟨htight, hp⟩ := Bool.and_eq_true_iff.mp hp
    obtain ⟨css, rfl, hcss⟩ := h
    intro c hc
    obtain ⟨ds, hds, hc⟩ := List.mem_flatten.mp hc
    obtain hspells | hblank := hcss ds hds
    · exact ih hp hspells c hc
    · rw [hgap htight ds hblank] at hc
      cases hc
  | maybe p ih =>
    obtain rfl | h := h
    · exact List.forall_mem_nil _
    · exact ih hp h
  | push p ih => exact ih hp h
  | peek | pop => cases hp
  | _ =>
    obtain rfl := h
    exact List.forall_mem_nil _

/-- The rules whose text is a name or a single word. -/
def Rule.isWord : Rule → Bool
  | .identifier | .qualifiedName | .groupPrefix | .variableName | .magicConst | .interpKey
  | .useKind | .classModifier | .memberModifier | .keyword _ => true
  | _ => false

/-- A word has no line break inside. -/
theorem Rule.oneLine_of_spells (r : Rule) (cs : List Char)
    (h : r.definition.body.Spells r.gap
      (fun r cs => r.isWord = true → ∀ c ∈ cs, isLineBreak c = false) cs) :
    r.isWord = true → ∀ c ∈ cs, isLineBreak c = false := by
  intro hr
  have hbody : r.definition.body.isOneLine
      (r.definition.mode == .atomic || r.definition.mode == .compound) Rule.isWord = true := by
    cases r with
    | keyword k => cases k <;> decide
    | identifier | qualifiedName | groupPrefix | variableName | magicConst | interpKey | useKind
    | classModifier | memberModifier => decide
    | _ => cases hr
  refine Pattern.isOneLine_spells (fun htight cs hcs => hcs ?_) (fun _ _ h hr => h hr) hbody h
  simpa using htight

/-- All words in the tree stand on one line. -/
inductive Legible : ParseTree → Prop
  | intro {t : ParseTree} : (t.rule.isWord = true → OneLine t.extent.text) →
      (∀ u ∈ t.children, Legible u) → Legible t

/-- **The words of a text that the grammar matches stand on one line each.** -/
theorem parse_legible {text : String} {t : ParseTree} (h : parse text = .tree t) : Legible t := by
  have htree {n : Nat} {r : Rule} {sc : Scope} {s s' : State} {ts : List ParseTree}
      (h : Rule.run n r sc s = .matched s' ts) : Shaped Legible sc (.rule r) ts := by
    refine Rule.run_matched (fun {n sc r s s' ts} hbody _ hlegible => .intro (fun hr => ?_) hlegible) h
    obtain ⟨cs, hcs, hspells⟩ := Pattern.run_spells between_reads
      (fun q => Rule.run_spells Rule.oneLine_of_spells n q _) _ _ _ _ hbody
    have hchars : (⟨s.cursor, s'.cursor⟩ : Extent).chars = cs := hcs.textTo_eq
    exact Text.oneLine_ofList.mpr (hchars ▸ r.oneLine_of_spells cs hspells hr)
  unfold parse parseWithin at h
  cases hr : Rule.run (boundFor text.length) .script ⟨.spaced, .none⟩ ⟨.ofText text, [], .none⟩ with
  | failed a | exhausted => simp [hr] at h
  | matched s ts =>
    obtain ⟨hone, hlegible⟩ := htree hr
    obtain ⟨u, rfl, -⟩ := hone nofun
    simp only [hr, Parse.tree.injEq] at h
    exact h ▸ hlegible u List.mem_cons_self

end Grammar

end ThreeAddress

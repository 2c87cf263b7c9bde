import ThreeAddress.Proofs.PhraseParsing

/-!
# Phrases that are spelled like others

Two signs that stand together are one longer sign, and an arrow is followed by a member of the
operand right before it, whatever a phrase means. So the text of a phrase that is not legible is
also the text of a legible phrase (`respell`, `reach`), or it is no expression at all. A phrase that
is spelled like another one has fewer tokens, or others, so **a node is read back from the text of a
phrase only if the phrase is legible** (`readsBack_iff`, `not_readsBack_member`).
-/

namespace ThreeAddress.Syntax

open Lowering (arrow)

/-- The operator of two signs. -/
def Front.doubled : Front → Front
  | .plus => .preInc
  | .minus => .preDec
  | f => f

namespace Phrase

theorem text_ne_nil (p : Phrase) : p.text ≠ [] := by
  obtain ⟨c, cs, htext, -⟩ := Grammar.text_phrase_starts p
  rw [htext]
  exact List.cons_ne_nil c cs

/-- What follows a phrase does not change how it starts. -/
theorem head?_text_append (p : Phrase) (cs : List Char) : (p.text ++ cs).head? = p.text.head? := by
  rw [List.head?_append_of_ne_nil _ p.text_ne_nil]

/-! ## Glued signs -/

/-- The phrase that is spelled like a sign and then the phrase. -/
def glue (f : Front) : Phrase → Phrase
  | .before g p =>
    if g = f then .before f.doubled p
    else if g = f.doubled then .before g (p.glue f)
    else .before f (.before g p)
  | .after p b => .after (p.glue f) b
  | .between l o r => .between (l.glue f) o r
  | .choice c y n => .choice (c.glue f) y n
  | p => .before f p

/-- The phrase that is spelled like the phrase, with its signs as they are read. -/
def respell : Phrase → Phrase
  | .var x => .var x
  | .group p => .group p.respell
  | .member p safe x => .member p.respell safe x
  | .before f p => if f.sign? = none then .before f p.respell else p.respell.glue f
  | .after p b => .after p.respell b
  | .between l o r => .between l.respell o r.respell
  | .choice c y n => .choice c.respell y.respell n.respell

/-- Members are taken of what is one operand. -/
def Direct : Phrase → Prop
  | .var _ => True
  | .group p | .before _ p | .after p _ => p.Direct
  | .member p _ _ => p.isPrimary = true ∧ p.Direct
  | .between l _ r => l.Direct ∧ r.Direct
  | .choice c y n => c.Direct ∧ y.Direct ∧ n.Direct

/-- The operator after the last operand. -/
def lastBack? : Phrase → Option Back
  | .var _ | .group _ | .member _ _ _ => none
  | .after _ b => some b
  | .before _ p => p.lastBack?
  | .between _ _ r => r.lastBack?
  | .choice _ _ n => n.lastBack?

section

variable {f : Front} {p q : Phrase}

theorem glue_before (f g : Front) (p : Phrase) : (before g p).glue f =
    if g = f then before f.doubled p
    else if g = f.doubled then before g (p.glue f) else before f (before g p) :=
  rfl

theorem respell_before (f : Front) (p : Phrase) : (before f p).respell =
    if f.sign? = none then before f p.respell else p.respell.glue f :=
  rfl

theorem eq_of_sign? (hf : f.sign? ≠ none) : f = .plus ∨ f = .minus := by
  cases f <;> first | exact .inl rfl | exact .inr rfl | exact absurd rfl hf

theorem text_glue (hf : f.sign? ≠ none) (p : Phrase) :
    (p.glue f).text = f.text.toList ++ p.text := by
  induction p with
  | before g p ih =>
    rw [glue_before]
    split_ifs with hg hg'
    · obtain rfl | rfl := eq_of_sign? hf <;> rw [hg] <;> rfl
    · rw [text, ih, hg']
      obtain rfl | rfl := eq_of_sign? hf <;> rfl
    · rfl
  | after p b ih | between l o r ih | choice c y n ih =>
    exact (congrArg (· ++ _) ih).trans (List.append_assoc _ _ _)
  | _ => rfl

/-- An operator of other signs does not start like the sign. -/
theorem head?_text_before {g : Front} (hf : f.sign? ≠ none) (hg : g ≠ f) (hg' : g ≠ f.doubled)
    (p : Phrase) : (before g p).text.head? ≠ f.sign? := by
  cases g with
  | cast type =>
    have hhead : (before (.cast type) p).text.head? = some '(' := by cases type <;> rfl
    rw [hhead]
    obtain rfl | rfl := eq_of_sign? hf <;> exact nofun
  | _ =>
    obtain rfl | rfl := eq_of_sign? hf <;>
      first | exact absurd rfl hg | exact absurd rfl hg' | (intro h; cases h)

theorem head?_text_primary (hp : p.isPrimary = true) (hlegible : p.Legible) (f : Front) :
    p.text.head? ≠ f.sign? := by
  induction p with
  | var x | group p => cases f <;> exact fun h => nomatch h
  | member p safe x ih =>
    rw [text, head?_text_append]
    exact ih hlegible.1 hlegible.2
  | _ => cases hp

theorem legible_glue (hf : f.sign? ≠ none) (hp : p.Legible) : (p.glue f).Legible := by
  have hdoubled : f.doubled.sign? = none := by
    obtain rfl | rfl := eq_of_sign? hf <;> rfl
  induction p with
  | before g p ih =>
    rw [glue_before]
    split_ifs with hg hg'
    · exact ⟨.inl hdoubled, hp.2⟩
    · exact ⟨.inl (hg' ▸ hdoubled), ih hp.2⟩
    · exact ⟨.inr (head?_text_before hf hg hg' p), hp⟩
  | after p b ih => exact ih hp
  | between l o r ih => exact ⟨ih hp.1, hp.2⟩
  | choice c y n ih => exact ⟨ih hp.1, hp.2⟩
  | var x | group p | member p safe x => exact ⟨.inr (head?_text_primary rfl hp f), hp⟩

theorem named_glue (hp : p.term.Named) : (p.glue f).term.Named := by
  induction p with
  | before g p ih =>
    rw [glue_before]
    split_ifs
    · exact hp
    · exact ih hp
    · exact hp
  | after p b ih =>
    cases b with
    | isA owner => exact ⟨ih hp.1, hp.2⟩
    | _ => exact ih hp
  | between l o r ih => exact ⟨ih hp.1, hp.2⟩
  | choice c y n ih => exact ⟨ih hp.1, hp.2⟩
  | _ => exact hp

theorem lastBack?_glue (f : Front) (p : Phrase) : (p.glue f).lastBack? = p.lastBack? := by
  induction p with
  | before g p ih =>
    rw [glue_before]
    split_ifs
    · rfl
    · exact ih
    · rfl
  | _ => rfl

theorem text_respell (p : Phrase) : p.respell.text = p.text := by
  induction p with
  | var x => rfl
  | group p ih => exact congrArg (fun cs => '(' :: (cs ++ [')'])) ih
  | member p safe x ih => exact congrArg (· ++ _) ih
  | before f p ih =>
    rw [respell_before]
    split_ifs with hf
    · exact congrArg (_ ++ ·) ih
    · rw [text_glue hf, ih]
      rfl
  | after p b ih => exact congrArg (· ++ _) ih
  | between l o r ihl ihr =>
    show l.respell.text ++ (' ' :: (o.token.toList ++ ' ' :: r.respell.text)) = _
    rw [ihl, ihr]
    rfl
  | choice c y n ihc ihy ihn =>
    show c.respell.text ++ (_ ++ (y.respell.text ++ (_ ++ n.respell.text))) = _
    rw [ihc, ihy, ihn]
    rfl

theorem isPrimary_glue (f : Front) (p : Phrase) : (p.glue f).isPrimary = false := by
  cases p with
  | before g p =>
    rw [glue_before]
    split_ifs <;> rfl
  | _ => rfl

theorem isPrimary_respell (p : Phrase) : p.respell.isPrimary = p.isPrimary := by
  cases p with
  | before f p =>
    rw [respell_before]
    split_ifs
    · rfl
    · exact isPrimary_glue f p.respell
  | _ => rfl

/-- **Every phrase with direct members is spelled like a legible one.** -/
theorem legible_respell (hp : p.Direct) : p.respell.Legible := by
  induction p with
  | var x => trivial
  | group p ih => exact ih hp
  | member p safe x ih => exact ⟨p.isPrimary_respell.trans hp.1, ih hp.2⟩
  | before f p ih =>
    rw [respell_before]
    split_ifs with hf
    · exact ⟨.inl hf, ih hp⟩
    · exact legible_glue hf (ih hp)
  | after p b ih => exact ih hp
  | between l o r ihl ihr => exact ⟨ihl hp.1, ihr hp.2⟩
  | choice c y n ihc ihy ihn => exact ⟨ihc hp.1, ihy hp.2.1, ihn hp.2.2⟩

theorem named_respell (hp : p.term.Named) : p.respell.term.Named := by
  induction p with
  | var x => exact hp
  | group p ih => exact ih hp
  | member p safe x ih => exact ⟨ih hp.1, hp.2⟩
  | before f p ih =>
    rw [respell_before]
    split_ifs
    · exact ih hp
    · exact named_glue (ih hp)
  | after p b ih =>
    cases b with
    | isA owner => exact ⟨ih hp.1, hp.2⟩
    | _ => exact ih hp
  | between l o r ihl ihr => exact ⟨ihl hp.1, ihr hp.2⟩
  | choice c y n ihc ihy ihn => exact ⟨ihc hp.1, ihy hp.2.1, ihn hp.2.2⟩

theorem lastBack?_respell (p : Phrase) : p.respell.lastBack? = p.lastBack? := by
  induction p with
  | before f p ih =>
    rw [respell_before]
    split_ifs
    · exact ih
    · rw [lastBack?_glue, ih]
      rfl
  | between l o r _ ih => exact ih
  | choice c y n _ _ ih => exact ih
  | _ => rfl

end

/-! ## Weights -/

/-- The first weights are those of a phrase that is spelled like one with the second weights: there
is less in all, or the same at every place. -/
structure Lighter (xs ys : List Nat) : Prop where
  sum_le : xs.sum ≤ ys.sum
  eq_of_sum : xs.sum = ys.sum → xs = ys

namespace Lighter

variable {xs xs' ys ys' : List Nat} {a b : Nat}

theorem refl (xs : List Nat) : Lighter xs xs :=
  ⟨Nat.le_refl _, fun _ => rfl⟩

theorem cons (hab : a ≤ b) (h : Lighter xs ys) : Lighter (a :: xs) (b :: ys) := by
  obtain ⟨hle, heq⟩ := h
  refine ⟨by simp only [List.sum_cons]; omega, fun hsum => ?_⟩
  simp only [List.sum_cons] at hsum
  rw [heq (by omega), show a = b by omega]

theorem append (h : Lighter xs ys) (h' : Lighter xs' ys') : Lighter (xs ++ xs') (ys ++ ys') := by
  obtain ⟨hle, heq⟩ := h
  obtain ⟨hle', heq'⟩ := h'
  refine ⟨by simp only [List.sum_append]; omega, fun hsum => ?_⟩
  simp only [List.sum_append] at hsum
  rw [heq (by omega), heq' (by omega)]

theorem trans {zs : List Nat} (h : Lighter xs ys) (h' : Lighter ys zs) : Lighter xs zs :=
  ⟨Nat.le_trans h.1 h'.1, fun hsum => by
    have hle := h.1
    have hle' := h'.1
    rw [h.2 (by omega), h'.2 (by omega)]⟩

/-- If two lists are the same around an operator, so are their parts. -/
theorem append_inj (h : Lighter xs ys) (hab : a ≤ b) (h' : Lighter xs' ys')
    (heq : xs ++ a :: xs' = ys ++ b :: ys') : xs.length = ys.length := by
  have hsum := congrArg List.sum heq
  simp only [List.sum_append, List.sum_cons] at hsum
  have hle := h.1
  have hle' := h'.1
  rw [h.2 (by omega)]

end Lighter

section

variable {f : Front} {p : Phrase}

/-- The weights of the tokens that are read. -/
def readWeights (p : Phrase) : List Nat :=
  p.tokens.map Token.weight

theorem lighter_glue (f : Front) (p : Phrase) : Lighter (p.glue f).readWeights (1 :: p.readWeights) := by
  induction p with
  | before g p ih =>
    rw [glue_before]
    split_ifs
    · refine ⟨?_, fun hsum => ?_⟩
      · show (1 :: p.readWeights).sum ≤ (1 :: 1 :: p.readWeights).sum
        simp only [List.sum_cons]
        omega
      · have hsum : (1 :: p.readWeights).sum = (1 :: 1 :: p.readWeights).sum := hsum
        simp only [List.sum_cons] at hsum
        omega
    · exact ih.cons (Nat.le_refl 1)
    · exact .refl _
  | after p b ih =>
    simp only [readWeights, glue, tokens, List.map_append] at ih ⊢
    exact ih.append (.refl _)
  | between l o r ih =>
    simp only [readWeights, glue, tokens, List.map_append] at ih ⊢
    exact ih.append (.refl _)
  | choice c y n ih =>
    simp only [readWeights, glue, tokens, List.map_append] at ih ⊢
    exact ih.append (.refl _)
  | _ => exact .refl _

/-- What is read of the text has no more weight than what was meant. -/
theorem lighter_respell (p : Phrase) : Lighter p.respell.readWeights p.tree.weights := by
  have hweight {p : Phrase} (h : Lighter p.respell.readWeights p.tree.weights) :
      (regroup p.respell.tokens).weight ≤ p.term.weight := by
    rw [weight_regroup_eq_sum, weight_term_eq_sum]
    exact h.1
  induction p with
  | var x => exact .refl _
  | group p ih => exact .cons (hweight ih) (.refl [])
  | member p safe x ih =>
    have hle := hweight ih
    have hmember : 2 * (regroup p.respell.tokens).weight + 1 ≤ 2 * p.term.weight + 1 := by omega
    exact .cons hmember (.refl [])
  | before f p ih =>
    rw [respell_before]
    split_ifs
    · exact ih.cons (Nat.le_refl 1)
    · exact (lighter_glue f p.respell).trans (ih.cons (Nat.le_refl 1))
  | after p b ih =>
    simp only [readWeights, respell, tokens, tree, OperatorTree.weights_after, List.map_append]
      at ih ⊢
    exact ih.append (.refl _)
  | between l o r ihl ihr =>
    simp only [readWeights, respell, tokens, tree, OperatorTree.weights_between, List.map_append]
      at ihl ihr ⊢
    exact ihl.append (ihr.cons (Nat.le_refl _))
  | choice c y n ihc ihy ihn =>
    simp only [readWeights, respell, tokens, tree, OperatorTree.weights_between, List.map_append]
      at ihc ihn ⊢
    exact ihc.append (ihn.cons (Nat.succ_le_succ (hweight ihy)))

/-- If the text is read as what was meant, its tokens are those that were meant. -/
theorem tokens_respell_of_regroup (h : regroup p.respell.tokens = p.term) :
    p.respell.tokens = p.tree.tokens := by
  have hsum := congrArg Term.weight h
  rw [weight_regroup_eq_sum, weight_term_eq_sum] at hsum
  exact (fits_of_regroup_eq h (p.lighter_respell.2 hsum)).2

theorem tokens_ne_nil (p : Phrase) : p.tokens ≠ [] := by
  cases p <;> simp [tokens]

/-- A sign that is a token of its own stands before something else. -/
theorem of_tokens_glue (hf : f.sign? ≠ none) (hp : p.Legible) {as : List Token}
    (h : (p.glue f).tokens = .front f :: as) : p.tokens = as ∧ p.text.head? ≠ f.sign? := by
  have hdoubled : f.doubled ≠ f := by
    obtain rfl | rfl := eq_of_sign? hf <;> exact nofun
  have htokens {bs cs : List Token} {p : Phrase} (hp : ∀ {as}, (p.glue f).tokens = .front f :: as →
      p.tokens = as ∧ p.text.head? ≠ f.sign?) (h : (p.glue f).tokens ++ bs = .front f :: cs) :
      p.tokens ++ bs = cs ∧ p.text.head? ≠ f.sign? := by
    obtain ⟨a, as, hglue⟩ := List.exists_cons_of_ne_nil (p.glue f).tokens_ne_nil
    rw [hglue, List.cons_append, List.cons.injEq] at h
    obtain ⟨rfl, rfl⟩ := h
    obtain ⟨rfl, hhead⟩ := hp hglue
    exact ⟨rfl, hhead⟩
  induction p generalizing as with
  | before g p ih =>
    rw [glue_before] at h
    split_ifs at h with hg hg'
    · exact absurd (Token.front.inj (List.cons.inj h).1) hdoubled
    · exact absurd ((Token.front.inj (List.cons.inj h).1).symm.trans hg').symm hdoubled
    · exact ⟨(List.cons.inj h).2, head?_text_before hf hg hg' p⟩
  | after p b ih =>
    rw [text, head?_text_append]
    exact htokens (fun h => ih hp h) h
  | between l o r ih =>
    rw [text, head?_text_append]
    exact htokens (fun h => ih hp.1 h) h
  | choice c y n ih =>
    rw [text, head?_text_append]
    exact htokens (fun h => ih hp.1 h) h
  | var x | group p | member p safe x =>
    exact ⟨(List.cons.inj h).2, head?_text_primary rfl hp f⟩

/-- **If the tokens of the text are those that were meant, the phrase is legible.** -/
theorem legible_of_tokens_respell (hp : p.Direct) (h : p.respell.tokens = p.tree.tokens) :
    p.Legible := by
  induction p with
  | var x => trivial
  | group p ih =>
    exact ih hp (tokens_respell_of_regroup (Token.operand.inj (List.cons.inj h).1))
  | member p safe x ih =>
    obtain ⟨hmember, -⟩ := List.cons.inj h
    exact ⟨hp.1, ih hp.2 (tokens_respell_of_regroup (Term.member.inj (Token.operand.inj hmember)).1)⟩
  | before f p ih =>
    rw [respell_before] at h
    split_ifs at h with hf
    · exact ⟨.inl hf, ih hp (List.cons.inj h).2⟩
    · have hlegible : p.respell.Legible := legible_respell hp
      obtain ⟨htokens, hhead⟩ := of_tokens_glue hf hlegible h
      rw [text_respell] at hhead
      exact ⟨.inr hhead, ih hp htokens⟩
  | after p b ih => exact ih hp (List.append_inj_left' h rfl)
  | between l o r ihl ihr =>
    have hweights := congrArg (List.map Token.weight) h
    simp only [respell, tokens, tree, OperatorTree.tokens, List.map_append, List.map_cons]
      at hweights
    have hlength := l.lighter_respell.append_inj (Nat.le_refl _) r.lighter_respell hweights
    obtain ⟨hl, hr⟩ := List.append_inj h (by simpa [readWeights, OperatorTree.weights] using hlength)
    exact ⟨ihl hp.1 hl, ihr hp.2 (List.cons.inj hr).2⟩
  | choice c y n ihc ihy ihn =>
    have hweights := congrArg (List.map Token.weight) h
    simp only [respell, tokens, tree, OperatorTree.tokens, List.map_append, List.map_cons]
      at hweights
    have hy : (Token.choice (regroup y.respell.tokens)).weight ≤ (Token.choice y.term).weight := by
      refine Nat.succ_le_succ ?_
      rw [weight_regroup_eq_sum, weight_term_eq_sum]
      exact y.lighter_respell.1
    have hlength := c.lighter_respell.append_inj hy n.lighter_respell hweights
    obtain ⟨hc, hn⟩ := List.append_inj h (by simpa [readWeights, OperatorTree.weights] using hlength)
    obtain ⟨hyes, hn⟩ := List.cons.inj hn
    exact ⟨ihc hp.1 hc, ihy hp.2.1 (tokens_respell_of_regroup (Token.choice.inj hyes)),
      ihn hp.2.2 hn⟩

/-- **A node that was written as a phrase with direct members is read back if and only if the phrase
is legible and every operator is where the table of powers expects it.** -/
theorem readsBack_iff (hdirect : p.Direct) (hnamed : p.term.Named) {n : Node} (hn : p.term.Is n) :
    ReadsBack (.ofList p.text) n ↔ p.Legible ∧ p.Kept 0 := by
  constructor
  · intro hback
    have hrespell := hback
    rw [← text_respell, readsBack_iff_regroup (legible_respell hdirect) (named_respell hnamed) hn]
      at hrespell
    have hlegible := legible_of_tokens_respell hdirect (tokens_respell_of_regroup hrespell)
    exact ⟨hlegible, (readsBack_iff_kept hlegible hnamed hn).mp hback⟩
  · rintro ⟨hlegible, hkept⟩
    exact (readsBack_iff_kept hlegible hnamed hn).mpr hkept

end

/-! ## Members of operands that are not one -/

/-- The phrase that is spelled like a member of the phrase, if there is one: the arrow takes the
last operand only. -/
def reach (safe : Bool) (x : String) : Phrase → Option Phrase
  | .before f p => (p.reach safe x).map (.before f)
  | .after _ _ => none
  | .between l o r => (r.reach safe x).map (.between l o)
  | .choice c y n => (n.reach safe x).map (.choice c y)
  | p => some (.member p safe x)

section

variable {safe : Bool} {x : String} {p q : Phrase}

theorem text_reach (h : p.reach safe x = some q) : q.text = (member p safe x).text := by
  induction p generalizing q with
  | before f p ih =>
    obtain ⟨q, hq, rfl⟩ := Option.map_eq_some_iff.mp h
    simp [text, ih hq]
  | after p b => cases h
  | between l o r _ ih =>
    obtain ⟨q, hq, rfl⟩ := Option.map_eq_some_iff.mp h
    simp [text, ih hq]
  | choice c y n _ _ ih =>
    obtain ⟨q, hq, rfl⟩ := Option.map_eq_some_iff.mp h
    simp [text, ih hq]
  | _ =>
    obtain rfl := Option.some.inj h
    rfl

theorem legible_reach (hp : p.Legible) (h : p.reach safe x = some q) : q.Legible := by
  induction p generalizing q with
  | before f p ih =>
    obtain ⟨q, hq, rfl⟩ := Option.map_eq_some_iff.mp h
    refine ⟨hp.1.imp_right fun hhead => ?_, ih hp.2 hq⟩
    rw [text_reach hq, text, head?_text_append]
    exact hhead
  | after p b => cases h
  | between l o r _ ih =>
    obtain ⟨q, hq, rfl⟩ := Option.map_eq_some_iff.mp h
    exact ⟨hp.1, ih hp.2 hq⟩
  | choice c y n _ _ ih =>
    obtain ⟨q, hq, rfl⟩ := Option.map_eq_some_iff.mp h
    exact ⟨hp.1, hp.2.1, ih hp.2.2 hq⟩
  | _ =>
    obtain rfl := Option.some.inj h
    exact ⟨rfl, hp⟩

theorem named_reach (hp : p.term.Named) (hx : isName x.toList = true)
    (h : p.reach safe x = some q) : q.term.Named := by
  induction p generalizing q with
  | before f p ih =>
    obtain ⟨q, hq, rfl⟩ := Option.map_eq_some_iff.mp h
    have hnamed : q.term.Named := ih hp hq
    exact hnamed
  | after p b => cases h
  | between l o r _ ih =>
    obtain ⟨q, hq, rfl⟩ := Option.map_eq_some_iff.mp h
    exact ⟨hp.1, ih hp.2 hq⟩
  | choice c y n _ _ ih =>
    obtain ⟨q, hq, rfl⟩ := Option.map_eq_some_iff.mp h
    exact ⟨hp.1, hp.2.1, ih hp.2.2 hq⟩
  | _ =>
    obtain rfl := Option.some.inj h
    exact ⟨hp, hx⟩

/-- A member of an operand has less weight than a member of the whole phrase. -/
theorem weight_reach (h : p.reach safe x = some q) : q.term.weight ≤ 2 * p.term.weight + 1 ∧
    (p.isPrimary = false → q.term.weight < 2 * p.term.weight + 1) := by
  induction p generalizing q with
  | before f p ih =>
    obtain ⟨q, hq, rfl⟩ := Option.map_eq_some_iff.mp h
    have hle := (ih hq).1
    simp only [term, Term.weight]
    omega
  | after p b => cases h
  | between l o r _ ih =>
    obtain ⟨q, hq, rfl⟩ := Option.map_eq_some_iff.mp h
    have hle := (ih hq).1
    simp only [term, Term.weight]
    omega
  | choice c y n _ _ ih =>
    obtain ⟨q, hq, rfl⟩ := Option.map_eq_some_iff.mp h
    have hle := (ih hq).1
    simp only [term, Term.weight]
    omega
  | _ =>
    obtain rfl := Option.some.inj h
    refine ⟨Nat.le_refl _, ?_⟩
    rintro ⟨⟩

/-- Nothing is accessed of an operand with an operator after it. -/
theorem exists_lastBack (h : p.reach safe x = none) : ∃ b, p.lastBack? = some b := by
  induction p with
  | before f p ih => exact ih (Option.map_eq_none_iff.mp h)
  | after p b => exact ⟨b, rfl⟩
  | between l o r _ ih => exact ih (Option.map_eq_none_iff.mp h)
  | choice c y n _ _ ih => exact ih (Option.map_eq_none_iff.mp h)
  | _ => cases h

end

end Phrase

end ThreeAddress.Syntax

namespace ThreeAddress.Grammar

open Pattern Syntax
open Lowering (arrow)

/-! ## Texts that are no expression -/

/-- An arrow goes on with no expression. -/
theorem glance_afterExpression (safe : Bool) :
    previewBlanks 20 false (arrow safe).toList = .matched 0 (arrow safe).toList [] ∧
    postfixOperator.glance false ((arrow safe).toList ++ ['$']) = .failed ∧
    link.glance false ((arrow safe).toList ++ ['$']) = .failed ∧
    endOfStatement.glance false ((arrow safe).toList ++ ['$']) = .failed := by
  cases safe <;> decide +kernel

section

variable {p : Phrase} {b : Back} {safe : Bool} {x : String}

/-- Before an arrow, a phrase that ends with a counter is read as its tokens. -/
theorem readsBefore_arrow (hlegible : p.Legible) (hnamed : p.term.Named)
    (hlast : p.lastBack? = some b) (hb : b = .postInc ∨ b = .postDec) (later : List Char) :
    ReadsBefore p ((arrow safe).toList ++ later) 0 := by
  induction p with
  | before f p ih => exact readsBefore_before hlegible.1 (ih hlegible.2 hnamed hlast)
  | after p c =>
    obtain rfl := Option.some.inj hlast
    have hp : p.term.Named := by
      obtain rfl | rfl := hb <;> exact hnamed
    refine readsBefore_counted hb (reads_phrase (p := p) hlegible hp).1 fun n k hn hk => ?_
    have hstill := reads_blanks hn (glance_afterExpression safe).1 hk
    exact ⟨hstill, hstill⟩
  | between l o r _ ih =>
    exact readsBefore_between o (reads_phrase hlegible.1 hnamed.1).1 (ih hlegible.2 hnamed.2 hlast)
  | choice c y n _ _ ih =>
    exact readsBefore_choice (reads_phrase hlegible.1 hnamed.1).1
      (reads_phrase hlegible.2.1 hnamed.2.1).1 (ih hlegible.2.2 hnamed.2.2 hlast)
  | _ => cases hlast

/-- **A member of what ends with a counter is no expression**: the expression ends before the
arrow. -/
theorem noStatement_member (hlegible : p.Legible) (hnamed : p.term.Named)
    (hlast : p.lastBack? = some b) (hb : b = .postInc ∨ b = .postDec) :
    NoStatement (Phrase.member p safe x).text (3 * p.text.length + 40) := by
  intro n k hn hk
  obtain ⟨m, rfl⟩ : ∃ m, n = m + 2 := ⟨n - 2, by omega⟩
  obtain ⟨hstill, hback, hlink, hend⟩ := glance_afterExpression safe
  have hk₀ : k.rest = p.text ++ ((arrow safe).toList ++ ('$' :: (x.toList ++ [';']))) := by
    rw [hk]
    simp [Phrase.text]
  have hk₁ := Cursor.rest_forward hk₀
  have hk₂ : (k.forward p.text.length).rest
      = ((arrow safe).toList ++ ['$']) ++ (x.toList ++ [';']) := by
    rw [hk₁]
    simp
  obtain ⟨ts, rs, hrun, hparts, htokens, hts⟩ :=
    readsBefore_arrow hlegible hnamed hlast hb _ m k (by omega) hk₀
  obtain ⟨e, he, hread⟩ := hrun.reads_expr (refuses_of_glance (by omega) hback hk₂)
    (refuses_of_glance (by omega) hlink hk₂) (by omega)
  rw [Nat.add_zero, or_self] at he
  rw [he] at hread
  exact refuses_enter (r := .expressionStmt) (.seq_between hread
    ((reads_blanks (by omega) hstill hk₁).andThen_refuses (refuses_of_glance (by omega) hend hk₂)))

end

end ThreeAddress.Grammar

namespace ThreeAddress.Syntax

/-- **A node is not read back from the text of a member of more than one operand.** -/
theorem not_readsBack_member {p : Phrase} {safe : Bool} {x : String} (hdirect : p.Direct)
    (hnamed : p.term.Named) (hx : isName x.toList = true) (hprimary : p.isPrimary = false)
    (htest : ∀ owner, p.lastBack? ≠ some (.isA owner)) {n : Node}
    (hn : (Term.member p.term safe x).Is n) :
    ¬ ReadsBack (.ofList (Phrase.member p safe x).text) n := by
  intro hback
  have hlegible := Phrase.legible_respell hdirect
  have hnames := Phrase.named_respell hnamed
  have htext : (Phrase.member p safe x).text = (Phrase.member p.respell safe x).text := by
    rw [Phrase.text, Phrase.text, Phrase.text_respell]
  rw [htext] at hback
  cases hreach : p.respell.reach safe x with
  | some q =>
    -- the text is that of a phrase with less weight
    rw [← Phrase.text_reach hreach, readsBack_iff_regroup (Phrase.legible_reach hlegible hreach)
      (Phrase.named_reach hnames hx hreach) hn] at hback
    have hweight := congrArg Term.weight hback
    have hless := (Phrase.weight_reach hreach).2 (p.isPrimary_respell.trans hprimary)
    have hle := p.lighter_respell.1
    rw [Phrase.readWeights, Phrase.weights_tokens, ← Phrase.weight_term_eq_sum,
      ← Phrase.weight_term_eq_sum] at hle
    rw [Phrase.weight_regroup_eq_sum, Phrase.weights_tokens, ← Phrase.weight_term_eq_sum,
      Term.weight] at hweight
    omega
  | none =>
    obtain ⟨b, hlast⟩ := Phrase.exists_lastBack hreach
    have hb : b = .postInc ∨ b = .postDec := by
      rw [Phrase.lastBack?_respell] at hlast
      cases b with
      | postInc => exact .inl rfl
      | postDec => exact .inr rfl
      | isA owner => exact absurd hlast (htest owner)
    obtain ⟨limit, hparse⟩ := hback
    obtain ⟨script, stmt, m, hscript, -⟩ := hparse limit (Nat.le_refl _) ""
    obtain ⟨start, cs, hstart, hleads, hgoes⟩ :=
      Grammar.opens_phrase (Phrase.member p.respell safe x)
    refine parse_ne_ok hleads hgoes hstart (Grammar.noStatement_member hlegible hnames hlast hb)
      ?_ "" limit script hscript
    simp only [Phrase.text, List.length_append]
    omega

end ThreeAddress.Syntax

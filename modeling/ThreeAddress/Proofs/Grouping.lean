import ThreeAddress.Syntax.OperatorTree

/-!
# Grouping by powers

`OperatorTree.ofTokens?` folds a run of operands and operators into a tree. Here is which trees
it gives back: in a tree that `Fits`, every operator is stronger than the ones that wait for
their operand when it comes, and not stronger than the ones that it closes. **The run of a tree
that fits is folded into that tree** (`ofTokens?_tokens`), **whatever a run is folded into fits**
(`fits_of_ofTokens?`), and every run in which operands and operators alternate has a tree
(`ofTokens?_uses`).
-/

namespace ThreeAddress.Syntax

/-- An operator after the operand has to have a higher power to get it. -/
def Affix.hold : Affix → Nat
  | .before power => power - 1
  | .between power groupsRight => if groupsRight then power - 1 else power
  | _ => 0

/-- The power with which an operator takes the operand before it. -/
def Affix.pull : Affix → Nat
  | .after power | .between power _ => power
  | _ => 0

/-- An operator that takes an operand before it does so with some power. -/
def Affix.Positive : Affix → Prop
  | .after power | .between power _ => 0 < power
  | _ => True

namespace OperatorTree

variable {α : Type} {affix : α → Affix}

/-- The operators that wait for their right operand at the end of the tree's run, the last one
first. -/
def openEnd (affix : α → Affix) : OperatorTree α → List (Pending α)
  | .leaf _ | .after _ _ => []
  | .before op t => openEnd affix t ++ [.before op (affix op).hold]
  | .between l op r => openEnd affix r ++ [.between l op (affix op).hold]

/-- The operand that the tree's run ends with. -/
def lastOperand : OperatorTree α → OperatorTree α
  | .before _ t => t.lastOperand
  | .between _ _ r => r.lastOperand
  | t => t

/-- The tree is grouped as the powers of its operators say, where an operator of at most the
given power waits for it. -/
def Fits (affix : α → Affix) : Nat → OperatorTree α → Prop
  | _, .leaf a => affix a = .operand
  | _, .before op t => (∃ p, affix op = .before p) ∧ Fits affix (affix op).hold t
  | w, .after t op =>
    (∃ p, affix op = .after p) ∧ w < (affix op).pull ∧ Fits affix w t ∧
      ∀ p ∈ t.openEnd affix, (affix op).pull ≤ p.power
  | w, .between l op r =>
    (∃ p g, affix op = .between p g) ∧ w < (affix op).pull ∧ Fits affix w l ∧
      (∀ p ∈ l.openEnd affix, (affix op).pull ≤ p.power) ∧ Fits affix (affix op).hold r

theorem closeAll_append (ps qs : List (Pending α)) (t : OperatorTree α) :
    closeAll (ps ++ qs) t = closeAll qs (closeAll ps t) :=
  List.foldl_append

/-- A tree is its last operand with all that waits for it. -/
theorem closeAll_openEnd (t : OperatorTree α) : closeAll (t.openEnd affix) t.lastOperand = t := by
  induction t with
  | leaf a | after t op => rfl
  | before op t ih =>
    unfold openEnd lastOperand
    rw [closeAll_append, ih]
    rfl
  | between l op r _ ih =>
    unfold openEnd lastOperand
    rw [closeAll_append, ih]
    rfl

/-- What waits with at least the power is closed, up to what waits with less. -/
theorem closeAbove_append {power : Nat} {ps qs : List (Pending α)} {t : OperatorTree α}
    (hps : ∀ p ∈ ps, power ≤ p.power) (hqs : ∀ q ∈ qs.head?, q.power < power) :
    closeAbove power (ps ++ qs) t = (qs, closeAll ps t) := by
  induction ps generalizing t with
  | nil =>
    cases qs with
    | nil => rfl
    | cons q qs =>
      have hq : q.power < power := hqs q rfl
      exact if_neg (Nat.not_le.mpr hq)
  | cons p ps ih =>
    rw [List.cons_append, closeAbove, if_pos (hps p List.mem_cons_self)]
    exact ih fun q hq => hps q (List.mem_cons_of_mem p hq)

/-- An operator closes the tree before it, and nothing else. -/
theorem closeAbove_openEnd {w power : Nat} {ps : List (Pending α)} {t : OperatorTree α}
    (hps : ∀ p ∈ ps.head?, p.power ≤ w) (hw : w < power)
    (ht : ∀ p ∈ t.openEnd affix, power ≤ p.power) :
    closeAbove power (t.openEnd affix ++ ps) t.lastOperand = (ps, t) := by
  rw [closeAbove_append ht fun p hp => Nat.lt_of_le_of_lt (hps p hp) hw, closeAll_openEnd]

/-- Reading the run of a tree that fits leaves its last operand and what waits for it. -/
theorem wantOperand_tokens {w : Nat} {t : OperatorTree α} (ht : t.Fits affix w)
    {ps : List (Pending α)} (hps : ∀ p ∈ ps.head?, p.power ≤ w) (rest : List α) :
    wantOperand affix ps (t.tokens ++ rest)
      = haveOperand affix (t.openEnd affix ++ ps) t.lastOperand rest := by
  induction t generalizing w ps rest with
  | leaf a =>
    have ha : affix a = .operand := ht
    simp only [tokens, List.cons_append, wantOperand, ha]
    rfl
  | before op t ih =>
    obtain ⟨⟨p, hp⟩, ht⟩ := ht
    simp only [tokens, List.cons_append, wantOperand, hp, openEnd, List.append_assoc]
    rw [hp] at ht
    exact ih ht (fun q hq => by obtain rfl := Option.some.inj hq; exact Nat.le_refl _) rest
  | after t op ih =>
    obtain ⟨⟨p, hp⟩, hw, ht, hopen⟩ := ht
    simp only [hp, Affix.pull] at hw hopen
    rw [tokens, List.append_assoc, ih ht hps]
    simp only [List.cons_append, List.nil_append, haveOperand, hp]
    rw [closeAbove_openEnd hps hw hopen]
    rfl
  | between l op r ihl ihr =>
    obtain ⟨⟨p, g, hp⟩, hw, hl, hopen, hr⟩ := ht
    simp only [hp, Affix.pull, Affix.hold] at hw hopen hr
    rw [tokens, List.append_assoc, ihl hl hps]
    simp only [List.cons_append, haveOperand, hp]
    rw [closeAbove_openEnd hps hw hopen]
    simp only [openEnd, lastOperand, hp, List.append_assoc]
    exact ihr hr (fun q hq => by obtain rfl := Option.some.inj hq; exact Nat.le_refl _) rest

/-- **The run of a tree that fits is folded into that tree.** -/
theorem ofTokens?_tokens {t : OperatorTree α} (ht : t.Fits affix 0) :
    ofTokens? affix t.tokens = some t := by
  have hnone : ∀ p ∈ ([] : List (Pending α)).head?, p.power ≤ 0 := fun p hp => by cases hp
  have h := wantOperand_tokens ht hnone []
  rw [List.append_nil, List.append_nil] at h
  rw [ofTokens?, h]
  simp only [haveOperand, closeAll_openEnd]

/-! ## Trees of a run -/

/-- Every token of the tree stands where its affix says, and has the property. -/
def Uses (affix : α → Affix) (P : α → Prop) : OperatorTree α → Prop
  | .leaf a => affix a = .operand ∧ P a
  | .before op t => ((∃ power, affix op = .before power) ∧ P op) ∧ t.Uses affix P
  | .after t op => t.Uses affix P ∧ (∃ power, affix op = .after power) ∧ P op
  | .between l op r =>
    l.Uses affix P ∧ ((∃ power right, affix op = .between power right) ∧ P op) ∧ r.Uses affix P

/-- What waits for an operand stands where its affix says, and has the property. -/
def Pending.Uses (affix : α → Affix) (P : α → Prop) : Pending α → Prop
  | .before op _ => (∃ power, affix op = .before power) ∧ P op
  | .between l op _ => l.Uses affix P ∧ (∃ power right, affix op = .between power right) ∧ P op

/-- A run of tokens that starts where an operand has to come: operators before it, the operand,
operators after it, and more of this after an operator between operands. -/
inductive Alternates (affix : α → Affix) : Bool → List α → Prop
  | operand {a : α} {as : List α} : affix a = .operand → Alternates affix true as →
      Alternates affix false (a :: as)
  | before {a : α} {as : List α} {power : Nat} : affix a = .before power →
      Alternates affix false as → Alternates affix false (a :: as)
  | after {a : α} {as : List α} {power : Nat} : affix a = .after power →
      Alternates affix true as → Alternates affix true (a :: as)
  | between {a : α} {as : List α} {power : Nat} {right : Bool} :
      affix a = .between power right → Alternates affix false as → Alternates affix true (a :: as)
  | done : Alternates affix true []

section

variable {P : α → Prop}

theorem Pending.Uses.close {p : Pending α} {t : OperatorTree α} (hp : p.Uses affix P)
    (ht : t.Uses affix P) : (p.close t).Uses affix P := by
  cases p with
  | before op _ => exact ⟨hp, ht⟩
  | between l op _ => exact ⟨hp.1, hp.2, ht⟩

theorem uses_closeAll {ps : List (Pending α)} {t : OperatorTree α}
    (hps : ∀ p ∈ ps, p.Uses affix P) (ht : t.Uses affix P) : (closeAll ps t).Uses affix P := by
  induction ps generalizing t with
  | nil => exact ht
  | cons p ps ih =>
    obtain ⟨hp, hps⟩ := List.forall_mem_cons.mp hps
    exact ih hps (hp.close ht)

theorem uses_closeAbove (power : Nat) {ps : List (Pending α)} {t : OperatorTree α}
    (hps : ∀ p ∈ ps, p.Uses affix P) (ht : t.Uses affix P) :
    (∀ p ∈ (closeAbove power ps t).1, p.Uses affix P) ∧
      (closeAbove power ps t).2.Uses affix P := by
  induction ps generalizing t with
  | nil => exact ⟨hps, ht⟩
  | cons p ps ih =>
    unfold closeAbove
    split
    · obtain ⟨hp, hps⟩ := List.forall_mem_cons.mp hps
      exact ih hps (hp.close ht)
    · exact ⟨hps, ht⟩

/-- The state of the reader before a run: where an operand has to come, or after one. -/
def readFrom (affix : α → Affix) (ps : List (Pending α)) (as : List α) :
    Option (OperatorTree α) → Option (OperatorTree α)
  | none => wantOperand affix ps as
  | some t => haveOperand affix ps t as

/-- **A run in which operands and operators alternate is folded into a tree of its tokens.** -/
theorem readFrom_uses {as : List α} {t? : Option (OperatorTree α)}
    (h : Alternates affix t?.isSome as) (hP : ∀ a ∈ as, P a) {ps : List (Pending α)}
    (hps : ∀ p ∈ ps, p.Uses affix P) (ht : ∀ t ∈ t?, t.Uses affix P) :
    ∃ t, readFrom affix ps as t? = some t ∧ t.Uses affix P := by
  generalize hb : t?.isSome = b at h
  -- the operators that wait and the operand at hand use tokens of the run only
  induction h generalizing t? ps with
  | @operand a as ha _ ih =>
    obtain ⟨hhead, hP⟩ := List.forall_mem_cons.mp hP
    obtain rfl := Option.isSome_eq_false_iff.mp hb |> Option.isNone_iff_eq_none.mp
    have hread : readFrom affix ps (a :: as) none = readFrom affix ps as (some (.leaf a)) := by
      simp only [readFrom, wantOperand, ha]
    rw [hread]
    exact ih hP hps (fun t ht => Option.some.inj ht ▸ ⟨ha, hhead⟩) rfl
  | @before a as power ha _ ih =>
    obtain ⟨hhead, hP⟩ := List.forall_mem_cons.mp hP
    obtain rfl := Option.isSome_eq_false_iff.mp hb |> Option.isNone_iff_eq_none.mp
    have hread : readFrom affix ps (a :: as) none
        = readFrom affix (.before a (power - 1) :: ps) as none := by
      simp only [readFrom, wantOperand, ha]
    rw [hread]
    exact ih hP (List.forall_mem_cons.mpr ⟨⟨⟨power, ha⟩, hhead⟩, hps⟩) nofun rfl
  | @after a as power ha _ ih =>
    obtain ⟨hhead, hP⟩ := List.forall_mem_cons.mp hP
    obtain ⟨t, rfl⟩ := Option.isSome_iff_exists.mp hb
    obtain ⟨hps', ht'⟩ := uses_closeAbove power hps (ht t rfl)
    have hread : readFrom affix ps (a :: as) (some t) = readFrom affix (closeAbove power ps t).1 as
        (some (.after (closeAbove power ps t).2 a)) := by
      simp only [readFrom, haveOperand, ha]
    rw [hread]
    exact ih hP hps' (fun u hu => Option.some.inj hu ▸ ⟨ht', ⟨power, ha⟩, hhead⟩) rfl
  | @between a as power right ha _ ih =>
    obtain ⟨hhead, hP⟩ := List.forall_mem_cons.mp hP
    obtain ⟨t, rfl⟩ := Option.isSome_iff_exists.mp hb
    obtain ⟨hps', ht'⟩ := uses_closeAbove power hps (ht t rfl)
    have hread : readFrom affix ps (a :: as) (some t) = readFrom affix
        (.between (closeAbove power ps t).2 a (if right then power - 1 else power) ::
          (closeAbove power ps t).1) as none := by
      simp only [readFrom, haveOperand, ha]
    rw [hread]
    exact ih hP (List.forall_mem_cons.mpr ⟨⟨ht', ⟨power, right, ha⟩, hhead⟩, hps'⟩) nofun rfl
  | done =>
    obtain ⟨t, rfl⟩ := Option.isSome_iff_exists.mp hb
    exact ⟨closeAll ps t, rfl, uses_closeAll hps (ht t rfl)⟩

/-- A run that alternates has a tree. -/
theorem ofTokens?_uses {as : List α} (h : Alternates affix false as) (hP : ∀ a ∈ as, P a) :
    ∃ t, ofTokens? affix as = some t ∧ t.Uses affix P := by
  show ∃ t, readFrom affix [] as none = some t ∧ t.Uses affix P
  exact readFrom_uses h hP nofun nofun

end

/-! ## Trees that fit -/

/-- What waits was put there by its affix, where something of the power `w` was waiting. -/
def Pending.Sits (affix : α → Affix) (w : Nat) : Pending α → Prop
  | .before op power => (∃ p, affix op = .before p) ∧ power = (affix op).hold
  | .between l op power =>
    (∃ p g, affix op = .between p g) ∧ power = (affix op).hold ∧ w < (affix op).pull ∧
      l.Fits affix w ∧ ∀ p ∈ l.openEnd affix, (affix op).pull ≤ p.power

/-- The power of what waits last. -/
def top : List (Pending α) → Nat
  | [] => 0
  | p :: _ => p.power

/-- All that waits was put there by its affix. -/
def Stacked (affix : α → Affix) : List (Pending α) → Prop
  | [] => True
  | p :: ps => p.Sits affix (top ps) ∧ Stacked affix ps

/-- The tokens that what waits was read from. -/
def Pending.tokens : Pending α → List α
  | .before op _ => [op]
  | .between l op _ => l.tokens ++ [op]

/-- The tokens that all that waits was read from. -/
def stackTokens : List (Pending α) → List α
  | [] => []
  | p :: ps => stackTokens ps ++ p.tokens

theorem Pending.tokens_close (p : Pending α) (t : OperatorTree α) :
    (p.close t).tokens = p.tokens ++ t.tokens := by
  cases p with
  | before op _ => rfl
  | between l op _ =>
    show l.tokens ++ op :: t.tokens = l.tokens ++ [op] ++ t.tokens
    simp

theorem Pending.Sits.close {w : Nat} {p : Pending α} {t : OperatorTree α} (hp : p.Sits affix w)
    (ht : t.Fits affix p.power) :
    (p.close t).Fits affix w ∧ (p.close t).openEnd affix = t.openEnd affix ++ [p] := by
  cases p with
  | before op power =>
    obtain ⟨hop, rfl⟩ := hp
    exact ⟨⟨hop, ht⟩, rfl⟩
  | between l op power =>
    obtain ⟨hop, rfl, hw, hl, hopen⟩ := hp
    exact ⟨⟨hop, hw, hl, hopen, ht⟩, rfl⟩

theorem fits_closeAll {ps : List (Pending α)} {t : OperatorTree α} (hps : Stacked affix ps)
    (ht : t.Fits affix (top ps)) :
    (closeAll ps t).Fits affix 0 ∧ (closeAll ps t).tokens = stackTokens ps ++ t.tokens := by
  induction ps generalizing t with
  | nil => exact ⟨ht, rfl⟩
  | cons p ps ih =>
    obtain ⟨hp, hps⟩ := hps
    obtain ⟨hfits, htokens⟩ := ih hps (hp.close ht).1
    refine ⟨hfits, htokens.trans ?_⟩
    rw [p.tokens_close, ← List.append_assoc]
    rfl

/-- What an operator of some power closes fits, and it is all that the operator takes. -/
theorem fits_closeAbove {power : Nat} (hpower : 0 < power) {ps : List (Pending α)}
    {t : OperatorTree α} (hps : Stacked affix ps) (ht : t.Fits affix (top ps))
    (hopen : ∀ p ∈ t.openEnd affix, power ≤ p.power) {qs : List (Pending α)}
    {u : OperatorTree α} (h : closeAbove power ps t = (qs, u)) :
    Stacked affix qs ∧ top qs < power ∧ u.Fits affix (top qs) ∧
      (∀ p ∈ u.openEnd affix, power ≤ p.power) ∧
      stackTokens qs ++ u.tokens = stackTokens ps ++ t.tokens := by
  induction ps generalizing t with
  | nil =>
    obtain ⟨rfl, rfl⟩ := Prod.mk.inj h
    exact ⟨hps, hpower, ht, hopen, rfl⟩
  | cons p ps ih =>
    rw [closeAbove] at h
    by_cases hp : power ≤ p.power
    · rw [if_pos hp] at h
      obtain ⟨hsits, hps⟩ := hps
      obtain ⟨hfits, hend⟩ := hsits.close ht
      have hopen' : ∀ q ∈ (p.close t).openEnd affix, power ≤ q.power := by
        rw [hend]
        intro q hq
        obtain hq | hq := List.mem_append.mp hq
        · exact hopen q hq
        · obtain rfl := List.mem_singleton.mp hq
          exact hp
      obtain ⟨hqs, htop, hu, hu', htokens⟩ := ih hps hfits hopen' h
      refine ⟨hqs, htop, hu, hu', htokens.trans ?_⟩
      rw [p.tokens_close, ← List.append_assoc]
      rfl
    · rw [if_neg hp] at h
      obtain ⟨rfl, rfl⟩ := Prod.mk.inj h
      exact ⟨hps, Nat.not_le.mp hp, ht, hopen, rfl⟩

/-- **Whatever is read from some state fits**, if all that waits in the state does. -/
theorem readFrom_fits (hpos : ∀ a, (affix a).Positive) {as : List α} {ps : List (Pending α)}
    {t? : Option (OperatorTree α)} {u : OperatorTree α} (h : readFrom affix ps as t? = some u)
    (hps : Stacked affix ps) (ht : ∀ t ∈ t?, t.Fits affix (top ps) ∧ t.openEnd affix = []) :
    u.Fits affix 0 ∧ u.tokens = stackTokens ps ++ (t?.elim [] tokens ++ as) := by
  induction as generalizing ps t? with
  | nil =>
    cases t? with
    | none => exact absurd h nofun
    | some t =>
      obtain rfl := Option.some.inj h
      obtain ⟨hfits, htokens⟩ := fits_closeAll hps (ht t rfl).1
      exact ⟨hfits, by rw [htokens]; simp⟩
  | cons a as ih =>
    cases t? with
    | none =>
      cases ha : affix a with
      | operand =>
        simp only [readFrom, wantOperand, ha] at h
        have hread : readFrom affix ps as (some (.leaf a)) = some u := h
        obtain ⟨hfits, htokens⟩ := ih hread hps
          fun t ht => by obtain rfl := Option.some.inj ht; exact ⟨ha, rfl⟩
        exact ⟨hfits, by rw [htokens]; rfl⟩
      | before power =>
        simp only [readFrom, wantOperand, ha] at h
        have hread : readFrom affix (.before a (power - 1) :: ps) as none = some u := h
        obtain ⟨hfits, htokens⟩ := ih hread ⟨⟨⟨power, ha⟩, by rw [ha]; rfl⟩, hps⟩ nofun
        refine ⟨hfits, htokens.trans ?_⟩
        show stackTokens ps ++ [a] ++ ([] ++ as) = stackTokens ps ++ ([] ++ a :: as)
        simp
      | after power | between power right =>
        simp only [readFrom, wantOperand, ha] at h
        exact absurd h nofun
    | some t =>
      obtain ⟨hfits, hend⟩ := ht t rfl
      have hopen (power : Nat) : ∀ p ∈ t.openEnd affix, power ≤ p.power := by
        rw [hend]
        exact nofun
      cases ha : affix a with
      | operand | before power =>
        simp only [readFrom, haveOperand, ha] at h
        exact absurd h nofun
      | after power =>
        have hpower : 0 < power := by
          have := hpos a
          rwa [ha] at this
        simp only [readFrom, haveOperand, ha] at h
        obtain ⟨hqs, htop, hu, hu', htokens⟩ := fits_closeAbove hpower hps hfits (hopen power) rfl
        have hread : readFrom affix _ as (some (.after _ a)) = some u := h
        obtain ⟨hfits', htokens'⟩ := ih hread hqs (by
          intro t ht
          obtain rfl := Option.some.inj ht
          exact ⟨⟨⟨power, ha⟩, by rw [ha]; exact htop, hu, by rw [ha]; exact hu'⟩, rfl⟩)
        refine ⟨hfits', htokens'.trans ?_⟩
        show stackTokens _ ++ (_ ++ [a] ++ as) = stackTokens ps ++ (t.tokens ++ a :: as)
        rw [List.append_assoc, ← List.append_assoc, htokens]
        simp
      | between power right =>
        have hpower : 0 < power := by
          have := hpos a
          rwa [ha] at this
        simp only [readFrom, haveOperand, ha] at h
        obtain ⟨hqs, htop, hu, hu', htokens⟩ := fits_closeAbove hpower hps hfits (hopen power) rfl
        have hread : readFrom affix
          (.between _ a (if right then power - 1 else power) :: _) as none = some u := h
        obtain ⟨hfits', htokens'⟩ := ih hread ⟨⟨⟨power, right, ha⟩, by rw [ha]; rfl,
          by rw [ha]; exact htop, hu, by rw [ha]; exact hu'⟩, hqs⟩ nofun
        refine ⟨hfits', htokens'.trans ?_⟩
        show stackTokens _ ++ (_ ++ [a]) ++ ([] ++ as) = stackTokens ps ++ (t.tokens ++ a :: as)
        rw [← List.append_assoc (stackTokens _), htokens]
        simp

/-- **Whatever a run is folded into fits**, and it is a tree of the run. -/
theorem fits_of_ofTokens? (hpos : ∀ a, (affix a).Positive) {as : List α} {t : OperatorTree α}
    (h : ofTokens? affix as = some t) : t.Fits affix 0 ∧ t.tokens = as := by
  have hread : readFrom affix [] as none = some t := h
  exact readFrom_fits hpos hread trivial nofun

/-! ## Other names for the tokens -/

section

variable {β : Type} (f : α → β)

/-- The tree with other tokens. -/
def map : OperatorTree α → OperatorTree β
  | .leaf a => .leaf (f a)
  | .before op t => .before (f op) t.map
  | .after t op => .after t.map (f op)
  | .between l op r => .between l.map (f op) r.map

/-- What waits, with other tokens. -/
def Pending.map : Pending α → Pending β
  | .before op power => .before (f op) power
  | .between l op power => .between (l.map f) (f op) power

theorem Pending.power_map (p : Pending α) : (p.map f).power = p.power := by
  cases p <;> rfl

theorem Pending.close_map (p : Pending α) (t : OperatorTree α) :
    (p.map f).close (t.map f) = (p.close t).map f := by
  cases p <;> rfl

theorem closeAll_map (ps : List (Pending α)) (t : OperatorTree α) :
    closeAll (ps.map (Pending.map f)) (t.map f) = (closeAll ps t).map f := by
  induction ps generalizing t with
  | nil => rfl
  | cons p ps ih =>
    show closeAll (ps.map (Pending.map f)) ((p.map f).close (t.map f)) = _
    rw [p.close_map, ih]
    rfl

theorem closeAbove_map (power : Nat) (ps : List (Pending α)) (t : OperatorTree α) :
    closeAbove power (ps.map (Pending.map f)) (t.map f)
      = ((closeAbove power ps t).1.map (Pending.map f), (closeAbove power ps t).2.map f) := by
  induction ps generalizing t with
  | nil => rfl
  | cons p ps ih =>
    rw [List.map_cons, closeAbove, closeAbove, p.power_map, p.close_map]
    split
    · exact ih (p.close t)
    · rfl

theorem readFrom_map (affix : β → Affix) (as : List α) (ps : List (Pending α))
    (t? : Option (OperatorTree α)) :
    readFrom affix (ps.map (Pending.map f)) (as.map f) (t?.map (map f))
      = (readFrom (affix ∘ f) ps as t?).map (map f) := by
  induction as generalizing ps t? with
  | nil =>
    cases t? with
    | none => rfl
    | some t => exact congrArg some (closeAll_map f ps t)
  | cons a as ih =>
    cases t? with
    | none =>
      show wantOperand affix _ (f a :: as.map f) = Option.map _ (wantOperand (affix ∘ f) ps (a :: as))
      rw [wantOperand, wantOperand, Function.comp_apply]
      cases affix (f a) with
      | operand => exact ih ps (some (.leaf a))
      | before power => exact ih (.before a (power - 1) :: ps) none
      | _ => rfl
    | some t =>
      show haveOperand affix _ (t.map f) (f a :: as.map f)
        = Option.map _ (haveOperand (affix ∘ f) ps t (a :: as))
      rw [haveOperand, haveOperand, Function.comp_apply]
      cases affix (f a) with
      | after power =>
        simp only [closeAbove_map]
        exact ih _ (some (.after _ a))
      | between power right =>
        simp only [closeAbove_map]
        exact ih (.between _ a (if right then power - 1 else power) :: _) none
      | _ => rfl

/-- **Grouping looks at the affixes of the tokens only.** -/
theorem ofTokens?_map (affix : β → Affix) (as : List α) :
    ofTokens? affix (as.map f) = (ofTokens? (affix ∘ f) as).map (map f) :=
  readFrom_map f affix as [] none

end

end OperatorTree

end ThreeAddress.Syntax

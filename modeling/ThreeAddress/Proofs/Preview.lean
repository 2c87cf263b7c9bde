import ThreeAddress.Proofs.Reading

/-!
# Previews

What a pattern does with a text of which only the beginning is known. A preview matches, fails,
or is unclear because it would have to read on, and **what it says holds of every text with that
beginning** (`Rule.preview_sound`). As it is computed from the beginning alone, the many
alternatives of the grammar that a text is not are refused by evaluation.
-/

namespace ThreeAddress.Grammar

/-- A rule that matched with no rules inside it; `start` and `stop` tell how far ahead. -/
structure Leaf where
  rule : Rule
  start : Nat
  stop : Nat
deriving DecidableEq, Repr

namespace Leaf

/-- The leaf seen from a place further back. -/
def later (d : Nat) (l : Leaf) : Leaf :=
  ⟨l.rule, d + l.start, d + l.stop⟩

/-- The tree of a leaf that is seen from the place. -/
def tree (k : Cursor) (l : Leaf) : ParseTree :=
  ⟨l.rule, ⟨k.forward l.start, k.forward l.stop⟩, []⟩

theorem tree_later (k : Cursor) (d : Nat) (l : Leaf) :
    (l.later d).tree k = l.tree (k.forward d) := by
  unfold tree later
  rw [Cursor.forward_add, Cursor.forward_add]

theorem map_tree_later (k : Cursor) (d : Nat) (ls : List Leaf) :
    (ls.map (later d)).map (tree k) = ls.map (tree (k.forward d)) := by
  rw [List.map_map]
  exact List.map_congr_left fun l _ => tree_later k d l

end Leaf

/-- What is known about a match. -/
inductive Preview where
  /-- So many characters are read, the rest of the beginning is left, and there are leaves. -/
  | matched (taken : Nat) (rest : List Char) (leaves : List Leaf)
  | failed
  /-- The beginning is too short to tell. -/
  | unclear
deriving DecidableEq, Repr

namespace Preview

/-- Goes on after a match. -/
def andThen (x : Preview) (next : List Char → Preview) : Preview :=
  match x with
  | .matched d cs ls =>
    match next cs with
    | .matched d' cs' ls' => .matched (d + d') cs' (ls ++ ls'.map (.later d))
    | x' => x'
  | x => x

/-- One character; `ends` tells that the text ends with its beginning. -/
def one (ends : Bool) (p : Char → Bool) : List Char → Preview
  | [] => if ends then .failed else .unclear
  | c :: cs => if p c then .matched 1 cs [] else .failed

/-- The given characters. -/
def all (ends : Bool) (same : Char → Char → Bool) : List Char → List Char → Preview
  | [], cs => .matched 0 cs []
  | c :: text, cs => (one ends (same c) cs).andThen (all ends same text)

/-- At most so many rounds, after what was read before. -/
def rounds (step : List Char → Preview) : Nat → Nat → List Leaf → List Char → Preview
  | 0, _, _, _ => .unclear
  | n + 1, d, ls, cs =>
    match step cs with
    | .matched d' cs' ls' => rounds step n (d + d') (ls ++ ls'.map (.later d)) cs'
    | .failed => .matched d cs ls
    | .unclear => .unclear

end Preview

/-- The preview of a pattern. -/
def Pattern.preview (n : Nat) (ends : Bool) (skip : List Char → Preview)
    (call : Rule → Atomicity → List Char → Preview) :
    Pattern → Atomicity → List Char → Preview
  | .start, _, _ => .unclear
  | .finish, _, [] => if ends then .matched 0 [] [] else .unclear
  | .finish, _, _ :: _ => .failed
  | .one c, _, cs => .one ends c.contains cs
  | .literal text, _, cs => .all ends (· == ·) text cs
  | .caseless text, _, cs => .all ends sameUpToCase text cs
  | .rule r, a, cs => call r a cs
  | .seq p q, a, cs =>
    ((p.preview n ends skip call a cs).andThen (between a)).andThen (q.preview n ends skip call a)
  | .alt p q, a, cs =>
    match p.preview n ends skip call a cs with
    | .failed => q.preview n ends skip call a cs
    | x => x
  | .many p, a, cs =>
    match p.preview n ends skip call a cs with
    | .matched d cs' ls =>
      .rounds (fun cs => (between a cs).andThen (p.preview n ends skip call a)) n d ls cs'
    | .failed => .matched 0 cs []
    | .unclear => .unclear
  | .maybe p, a, cs =>
    match p.preview n ends skip call a cs with
    | .failed => .matched 0 cs []
    | x => x
  | .ahead p, a, cs =>
    match p.preview n ends skip call a cs with
    | .matched _ _ _ => .matched 0 cs []
    | x => x
  | .notAhead p, a, cs =>
    match p.preview n ends skip call a cs with
    | .matched _ _ _ => .failed
    | .failed => .matched 0 cs []
    | .unclear => .unclear
  | .push _, _, _ | .peek, _, _ | .pop, _, _ => .unclear
where
  /-- Blanks are skipped unless they count. -/
  between (a : Atomicity) (cs : List Char) : Preview :=
    if a = .spaced then skip cs else .matched 0 cs []

/-- The preview of the blanks and comments between two tokens. -/
def previewBlanks (n : Nat) (ends : Bool) : List Char → Preview :=
  Pattern.preview n ends (.matched 0 · []) (fun _ _ _ => .failed) (.many (.alt blank comment))
    .atomic

/-- The preview of a rule. -/
def Rule.preview (ends : Bool) : Nat → Rule → Atomicity → List Char → Preview
  | 0, _, _, _ => .unclear
  | n + 1, r, a, cs =>
    match r.definition.body.preview n ends (previewBlanks n ends) (Rule.preview ends n)
        (r.definition.mode.inner a) cs with
    | .matched d cs' ls =>
      if r.definition.mode.outer a = .atomic then .matched d cs' ls
      else if ls = [] then .matched d cs' [⟨r, 0, d⟩]
      else .unclear
    | x => x

/-! ## What previews say -/

/-- What a preview says about a run. -/
def Preview.Holds (x : State → Reply) (k : Cursor) (later : List Char) : Preview → Prop
  | .matched d cs ls =>
    (k.forward d).rest = cs ++ later ∧ Reads x k (k.forward d) (ls.map (Leaf.tree k))
  | .failed => Refuses x k
  | .unclear => True

/-- The preview holds of every text with the beginning. -/
def Foresees (ends : Bool) (f : List Char → Preview) (x : State → Reply) : Prop :=
  ∀ (k : Cursor) (cs later : List Char), k.rest = cs ++ later → (ends = true → later = []) →
    (f cs).Holds x k later

namespace Foresees

variable {ends : Bool} {f g : List Char → Preview} {x y : State → Reply}

theorem nothing : Foresees ends (.matched 0 · []) (.matched · []) :=
  fun _ _ _ h _ => ⟨h, .nothing⟩

theorem andThen (hf : Foresees ends f x) (hg : Foresees ends g y) :
    Foresees ends (fun cs => (f cs).andThen g) (fun s => (x s).andThen y) := by
  intro k cs later hk hends
  have hx := hf k cs later hk hends
  show ((f cs).andThen g).Holds _ _ _
  cases hfc : f cs with
  | matched d cs₁ ls =>
    rw [hfc] at hx
    have hy := hg _ cs₁ later hx.1 hends
    cases hgc : g cs₁ with
    | matched d' cs₂ ls' =>
      rw [hgc] at hy
      simp only [Preview.andThen, hgc]
      show (k.forward (d + d')).rest = _ ∧ Reads _ k (k.forward (d + d')) _
      rw [Cursor.forward_add, List.map_append, Leaf.map_tree_later]
      exact ⟨hy.1, hx.2.andThen hy.2⟩
    | failed =>
      rw [hgc] at hy
      simp only [Preview.andThen, hgc]
      exact hx.2.andThen_refuses hy
    | unclear =>
      simp only [Preview.andThen, hgc]
      trivial
  | failed =>
    rw [hfc] at hx
    exact Refuses.andThen hx
  | unclear => trivial

theorem one_spec {p : Char → Bool} {k : Cursor} {cs later : List Char}
    (hk : k.rest = cs ++ later) (hends : ends = true → later = []) :
    (∃ cs', Preview.one ends p cs = .matched 1 cs' [] ∧ (k.forward 1).rest = cs' ++ later ∧
      k.one? p = some (k.forward 1)) ∨
    (Preview.one ends p cs = .failed ∧ k.one? p = none) ∨ Preview.one ends p cs = .unclear := by
  cases cs with
  | nil =>
    cases ends with
    | true =>
      rw [hends rfl] at hk
      refine .inr (.inl ⟨rfl, ?_⟩)
      unfold Cursor.one?
      rw [hk]
      rfl
    | false => exact .inr (.inr rfl)
  | cons c cs =>
    have hk : k.rest = c :: (cs ++ later) := hk
    have hone : k.one? p = if p c then some (k.past c (cs ++ later)) else none := by
      unfold Cursor.one?
      rw [hk]
    rw [hone]
    by_cases hp : p c
    · refine .inl ⟨cs, if_pos hp, ?_, ?_⟩
      · rw [Cursor.forward_one hk, Cursor.rest_past]
      · rw [if_pos hp, Cursor.forward_one hk]
    · exact .inr (.inl ⟨if_neg hp, if_neg hp⟩)

theorem all_spec (same : Char → Char → Bool) (text : List Char) {k : Cursor}
    {cs later : List Char} (hk : k.rest = cs ++ later) (hends : ends = true → later = []) :
    (∃ d cs', Preview.all ends same text cs = .matched d cs' [] ∧
      (k.forward d).rest = cs' ++ later ∧ k.all? same text = some (k.forward d)) ∨
    (Preview.all ends same text cs = .failed ∧ k.all? same text = none) ∨
    Preview.all ends same text cs = .unclear := by
  induction text generalizing k cs with
  | nil => exact .inl ⟨0, cs, rfl, hk, rfl⟩
  | cons c text ih =>
    unfold Preview.all Cursor.all?
    obtain ⟨cs₁, h, hrest, hone⟩ | ⟨h, hone⟩ | h := one_spec (p := same c) hk hends
    · rw [h, hone]
      obtain ⟨d, cs', h', hrest', hall⟩ | ⟨h', hall⟩ | h' := ih hrest
      · refine .inl ⟨1 + d, cs', ?_, ?_, ?_⟩
        · simp only [Preview.andThen, h', List.map_nil, List.append_nil]
        · rwa [Cursor.forward_add]
        · rw [Cursor.forward_add]
          exact hall
      · exact .inr (.inl ⟨by simp only [Preview.andThen, h'], hall⟩)
      · exact .inr (.inr (by simp only [Preview.andThen, h']))
    · exact .inr (.inl ⟨by simp only [Preview.andThen, h], by rw [hone]; rfl⟩)
    · exact .inr (.inr (by simp only [Preview.andThen, h]))

theorem one {p : Char → Bool} (hx : ∀ s, x s = .reading s (s.cursor.one? p)) :
    Foresees ends (Preview.one ends p) x := by
  intro k cs later hk hends
  obtain ⟨cs', h, hrest, hone⟩ | ⟨h, hone⟩ | h := one_spec (p := p) hk hends
  · rw [h]
    exact ⟨hrest, fun stack a => ⟨a, by rw [hx]; exact congrArg _ hone⟩⟩
  · rw [h]
    exact fun stack a => ⟨a, by rw [hx]; exact congrArg _ hone⟩
  · rw [h]
    trivial

theorem all {same : Char → Char → Bool} {text : List Char}
    (hx : ∀ s, x s = .reading s (s.cursor.all? same text)) :
    Foresees ends (Preview.all ends same text) x := by
  intro k cs later hk hends
  obtain ⟨d, cs', h, hrest, hall⟩ | ⟨h, hall⟩ | h := all_spec same text hk hends
  · rw [h]
    exact ⟨hrest, fun stack a => ⟨a, by rw [hx]; exact congrArg _ hall⟩⟩
  · rw [h]
    exact fun stack a => ⟨a, by rw [hx]; exact congrArg _ hall⟩
  · rw [h]
    trivial

/-- A repetition is foreseen as long as its preview has enough rounds. -/
theorem rounds (hf : Foresees ends f x) {n m : Nat} (hnm : n ≤ m) {k : Cursor} {d : Nat}
    {ls : List Leaf} {cs later : List Char} {before : List (List ParseTree)}
    (hk : (k.forward d).rest = cs ++ later) (hends : ends = true → later = [])
    (hbefore : before.reverse.flatten = ls.map (Leaf.tree k)) :
    Preview.rounds f n d ls cs = .unclear ∨
    ∃ d' cs' ls', Preview.rounds f n d ls cs = .matched d' cs' ls' ∧
      (k.forward d').rest = cs' ++ later ∧
      Reads (repeatRun x m before) (k.forward d) (k.forward d') (ls'.map (Leaf.tree k)) := by
  induction n generalizing m d ls cs before with
  | zero => exact .inl rfl
  | succ n ih =>
    obtain ⟨m, rfl⟩ : ∃ i, m = i + 1 := ⟨m - 1, by omega⟩
    have hx := hf _ cs later hk hends
    unfold Preview.rounds
    cases hfc : f cs with
    | matched d₁ cs₁ ls₁ =>
      rw [hfc] at hx
      obtain ⟨hrest, hread⟩ := hx
      rw [← Cursor.forward_add] at hrest hread
      have hbefore₁ : ((ls₁.map (Leaf.tree (k.forward d))) :: before).reverse.flatten
          = (ls ++ ls₁.map (Leaf.later d)).map (Leaf.tree k) := by
        rw [List.reverse_cons, List.flatten_append, hbefore, List.map_append,
          Leaf.map_tree_later, List.flatten_singleton]
      obtain h | ⟨d', cs', ls', h, hrest', hread'⟩ :=
        ih (Nat.le_of_succ_le_succ hnm) hrest hbefore₁
      · exact .inl h
      · exact .inr ⟨d', cs', ls', h, hrest', hread.repeatRun hread'⟩
    | failed =>
      rw [hfc] at hx
      exact .inr ⟨d, cs, ls, rfl, hk, hbefore ▸ Refuses.repeatRun hx⟩
    | unclear => exact .inl rfl

end Foresees

/-- **What the preview of a pattern says holds.** -/
theorem Pattern.preview_sound {n m : Nat} (hnm : n ≤ m) {ends : Bool}
    {skip : State → Reply} {call : Rule → Run} {skip' : List Char → Preview}
    {call' : Rule → Atomicity → List Char → Preview} (hskip : Foresees ends skip' skip)
    (hcall : ∀ r sc, Foresees ends (call' r sc.atomicity) (call r sc)) (p : Pattern) (sc : Scope) :
    Foresees ends (p.preview n ends skip' call' sc.atomicity) (p.run m skip call sc) := by
  have hbetween (sc : Scope) : Foresees ends (preview.between skip' sc.atomicity)
      (run.between skip sc) := by
    unfold preview.between run.between
    by_cases h : sc.atomicity = .spaced
    · simp only [h, if_true]
      exact hskip
    · simp only [h, if_false]
      exact .nothing
  induction p generalizing sc with
  | start | push _ | peek | pop => exact fun _ _ _ _ _ => trivial
  | finish =>
    intro k cs later hk hends
    cases cs with
    | nil =>
      cases ends with
      | true =>
        rw [hends rfl] at hk
        exact ⟨by rw [hends rfl]; exact hk, reads_finish hk⟩
      | false => trivial
    | cons c cs => exact refuses_finish hk
  | one c => exact .one fun _ => rfl
  | literal text => exact .all fun _ => rfl
  | caseless text => exact .all fun _ => rfl
  | rule r => exact hcall r sc
  | seq p q hp hq => exact ((hp sc).andThen (hbetween sc)).andThen (hq sc)
  | alt p q hp hq =>
    intro k cs later hk hends
    have hx := hp sc k cs later hk hends
    have hy := hq sc k cs later hk hends
    unfold preview
    cases hpc : p.preview n ends skip' call' sc.atomicity cs with
    | matched d cs' ls =>
      rw [hpc] at hx
      exact ⟨hx.1, hx.2.alt_left⟩
    | failed =>
      rw [hpc] at hx
      cases hqc : q.preview n ends skip' call' sc.atomicity cs with
      | matched d cs' ls =>
        rw [hqc] at hy
        exact ⟨hy.1, hy.2.alt_right hx⟩
      | failed =>
        rw [hqc] at hy
        exact .alt hx hy
      | unclear => trivial
    | unclear => trivial
  | many p hp =>
    intro k cs later hk hends
    have hx := hp sc k cs later hk hends
    unfold preview
    cases hpc : p.preview n ends skip' call' sc.atomicity cs with
    | matched d cs' ls =>
      rw [hpc] at hx
      have hstep := (hbetween sc).andThen (hp sc)
      have hfirst : [ls.map (Leaf.tree k)].reverse.flatten = ls.map (Leaf.tree k) := by simp
      obtain h | ⟨d', cs'', ls', h, hrest, hread⟩ := hstep.rounds hnm hx.1 hends hfirst
      · simp only [h]
        trivial
      · simp only [h]
        refine ⟨hrest, fun stack a => ?_⟩
        obtain ⟨a₁, h₁⟩ := hx.2 stack a
        obtain ⟨a', h'⟩ := hread stack a₁
        exact ⟨a', by rw [run_many, h₁]; exact h'⟩
    | failed =>
      rw [hpc] at hx
      exact ⟨hk, .many_nil hx⟩
    | unclear => trivial
  | maybe p hp =>
    intro k cs later hk hends
    have hx := hp sc k cs later hk hends
    unfold preview
    cases hpc : p.preview n ends skip' call' sc.atomicity cs with
    | matched d cs' ls =>
      rw [hpc] at hx
      exact ⟨hx.1, hx.2.maybe⟩
    | failed =>
      rw [hpc] at hx
      exact ⟨hk, .maybe_nil hx⟩
    | unclear => trivial
  | ahead p hp =>
    intro k cs later hk hends
    have hx := hp { sc with lookahead := sc.lookahead.ahead } k cs later hk hends
    unfold preview
    cases hpc : p.preview n ends skip' call' sc.atomicity cs with
    | matched d cs' ls =>
      rw [hpc] at hx
      exact ⟨hk, hx.2.ahead⟩
    | failed =>
      rw [hpc] at hx
      exact Refuses.ahead hx
    | unclear => trivial
  | notAhead p hp =>
    intro k cs later hk hends
    have hx := hp { sc with lookahead := sc.lookahead.notAhead } k cs later hk hends
    unfold preview
    cases hpc : p.preview n ends skip' call' sc.atomicity cs with
    | matched d cs' ls =>
      rw [hpc] at hx
      exact Refuses.notAhead hx.2
    | failed =>
      rw [hpc] at hx
      exact ⟨hk, .notAhead hx⟩
    | unclear => trivial

/-- The pattern is run where blanks count and no rule is known, as blanks and comments are. -/
abbrev Pattern.alone (n : Nat) (p : Pattern) : State → Reply :=
  p.run n (.matched · []) (fun _ _ s => .failed s.attempts) ⟨.atomic, .none⟩

theorem Pattern.alone_sound {n m : Nat} (hnm : n ≤ m) (ends : Bool) (p : Pattern) :
    Foresees ends (p.preview n ends (.matched 0 · []) (fun _ _ _ => .failed) .atomic)
      (p.alone m) := by
  have hnone (r : Rule) (sc : Scope) : Foresees ends ((fun _ _ _ => .failed : Rule → Atomicity →
      List Char → Preview) r sc.atomicity) ((fun _ _ s => .failed s.attempts : Rule → Run) r sc) :=
    fun _ _ _ _ _ _ a => ⟨a, rfl⟩
  exact Pattern.preview_sound hnm .nothing hnone p ⟨.atomic, .none⟩

theorem previewBlanks_sound {n m : Nat} (hnm : n ≤ m) (ends : Bool) :
    Foresees ends (previewBlanks n ends) (skipBlanks m) :=
  Pattern.alone_sound hnm ends _

/-- **What the preview of a rule says holds** if the rule is run with at least the bound of the
preview. -/
theorem Rule.preview_sound {n m : Nat} (hnm : n ≤ m) (ends : Bool) (r : Rule) (sc : Scope) :
    Foresees ends (Rule.preview ends n r sc.atomicity) (Rule.run m r sc) := by
  induction n generalizing m r sc with
  | zero => exact fun _ _ _ _ _ => trivial
  | succ n ih =>
    obtain ⟨m, rfl⟩ : ∃ i, m = i + 1 := ⟨m - 1, by omega⟩
    have hnm := Nat.le_of_succ_le_succ hnm
    intro k cs later hk hends
    have hx := Pattern.preview_sound hnm (previewBlanks_sound hnm ends) (fun r sc => ih hnm r sc)
      r.definition.body { sc with atomicity := r.definition.mode.inner sc.atomicity } k cs later
      hk hends
    unfold Rule.preview
    cases hbody : r.definition.body.preview n ends (previewBlanks n ends) (Rule.preview ends n)
        (r.definition.mode.inner sc.atomicity) cs with
    | matched d cs' ls =>
      rw [hbody] at hx
      have hread := reads_enter (r := r) hx.2
      by_cases houter : r.definition.mode.outer sc.atomicity = .atomic
      · rw [if_pos houter] at hread
        simp only [houter, if_true]
        exact ⟨hx.1, hread⟩
      · rw [if_neg houter] at hread
        simp only [houter, if_false]
        by_cases hls : ls = []
        · subst hls
          exact ⟨hx.1, hread⟩
        · simp only [hls, if_false]
          trivial
    | failed =>
      rw [hbody] at hx
      exact refuses_enter hx
    | unclear => trivial

/-! ## Patterns of rules that skip blanks -/

/-- What holds of every member of a list is decided member by member. -/
theorem forall_mem_of_all {α : Type} {p : α → Prop} [DecidablePred p] {l : List α}
    (h : l.all (fun a => decide (p a)) = true) : ∀ a ∈ l, p a :=
  fun a ha => of_decide_eq_true (List.all_eq_true.mp h a ha)

namespace Pattern

/-- The pattern is run by a rule that skips blanks. -/
def inside (n : Nat) (p : Pattern) : State → Reply :=
  p.run n (skipBlanks n) (Rule.run n) ⟨.spaced, .none⟩

/-- What a beginning says about such a run; the bound is enough for all that is looked at. -/
def glance (ends : Bool) (p : Pattern) (cs : List Char) : Preview :=
  p.preview 20 ends (previewBlanks 20 ends) (Rule.preview ends 20) .spaced cs

variable {n : Nat} {p : Pattern} {k : Cursor} {cs cs' later : List Char} {d : Nat} {ls : List Leaf}

theorem glance_sound (hn : 20 ≤ n) (ends : Bool) (p : Pattern) :
    Foresees ends (p.glance ends) (p.inside n) :=
  preview_sound hn (previewBlanks_sound hn ends) (fun r sc => Rule.preview_sound hn ends r sc) p
    ⟨.spaced, .none⟩

theorem refuses_of_glance (hn : 20 ≤ n) (h : p.glance false cs = .failed)
    (hk : k.rest = cs ++ later) : Refuses (p.inside n) k := by
  have hp := glance_sound hn false p k cs later hk nofun
  rwa [h] at hp

theorem reads_of_glance (hn : 20 ≤ n) (h : p.glance false cs = .matched d cs' ls)
    (hk : k.rest = cs ++ later) :
    (k.forward d).rest = cs' ++ later ∧
      Reads (p.inside n) k (k.forward d) (ls.map (Leaf.tree k)) := by
  have hp := glance_sound hn false p k cs later hk nofun
  rwa [h] at hp

/-- Nothing comes after the end of a text. -/
theorem refuses_at_end (hn : 20 ≤ n) (h : p.glance true [] = .failed) (hk : k.rest = []) :
    Refuses (p.inside n) k := by
  have hp := glance_sound hn true p k [] [] hk fun _ => rfl
  rwa [h] at hp

end Pattern

theorem reads_blanks {n : Nat} (hn : 20 ≤ n) {k : Cursor} {cs cs' later : List Char} {d : Nat}
    (h : previewBlanks 20 false cs = .matched d cs' []) (hk : k.rest = cs ++ later) :
    Reads (skipBlanks n) k (k.forward d) [] := by
  have hb := previewBlanks_sound hn false k cs later hk nofun
  rw [h] at hb
  exact hb.2

end ThreeAddress.Grammar

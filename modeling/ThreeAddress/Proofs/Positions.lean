import ThreeAddress.Proofs.Progress

/-!
# Positions

Where the rules of a parse tree stand in the text. All places of a tree are places of the text
that was parsed, the children of a rule come one after another inside it (`Spread`), and **the end
of a span, which is found from its start and the matched characters alone, is the place that
counting from the beginning of the text gives** (`span_eq_placeOf`).
-/

namespace ThreeAddress

/-- Line and column behind a text that starts at the first column of the first line. Every line
feed ends a line, and all other characters take a column. -/
def lineAndColumn (before : List Char) : Nat × Nat :=
  let lines := before.splitOn '\n'
  (lines.length, (lines.getLastD []).length + 1)

/-- The location of the place behind the first `n` characters of a text. -/
def placeOf (text file : String) (n : Nat) : Location :=
  let (line, column) := lineAndColumn (text.toList.take n)
  ⟨file, line, column⟩

namespace Cursor

/-! ## The end of a text from its start -/

/-- The end of a text is found character by character. -/
theorem endOf_cons (line column : Nat) (c : Char) (cs : List Char) :
    endOf line column (c :: cs)
      = if c = '\n' then endOf (line + 1) 1 cs else endOf line (column + 1) cs := by
  have hall (h : '\n' ∉ cs) : ∀ d ∈ cs.reverse, (d != '\n') = true := by
    intro d hd
    rw [bne_iff_ne]
    rintro rfl
    exact h (List.mem_reverse.mp hd)
  unfold endOf
  by_cases hcs : '\n' ∈ cs
  · -- the last line feed is one of the later ones
    have hlater : (cs.reverse ++ [c]).takeWhile (· != '\n') = cs.reverse.takeWhile (· != '\n') := by
      obtain ⟨back, front, hsplit⟩ := List.append_of_mem (List.mem_reverse.mpr hcs)
      rw [hsplit, List.append_assoc, List.cons_append]
      simp [List.takeWhile_append]
    have hmem : '\n' ∈ c :: cs := List.mem_cons_of_mem c hcs
    simp only [List.contains_eq_mem, hcs, hmem, decide_true, if_true, List.reverse_cons, hlater,
      List.count_cons]
    by_cases hc : c = '\n'
    · simp [hc]
      omega
    · simp [hc]
  · have hcount : cs.count '\n' = 0 := List.count_eq_zero.mpr hcs
    by_cases hc : c = '\n'
    · simp [hcs, hc, List.takeWhile_append_of_pos (hall hcs), hcount]
      omega
    · simp [hcs, hc, Ne.symm hc]
      omega

/-- Reading on moves line and column as the characters say. -/
theorem endOf_forward {k : Cursor} {cs later : List Char} (h : k.rest = cs ++ later) :
    endOf k.line k.column cs
      = ((k.forward cs.length).line, (k.forward cs.length).column) := by
  induction cs generalizing k with
  | nil => rfl
  | cons c cs ih =>
    have h : k.rest = c :: (cs ++ later) := h
    rw [List.length_cons, forward_succ h, ← ih (rest_past k c _), endOf_cons]
    unfold past
    split <;> rfl

/-- Lines and columns by splitting a text at its line feeds. -/
theorem endOf_eq_splitOn (line column : Nat) (cs : List Char) :
    endOf line column cs
      = (line + (cs.splitOn '\n').length - 1,
        ((cs.splitOn '\n').getLastD []).length
          + if (cs.splitOn '\n').length = 1 then column else 1) := by
  induction cs generalizing line column with
  | nil => simp [endOf]
  | cons c cs ih =>
    obtain ⟨first, later, hlines⟩ := List.exists_cons_of_ne_nil (List.splitOn_ne_nil '\n' cs)
    rw [endOf_cons, ih, ih, hlines]
    rw [List.splitOn_eq_splitOnP] at hlines ⊢
    rw [List.splitOnP_cons_eq_if_modifyHead, hlines]
    by_cases hc : c = '\n'
    · cases later with
      | nil => simp [hc]
      | cons second later => simp [hc]; omega
    · cases later with
      | nil => simp [hc]; omega
      | cons second later => simp [hc]

/-- Counting from the beginning of a text is reading from its first place. -/
theorem lineAndColumn_eq_endOf (cs : List Char) : lineAndColumn cs = endOf 1 1 cs := by
  rw [endOf_eq_splitOn]
  simp [lineAndColumn]

/-! ## Places of a text -/

theorem forward_take (k : Cursor) (n : Nat) : k.forward n = k.forward (k.rest.take n).length := by
  rw [List.length_take]
  by_cases h : n ≤ k.rest.length
  · rw [Nat.min_eq_left h]
  · have hend : (k.forward k.rest.length).rest = [] := rest_forward (List.append_nil _).symm
    obtain ⟨m, rfl⟩ := Nat.exists_eq_add_of_le (Nat.le_of_not_le h)
    rw [Nat.min_eq_right (Nat.le_add_right ..), forward_add, forward_of_rest_eq_nil hend]

/-- The place behind some characters of a text has the line and the column that counting from the
beginning gives. -/
theorem location_forward (text file : String) (n : Nat) :
    ((ofText text).forward n).location file = placeOf text file n := by
  have hend := endOf_forward (k := ofText text) (List.take_append_drop n text.toList).symm
  rw [forward_take]
  unfold placeOf
  rw [lineAndColumn_eq_endOf, show endOf 1 1 (text.toList.take n) = _ from hend]
  rfl

/-- The end of a span is found from its start and what stands between. -/
theorem spanTo_forward (k : Cursor) (n : Nat) (file : String) :
    k.spanTo (k.forward n) file = ⟨k.location file, (k.forward n).location file⟩ := by
  have hsplit := (List.take_append_drop n k.rest).symm
  unfold spanTo
  rw [forward_take, textTo_forward hsplit, endOf_forward hsplit]
  rfl

/-- Reading on from one place leads to the other. -/
def Leads (k k' : Cursor) : Prop :=
  ∃ n, k' = k.forward n

namespace Leads

variable {k k₁ k' : Cursor}

theorem refl (k : Cursor) : k.Leads k :=
  ⟨0, rfl⟩

theorem trans (h : k.Leads k₁) (h' : k₁.Leads k') : k.Leads k' := by
  obtain ⟨m, rfl⟩ := h
  obtain ⟨n, rfl⟩ := h'
  exact ⟨m + n, (forward_add k m n).symm⟩

theorem of_one? {p : Char → Bool} (h : k.one? p = some k') : k.Leads k' := by
  unfold one? at h
  split at h
  · rename_i c rest hrest
    split at h
    · obtain rfl := Option.some.inj h
      exact ⟨1, (forward_one hrest).symm⟩
    · cases h
  · cases h

theorem of_all? {same : Char → Char → Bool} {text : List Char} (h : k.all? same text = some k') :
    k.Leads k' := by
  induction text generalizing k with
  | nil =>
    obtain rfl := Option.some.inj h
    exact .refl k
  | cons c text ih =>
    obtain ⟨k₁, h₁, h₂⟩ := Option.bind_eq_some_iff.mp h
    exact (of_one? h₁).trans (ih h₂)

end Leads

end Cursor

namespace Grammar

/-! ## Trees in a row -/

/-- The trees stand one after another between two places. -/
def LaidOut : Cursor → List ParseTree → Cursor → Prop
  | k, [], k' => k.Leads k'
  | k, t :: ts, k' =>
    k.Leads t.extent.start ∧ t.extent.start.Leads t.extent.stop ∧ LaidOut t.extent.stop ts k'

/-- The tree and all trees in it have their children laid out inside them. -/
inductive Spread : ParseTree → Prop
  | intro {t : ParseTree} : LaidOut t.extent.start t.children t.extent.stop →
      (∀ u ∈ t.children, Spread u) → Spread t

namespace LaidOut

variable {k k₁ k' : Cursor} {ts us : List ParseTree}

theorem leads (h : LaidOut k ts k') : k.Leads k' := by
  induction ts generalizing k with
  | nil => exact h
  | cons t ts ih =>
    obtain ⟨hstart, hstop, hlater⟩ := h
    exact hstart.trans (hstop.trans (ih hlater))

theorem append (h : LaidOut k ts k₁) (h' : LaidOut k₁ us k') : LaidOut k (ts ++ us) k' := by
  induction ts generalizing k with
  | nil =>
    cases us with
    | nil => exact Cursor.Leads.trans h h'
    | cons u us => exact ⟨Cursor.Leads.trans h h'.1, h'.2⟩
  | cons t ts ih => exact ⟨h.1, h.2.1, ih h.2.2⟩

/-- Every tree of a row stands between its ends. -/
theorem mem (h : LaidOut k ts k') {t : ParseTree} (ht : t ∈ ts) :
    k.Leads t.extent.start ∧ t.extent.start.Leads t.extent.stop ∧ t.extent.stop.Leads k' := by
  induction ts generalizing k with
  | nil => cases ht
  | cons u ts ih =>
    obtain ⟨hstart, hstop, hlater⟩ := h
    obtain rfl | ht := List.mem_cons.mp ht
    · exact ⟨hstart, hstop, hlater.leads⟩
    · obtain ⟨hbefore, hrest⟩ := ih hlater ht
      exact ⟨hstart.trans (hstop.trans hbefore), hrest⟩

end LaidOut

/-- Trees that are spread, one after another between two places. -/
structure Row (k : Cursor) (ts : List ParseTree) (k' : Cursor) : Prop where
  laid : LaidOut k ts k'
  spread : ∀ t ∈ ts, Spread t

theorem Row.nothing {k k' : Cursor} (h : k.Leads k') : Row k [] k' :=
  ⟨h, nofun⟩

theorem Row.append {k k₁ k' : Cursor} {ts us : List ParseTree} (h : Row k ts k₁)
    (h' : Row k₁ us k') : Row k (ts ++ us) k' :=
  ⟨h.laid.append h'.laid, List.forall_mem_append.mpr ⟨h.spread, h'.spread⟩⟩

/-- Every match of the run leaves its trees in a row between its ends. -/
def LaysOut (x : State → Reply) : Prop :=
  ∀ s s' ts, x s = .matched s' ts → Row s.cursor ts s'.cursor

theorem Rounds.row {step : State → Reply} (hstep : LaysOut step) {s s' : State}
    {tss : List (List ParseTree)} (h : Rounds step s s' tss) :
    Row s.cursor tss.flatten s'.cursor := by
  induction h with
  | stop _ => exact .nothing (.refl _)
  | round hround _ ih => exact (hstep _ _ _ hround).append ih

section

variable {n : Nat} {skip : State → Reply} {call : Rule → Run} {sc : Scope}

/-- A pattern lays out its trees if its rules and the blanks between its parts do. -/
theorem Pattern.laysOut_run (hskip : LaysOut skip) (hcall : ∀ r sc, LaysOut (call r sc))
    (p : Pattern) : LaysOut (p.run n skip call sc) := by
  have hbetween : LaysOut (Pattern.run.between skip sc) := by
    intro s s' ts h
    unfold Pattern.run.between at h
    split at h
    · exact hskip _ _ _ h
    · cases h
      exact .nothing (.refl _)
  induction p with
  | rule r => exact hcall r sc
  | start | finish =>
    intro s s' ts h
    simp only [Pattern.run] at h
    split at h <;> cases h
    exact .nothing (.refl _)
  | one c =>
    intro s s' ts h
    obtain ⟨hone, rfl⟩ := Reply.reading_eq_matched h
    exact .nothing (.of_one? hone)
  | literal text | caseless text =>
    intro s s' ts h
    obtain ⟨hall, rfl⟩ := Reply.reading_eq_matched h
    exact .nothing (.of_all? hall)
  | seq p q hp hq =>
    intro s s' ts h
    obtain ⟨s₁, s₂, us, vs, ws, h₁, hblanks, h₂, rfl⟩ := seq_eq_matched h
    exact ((hp _ _ _ h₁).append (hbetween _ _ _ hblanks)).append (hq _ _ _ h₂)
  | alt p q hp hq =>
    intro s s' ts h
    obtain h | ⟨a, h⟩ := alt_eq_matched h
    · exact hp _ _ _ h
    · exact hq { s with attempts := a } _ _ h
  | many p hp =>
    intro s s' ts h
    obtain ⟨a, -, rfl, rfl⟩ | ⟨s₁, us, tss, hfirst, hrounds, rfl⟩ := many_eq_matched h
    · exact .nothing (.refl _)
    · refine (hp _ _ _ hfirst).append (hrounds.row fun s s' ts h => ?_)
      obtain ⟨s₁, us, vs, h₁, h₂, rfl⟩ := Reply.andThen_eq_matched h
      exact (hbetween _ _ _ h₁).append (hp _ _ _ h₂)
  | maybe p hp =>
    intro s s' ts h
    obtain ⟨a, rfl, rfl⟩ | h := maybe_eq_matched h
    · exact .nothing (.refl _)
    · exact hp _ _ _ h
  | ahead p _ =>
    intro s s' ts h
    obtain ⟨a, rfl, rfl⟩ := ahead_eq_matched h
    exact .nothing (.refl _)
  | notAhead p _ =>
    intro s s' ts h
    obtain ⟨a, rfl, rfl⟩ := notAhead_eq_matched h
    exact .nothing (.refl _)
  | push p hp =>
    intro s s' ts h
    obtain ⟨s₁, h, hcursor⟩ := push_eq_matched h
    rw [hcursor]
    exact hp _ _ _ h
  | peek =>
    intro s s' ts h
    obtain ⟨top, htop, rfl⟩ := top_eq_matched (.inl rfl) h
    exact .nothing (.of_all? htop)
  | pop =>
    intro s s' ts h
    obtain ⟨top, htop, rfl⟩ := top_eq_matched (.inr rfl) h
    exact .nothing (.of_all? htop)

end

theorem laysOut_skipBlanks (n : Nat) : LaysOut (skipBlanks n) := by
  refine Pattern.laysOut_run (fun s s' ts h => ?_) (fun r sc s s' ts h => ?_) _
  · cases h
    exact .nothing (.refl _)
  · cases h

/-- **The trees that a rule leaves stand inside each other and one after another.** -/
theorem Rule.laysOut_run (n : Nat) (r : Rule) (sc : Scope) : LaysOut (Rule.run n r sc) := by
  induction n generalizing r sc with
  | zero => exact fun _ _ _ h => nomatch h
  | succ n ih =>
    intro s s' ts h
    unfold Rule.run Rule.enter at h
    cases hr : r.definition.body.run n (skipBlanks n) (Rule.run n)
        { sc with atomicity := r.definition.mode.inner sc.atomicity } s with
    | failed a | exhausted => simp [hr] at h
    | matched s₁ us =>
      have hrow : Row s.cursor us s₁.cursor :=
        Pattern.laysOut_run (laysOut_skipBlanks n) ih _ _ _ _ hr
      simp only [hr, Reply.matched.injEq] at h
      obtain ⟨hs, rfl⟩ := h
      have hcursor : s'.cursor = s₁.cursor := by
        rw [← hs]
        split <;> rfl
      rw [hs, hcursor]
      split
      · exact hrow
      · refine ⟨⟨.refl _, hrow.laid.leads, .refl _⟩, List.forall_mem_singleton.mpr ?_⟩
        exact .intro hrow.laid hrow.spread

/-- The tree stands somewhere in the other one. -/
inductive ParseTree.Inside : ParseTree → ParseTree → Prop
  | self (t : ParseTree) : Inside t t
  | child {u v t : ParseTree} : v ∈ t.children → Inside u v → Inside u t

/-- What stands in a tree stands between its ends. -/
theorem Spread.leads {t u : ParseTree} (h : Spread t) (hu : u.Inside t) :
    t.extent.start.Leads u.extent.start ∧ u.extent.start.Leads u.extent.stop := by
  induction hu with
  | self =>
    obtain ⟨hlaid, -⟩ := h
    exact ⟨.refl _, hlaid.leads⟩
  | child hv _ ih =>
    obtain ⟨hlaid, hspread⟩ := h
    obtain ⟨hbefore, hrest⟩ := ih (hspread _ hv)
    exact ⟨(hlaid.mem hv).1.trans hbefore, hrest⟩

/-- **The tree of a text is spread over the text.** -/
theorem parse_spread {text : String} {t : ParseTree} (h : parse text = .tree t) :
    (Cursor.ofText text).Leads t.extent.start ∧ Spread t := by
  unfold parse parseWithin at h
  cases hr : Rule.run (boundFor text.length) .script ⟨.spaced, .none⟩ ⟨.ofText text, [], .none⟩ with
  | failed a | exhausted => simp [hr] at h
  | matched s ts =>
    have hrow : Row (.ofText text) ts s.cursor := Rule.laysOut_run _ _ _ _ _ _ hr
    cases ts with
    | nil => simp [hr] at h
    | cons u us =>
      simp only [hr, Parse.tree.injEq] at h
      subst h
      exact ⟨hrow.laid.1, hrow.spread u List.mem_cons_self⟩

end Grammar

open Grammar

/-- **Spans agree with the line index.** The span of any stretch of a text, whose end is computed
from its start and its own characters, runs between the places that counting lines and columns
from the beginning of the text gives; and whatever a rule matched is such a stretch. -/
theorem span_eq_placeOf (text file : String) :
    (∀ a b, a ≤ b → (⟨(Cursor.ofText text).forward a, (Cursor.ofText text).forward b⟩ : Extent).span
      file = ⟨placeOf text file a, placeOf text file b⟩) ∧
    ∀ t u : ParseTree, Grammar.parse text = .tree t → u.Inside t → ∃ a b, a ≤ b ∧ b ≤ text.length ∧
      u.extent = ⟨(Cursor.ofText text).forward a, (Cursor.ofText text).forward b⟩ := by
  refine ⟨fun a b hab => ?_, fun t u ht hu => ?_⟩
  · obtain ⟨n, rfl⟩ := Nat.exists_eq_add_of_le hab
    show Cursor.spanTo _ _ _ = _
    rw [Cursor.forward_add, Cursor.spanTo_forward, ← Cursor.forward_add, Cursor.location_forward,
      Cursor.location_forward]
  · obtain ⟨hstart, hspread⟩ := parse_spread ht
    obtain ⟨hbefore, n, hstop⟩ := hspread.leads hu
    obtain ⟨a, hplace⟩ := hstart.trans hbefore
    rw [hplace, ← Cursor.forward_add] at hstop
    have hextent : u.extent = ⟨u.extent.start, u.extent.stop⟩ := rfl
    rw [hplace, hstop, Cursor.forward_take _ a, Cursor.forward_take _ (a + n)] at hextent
    refine ⟨_, _, ?_, ?_, hextent⟩
    · simp only [List.length_take]
      omega
    · rw [List.length_take]
      exact Nat.le_trans (Nat.min_le_right ..) (Nat.le_of_eq String.length_toList)

/-- A stretch from inside the first line to the beginning of the third one; the carriage return and
the accented letter take a column each. -/
theorem span_acrossLines :
    (⟨(Cursor.ofText "aé\r\nb\nc").forward 1, (Cursor.ofText "aé\r\nb\nc").forward 6⟩ : Extent).span
      "t.php" = ⟨⟨"t.php", 1, 2⟩, ⟨"t.php", 3, 1⟩⟩ :=
  (span_eq_placeOf "aé\r\nb\nc" "t.php").1 1 6 (by decide)

end ThreeAddress

import ThreeAddress.Proofs.Finishing

/-!
# Text with marks

Where in the written text a node ends. `Plan.marked` writes the same text as a run
(`Plan.Runs.written_marked`), with a mark behind the text for each node that counts, and **the
marks stand where the layout of the plan tells** (`Plan.Runs.marks_marked`). Text for a node that
counts is never empty (`Plan.Runs.layout_of_empty`), so no mark is lost with an empty value.
-/

namespace ThreeAddress.Lowering

/-- A piece of marked text: some text, or the mark that the text for a node ends here. -/
inductive Piece where
  | text (s : String)
  | mark (id : Nat)
deriving DecidableEq, Repr

/-- Marked text without its marks. -/
def plainText (ps : List Piece) : String :=
  ps.foldr (fun p s => match p with
    | .text t => t ++ s
    | .mark _ => s) ""

/-- The marks of a text, from left to right. -/
def marks (ps : List Piece) : List Nat :=
  ps.filterMap fun p => match p with
    | .text _ => none
    | .mark id => some id

@[simp] theorem plainText_nil : plainText [] = "" := rfl

@[simp] theorem plainText_text (s : String) (ps : List Piece) :
    plainText (.text s :: ps) = s ++ plainText ps :=
  rfl

@[simp] theorem plainText_mark (id : Nat) (ps : List Piece) :
    plainText (.mark id :: ps) = plainText ps :=
  rfl

@[simp] theorem plainText_append (ps qs : List Piece) :
    plainText (ps ++ qs) = plainText ps ++ plainText qs := by
  induction ps with
  | nil => exact String.empty_append.symm
  | cons p ps ih =>
    cases p with
    | text s => rw [List.cons_append, plainText_text, ih, plainText_text, String.append_assoc]
    | mark id => exact ih

@[simp] theorem marks_nil : marks [] = [] := rfl

@[simp] theorem marks_text (s : String) (ps : List Piece) : marks (.text s :: ps) = marks ps := rfl

@[simp] theorem marks_mark (id : Nat) (ps : List Piece) :
    marks (.mark id :: ps) = id :: marks ps :=
  rfl

@[simp] theorem marks_append (ps qs : List Piece) : marks (ps ++ qs) = marks ps ++ marks qs :=
  List.filterMap_append

/-- The nodes of a layout, line by line. -/
def Layout.order (l : Layout) : List Nat :=
  l.lines.flatMap Prod.fst ++ l.value

/-- A value and the lines before it, with marks. -/
structure Marked where
  value : List Piece := []
  lines : List (List Piece) := []

namespace Marked

instance : Append Marked :=
  ⟨fun a b => ⟨a.value ++ b.value, a.lines ++ b.lines⟩⟩

/-- A mark for a node, if it counts. -/
def note (E : Nat → Bool) (id : Nat) : List Piece :=
  if E id then [.mark id] else []

/-- The text for a node ends. If it is a line of its own, that is the last line. -/
def ended (E : Nat → Bool) (id : Nat) (hoists : Bool) (m : Marked) : Marked :=
  if hoists then
    { m with lines := m.lines.dropLast ++ m.lines.getLast?.toList.map (· ++ note E id) }
  else { m with value := m.value ++ note E id }

/-- The value as a line that begins and ends with a text. -/
def asLine (before after : String) (m : Marked) : Marked :=
  { lines := m.lines ++ [Piece.text before :: m.value ++ [.text after]] }

/-- A temporary that is assigned the value. -/
def bound (t : String) (m : Marked) : Marked :=
  { m.asLine (t ++ " = ") ";" with value := [.text t] }

/-- The value between two texts, unless it is empty. -/
def wrapped (before after : String) (m : Marked) : Marked :=
  if (plainText m.value).isEmpty then m
  else { m with value := .text before :: m.value ++ [Piece.text after] }

/-- The value as a line with a semicolon, unless it is empty. -/
def asValueLine (m : Marked) : Marked :=
  if (plainText m.value).isEmpty then { lines := m.lines } else m.asLine "" ";"

/-- What is written, without the marks. -/
def written (m : Marked) : Lowered :=
  ⟨plainText m.value, m.lines.map fun l => .text (plainText l)⟩

/-- The marks, line by line and from left to right. -/
def order (m : Marked) : List Nat :=
  m.lines.flatMap marks ++ marks m.value

@[simp] theorem plainText_note (E : Nat → Bool) (id : Nat) : plainText (note E id) = "" := by
  unfold note
  split <;> rfl

theorem marks_note (E : Nat → Bool) (id : Nat) : marks (note E id) = Layout.note E id := by
  unfold note Layout.note
  split <;> rfl

theorem written_append (a b : Marked) : (a ++ b).written = a.written ++ b.written :=
  congrArg₂ Lowered.mk (plainText_append _ _) List.map_append

theorem written_ended (E : Nat → Bool) (id : Nat) (hoists : Bool) (m : Marked) :
    (m.ended E id hoists).written = m.written := by
  obtain ⟨value, lines⟩ := m
  unfold ended written
  cases hoists with
  | false => simp
  | true =>
    rcases List.eq_nil_or_concat' lines with rfl | ⟨before, line, rfl⟩ <;> simp

theorem written_asLine (before after : String) (m : Marked) :
    (m.asLine before after).written
      = .ofCode (m.written.effects ++ [Instruction.text (before ++ m.written.value ++ after)]) := by
  simp [asLine, written, Lowered.ofCode, String.append_assoc]

theorem written_bound (t : String) (m : Marked) :
    (m.bound t).written
      = ⟨t, m.written.effects ++ [Instruction.text (t ++ " = " ++ m.written.value ++ ";")]⟩ := by
  have hline := congrArg Lowered.effects (written_asLine (t ++ " = ") ";" m)
  exact congrArg₂ Lowered.mk String.append_empty hline

theorem written_wrapped (before after : String) (m : Marked) :
    (m.wrapped before after).written = m.written.wrapped before after := by
  unfold wrapped Lowered.wrapped
  show written (if m.written.value.isEmpty then _ else _) = _
  split
  · rfl
  · simp [written, String.append_assoc]

theorem written_asValueLine (m : Marked) : m.asValueLine.written = m.written.asValueLine := by
  unfold asValueLine Lowered.asValueLine
  show written (if m.written.value.isEmpty then _ else _) = _
  split
  · rfl
  · rw [written_asLine, String.empty_append]

/-- The marks stand where a layout tells. -/
structure Follows (m : Marked) (l : Layout) : Prop where
  value : marks m.value = l.value
  lines : m.lines.map marks = l.lines.map Prod.fst

namespace Follows

variable {m m' : Marked} {l l' : Layout}

theorem append (h : m.Follows l) (h' : m'.Follows l') : (m ++ m').Follows (l ++ l') where
  value := by
    show marks (m.value ++ m'.value) = l.value ++ l'.value
    rw [marks_append, h.value, h'.value]
  lines := by
    show (m.lines ++ m'.lines).map marks = (l.lines ++ l'.lines).map Prod.fst
    rw [List.map_append, List.map_append, h.lines, h'.lines]

theorem wrapped (h : m.Follows l) (before after : String) : (m.wrapped before after).Follows l := by
  unfold Marked.wrapped
  split
  · exact h
  · refine ⟨?_, h.lines⟩
    show marks (m.value ++ [Piece.text after]) = l.value
    rw [marks_append, marks_text, marks_nil, List.append_nil, h.value]

theorem lines_asLine (h : m.Follows l) (before after : String) :
    (m.asLine before after).lines.map marks = l.asLine.lines.map Prod.fst := by
  simp [Marked.asLine, Layout.asLine, h.value, h.lines]

theorem ended (h : m.Follows l) (E : Nat → Bool) (id : Nat) (hoists : Bool) :
    (m.ended E id hoists).Follows (l.ended E id hoists) := by
  unfold Marked.ended Layout.ended
  cases hoists with
  | false =>
    refine ⟨?_, h.lines⟩
    show marks (m.value ++ note E id) = l.value ++ Layout.note E id
    rw [marks_append, marks_note, h.value]
  | true =>
    refine ⟨h.value, ?_⟩
    have hlines := h.lines
    rcases List.eq_nil_or_concat' l.lines with hl | ⟨before, line, hl⟩
    · rw [hl] at hlines ⊢
      rw [List.map_eq_nil_iff.mp hlines]
      rfl
    · -- the last line of the text is the one that the layout has last
      rw [hl, List.map_append] at hlines
      obtain ⟨ls, last, hm, hbefore, hlast⟩ := List.map_eq_append_iff.mp hlines
      obtain ⟨x, rfl, hx⟩ := List.map_eq_singleton_iff.mp hlast
      rw [hl, hm]
      simp [hbefore, hx, marks_note]

theorem order_eq (h : m.Follows l) : m.order = l.order := by
  unfold order Layout.order
  rw [h.value, List.flatMap_def, h.lines, List.flatMap_def]

/-- A value without text has no marks to lose. -/
theorem order_asValueLine (h : m.Follows l) (hempty : plainText m.value = "" → l.value = []) :
    m.asValueLine.order = l.order := by
  rw [← h.order_eq]
  unfold asValueLine
  split
  · next hv =>
    have hnone : marks m.value = [] := h.value.trans (hempty (String.isEmpty_iff.mp hv))
    unfold order
    rw [hnone]
    rfl
  · simp [asLine, order]

end Follows

end Marked

namespace Plan

/-- The value that a run gives, if it comes to its end. -/
def printed (p : Plan) (c : Context) : String :=
  match (p.run.outcome c).1 with
  | .ok a => a.value
  | .error _ => ""

/-- What is written for a plan whose nodes are all new, with a mark for every node that `E` tells
of. The text of a closure has no marks, and plans of other statements than expressions are left
out. -/
def marked (E : Nat → Bool) : Plan → Context → Marked
  | .text s, _ => { value := [.text s] }
  | .both p q, c => p.marked E c ++ q.marked E (p.reached c)
  | .guarded id p, c => (p.marked E (c.met id)).ended E id p.hoists
  | .expression t p, c => (p.marked E (c.met t.id).below).ended E t.id p.hoists
  | .statement t p, c => p.marked E ((c.met t.id).told (.statement t)).below
  | .unlessEmpty before p after, c => (p.marked E c).wrapped before after
  | .bind p, c => (p.marked E c).bound (temporary (p.reached c).temps)
  | .closed p q, c => { value := [.text ((Plan.closed p q).printed c)] }
  | .line p, c => (p.marked E c).asLine "" ""
  | .effects p, c => { lines := (p.marked E c).lines }
  | .valueLine p, c => (p.marked E c).asValueLine
  | _, _ => {}

variable {E : Nat → Bool} {p : Plan} {c c' : Context} {a : Lowered}

theorem Runs.printed_eq (h : Runs p c a c') : p.printed c = a.value := by
  unfold printed
  rw [show (p.run.outcome c).1 = .ok a from congrArg Prod.fst h.gives]

/-- **Without its marks, the marked text is what the run writes.** -/
theorem Runs.written_marked (h : Runs p c a c') (hp : (p.layout E).total)
    (hfresh : Fresh p.ids c) : (p.marked E c).written = a := by
  induction h with
  | nothing | mark => rfl
  | text => simp [marked, Marked.written]
  | guardedAgain hid | expressionAgain hid => exact absurd hid (hfresh.2 _ List.mem_cons_self)
  | guarded _ _ ih | expression _ _ _ ih =>
    rw [marked, Marked.written_ended]
    exact ih (Layout.total_of_checked hp).1 hfresh.met
  | both hrun _ ih₁ ih₂ =>
    obtain ⟨t₁, t₂⟩ := Bool.and_eq_true_iff.mp hp
    rw [marked, Marked.written_append, hrun.reached_eq, ih₁ t₁ hfresh.left,
      ih₂ t₂ (hrun.fresh hfresh)]
  | unlessEmpty _ ih => rw [marked, Marked.written_wrapped, ih hp hfresh]
  | bind hrun ih => rw [marked, Marked.written_bound, ih hp hfresh, hrun.reached_eq]
  | closed hheader hbody =>
    have hprinted := (Runs.closed hheader hbody).printed_eq
    rw [marked, hprinted]
    exact congrArg (Lowered.mk · []) String.append_empty
  | line _ ih =>
    rw [marked, Marked.written_asLine, ih hp hfresh, String.empty_append, String.append_empty]
    rfl
  | _ => cases hp

/-- **The marks stand where the layout tells.** -/
theorem Runs.follows_marked (h : Runs p c a c') (hp : (p.layout E).total)
    (hfresh : Fresh p.ids c) : (p.marked E c).Follows (p.layout E) := by
  induction h with
  | nothing | text | mark | closed => exact ⟨rfl, rfl⟩
  | guardedAgain hid | expressionAgain hid => exact absurd hid (hfresh.2 _ List.mem_cons_self)
  | guarded _ _ ih | expression _ _ _ ih =>
    have hinner := ih (Layout.total_of_checked hp).1 hfresh.met
    exact ⟨(hinner.ended E _ _).value, (hinner.ended E _ _).lines⟩
  | both hrun _ ih₁ ih₂ =>
    obtain ⟨t₁, t₂⟩ := Bool.and_eq_true_iff.mp hp
    have h₂ := ih₂ t₂ (hrun.fresh hfresh)
    rw [← hrun.reached_eq] at h₂
    exact (ih₁ t₁ hfresh.left).append h₂
  | unlessEmpty _ ih => exact (ih hp hfresh).wrapped _ _
  | bind _ ih | line _ ih => exact ⟨rfl, (ih hp hfresh).lines_asLine _ _⟩
  | _ => cases hp

/-- A plan that writes text of its own has a value. -/
theorem Runs.value_ne_empty (h : Runs p c a c') (hp : p.speaks) : a.value ≠ "" := by
  induction h with
  | text =>
    intro hempty
    obtain rfl : _ = "" := hempty
    exact absurd hp Bool.false_ne_true
  | @both p q c c₁ c₂ a b _ _ ih₁ ih₂ =>
    intro hempty
    obtain ⟨ha, hb⟩ := String.append_eq_empty_iff.mp hempty
    obtain hp | hq := Bool.or_eq_true_iff.mp hp
    · exact ih₁ hp ha
    · exact ih₂ hq hb
  | _ => cases hp

/-- **A value that is empty has no marks.** -/
theorem Runs.layout_of_empty (h : Runs p c a c') (hp : (p.layout E).total)
    (hfresh : Fresh p.ids c) (hempty : a.value = "") : (p.layout E).value = [] := by
  -- a node that counts and stays in the value has text of its own
  have ended {l : Layout} {id : Nat} {p : Plan} {c c' : Context} {a : Lowered}
      (hrun : Runs p c a c') (hchecked : (!E id || p.hoists || p.speaks) = true)
      (hempty : a.value = "") (hvalue : l.value = []) : (l.ended E id p.hoists).value = [] := by
    unfold Layout.ended
    split
    · exact hvalue
    · next hh =>
      have hE : E id = false := by
        by_contra hE
        refine hrun.value_ne_empty ?_ hempty
        simpa [hE, hh] using hchecked
      show l.value ++ Layout.note E id = []
      rw [hvalue, Layout.note, if_neg (by simp [hE]), List.append_nil]
  induction h with
  | nothing | text | mark | closed | bind | line => rfl
  | guardedAgain hid | expressionAgain hid => exact absurd hid (hfresh.2 _ List.mem_cons_self)
  | guarded _ hrun ih | expression _ _ hrun ih =>
    obtain ⟨htotal, hchecked⟩ := Layout.total_of_checked hp
    exact ended hrun hchecked hempty (ih htotal hfresh.met hempty)
  | both hrun _ ih₁ ih₂ =>
    obtain ⟨t₁, t₂⟩ := Bool.and_eq_true_iff.mp hp
    obtain ⟨ha, hb⟩ := String.append_eq_empty_iff.mp hempty
    exact List.append_eq_nil_iff.mpr ⟨ih₁ t₁ hfresh.left ha, ih₂ t₂ (hrun.fresh hfresh) hb⟩
  | @unlessEmpty before after p c c' a _ ih =>
    refine ih hp hfresh ?_
    by_contra ha
    simp [Lowered.wrapped, ha] at hempty
  | _ => cases hp

end Plan

end ThreeAddress.Lowering

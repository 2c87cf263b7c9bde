import ThreeAddress.Proofs.Matches

/-!
# The shape of parse trees

Which trees a match leaves behind, read off from the pattern alone: `Pattern.Yields` says what a
pattern may leave, given what its rules leave. **Wherever rules leave trees, a match leaves them
as the pattern says**, and what holds of the trees of all calls holds of all trees
(`Pattern.run_matched`). A pattern tells which rules are among the trees (`Yields.forall_mem`,
`Yields.exists_mem`) and in which order they come (`Yields.followedBy`).
-/

namespace ThreeAddress.Grammar

namespace Pattern

variable {α β : Type}

/-- A match of the pattern may leave the list, where `P` tells what each of its rules leaves. -/
def Yields (P : Rule → α → Prop) : Pattern → List α → Prop
  | .rule r, xs => ∃ x, xs = [x] ∧ P r x
  | .seq p q, xs => ∃ ys zs, xs = ys ++ zs ∧ p.Yields P ys ∧ q.Yields P zs
  | .alt p q, xs => p.Yields P xs ∨ q.Yields P xs
  | .many p, xs => ∃ yss : List (List α), xs = yss.flatten ∧ ∀ ys ∈ yss, p.Yields P ys
  | .maybe p, xs => xs = [] ∨ p.Yields P xs
  | .push p, xs => p.Yields P xs
  | _, xs => xs = []

/-- The rules that a pattern mentions and does not only look ahead for. -/
def calls : Pattern → List Rule
  | .rule r => [r]
  | .seq p q | .alt p q => p.calls ++ q.calls
  | .many p | .maybe p | .push p => p.calls
  | _ => []

/-- Whether every match of the pattern calls the rule. -/
def requires (r : Rule) : Pattern → Bool
  | .rule q => q == r
  | .seq p q => p.requires r || q.requires r
  | .alt p q => p.requires r && q.requires r
  | .push p => p.requires r
  | _ => false

section

variable {P : Rule → α → Prop} {p : Pattern} {xs : List α}

/-- All that a pattern leaves comes from the rules that it calls. -/
theorem Yields.forall_mem (h : p.Yields P xs) {Q : α → Prop}
    (hP : ∀ r ∈ p.calls, ∀ x, P r x → Q x) : ∀ x ∈ xs, Q x := by
  induction p generalizing xs with
  | rule r =>
    obtain ⟨x, rfl, hx⟩ := h
    exact List.forall_mem_singleton.mpr (hP r List.mem_cons_self x hx)
  | seq p q hp hq =>
    obtain ⟨ys, zs, rfl, h₁, h₂⟩ := h
    exact List.forall_mem_append.mpr
      ⟨hp h₁ fun r hr => hP r (List.mem_append_left _ hr),
        hq h₂ fun r hr => hP r (List.mem_append_right _ hr)⟩
  | alt p q hp hq =>
    obtain h | h := h
    · exact hp h fun r hr => hP r (List.mem_append_left _ hr)
    · exact hq h fun r hr => hP r (List.mem_append_right _ hr)
  | many p hp =>
    obtain ⟨yss, rfl, h⟩ := h
    intro x hx
    obtain ⟨ys, hys, hx⟩ := List.mem_flatten.mp hx
    exact hp (h ys hys) hP x hx
  | maybe p hp =>
    obtain rfl | h := h
    · exact nofun
    · exact hp h hP
  | push p hp => exact hp h hP
  | _ =>
    obtain rfl : xs = [] := h
    exact nofun

/-- What a pattern requires is among what it leaves. -/
theorem Yields.exists_mem (h : p.Yields P xs) {r : Rule} (hr : p.requires r = true) :
    ∃ x ∈ xs, P r x := by
  induction p generalizing xs with
  | rule q =>
    obtain ⟨x, rfl, hx⟩ := h
    exact ⟨x, List.mem_cons_self, beq_iff_eq.mp hr ▸ hx⟩
  | seq p q hp hq =>
    obtain ⟨ys, zs, rfl, h₁, h₂⟩ := h
    obtain hr | hr := Bool.or_eq_true_iff.mp hr
    · obtain ⟨x, hmem, hx⟩ := hp h₁ hr
      exact ⟨x, List.mem_append_left _ hmem, hx⟩
    · obtain ⟨x, hmem, hx⟩ := hq h₂ hr
      exact ⟨x, List.mem_append_right _ hmem, hx⟩
  | alt p q hp hq =>
    obtain ⟨hrp, hrq⟩ := Bool.and_eq_true_iff.mp hr
    obtain h | h := h
    · exact hp h hrp
    · exact hq h hrq
  | push p hp => exact hp h hr
  | _ => cases hr

/-- A pattern leaves in the image of a map what its rules leave there. -/
theorem Yields.map {Q : Rule → β → Prop} {f : α → β} (h : p.Yields P xs)
    (hP : ∀ r, ∀ x ∈ xs, P r x → Q r (f x)) : p.Yields Q (xs.map f) := by
  induction p generalizing xs with
  | rule r =>
    obtain ⟨x, rfl, hx⟩ := h
    exact ⟨f x, rfl, hP r x List.mem_cons_self hx⟩
  | seq p q hp hq =>
    obtain ⟨ys, zs, rfl, h₁, h₂⟩ := h
    refine ⟨ys.map f, zs.map f, List.map_append, hp h₁ fun r x hx => ?_, hq h₂ fun r x hx => ?_⟩
    · exact hP r x (List.mem_append_left _ hx)
    · exact hP r x (List.mem_append_right _ hx)
  | alt p q hp hq => exact h.imp (hp · hP) (hq · hP)
  | many p hp =>
    obtain ⟨yss, rfl, h⟩ := h
    refine ⟨yss.map (List.map f), List.map_flatten, fun zs hzs => ?_⟩
    obtain ⟨ys, hys, rfl⟩ := List.mem_map.mp hzs
    exact hp (h ys hys) fun r x hx => hP r x (List.mem_flatten.mpr ⟨ys, hys, hx⟩)
  | maybe p hp =>
    obtain rfl | h := h
    · exact .inl rfl
    · exact .inr (hp h hP)
  | push p hp => exact hp h hP
  | _ =>
    obtain rfl : xs = [] := h
    rfl

theorem Yields.mono {Q : Rule → α → Prop} (h : p.Yields P xs)
    (hP : ∀ r, ∀ x ∈ xs, P r x → Q r x) : p.Yields Q xs := by
  rw [← List.map_id xs]
  exact h.map hP

end

/-! ## The order of what is left -/

section

variable (keep : Rule → Bool) (P : Rule → α → Prop)

/-- The list starts with what a match of the pattern leaves, of the rules that are kept, and what
follows has the property. -/
def FollowedBy : Pattern → (List α → Prop) → List α → Prop
  | .rule r, later, xs =>
    bif keep r then ∃ x ys, xs = x :: ys ∧ P r x ∧ later ys else later xs
  | .seq p q, later, xs => p.FollowedBy (q.FollowedBy later) xs
  | .alt p q, later, xs => p.FollowedBy later xs ∨ q.FollowedBy later xs
  | .many p, later, xs =>
    ∃ ys zs, xs = ys ++ zs ∧ (∀ y ∈ ys, ∃ r ∈ p.calls, keep r = true ∧ P r y) ∧ later zs
  | .maybe p, later, xs => later xs ∨ p.FollowedBy later xs
  | .push p, later, xs => p.FollowedBy later xs
  | _, later, xs => later xs

/-- Whether the pattern is a choice of rules that are kept. -/
def isChoice : Pattern → Bool
  | .rule r => keep r
  | .alt p q => p.isChoice && q.isChoice
  | _ => false

variable {P}

/-- **What a match leaves comes in the order of its pattern.** -/
theorem Yields.followedBy {p : Pattern} {xs : List α} (h : p.Yields P xs) {rule : α → Rule}
    (hrule : ∀ r x, P r x → rule x = r) {later : List α → Prop} {zs : List α}
    (hlater : later zs) : p.FollowedBy keep P later (xs.filter (keep <| rule ·) ++ zs) := by
  induction p generalizing xs later zs with
  | rule r =>
    obtain ⟨x, rfl, hx⟩ := h
    show bif keep r then _ else _
    rw [List.filter_cons, hrule r x hx]
    cases hr : keep r with
    | true => exact ⟨x, zs, rfl, hx, hlater⟩
    | false => exact hlater
  | seq p q hp hq =>
    obtain ⟨ys, us, rfl, h₁, h₂⟩ := h
    rw [List.filter_append, List.append_assoc]
    exact hp h₁ (hq h₂ hlater)
  | alt p q hp hq => exact h.imp (hp · hlater) (hq · hlater)
  | many p hp =>
    refine ⟨xs.filter (keep <| rule ·), zs, rfl, fun y hy => ?_, hlater⟩
    obtain ⟨hmem, hkeep⟩ := List.mem_filter.mp hy
    refine h.forall_mem (Q := fun y => keep (rule y) = true → ∃ r ∈ p.calls, keep r = true ∧ P r y)
      (fun r hr y hy hkeep => ⟨r, hr, hrule r y hy ▸ hkeep, hy⟩) y hmem hkeep
  | maybe p hp =>
    obtain rfl | h := h
    · exact .inl hlater
    · exact .inr (hp h hlater)
  | push p hp => exact hp h hlater
  | _ =>
    obtain rfl : xs = [] := h
    exact hlater

/-- A choice of rules leaves what one of them leaves. -/
theorem Yields.choice {p : Pattern} {xs : List α} (h : p.Yields P xs)
    (hp : p.isChoice keep = true) : ∃ x, xs = [x] ∧ ∃ r ∈ p.calls, P r x := by
  induction p with
  | rule r =>
    obtain ⟨x, rfl, hx⟩ := h
    exact ⟨x, rfl, r, List.mem_cons_self, hx⟩
  | alt p q hp' hq' =>
    obtain ⟨hchoice, hchoice'⟩ := Bool.and_eq_true_iff.mp hp
    obtain h | h := h
    · obtain ⟨x, rfl, r, hr, hx⟩ := hp' h hchoice
      exact ⟨x, rfl, r, List.mem_append_left _ hr, hx⟩
    · obtain ⟨x, rfl, r, hr, hx⟩ := hq' h hchoice'
      exact ⟨x, rfl, r, List.mem_append_right _ hr, hx⟩
  | _ => cases hp

variable {keep}

/-- A choice of rules comes first as one of them. -/
theorem FollowedBy.choice {p : Pattern} {later : List α → Prop} {xs : List α}
    (h : p.FollowedBy keep P later xs) (hp : p.isChoice keep = true) :
    ∃ x ys, xs = x :: ys ∧ (∃ r ∈ p.calls, P r x) ∧ later ys := by
  induction p with
  | rule r =>
    have h : bif keep r then _ else later xs := h
    rw [show keep r = true from hp] at h
    obtain ⟨x, ys, rfl, hx, hlater⟩ := h
    exact ⟨x, ys, rfl, ⟨r, List.mem_cons_self, hx⟩, hlater⟩
  | alt p q hp' hq' =>
    obtain ⟨hchoice, hchoice'⟩ := Bool.and_eq_true_iff.mp hp
    obtain h | h := h
    · obtain ⟨x, ys, rfl, ⟨r, hr, hx⟩, hlater⟩ := hp' h hchoice
      exact ⟨x, ys, rfl, ⟨r, List.mem_append_left _ hr, hx⟩, hlater⟩
    · obtain ⟨x, ys, rfl, ⟨r, hr, hx⟩, hlater⟩ := hq' h hchoice'
      exact ⟨x, ys, rfl, ⟨r, List.mem_append_right _ hr, hx⟩, hlater⟩
  | _ => cases hp

end

end Pattern

/-- The tree is a match of the rule. -/
def ParseTree.OfRule (r : Rule) (t : ParseTree) : Prop :=
  t.rule = r

/-! ## Annotations -/

namespace ParseTree

variable {α : Type} (f : Rule → Extent → List (Annotated α) → α)

theorem rule_annotate (t : ParseTree) : (t.annotate f).rule = t.rule := by
  cases t
  rfl

theorem annotateAll_eq_map (ts : List ParseTree) : annotateAll f ts = ts.map (annotate f) := by
  induction ts with
  | nil => rfl
  | cons t ts ih => exact congrArg (t.annotate f :: ·) ih

end ParseTree

/-! ## Matches -/

/-- The trees have the property, and come in an order that the pattern allows unless it is run
where no trees are left. -/
def Shaped (F : ParseTree → Prop) (sc : Scope) (p : Pattern) (ts : List ParseTree) : Prop :=
  (sc.atomicity ≠ .atomic → p.Yields ParseTree.OfRule ts) ∧ ∀ t ∈ ts, F t

theorem Shaped.nil {F : ParseTree → Prop} {sc : Scope} {p : Pattern}
    (h : p.Yields ParseTree.OfRule []) :
    Shaped F sc p [] :=
  ⟨fun _ => h, fun _ ht => nomatch ht⟩

/-- The trees of rounds that follow each other. -/
theorem Shaped.many {F : ParseTree → Prop} {sc : Scope} {p : Pattern}
    {tss : List (List ParseTree)} (h : ∀ ts ∈ tss, Shaped F sc p ts) :
    Shaped F sc (.many p) tss.flatten := by
  refine ⟨fun hsc => ⟨tss, rfl, fun ts hts => (h ts hts).1 hsc⟩, fun t ht => ?_⟩
  obtain ⟨ts, hts, ht⟩ := List.mem_flatten.mp ht
  exact (h ts hts).2 t ht

/-- What every round leaves, all rounds leave. -/
theorem Rounds.forall_mem {step : State → Reply} {P : List ParseTree → Prop} {s s' : State}
    {tss : List (List ParseTree)} (h : Rounds step s s' tss)
    (hstep : ∀ {s s' ts}, step s = .matched s' ts → P ts) : ∀ ts ∈ tss, P ts := by
  induction h with
  | stop _ => exact fun _ hts => nomatch hts
  | round hround _ ih => exact List.forall_mem_cons.mpr ⟨hstep hround, ih⟩

section

variable {n : Nat} {skip : State → Reply} {call : Rule → Run} {F : ParseTree → Prop}

theorem between_matched {sc : Scope} {s s' : State} {ts : List ParseTree}
    (hskip : ∀ {s s' ts}, skip s = .matched s' ts → ts = [])
    (h : Pattern.run.between skip sc s = .matched s' ts) : ts = [] := by
  unfold Pattern.run.between at h
  split at h
  · exact hskip h
  · cases h
    rfl

/-- **A match leaves trees as its pattern says**, if calls leave one tree each and blanks
none. -/
theorem Pattern.run_matched (hskip : ∀ {s s' ts}, skip s = .matched s' ts → ts = [])
    (hcall : ∀ {r sc s s' ts}, call r sc s = .matched s' ts → Shaped F sc (.rule r) ts)
    {p : Pattern} {sc : Scope} {s s' : State} {ts : List ParseTree}
    (h : p.run n skip call sc s = .matched s' ts) : Shaped F sc p ts := by
  induction p generalizing sc s s' ts with
  | rule r => exact hcall h
  | start | finish =>
    simp only [Pattern.run] at h
    split at h <;> cases h
    exact .nil rfl
  | one c | literal text | caseless text =>
    obtain ⟨-, rfl⟩ := Reply.reading_eq_matched h
    exact .nil rfl
  | seq p q hp hq =>
    obtain ⟨s₁, s₂, us, vs, ws, h₁, hblanks, h₂, rfl⟩ := seq_eq_matched h
    obtain rfl := between_matched hskip hblanks
    rw [List.append_nil]
    refine ⟨fun hsc => ⟨_, _, rfl, (hp h₁).1 hsc, (hq h₂).1 hsc⟩, ?_⟩
    exact List.forall_mem_append.mpr ⟨(hp h₁).2, (hq h₂).2⟩
  | alt p q hp hq =>
    obtain h | ⟨a, h⟩ := alt_eq_matched h
    · exact ⟨fun hsc => .inl ((hp h).1 hsc), (hp h).2⟩
    · exact ⟨fun hsc => .inr ((hq h).1 hsc), (hq h).2⟩
  | many p hp =>
    obtain ⟨a, -, -, rfl⟩ | ⟨s₁, us, tss, hfirst, hrounds, rfl⟩ := many_eq_matched h
    · exact .nil ⟨[], rfl, List.forall_mem_nil _⟩
    · have hall : ∀ ts ∈ tss, Shaped F sc p ts := hrounds.forall_mem fun hround => by
        obtain ⟨s₁, us, vs, hblanks, h, rfl⟩ := Reply.andThen_eq_matched hround
        obtain rfl := between_matched hskip hblanks
        exact hp h
      exact .many (List.forall_mem_cons.mpr ⟨hp hfirst, hall⟩)
  | maybe p hp =>
    obtain ⟨a, -, rfl⟩ | h := maybe_eq_matched h
    · exact .nil (.inl rfl)
    · exact ⟨fun hsc => .inr ((hp h).1 hsc), (hp h).2⟩
  | ahead p _ =>
    obtain ⟨a, -, rfl⟩ := ahead_eq_matched h
    exact .nil rfl
  | notAhead p _ =>
    obtain ⟨a, -, rfl⟩ := notAhead_eq_matched h
    exact .nil rfl
  | push p hp =>
    obtain ⟨s₁, h, -⟩ := push_eq_matched h
    exact hp h
  | peek =>
    obtain ⟨_, -, rfl⟩ := top_eq_matched (.inl rfl) h
    exact .nil rfl
  | pop =>
    obtain ⟨_, -, rfl⟩ := top_eq_matched (.inr rfl) h
    exact .nil rfl

end

/-- Blanks leave no trees. -/
theorem skipBlanks_matched {n : Nat} {s s' : State} {ts : List ParseTree}
    (h : skipBlanks n s = .matched s' ts) : ts = [] := by
  have hnone : Shaped (fun _ => False) ⟨.atomic, .none⟩ (.many (.alt blank comment)) ts :=
    Pattern.run_matched (fun h => by cases h; rfl) (fun h => by cases h) h
  exact List.eq_nil_iff_forall_not_mem.mpr hnone.2

theorem Mode.inner_of_ne_atomic {m : Mode} (h : m ≠ .atomic) (a : Atomicity) :
    m.inner a = m.outer a := by
  cases m <;> first | rfl | exact absurd rfl h

theorem Mode.outer_ne_atomic {m : Mode} {a : Atomicity} (h : a ≠ .atomic) :
    m.outer a ≠ .atomic := by
  cases m <;> first | exact h | exact nofun

/-- **The trees that a rule leaves**: one of its own, whose children come as its pattern says,
or the trees of its children where no trees are left. -/
theorem Rule.run_matched {F : ParseTree → Prop}
    (htree : ∀ {n : Nat} {sc : Scope} {r : Rule} {s s' : State} {ts : List ParseTree},
      r.definition.body.run n (skipBlanks n) (Rule.run n)
        { sc with atomicity := r.definition.mode.inner sc.atomicity } s = .matched s' ts →
      (r.definition.mode ≠ .atomic → r.definition.body.Yields ParseTree.OfRule ts) →
      (∀ t ∈ ts, F t) → F ⟨r, ⟨s.cursor, s'.cursor⟩, ts⟩)
    {n : Nat} {r : Rule} {sc : Scope} {s s' : State} {ts : List ParseTree}
    (h : Rule.run n r sc s = .matched s' ts) : Shaped F sc (.rule r) ts := by
  induction n generalizing r sc s s' ts with
  | zero => cases h
  | succ n ih =>
    unfold Rule.run Rule.enter at h
    cases hr : r.definition.body.run n (skipBlanks n) (Rule.run n)
        { sc with atomicity := r.definition.mode.inner sc.atomicity } s with
    | failed a | exhausted => simp [hr] at h
    | matched s₁ us =>
      obtain ⟨hleaves, hus⟩ := Pattern.run_matched skipBlanks_matched ih hr
      simp only [hr, Reply.matched.injEq] at h
      obtain ⟨hs, rfl⟩ := h
      by_cases houter : r.definition.mode.outer sc.atomicity = .atomic
      · rw [if_pos houter]
        exact ⟨fun hsc => absurd houter (Mode.outer_ne_atomic hsc), hus⟩
      · have hcursor : s'.cursor = s₁.cursor := by
          rw [← hs]
          split <;> rfl
        rw [if_neg houter, hs, hcursor]
        refine ⟨fun _ => ⟨_, rfl, rfl⟩,
          List.forall_mem_singleton.mpr (htree hr (fun hmode => ?_) hus)⟩
        exact hleaves (by rw [Mode.inner_of_ne_atomic hmode]; exact houter)

end ThreeAddress.Grammar

import ThreeAddress.Proofs.Shape

/-!
# What a match reads

The text that a match reads, from the pattern alone: `Pattern.Spells` says which texts a pattern
may read, given the texts of the rules in it and what may stand between its parts. **A match reads
what its pattern spells** (`Pattern.run_spells`), and so does a rule (`Rule.run_spells`) if its
definition is taken at its word.
-/

namespace ThreeAddress

namespace Cursor

/-- Reading the text from one place leads to the other. -/
structure Reaches (k : Cursor) (cs : List Char) (k' : Cursor) : Prop where
  rest : k.rest = cs ++ k'.rest
  index : k'.index = k.index + cs.length

namespace Reaches

variable {k k₁ k' : Cursor} {cs ds : List Char}

theorem refl (k : Cursor) : k.Reaches [] k :=
  ⟨rfl, rfl⟩

theorem append (h : k.Reaches cs k₁) (h' : k₁.Reaches ds k') : k.Reaches (cs ++ ds) k' where
  rest := by rw [h.rest, h'.rest, List.append_assoc]
  index := by rw [h'.index, h.index, List.length_append, Nat.add_assoc]

theorem length_eq (h : k.Reaches cs k') : k.rest.length = cs.length + k'.rest.length := by
  rw [h.rest, List.length_append]

/-- The text between the places is what was read. -/
theorem textTo_eq (h : k.Reaches cs k') : k.textTo k' = cs := by
  unfold textTo
  rw [h.index, Nat.add_sub_cancel_left, h.rest, List.take_left']
  rfl

end Reaches

theorem one?_eq_some {p : Char → Bool} {k k' : Cursor} (h : k.one? p = some k') :
    ∃ c, k.Reaches [c] k' ∧ p c = true := by
  unfold one? at h
  split at h
  · rename_i c rest hrest
    split at h
    · rename_i hp
      obtain rfl := Option.some.inj h
      exact ⟨c, ⟨by rw [hrest, rest_past]; rfl, index_past k c rest⟩, hp⟩
    · cases h
  · cases h

theorem all?_eq_some {same : Char → Char → Bool} (key : Char → Char)
    (hkey : ∀ a c, same a c = true → key c = key a) {text : List Char} {k k' : Cursor}
    (h : k.all? same text = some k') :
    ∃ cs, k.Reaches cs k' ∧ cs.map key = text.map key := by
  induction text generalizing k with
  | nil =>
    obtain rfl := Option.some.inj h
    exact ⟨[], .refl k, rfl⟩
  | cons a text ih =>
    obtain ⟨k₁, h₁, h₂⟩ := Option.bind_eq_some_iff.mp h
    obtain ⟨c, hc, hsame⟩ := one?_eq_some h₁
    obtain ⟨cs, hcs, htext⟩ := ih h₂
    refine ⟨c :: cs, hc.append hcs, ?_⟩
    rw [List.map_cons, List.map_cons, hkey a c hsame, htext]

/-- Exactly the given characters were read. -/
theorem reaches_of_all? {text : List Char} {k k' : Cursor}
    (h : k.all? (· == ·) text = some k') : k.Reaches text k' := by
  obtain ⟨cs, hcs, htext⟩ :=
    all?_eq_some id (fun a c hac => (beq_iff_eq.mp hac).symm) h
  rw [List.map_id, List.map_id] at htext
  exact htext ▸ hcs

end Cursor

namespace Grammar

/-- A match of the pattern may read the text, where `gap` tells what may stand between its parts
and `S` which texts its rules read. -/
def Pattern.Spells (gap : List Char → Prop) (S : Rule → List Char → Prop) :
    Pattern → List Char → Prop
  | .one c, cs => ∃ x, cs = [x] ∧ c.contains x = true
  | .literal text, cs => cs = text
  | .caseless text, cs => cs.map Char.toLower = text.map Char.toLower
  | .rule r, cs => S r cs
  | .seq p q, cs => ∃ front between back, cs = front ++ (between ++ back) ∧
      p.Spells gap S front ∧ gap between ∧ q.Spells gap S back
  | .alt p q, cs => p.Spells gap S cs ∨ q.Spells gap S cs
  | .many p, cs => ∃ css : List (List Char), cs = css.flatten ∧
      ∀ ds ∈ css, p.Spells gap S ds ∨ gap ds
  | .maybe p, cs => cs = [] ∨ p.Spells gap S cs
  | .push p, cs => p.Spells gap S cs
  | .peek, _ | .pop, _ => True
  | _, cs => cs = []

/-- A run reads from one state to the next a text with the property. -/
def ReadsSome (x : State → Reply) (P : List Char → Prop) : Prop :=
  ∀ s s' ts, x s = .matched s' ts → ∃ cs, s.cursor.Reaches cs s'.cursor ∧ P cs

theorem ReadsSome.mono {x : State → Reply} {P Q : List Char → Prop} (h : ReadsSome x P)
    (hpq : ∀ cs, P cs → Q cs) : ReadsSome x Q := by
  intro s s' ts hs
  obtain ⟨cs, hcs, hp⟩ := h _ _ _ hs
  exact ⟨cs, hcs, hpq cs hp⟩

/-- The texts of the rounds follow each other. -/
theorem Rounds.reaches {step : State → Reply} {P : List Char → Prop} {s s' : State}
    {tss : List (List ParseTree)} (h : Rounds step s s' tss)
    (hstep : ReadsSome step fun cs => ∃ css : List (List Char), cs = css.flatten ∧
      ∀ ds ∈ css, P ds) :
    ∃ css : List (List Char), s.cursor.Reaches css.flatten s'.cursor ∧ ∀ ds ∈ css, P ds := by
  induction h with
  | stop _ => exact ⟨[], .refl _, nofun⟩
  | round hround _ ih =>
    obtain ⟨_, hread, css, rfl, hcss⟩ := hstep _ _ _ hround
    obtain ⟨dss, hread', hdss⟩ := ih
    refine ⟨css ++ dss, ?_, List.forall_mem_append.mpr ⟨hcss, hdss⟩⟩
    rw [List.flatten_append]
    exact hread.append hread'

section

variable {n : Nat} {skip : State → Reply} {call : Rule → Run} {sc : Scope}
variable {gap : List Char → Prop} {S : Rule → List Char → Prop}

/-- **A match reads what its pattern spells.** -/
theorem Pattern.run_spells (hgap : ReadsSome (Pattern.run.between skip sc) gap)
    (hcall : ∀ r, ReadsSome (call r sc) (S r)) (p : Pattern) :
    ReadsSome (p.run n skip call sc) (p.Spells gap S) := by
  induction p with
  | rule r => exact hcall r
  | start | finish =>
    intro s s' ts h
    simp only [Pattern.run] at h
    split at h <;> cases h
    exact ⟨[], .refl _, rfl⟩
  | one c =>
    intro s s' ts h
    obtain ⟨x, hx, hc⟩ := Cursor.one?_eq_some (Reply.reading_eq_matched h).1
    exact ⟨[x], hx, x, rfl, hc⟩
  | literal text =>
    intro s s' ts h
    exact ⟨text, Cursor.reaches_of_all? (Reply.reading_eq_matched h).1, rfl⟩
  | caseless text =>
    intro s s' ts h
    exact Cursor.all?_eq_some Char.toLower (fun a c hac => (beq_iff_eq.mp hac).symm)
      (Reply.reading_eq_matched h).1
  | seq p q hp hq =>
    intro s s' ts h
    obtain ⟨s₁, s₂, us, vs, ws, h₁, hblanks, h₂, rfl⟩ := seq_eq_matched h
    obtain ⟨front, hread₁, hfront⟩ := hp _ _ _ h₁
    obtain ⟨between, hread₂, hbetween⟩ := hgap _ _ _ hblanks
    obtain ⟨back, hread₃, hback⟩ := hq _ _ _ h₂
    exact ⟨front ++ (between ++ back), hread₁.append (hread₂.append hread₃), front, between, back,
      rfl, hfront, hbetween, hback⟩
  | alt p q hp hq =>
    intro s s' ts h
    obtain h | ⟨a, h⟩ := alt_eq_matched h
    · obtain ⟨cs, hcs, hspells⟩ := hp _ _ _ h
      exact ⟨cs, hcs, .inl hspells⟩
    · obtain ⟨cs, hcs, hspells⟩ := hq _ _ _ h
      exact ⟨cs, hcs, .inr hspells⟩
  | many p hp =>
    intro s s' ts h
    obtain ⟨a, -, rfl, -⟩ | ⟨s₁, us, tss, hfirst, hrounds, -⟩ := many_eq_matched h
    · exact ⟨[], .refl _, [], rfl, List.forall_mem_nil _⟩
    -- a round is the blanks before it and what its pattern spells
    · have hstep : ReadsSome
          (fun s => (Pattern.run.between skip sc s).andThen (p.run n skip call sc))
          fun cs => ∃ css : List (List Char), cs = css.flatten ∧
            ∀ ds ∈ css, p.Spells gap S ds ∨ gap ds := by
        intro s s' ts h
        obtain ⟨s₁, us, vs, h₁, h₂, rfl⟩ := Reply.andThen_eq_matched h
        obtain ⟨between, hread₁, hbetween⟩ := hgap _ _ _ h₁
        obtain ⟨round, hread₂, hround⟩ := hp _ _ _ h₂
        refine ⟨between ++ round, hread₁.append hread₂, [between, round], by simp, ?_⟩
        exact List.forall_mem_cons.mpr ⟨.inr hbetween, List.forall_mem_singleton.mpr (.inl hround)⟩
      obtain ⟨cs, hcs, hspells⟩ := hp _ _ _ hfirst
      obtain ⟨css, hread, hcss⟩ := hrounds.reaches hstep
      exact ⟨cs ++ css.flatten, hcs.append hread, cs :: css, rfl,
        List.forall_mem_cons.mpr ⟨.inl hspells, hcss⟩⟩
  | maybe p hp =>
    intro s s' ts h
    obtain ⟨a, rfl, -⟩ | h := maybe_eq_matched h
    · exact ⟨[], .refl _, .inl rfl⟩
    · obtain ⟨cs, hcs, hspells⟩ := hp _ _ _ h
      exact ⟨cs, hcs, .inr hspells⟩
  | ahead p _ =>
    intro s s' ts h
    obtain ⟨a, rfl, -⟩ := ahead_eq_matched h
    exact ⟨[], .refl _, rfl⟩
  | notAhead p _ =>
    intro s s' ts h
    obtain ⟨a, rfl, -⟩ := notAhead_eq_matched h
    exact ⟨[], .refl _, rfl⟩
  | push p hp =>
    intro s s' ts h
    obtain ⟨s₁, h, hcursor⟩ := push_eq_matched h
    rw [hcursor]
    exact hp _ _ _ h
  | peek =>
    intro s s' ts h
    obtain ⟨top, htop, -⟩ := top_eq_matched (.inl rfl) h
    exact ⟨top, Cursor.reaches_of_all? htop, trivial⟩
  | pop =>
    intro s s' ts h
    obtain ⟨top, htop, -⟩ := top_eq_matched (.inr rfl) h
    exact ⟨top, Cursor.reaches_of_all? htop, trivial⟩

end

/-! ## Rules -/

/-- Blanks and comments read something. -/
theorem skipBlanks_reads {n : Nat} : ReadsSome (skipBlanks n) fun _ => True := by
  have hnothing : ReadsSome (Pattern.run.between (.matched · []) ⟨.atomic, .none⟩)
      fun _ => True := by
    intro s s' ts h
    cases h
    exact ⟨[], .refl _, trivial⟩
  have hnone (r : Rule) : ReadsSome (fun s => .failed s.attempts) fun _ => False :=
    fun _ _ _ h => by cases h
  exact (Pattern.run_spells hnothing (S := fun _ _ => False) hnone _).mono fun _ _ => trivial

/-- What may stand between the parts of a rule: nothing where blanks count. -/
def Rule.gap (r : Rule) (cs : List Char) : Prop :=
  r.definition.mode = .atomic ∨ r.definition.mode = .compound → cs = []

theorem between_reads {n : Nat} {r : Rule} {sc : Scope} :
    ReadsSome (Pattern.run.between (skipBlanks n)
      { sc with atomicity := r.definition.mode.inner sc.atomicity }) r.gap := by
  intro s s' ts h
  unfold Pattern.run.between at h
  split at h
  · rename_i hspaced
    obtain ⟨cs, hcs, -⟩ := skipBlanks_reads _ _ _ h
    refine ⟨cs, hcs, fun hmode => absurd hspaced ?_⟩
    obtain hmode | hmode := hmode <;> rw [hmode] <;> exact nofun
  · cases h
    exact ⟨[], .refl _, fun _ => rfl⟩

/-- **A rule reads what its definition spells**: whatever holds of a text if it holds of the rules
that spell it, holds of every text that a rule reads. -/
theorem Rule.run_spells {S : Rule → List Char → Prop}
    (hS : ∀ r cs, r.definition.body.Spells r.gap S cs → S r cs) (n : Nat) (r : Rule) (sc : Scope) :
    ReadsSome (Rule.run n r sc) (S r) := by
  induction n generalizing r sc with
  | zero => exact fun _ _ _ h => nomatch h
  | succ n ih =>
    intro s s' ts h
    unfold Rule.run Rule.enter at h
    cases hr : r.definition.body.run n (skipBlanks n) (Rule.run n)
        { sc with atomicity := r.definition.mode.inner sc.atomicity } s with
    | failed a | exhausted => simp [hr] at h
    | matched s₁ us =>
      obtain ⟨cs, hcs, hspells⟩ := Pattern.run_spells between_reads (fun r => ih r _) _ _ _ _ hr
      simp only [hr, Reply.matched.injEq] at h
      obtain ⟨rfl, -⟩ := h
      refine ⟨cs, ?_, hS r cs hspells⟩
      split <;> exact hcs

end Grammar

end ThreeAddress

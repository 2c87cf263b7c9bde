import ThreeAddress.Proofs.Levels
import ThreeAddress.Proofs.Parsed
import ThreeAddress.Proofs.Positions

/-!
# The nesting check and the nesting

The nesting check walks a tree from edge to edge, with one level and a stack of counts. The nesting
of a tree is defined along the tree itself (`ParseTree.nesting`): a statement or an expression is one
level above what is in it, and an operator is one level above all that follows it in its
expression. **The check finds the first place above the limit, and there is one exactly if the
nesting is greater than the limit** (`checkedTree_eq`). The walk closes only what it has opened, and
it ends outside of everything.
-/

namespace ThreeAddress

namespace Grammar

/-! ## The nesting of a tree -/

/-- The level that a rule adds among the parts of a tree, to itself and to what follows it: one for
the operators of an expression. -/
def Rule.step (isExpr : Bool) (r : Rule) : Nat :=
  (isExpr && r.isOperator).toNat

namespace ParseTree

mutual

/-- **The nesting of a tree**: the levels above the deepest place in it. -/
def nesting : ParseTree → Nat
  | ⟨r, _, ts⟩ => r.isCounted.toNat + nestingAmong (r == .expr) ts

/-- The nesting of the parts of a tree. -/
def nestingAmong (isExpr : Bool) : List ParseTree → Nat
  | [] => 0
  | t :: ts => t.rule.step isExpr + max t.nesting (nestingAmong isExpr ts)

end

mutual

/-- The places where the rules of a tree start, each with its level, for a tree at the level. -/
def places (level : Nat) : ParseTree → List (Nat × Cursor)
  | ⟨r, e, ts⟩ => (level + r.isCounted.toNat, e.start) ::
      placesAmong (r == .expr) (level + r.isCounted.toNat) ts

/-- The places of the parts of a tree. -/
def placesAmong (isExpr : Bool) (level : Nat) : List ParseTree → List (Nat × Cursor)
  | [] => []
  | t :: ts => t.places (level + t.rule.step isExpr) ++
      placesAmong isExpr (level + t.rule.step isExpr) ts

end

variable {limit : Nat}

theorem placesAmong_le_iff {isExpr : Bool} {ts : List ParseTree}
    (h : ∀ t ∈ ts, ∀ level, (∀ p ∈ t.places level, p.1 ≤ limit) ↔ level + t.nesting ≤ limit)
    {level : Nat} (hlevel : level ≤ limit) :
    (∀ p ∈ placesAmong isExpr level ts, p.1 ≤ limit) ↔ level + nestingAmong isExpr ts ≤ limit := by
  induction ts generalizing level with
  | nil => simpa [placesAmong, nestingAmong] using hlevel
  | cons t ts ih =>
    obtain ⟨ht, hts⟩ := List.forall_mem_cons.mp h
    rw [placesAmong, nestingAmong, List.forall_mem_append, ht]
    by_cases hstep : level + t.rule.step isExpr ≤ limit
    · rw [ih hts hstep]
      omega
    · omega

/-- **The nesting is the greatest level of the places.** -/
theorem places_le_iff : (t : ParseTree) → ∀ level,
    (∀ p ∈ t.places level, p.1 ≤ limit) ↔ level + t.nesting ≤ limit
  | ⟨r, e, ts⟩, level => by
    have hts : ∀ t ∈ ts, ∀ level, (∀ p ∈ t.places level, p.1 ≤ limit) ↔ level + t.nesting ≤ limit :=
      fun t _ => places_le_iff t
    rw [places, nesting, List.forall_mem_cons]
    by_cases hlevel : level + r.isCounted.toNat ≤ limit
    · rw [placesAmong_le_iff hts hlevel]
      dsimp only
      omega
    · dsimp only
      omega

/-! ## The order of the places -/

/-- The places come in the order of the text, none before the first and none after the last. -/
structure InOrder (k : Cursor) (ps : List (Nat × Cursor)) (k' : Cursor) : Prop where
  pairwise : (ps.map (·.2)).Pairwise Cursor.Leads
  between : ∀ p ∈ ps, k.Leads p.2 ∧ p.2.Leads k'

theorem InOrder.append {k k₁ k' : Cursor} {ps qs : List (Nat × Cursor)} (h : InOrder k ps k₁)
    (h' : InOrder k₁ qs k') (hlater : k₁.Leads k') (hbefore : k.Leads k₁) :
    InOrder k (ps ++ qs) k' := by
  refine ⟨?_, List.forall_mem_append.mpr ⟨fun p hp => ?_, fun q hq => ?_⟩⟩
  · rw [List.map_append, List.pairwise_append]
    refine ⟨h.pairwise, h'.pairwise, fun a ha b hb => ?_⟩
    obtain ⟨p, hp, rfl⟩ := List.mem_map.mp ha
    obtain ⟨q, hq, rfl⟩ := List.mem_map.mp hb
    exact (h.between p hp).2.trans (h'.between q hq).1
  · exact ⟨(h.between p hp).1, (h.between p hp).2.trans hlater⟩
  · exact ⟨hbefore.trans (h'.between q hq).1, (h'.between q hq).2⟩

theorem inOrder_placesAmong {isExpr : Bool} {ts : List ParseTree}
    (h : ∀ t ∈ ts, ∀ level, InOrder t.extent.start (t.places level) t.extent.stop)
    {level : Nat} {k k' : Cursor} (hlaid : LaidOut k ts k') :
    InOrder k (placesAmong isExpr level ts) k' := by
  induction ts generalizing level k with
  | nil => exact ⟨.nil, nofun⟩
  | cons t ts ih =>
    obtain ⟨ht, hts⟩ := List.forall_mem_cons.mp h
    obtain ⟨hstart, hstop, hlater⟩ := hlaid
    have hfirst := ht (level + t.rule.step isExpr)
    refine InOrder.append ⟨hfirst.pairwise, fun p hp => ?_⟩ (ih hts hlater) hlater.leads
      (hstart.trans hstop)
    exact ⟨hstart.trans (hfirst.between p hp).1, (hfirst.between p hp).2⟩

/-- The places of a tree come in the order of the text. -/
theorem inOrder_places : (t : ParseTree) → Spread t → ∀ level,
    InOrder t.extent.start (t.places level) t.extent.stop
  | ⟨r, e, ts⟩, ⟨hlaid, hspread⟩, level => by
    have hts : ∀ t ∈ ts, ∀ level, InOrder t.extent.start (t.places level) t.extent.stop :=
      fun t ht => inOrder_places t (hspread t ht)
    have hparts : InOrder e.start (placesAmong (r == .expr) (level + r.isCounted.toNat) ts) e.stop :=
      inOrder_placesAmong hts hlaid
    rw [places]
    refine ⟨List.pairwise_cons.mpr ⟨fun k hk => ?_, hparts.pairwise⟩,
      List.forall_mem_cons.mpr ⟨⟨.refl _, hlaid.leads⟩, hparts.between⟩⟩
    obtain ⟨p, hp, rfl⟩ := List.mem_map.mp hk
    exact (hparts.between p hp).1

end ParseTree

/-! ## Operators -/

/-- Operators stand only in expressions, right below them. -/
inductive OperatorsInExpr : ParseTree → Prop
  | intro {t : ParseTree} : (t.rule ≠ .expr → ∀ u ∈ t.children, u.rule.isOperator = false) →
      (∀ u ∈ t.children, OperatorsInExpr u) → OperatorsInExpr t

section

variable {n : Nat} {skip : State → Reply} {call : Rule → Run} {sc : Scope} {s s' : State}
  {ts : List ParseTree}

/-- A pattern leaves no trees if the rules that it calls leave none. -/
theorem Pattern.run_leaves_nothing (hskip : ∀ {s s' ts}, skip s = .matched s' ts → ts = [])
    {p : Pattern} (hcall : ∀ r ∈ p.calls, ∀ s s' ts, call r sc s = .matched s' ts → ts = [])
    (h : p.run n skip call sc s = .matched s' ts) : ts = [] := by
  induction p generalizing s s' ts with
  | rule r => exact hcall r List.mem_cons_self _ _ _ h
  | start | finish =>
    simp only [Pattern.run] at h
    split at h <;> cases h
    rfl
  | one c | literal text | caseless text => exact (Reply.reading_eq_matched h).2
  | seq p q hp hq =>
    obtain ⟨s₁, s₂, us, vs, ws, h₁, hblanks, h₂, rfl⟩ := seq_eq_matched h
    obtain rfl := hp (fun r hr => hcall r (List.mem_append_left _ hr)) h₁
    obtain rfl := between_matched hskip hblanks
    exact hq (fun r hr => hcall r (List.mem_append_right _ hr)) h₂
  | alt p q hp hq =>
    obtain h | ⟨a, h⟩ := alt_eq_matched h
    · exact hp (fun r hr => hcall r (List.mem_append_left _ hr)) h
    · exact hq (fun r hr => hcall r (List.mem_append_right _ hr)) h
  | many p hp =>
    obtain ⟨a, -, -, rfl⟩ | ⟨s₁, us, tss, hfirst, hrounds, rfl⟩ := many_eq_matched h
    · rfl
    · obtain rfl := hp hcall hfirst
      refine List.flatten_eq_nil_iff.mpr (hrounds.forall_mem fun {s s' ts} hround => ?_)
      obtain ⟨s₂, vs, ws, hblanks, hnext, rfl⟩ := Reply.andThen_eq_matched hround
      obtain rfl := between_matched hskip hblanks
      exact hp hcall hnext
  | maybe p hp =>
    obtain ⟨a, -, rfl⟩ | h := maybe_eq_matched h
    · rfl
    · exact hp hcall h
  | ahead p _ =>
    obtain ⟨a, -, rfl⟩ := ahead_eq_matched h
    rfl
  | notAhead p _ =>
    obtain ⟨a, -, rfl⟩ := notAhead_eq_matched h
    rfl
  | push p hp =>
    obtain ⟨s₁, h, -⟩ := push_eq_matched h
    exact hp hcall h
  | peek =>
    obtain ⟨top, -, rfl⟩ := top_eq_matched (.inl rfl) h
    rfl
  | pop =>
    obtain ⟨top, -, rfl⟩ := top_eq_matched (.inr rfl) h
    rfl

end

/-- A token is made of tokens only. -/
theorem Rule.calls_of_atomic (r : Rule) : (r.definition.mode != .atomic ||
    r.definition.body.calls.all (·.definition.mode == .atomic)) = true := by
  cases r <;> rfl

theorem mode_of_mem_calls {r q : Rule} (hr : r.definition.mode = .atomic)
    (hq : q ∈ r.definition.body.calls) : q.definition.mode = .atomic := by
  have hcalls := r.calls_of_atomic
  rw [hr] at hcalls
  exact beq_iff_eq.mp (List.all_eq_true.mp hcalls q hq)

/-- No rule but an expression calls an operator. -/
theorem Rule.calls_operator (r : Rule) :
    (r == .expr || r.definition.body.calls.all (!·.isOperator)) = true := by
  cases r <;> rfl

theorem not_isOperator_of_mem_calls {r q : Rule} (hr : r ≠ .expr)
    (hq : q ∈ r.definition.body.calls) : q.isOperator = false := by
  have hcalls := r.calls_operator
  rw [beq_false_of_ne hr, Bool.false_or] at hcalls
  simpa using List.all_eq_true.mp hcalls q hq

/-- A token in a token leaves no tree. -/
theorem Rule.run_atomic {n : Nat} {r : Rule} (hr : r.definition.mode = .atomic) {sc : Scope}
    (hsc : sc.atomicity = .atomic) {s s' : State} {ts : List ParseTree}
    (h : Rule.run n r sc s = .matched s' ts) : ts = [] := by
  induction n generalizing r sc s s' ts with
  | zero => cases h
  | succ n ih =>
    unfold Rule.run Rule.enter at h
    cases hbody : r.definition.body.run n (skipBlanks n) (Rule.run n)
        { sc with atomicity := r.definition.mode.inner sc.atomicity } s with
    | failed a | exhausted => simp [hbody] at h
    | matched s₁ us =>
      simp only [hbody, Reply.matched.injEq] at h
      have houter : r.definition.mode.outer sc.atomicity = .atomic := by
        rw [hr, hsc]
        rfl
      rw [← h.2, if_pos houter]
      refine Pattern.run_leaves_nothing skipBlanks_matched (fun q hq s s' ts hcall => ?_) hbody
      exact ih (mode_of_mem_calls hr hq) (by rw [hr]; rfl) hcall

/-- **Operators of the grammar stand only in expressions.** -/
theorem parse_operatorsInExpr {text : String} {t : ParseTree} (h : parse text = .tree t) :
    OperatorsInExpr t := by
  have htree {n : Nat} {r : Rule} {sc : Scope} {s s' : State} {ts : List ParseTree}
      (h : Rule.run n r sc s = .matched s' ts) : Shaped OperatorsInExpr sc (.rule r) ts := by
    refine Rule.run_matched (fun {n sc r s s' ts} hbody hyields hinside => ?_) h
    refine .intro (fun hexpr u hu => ?_) hinside
    by_cases hmode : r.definition.mode = .atomic
    · have hnone : ts = [] := by
        refine Pattern.run_leaves_nothing skipBlanks_matched (fun q hq s s' ts hcall => ?_) hbody
        exact Rule.run_atomic (mode_of_mem_calls hmode hq) (by rw [hmode]; rfl) hcall
      rw [hnone] at hu
      cases hu
    · refine (hyields hmode).forall_mem (Q := fun u => u.rule.isOperator = false)
        (fun q hq u hu => ?_) u hu
      rw [show u.rule = q from hu]
      exact not_isOperator_of_mem_calls hexpr hq
  unfold parse parseWithin at h
  cases hr : Rule.run (boundFor text.length) .script ⟨.spaced, .none⟩ ⟨.ofText text, [], .none⟩ with
  | failed a | exhausted => simp [hr] at h
  | matched s ts =>
    obtain ⟨hone, hinside⟩ := htree hr
    obtain ⟨u, rfl, -⟩ := hone nofun
    simp only [hr, Parse.tree.injEq] at h
    exact h ▸ hinside u List.mem_cons_self

/-! ## The walk -/

namespace Nesting

/-- What is taken off the level where the rule closes has been put on it. -/
def Affords (n : Nesting) (r : Rule) : Prop :=
  match r with
  | .statement => 1 ≤ n.level
  | .expr => ∃ count counts, n.operators = count :: counts ∧ 1 + count ≤ n.level
  | _ => True

/-- The walk over the edges meets the places at their levels, takes off only what was put on, and
leads from one nesting to the other. -/
inductive Walks : Nesting → List Edge → List (Nat × Cursor) → Nesting → Prop
  | done {n : Nesting} : Walks n [] [] n
  | opens {n n' : Nesting} {r : Rule} {k : Cursor} {es : List Edge} {ps : List (Nat × Cursor)} :
      Walks (n.enter r) es ps n' → Walks n (.opens r k :: es) (((n.enter r).level, k) :: ps) n'
  | closes {n n' : Nesting} {r : Rule} {es : List Edge} {ps : List (Nat × Cursor)} :
      n.Affords r → Walks (n.leave r) es ps n' → Walks n (.closes r :: es) ps n'

/-- The check finds the first place above the limit that the walk meets. -/
theorem Walks.firstAbove_eq {limit : Nat} {n n' : Nesting} {es : List Edge}
    {ps : List (Nat × Cursor)} (h : Walks n es ps n') :
    firstAbove limit n es = (ps.find? fun p => limit < p.1).map (·.2) := by
  induction h with
  | done => rfl
  | @opens n n' r k es ps _ ih =>
    unfold firstAbove
    rw [List.find?_cons]
    by_cases hlevel : limit < (n.enter r).level
    · simp [hlevel]
    · simpa [hlevel] using ih
  | closes _ _ ih => exact ih

variable {n n' : Nesting} {later : List Edge} {ps : List (Nat × Cursor)}

/-- The operators among the parts of a tree. -/
def steps (isExpr : Bool) : List ParseTree → Nat
  | [] => 0
  | t :: ts => t.rule.step isExpr + steps isExpr ts

theorem steps_false (ts : List ParseTree) : steps false ts = 0 := by
  induction ts with
  | nil => rfl
  | cons t ts ih =>
    rw [steps, ih, Rule.step]
    rfl

theorem walks_all {isExpr : Bool} {ts : List ParseTree} (hopen : isExpr = true → n.operators ≠ [])
    (hnone : isExpr = false → ∀ t ∈ ts, t.rule.isOperator = false)
    (h : ∀ t ∈ ts, ∀ n n' later ps, Walks (n.bump (n.operatorIn t.rule)) later ps n' →
      Walks n (t.edgesBefore later) (t.places (n.level + n.operatorIn t.rule) ++ ps) n')
    (hlater : Walks (n.bump (steps isExpr ts)) later ps n') :
    Walks n (ParseTree.edgesOfAllBefore later ts)
      (ParseTree.placesAmong isExpr n.level ts ++ ps) n' := by
  induction ts generalizing n with
  | nil => rwa [steps, bump_zero] at hlater
  | cons t ts ih =>
    obtain ⟨ht, hts⟩ := List.forall_mem_cons.mp h
    have hstep : n.operatorIn t.rule = t.rule.step isExpr := by
      cases isExpr with
      | true => simp [operatorIn, Rule.step, hopen rfl, Bool.toNat]
      | false => simp [operatorIn, Rule.step, (hnone rfl) t List.mem_cons_self]
    have hlevel : (n.bump (t.rule.step isExpr)).level = n.level + t.rule.step isExpr := by
      cases isExpr with
      | true => exact level_bump (hopen rfl)
      | false => exact congrArg level (bump_zero n)
    rw [steps, ← bump_bump] at hlater
    have hrest := ih (fun hexpr => operators_bump_ne_nil (hopen hexpr))
      (fun hexpr => (List.forall_mem_cons.mp (hnone hexpr)).2) hts hlater
    have hfirst := ht n n' _ _ (hstep.symm ▸ hrest)
    rw [hstep] at hfirst
    rw [hlevel, ← List.append_assoc] at hfirst
    exact hfirst

theorem affords_bump_statement (n : Nesting) (j : Nat) :
    ((n.enter .statement).bump j).Affords .statement := by
  obtain ⟨level, _ | ⟨count, counts⟩⟩ := n
  · exact Nat.le_add_left 1 level
  · exact Nat.le_trans (Nat.le_add_left 1 level) (Nat.le_add_right _ j)

theorem affords_bump_expr (n : Nesting) (j : Nat) : ((n.enter .expr).bump j).Affords .expr := by
  obtain ⟨level, counts⟩ := n
  refine ⟨0 + j, counts, rfl, ?_⟩
  show 1 + (0 + j) ≤ level + 1 + j
  omega

theorem affords_uncounted {r : Rule} (hr : r.isCounted = false) : n.Affords r := by
  unfold Affords
  split
  · cases hr
  · cases hr
  · trivial

/-- **The walk over a tree** meets its places and leaves the operator levels that the tree itself
adds. -/
theorem walks : (t : ParseTree) → OperatorsInExpr t → ∀ n n' later ps,
    Walks (n.bump (n.operatorIn t.rule)) later ps n' →
    Walks n (t.edgesBefore later) (t.places (n.level + n.operatorIn t.rule) ++ ps) n'
  | ⟨r, e, ts⟩, ⟨hoperators, hinside⟩, n, n', later, ps, hlater => by
    have hts : ∀ t ∈ ts, ∀ n n' later ps, Walks (n.bump (n.operatorIn t.rule)) later ps n' →
        Walks n (t.edgesBefore later) (t.places (n.level + n.operatorIn t.rule) ++ ps) n' :=
      fun t ht => walks t (hinside t ht)
    have hparts (hopen : (r == .expr) = true → (n.enter r).operators ≠ [])
        (hlevel : (n.enter r).level = n.level + n.operatorIn r + r.isCounted.toNat)
        (haffords : ((n.enter r).bump (steps (r == .expr) ts)).Affords r)
        (hleave : ((n.enter r).bump (steps (r == .expr) ts)).leave r = n.bump (n.operatorIn r)) :
        Walks n (ParseTree.edgesBefore later ⟨r, e, ts⟩)
          (ParseTree.places (n.level + n.operatorIn r) ⟨r, e, ts⟩ ++ ps) n' := by
      rw [ParseTree.edgesBefore, ParseTree.places, ← hlevel]
      exact .opens (walks_all hopen (fun hexpr => hoperators (ne_of_beq_false hexpr)) hts
        (.closes haffords (hleave ▸ hlater)))
    cases hr : r.isCounted with
    | false =>
      have hexpr : (r == .expr) = false := by
        refine beq_false_of_ne fun h => ?_
        rw [h] at hr
        cases hr
      have hin : n.enter r = n.bump (n.operatorIn r) := enter_eq_bump hr
      refine hparts (fun h => Bool.noConfusion (hexpr.symm.trans h)) ?_ (affords_uncounted hr) ?_
      · rw [hin, hr]
        exact level_bump_operatorIn n r
      · rw [hexpr, steps_false, bump_zero, leave_uncounted hr, hin]
    | true =>
      obtain rfl | rfl := Rule.eq_of_isCounted hr
      · refine hparts nofun rfl (affords_bump_statement n _) ?_
        rw [show ((Rule.statement == .expr) = false) from rfl, steps_false]
        exact leave_statement 0 n
      · refine hparts (fun _ => List.cons_ne_nil _ _) rfl (affords_bump_expr n _) ?_
        rw [leave_expr]
        exact (bump_zero n).symm

end Nesting

/-- **The walk over a tree of the grammar** meets its places and ends outside. -/
theorem parse_walks {text : String} {t : ParseTree} (h : parse text = .tree t) :
    Nesting.Walks .outside t.edges (t.places 0) .outside := by
  have hwalk := Nesting.walks t (parse_operatorsInExpr h) .outside .outside [] [] .done
  rwa [List.append_nil, show Nesting.operatorIn .outside t.rule = 0 by simp [Nesting.operatorIn,
    Nesting.outside]] at hwalk

namespace ParseTree

theorem mem_placesAmong {isExpr : Bool} {ts : List ParseTree} {k : Cursor} {v : ParseTree}
    (hv : v ∈ ts) (hk : ∀ level, ∃ l, (l, k) ∈ v.places level) (level : Nat) :
    ∃ l, (l, k) ∈ placesAmong isExpr level ts := by
  induction ts generalizing level with
  | nil => cases hv
  | cons t ts ih =>
    rw [placesAmong]
    obtain rfl | hv := List.mem_cons.mp hv
    · obtain ⟨l, hl⟩ := hk (level + v.rule.step isExpr)
      exact ⟨l, List.mem_append_left _ hl⟩
    · obtain ⟨l, hl⟩ := ih hv (level + t.rule.step isExpr)
      exact ⟨l, List.mem_append_right _ hl⟩

/-- Every rule of a tree starts at one of its places. -/
theorem Inside.mem_places {t u : ParseTree} (h : u.Inside t) (level : Nat) :
    ∃ l, (l, u.extent.start) ∈ t.places level := by
  induction h generalizing level with
  | self =>
    obtain ⟨r, e, ts⟩ := u
    rw [places]
    exact ⟨_, List.mem_cons_self⟩
  | @child v t hv _ ih =>
    obtain ⟨r, e, ts⟩ := t
    obtain ⟨l, hl⟩ := mem_placesAmong hv ih _
    rw [places]
    exact ⟨l, List.mem_cons_of_mem _ hl⟩

end ParseTree

end Grammar

namespace Syntax

open Grammar

/-- **The nesting check computes the nesting.** A tree of the grammar passes the check if its nesting
is within the limit. If not, the check fails at the first place, in the order of the text, whose level
is above the limit; every rule starts at one of these places. On its way over the tree the check
takes off the level only what it has put on, and it ends outside of everything. -/
theorem checkedTree_eq {s : Script} {t : ParseTree} (h : Grammar.parse s.content = .tree t)
    (limit : Nat) :
    (t.nesting ≤ limit → checkedTree s limit = .ok t) ∧
      (limit < t.nesting → ∃ before level place later,
        t.places 0 = before ++ (level, place) :: later ∧ (∀ p ∈ before, p.1 ≤ limit) ∧
        limit < level ∧
        checkedTree s limit = .error (.atPlace (.tooDeep limit) (place.location s.name))) ∧
      (∀ u : ParseTree, u.Inside t → ∃ level, (level, u.extent.start) ∈ t.places 0) ∧
      ((t.places 0).map (·.2)).Pairwise Cursor.Leads ∧
      Nesting.Walks .outside t.edges (t.places 0) .outside := by
  have hwalk := parse_walks h
  have hfirst : t.firstTooDeep limit = ((t.places 0).find? fun p => limit < p.1).map (·.2) :=
    hwalk.firstAbove_eq
  have hnesting : (∀ p ∈ t.places 0, p.1 ≤ limit) ↔ 0 + t.nesting ≤ limit :=
    ParseTree.places_le_iff t 0
  rw [Nat.zero_add] at hnesting
  refine ⟨fun hle => ?_, fun hlt => ?_, fun u hu => hu.mem_places 0,
    (ParseTree.inOrder_places t (parse_spread h).2 0).pairwise, hwalk⟩
  · have hnone : ((t.places 0).find? fun p => decide (limit < p.1)) = none := by
      refine List.find?_eq_none.mpr fun p hp => ?_
      simpa using hnesting.mpr hle p hp
    rw [hnone] at hfirst
    unfold checkedTree
    simp only [h, hfirst, Option.map_none]
    rfl
  · cases hfind : (t.places 0).find? fun p => decide (limit < p.1) with
    | none =>
      have hall := List.find?_eq_none.mp hfind
      refine absurd (hnesting.mp fun p hp => ?_) (Nat.not_le_of_gt hlt)
      simpa using hall p hp
    | some p =>
      obtain ⟨hp, before, later, hplaces, hbefore⟩ := List.find?_eq_some_iff_append.mp hfind
      refine ⟨before, p.1, p.2, later, hplaces, fun q hq => ?_, by simpa using hp, ?_⟩
      · simpa using hbefore q hq
      · rw [hfind] at hfirst
        unfold checkedTree
        simp only [h, hfirst, Option.map_some]
        rfl

/-- Two signs of a variable: the statement, its expression and each sign are a level. -/
def twoSigns : Script :=
  .ofSource "signs" "<?php - -$a;"

theorem checkedTree_twoSigns :
    ∃ t, Grammar.parse twoSigns.content = .tree t ∧ t.nesting = 4 ∧ checkedTree twoSigns 4 = .ok t ∧
      ∃ place, checkedTree twoSigns 3 = .error (.atPlace (.tooDeep 3) place) := by
  have hnesting : (checkedTree twoSigns 9).toOption.map (·.nesting) = some 4 := by
    decide +kernel
  obtain ⟨t, ht, hnesting⟩ := Option.map_eq_some_iff.mp hnesting
  have hparse : Grammar.parse twoSigns.content = .tree t := by
    cases hchecked : checkedTree twoSigns 9 with
    | error e => simp [hchecked, Except.toOption] at ht
    | ok u =>
      simp only [hchecked, Except.toOption, Option.some.injEq] at ht
      exact ht ▸ parse_of_checkedTree hchecked
  obtain ⟨-, -, place, -, -, -, -, hfails⟩ :=
    (checkedTree_eq hparse 3).2.1 (hnesting ▸ Nat.lt_succ_self 3)
  exact ⟨t, hparse, hnesting, (checkedTree_eq hparse 4).1 (Nat.le_of_eq hnesting), _, hfails⟩

end Syntax

end ThreeAddress

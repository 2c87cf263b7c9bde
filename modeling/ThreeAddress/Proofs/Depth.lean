import ThreeAddress.Proofs.Height

/-!
# The depth limit

A plan that has no failing part can be stopped by the depth limit alone. It runs to its end
if the limit leaves room for the levels that it needs (`Plan.exists_runs`), a run that came
to its end had that room (`Plan.Runs.fits`), and a run that did not was stopped for the depth
(`Plan.Sound.stops`). For a meaningful tree whose nodes are all different this gives **one
height that decides for every limit** (`lowers_iff_height_le`), and the listing does not
depend on the limit (`listing_eq_of_height_le`).
-/

namespace ThreeAddress.Lowering

open Syntax (Node Kind)
open scoped List

/-- Levels that can still be gone down. -/
def Fits (levels : Nat) (c : Context) : Prop :=
  c.depth + levels ≤ c.options.maxDepth

/-- None of the nodes was met, and no two of them are the same. -/
def Fresh (ids : List Nat) (c : Context) : Prop :=
  ids.Nodup ∧ ∀ i ∈ ids, i ∉ c.visited

/-- The contexts are on the same level, under the same options. -/
def Level (c c' : Context) : Prop :=
  c'.depth = c.depth ∧ c'.options = c.options

theorem Plan.Runs.level {p : Plan} {c c' : Context} {a : Lowered} (h : Runs p c a c') :
    Level c c' :=
  ⟨h.depth_eq, h.options_eq⟩

namespace Fits

variable {h k : Nat} {c c' : Context}

theorem of_le (hk : Fits k c) (hle : h ≤ k) : Fits h c :=
  Nat.le_trans (Nat.add_le_add_left hle _) hk

theorem move (hc : Level c c') : Fits h c' ↔ Fits h c := by
  unfold Fits
  rw [hc.1, hc.2]

/-- Parts that each fit on a level fit on it together. -/
theorem max (hc : Level c c') (hh : Fits h c) (hk : Fits k c') : Fits (Max.max h k) c := by
  rw [move hc] at hk
  unfold Fits at hh hk ⊢
  omega

end Fits

namespace Fresh

variable {is js ks : List Nat} {c c' : Context}

theorem mono (h : Fresh js c) (hsub : is <+~ js) : Fresh is c := by
  obtain ⟨ls, hperm, hls⟩ := hsub
  exact ⟨hperm.nodup_iff.mp (h.1.sublist hls), fun i hi =>
    h.2 i (hls.subset (hperm.symm.subset hi))⟩

theorem left (h : Fresh (is ++ js) c) : Fresh is c :=
  h.mono (List.sublist_append_left is js).subperm

theorem swap (h : Fresh (is ++ js) c) : Fresh (js ++ is) c :=
  h.mono List.perm_append_comm.subperm

theorem assoc (h : Fresh (is ++ js ++ ks) c) : Fresh (is ++ (js ++ ks)) c :=
  List.append_assoc is js ks ▸ h

/-- What is left fresh when the first node was met. -/
theorem met {id : Nat} (h : Fresh (id :: is) c) : Fresh is (c.met id) := by
  obtain ⟨hnodup, hfresh⟩ := h
  obtain ⟨hid, his⟩ := List.nodup_cons.mp hnodup
  refine ⟨his, fun i hi hmet => ?_⟩
  obtain rfl | hold := Context.mem_met.mp hmet
  · exact hid hi
  · exact hfresh i (List.mem_cons_of_mem _ hi) hold

/-- What is left fresh when no others than the first nodes were met. -/
theorem after (h : Fresh (is ++ js) c) (hmeets : Meets is c c') : Fresh js c' := by
  obtain ⟨hnodup, hfresh⟩ := h
  obtain ⟨-, hjs, hdisjoint⟩ := List.nodup_append.mp hnodup
  refine ⟨hjs, fun i hi hmet => ?_⟩
  obtain hold | hnew := hmeets i hmet
  · exact hfresh i (List.mem_append_right _ hi) hold
  · exact hdisjoint i hnew i hi rfl

end Fresh

/-- What a run leaves fresh. -/
theorem Plan.Runs.fresh {p : Plan} {c c' : Context} {a : Lowered} {js : List Nat}
    (hp : Runs p c a c') (h : Fresh (p.ids ++ js) c) : Fresh js c' :=
  h.after hp.meets

/-! ## Runs have room -/

/-- A run that meets every node for the first time had room for all its levels. -/
theorem Plan.Runs.fits {p : Plan} {c c' : Context} {a : Lowered} (h : Runs p c a c')
    (hfresh : Fresh p.ids c) (hc : Fits 0 c) : Fits p.need c := by
  have stay {d d' : Context} (hd : Level d d') (h : Fits 0 d) : Fits 0 d' := (Fits.move hd).mpr h
  induction h with
  | nothing | text | mark | emit | jump | closeCase => exact hc
  | guarded _ _ ih => exact ih hfresh.met hc
  | guardedAgain hid | expressionAgain hid | statementAgain hid =>
    exact absurd hid (hfresh.2 _ List.mem_cons_self)
  -- one level deeper the run fits by itself, since it was let in there
  | expression _ hd _ ih | statement _ hd _ ih =>
    have h := ih hfresh.met hd
    unfold Fits Context.below at h
    unfold Fits need
    exact (Nat.add_right_comm ..).symm.trans_le h
  | unlessEmpty _ ih | compact _ ih | bind _ ih | effects _ ih | line _ ih | valueLine _ ih
  | barrier _ ih | inSwitch _ ih | apart _ ih | declared _ ih => exact ih hfresh hc
  | both hp _ h₁ h₂ | closed hp _ h₁ h₂ | ifThen hp _ h₁ h₂ | whileLoop hp _ h₁ h₂
  | doWhile hp _ h₁ h₂ =>
    have hrest := hp.fresh hfresh
    exact .max hp.level (h₁ hfresh.left hc) (h₂ hrest (stay hp.level hc))
  | shownBefore hq _ h₁ h₂ =>
    have hrest := hq.fresh hfresh.swap
    have h := Fits.max hq.level (h₁ hfresh.swap.left hc) (h₂ hrest (stay hq.level hc))
    exact h.of_le (Nat.max_comm ..).le
  | ifThenElse hp hq _ h₁ h₂ h₃ | foreachLoop hp hq _ h₁ h₂ h₃ =>
    have hrest := hp.fresh hfresh.assoc
    have hlast := hq.fresh hrest
    have hc₁ := stay hp.level hc
    have h := Fits.max hp.level (h₁ hfresh.left.left hc)
      (.max hq.level (h₂ hrest.left hc₁) (h₃ hlast (stay hq.level hc₁)))
    exact h.of_le (Nat.max_assoc ..).le
  -- the body runs before the step, which comes after it in the plan
  | endless hp hq _ h₁ h₂ h₃ =>
    have hrest := (hp.fresh hfresh.assoc).swap
    have hlast := hq.fresh hrest
    have hc₁ := stay hp.level hc
    have h := Fits.max hp.level (h₁ hfresh.left.left hc)
      (.max hq.level (h₂ hrest.left hc₁) (h₃ hlast (stay hq.level hc₁)))
    refine h.of_le ?_
    simp only [need]
    omega
  | forLoop hi hg ht hb _ h₁ h₂ h₃ h₄ h₅ =>
    have hrest₁ := hi.fresh hfresh.assoc.assoc.assoc
    have hrest₂ := hg.fresh hrest₁
    have hrest₃ := (ht.fresh hrest₂).swap
    have hlast := hb.fresh hrest₃
    have hc₁ := stay hi.level hc
    have hc₂ := stay hg.level hc₁
    have hc₃ := stay ht.level hc₂
    have h := Fits.max hi.level (h₁ hfresh.left.left.left.left hc) (.max hg.level
      (h₂ hrest₁.left hc₁) (.max ht.level (h₃ hrest₂.left hc₂) (.max hb.level
        (h₄ hrest₃.left hc₃) (h₅ hlast (stay hb.level hc₃)))))
    refine h.of_le ?_
    simp only [need]
    omega

/-! ## Room lets runs come to their end -/

/-- The nodes are fresh and there is room for the levels. -/
def Room (ids : List Nat) (levels : Nat) (c : Context) : Prop :=
  Fresh ids c ∧ Fits levels c

namespace Room

variable {is js ks : List Nat} {h k l : Nat} {c c' : Context}

theorem left (hr : Room (is ++ js) (max h k) c) : Room is h c :=
  ⟨hr.1.left, hr.2.of_le (Nat.le_max_left ..)⟩

theorem swap (hr : Room (is ++ js) (max h k) c) : Room (js ++ is) (max k h) c :=
  ⟨hr.1.swap, hr.2.of_le (Nat.max_comm ..).le⟩

theorem assoc (hr : Room (is ++ js ++ ks) (max (max h k) l) c) :
    Room (is ++ (js ++ ks)) (max h (max k l)) c :=
  ⟨hr.1.assoc, hr.2.of_le (Nat.max_assoc ..).ge⟩

/-- Room for a node that is one level down. -/
theorem below {id : Nat} (hr : Room (id :: is) (h + 1) c) :
    id ∉ c.visited ∧ c.depth < c.options.maxDepth ∧ Room is h (c.met id).below := by
  obtain ⟨hfresh, hfits⟩ := hr
  unfold Fits at hfits
  refine ⟨hfresh.2 id List.mem_cons_self, by omega, hfresh.met, ?_⟩
  show c.depth + 1 + h ≤ c.options.maxDepth
  omega

end Room

/-- What room a run leaves. -/
theorem Plan.Runs.room {p : Plan} {c c' : Context} {a : Lowered} {js : List Nat} {k : Nat}
    (hp : Runs p c a c') (h : Room (p.ids ++ js) (max p.need k) c) : Room js k c' :=
  ⟨hp.fresh h.1, (Fits.move hp.level).mpr (h.2.of_le (Nat.le_max_right ..))⟩

/-- **With room for its levels, a plan without failures runs to its end.** -/
theorem Plan.exists_runs {p : Plan} {c : Context} (hp : p.Sound) (h : Room p.ids p.need c) :
    ∃ a c', Runs p c a c' := by
  -- parts run one after another, and each leaves room for the parts that are still to run
  induction p generalizing c with
  | nothing => exact ⟨_, _, .nothing⟩
  | text => exact ⟨_, _, .text⟩
  | mark => exact ⟨_, _, .mark⟩
  | fail => exact hp.elim
  | emit => exact ⟨_, _, .emit⟩
  | jump => exact ⟨_, _, .jump⟩
  | closeCase => exact ⟨_, _, .closeCase⟩
  | guarded id p ih =>
    obtain ⟨a, c', r⟩ := ih (c := c.met id) hp ⟨h.1.met, h.2⟩
    exact ⟨_, _, .guarded (h.1.2 id List.mem_cons_self) r⟩
  | expression t p ih =>
    obtain ⟨hid, hd, hroom⟩ := h.below
    obtain ⟨a, c', r⟩ := ih hp hroom
    exact ⟨_, _, .expression hid hd r⟩
  | statement t p ih =>
    obtain ⟨hid, hd, hroom⟩ := h.below
    obtain ⟨a, c', r⟩ := ih (c := ((c.met t.id).told (.statement t)).below) hp hroom
    exact ⟨_, _, .statement hid hd r⟩
  | unlessEmpty _ p _ ih => exact let ⟨_, _, r⟩ := ih hp h; ⟨_, _, .unlessEmpty r⟩
  | compact p ih => exact let ⟨_, _, r⟩ := ih hp h; ⟨_, _, .compact r⟩
  | bind p ih => exact let ⟨_, _, r⟩ := ih hp h; ⟨_, _, .bind r⟩
  | effects p ih => exact let ⟨_, _, r⟩ := ih hp h; ⟨_, _, .effects r⟩
  | line p ih => exact let ⟨_, _, r⟩ := ih hp h; ⟨_, _, .line r⟩
  | valueLine p ih => exact let ⟨_, _, r⟩ := ih hp h; ⟨_, _, .valueLine r⟩
  | barrier p ih => exact let ⟨_, _, r⟩ := ih hp h; ⟨_, _, .barrier r⟩
  | declared _ p ih => exact let ⟨_, _, r⟩ := ih hp h; ⟨_, _, .declared r⟩
  | inSwitch p ih =>
    obtain ⟨_, _, r⟩ := ih (c := c.framed (.switch :: c.frames)) hp h
    exact ⟨_, _, .inSwitch r⟩
  | apart p ih =>
    obtain ⟨_, _, r⟩ := ih (c := c.framed []) hp h
    exact ⟨_, _, .apart r⟩
  | both p q ihp ihq =>
    obtain ⟨_, c₁, r₁⟩ := ihp hp.1 h.left
    obtain ⟨_, _, r₂⟩ := ihq hp.2 (r₁.room h)
    exact ⟨_, _, .both r₁ r₂⟩
  | shownBefore p q ihp ihq =>
    obtain ⟨_, c₁, r₁⟩ := ihq hp.2 h.swap.left
    obtain ⟨_, _, r₂⟩ := ihp hp.1 (r₁.room h.swap)
    exact ⟨_, _, .shownBefore r₁ r₂⟩
  | closed p q ihp ihq =>
    obtain ⟨_, c₁, r₁⟩ := ihp hp.1 h.left
    obtain ⟨_, _, r₂⟩ := ihq (c := c₁.framed []) hp.2 (r₁.room h)
    exact ⟨_, _, .closed r₁ r₂⟩
  | ifThen p q ihp ihq =>
    obtain ⟨_, c₁, r₁⟩ := ihp hp.1 h.left
    obtain ⟨_, _, r₂⟩ := ihq (c := c₁.labelled) hp.2 (r₁.room h)
    exact ⟨_, _, .ifThen r₁ r₂⟩
  | ifThenElse p q r ihp ihq ihr =>
    obtain ⟨_, c₁, r₁⟩ := ihp hp.1 h.left.left
    have hrest := r₁.room h.assoc
    obtain ⟨_, c₂, r₂⟩ := ihq (c := c₁.labelled.labelled) hp.2.1 hrest.left
    obtain ⟨_, _, r₃⟩ := ihr hp.2.2 (r₂.room hrest)
    exact ⟨_, _, .ifThenElse r₁ r₂ r₃⟩
  | whileLoop p q ihp ihq =>
    obtain ⟨_, c₁, r₁⟩ := ihp (c := c.labelled.labelled) hp.1 h.left
    obtain ⟨_, _, r₂⟩ := ihq (c := c₁.framed (_ :: c₁.frames)) hp.2
      (r₁.room h)
    exact ⟨_, _, .whileLoop r₁ r₂⟩
  | doWhile p q ihp ihq =>
    obtain ⟨_, c₁, r₁⟩ := ihp (c := c.labelled.labelled.framed (_ :: c.frames)) hp.1 h.left
    obtain ⟨_, _, r₂⟩ := ihq (c := c₁.framed c.frames) hp.2
      (r₁.room h)
    exact ⟨_, _, .doWhile r₁ r₂⟩
  | foreachLoop p q r ihp ihq ihr =>
    obtain ⟨_, c₁, r₁⟩ := ihp hp.1 h.left.left
    have hrest := r₁.room h.assoc
    obtain ⟨_, c₂, r₂⟩ := ihq hp.2.1 hrest.left
    obtain ⟨_, _, r₃⟩ := ihr (c := c₂.labelled.labelled.framed (_ :: c₂.frames)) hp.2.2
      (r₂.room hrest)
    exact ⟨_, _, .foreachLoop r₁ r₂ r₃⟩
  | endless p q r ihp ihq ihr =>
    obtain ⟨_, c₁, r₁⟩ := ihp hp.1 h.left.left
    have hrest := (r₁.room h.assoc).swap
    obtain ⟨_, c₂, r₂⟩ := ihr (c := c₁.labelled.labelled.labelled.framed (_ :: c₁.frames)) hp.2.2
      hrest.left
    obtain ⟨_, _, r₃⟩ := ihq (c := c₂.framed c₁.frames) hp.2.1 (r₂.room hrest)
    exact ⟨_, _, .endless r₁ r₂ r₃⟩
  | forLoop i g t s b ihi ihg iht ihs ihb =>
    obtain ⟨hi, hg, ht, hs, hb⟩ := hp
    obtain ⟨_, c₁, r₁⟩ := ihi hi h.left.left.left.left
    have hrest₁ := r₁.room h.assoc.assoc.assoc
    obtain ⟨_, c₂, r₂⟩ := ihg (c := c₁.labelled.labelled.labelled.framed (_ :: c₁.frames)) hg
      hrest₁.left
    have hrest₂ := r₂.room hrest₁
    obtain ⟨_, c₃, r₃⟩ := iht (c := c₂.framed c₁.frames) ht hrest₂.left
    have hrest₃ := (r₃.room hrest₂).swap
    obtain ⟨_, c₄, r₄⟩ := ihb (c := c₃.framed (_ :: c₃.frames)) hb hrest₃.left
    obtain ⟨_, _, r₅⟩ := ihs (c := c₄.framed c₃.frames) hs
      (r₄.room hrest₃)
    exact ⟨_, _, .forLoop r₁ r₂ r₃ r₄ r₅⟩

/-! ## Runs are stopped for the depth only -/

/-- Lowering keeps the options, and is stopped by the depth limit or not at all. -/
def Lower.Tame {α : Type} (x : Lower α) : Prop :=
  ∀ c, (x.outcome c).2.options = c.options ∧
    ∀ e, (x.outcome c).1 = .error e → e.cause = .tooDeep c.options.maxDepth

namespace Lower.Tame

variable {α β : Type}

theorem of_ok {x : Lower α}
    (h : ∀ c, ∃ a c', x.outcome c = (.ok a, c') ∧ c'.options = c.options) : x.Tame := by
  intro c
  obtain ⟨a, c', hx, hc⟩ := h c
  rw [hx]
  exact ⟨hc, fun e he => nomatch he⟩

theorem pure {a : α} : (Pure.pure a : Lower α).Tame :=
  of_ok fun c => ⟨a, c, rfl, rfl⟩

theorem bind {x : Lower α} {f : α → Lower β} (hx : x.Tame) (hf : ∀ a, (f a).Tame) :
    (x >>= f).Tame := by
  intro c
  have h := hx c
  rw [outcome_bind]
  cases hr : x.outcome c with
  | mk r c₁ =>
    rw [hr] at h
    obtain ⟨hc, he⟩ := h
    cases r with
    | error e => exact ⟨hc, fun e' h => by cases h; exact he e rfl⟩
    | ok a =>
      have ha := hf a c₁
      rw [show c₁.options = c.options from hc] at ha
      exact ha

theorem get : (MonadState.get : Lower Context).Tame :=
  of_ok fun c => ⟨c, c, rfl, rfl⟩

theorem tell {e : Event} : (Lower.tell e).Tame :=
  of_ok fun c => ⟨(), c.told e, rfl, rfl⟩

theorem mark {id : Nat} : (Lower.mark id).Tame :=
  of_ok fun c => ⟨(), c.met id, rfl, rfl⟩

theorem ascend : Lower.ascend.Tame :=
  of_ok fun c => ⟨(), c.above, rfl, rfl⟩

theorem enter {id : Nat} : (Lower.enter id).Tame :=
  of_ok fun c => ⟨_, c.met id, rfl, rfl⟩

theorem newTemp : Lower.newTemp.Tame :=
  of_ok fun c => ⟨_, c.temped, rfl, rfl⟩

theorem newLabels : Lower.newLabels.Tame :=
  of_ok fun c => ⟨_, c.labelled, rfl, rfl⟩

theorem withFrames {f : List Frame → List Frame} {x : Lower α} (hx : x.Tame) :
    (Lower.withFrames f x).Tame :=
  fun c => hx (c.framed (f c.frames))

/-- Going down is what the limit stops. -/
theorem descend {t : Tag} : (Lower.descend t).Tame := by
  intro c
  have h : (Lower.descend t).outcome c = if c.options.maxDepth ≤ c.depth
      then (.error (t.error (.tooDeep c.options.maxDepth)), c) else (.ok (), c.below) := by
    unfold Lower.descend
    rw [outcome_bind]
    show (ite (c.options.maxDepth ≤ c.depth) _ _ : Lower Unit).outcome c = _
    split <;> rfl
  rw [h]
  split
  · exact ⟨rfl, fun e he => by cases he; rfl⟩
  · exact ⟨rfl, fun e he => nomatch he⟩

end Lower.Tame

open Lower in
/-- **A plan without failures is stopped by the depth limit or not at all.** -/
theorem Plan.Sound.stops {p : Plan} (hp : p.Sound) : p.run.Tame := by
  induction p with
  | nothing | text | emit => exact .pure
  | mark => exact .bind .mark fun _ => .pure
  | fail => exact hp.elim
  | jump | closeCase => exact .bind .get fun _ => .pure
  | guarded id p ih =>
    refine .bind .enter fun b => ?_
    cases b with
    | true => exact ih hp
    | false => exact .pure
  | expression t p ih =>
    refine .bind .enter fun b => ?_
    cases b with
    | true => exact .bind .descend fun _ => .bind (ih hp) fun _ => .bind .ascend fun _ => .pure
    | false => exact .pure
  | statement t p ih =>
    refine .bind .enter fun b => ?_
    cases b with
    | true =>
      exact .bind .tell fun _ => .bind .descend fun _ => .bind (ih hp) fun _ =>
        .bind .ascend fun _ => .pure
    | false => exact .pure
  | unlessEmpty _ p _ ih | compact p ih | effects p ih | line p ih | valueLine p ih =>
    exact .bind (ih hp) fun _ => .pure
  | bind p ih => exact .bind (ih hp) fun _ => .bind .newTemp fun _ => .pure
  | barrier p ih =>
    exact .bind (ih hp) fun _ => .bind .newLabels fun _ => .bind .get fun _ => .pure
  | declared _ p ih => exact .bind (ih hp) fun _ => .bind .tell fun _ => .pure
  | inSwitch p ih | apart p ih => exact .withFrames (ih hp)
  | both p q hp' hq' => exact .bind (hp' hp.1) fun _ => .bind (hq' hp.2) fun _ => .pure
  | shownBefore p q hp' hq' => exact .bind (hq' hp.2) fun _ => .bind (hp' hp.1) fun _ => .pure
  | closed p q hp' hq' =>
    exact .bind (hp' hp.1) fun _ => .bind (.withFrames (hq' hp.2)) fun _ => .pure
  | ifThen p q hp' hq' =>
    exact .bind (hp' hp.1) fun _ => .bind .newLabels fun _ => .bind (hq' hp.2) fun _ => .pure
  | ifThenElse p q r hp' hq' hr' =>
    exact .bind (hp' hp.1) fun _ => .bind .newLabels fun _ => .bind .newLabels fun _ =>
      .bind (hq' hp.2.1) fun _ => .bind (hr' hp.2.2) fun _ => .pure
  | whileLoop p q hp' hq' =>
    exact .bind .newLabels fun _ => .bind .newLabels fun _ => .bind (hp' hp.1) fun _ =>
      .bind (.withFrames (hq' hp.2)) fun _ => .pure
  | doWhile p q hp' hq' =>
    exact .bind .newLabels fun _ => .bind .newLabels fun _ =>
      .bind (.withFrames (hp' hp.1)) fun _ => .bind (hq' hp.2) fun _ => .pure
  | foreachLoop p q r hp' hq' hr' =>
    exact .bind (hp' hp.1) fun _ => .bind (hq' hp.2.1) fun _ => .bind .newLabels fun _ =>
      .bind .newLabels fun _ => .bind (.withFrames (hr' hp.2.2)) fun _ => .pure
  | endless p q r hp' hq' hr' =>
    exact .bind (hp' hp.1) fun _ => .bind .newLabels fun _ => .bind .newLabels fun _ =>
      .bind .newLabels fun _ => .bind (.withFrames (hr' hp.2.2)) fun _ =>
        .bind (hq' hp.2.1) fun _ => .pure
  | forLoop i g t s b hi hg ht hs hb =>
    exact .bind (hi hp.1) fun _ => .bind .newLabels fun _ => .bind .newLabels fun _ =>
      .bind .newLabels fun _ => .bind (.withFrames (hg hp.2.1)) fun _ =>
        .bind (ht hp.2.2.1) fun _ => .bind (.withFrames (hb hp.2.2.2.2)) fun _ =>
          .bind (hs hp.2.2.2.1) fun _ => .pure

/-! ## Meaningful trees -/

section

variable {n : Node} {o : Options}

theorem fresh_code (hids : n.ids.Nodup) : Fresh (planned n).code.ids { options := o } :=
  Fresh.mono ⟨hids, fun _ _ h => Std.HashSet.not_mem_empty h⟩
    (ids_as_subperm n .statement)

/-- **A tree is lowered exactly under the limits that are no smaller than its height.** -/
theorem lowers_iff_height_le (hn : Meaningful .statement n) (hids : n.ids.Nodup) :
    (∃ l, listing n o = .ok l) ↔ height n .statement ≤ o.maxDepth := by
  obtain ⟨hsound, hneed⟩ := need_as hn
  have hfresh : Fresh (planned n).code.ids { options := o } := fresh_code hids
  have hfits : Fits (planned n).code.need { options := o } ↔ height n .statement ≤ o.maxDepth := by
    rw [← hneed]
    exact iff_of_eq (congrArg (· ≤ o.maxDepth) (Nat.zero_add _))
  rw [← hfits]
  constructor
  · rintro ⟨l, hl⟩
    obtain ⟨a, c, hrun, -⟩ := listing_eq_ok_iff.mp hl
    exact hrun.fits hfresh (Nat.zero_le _)
  · intro h
    obtain ⟨a, c, hrun⟩ := Plan.exists_runs hsound ⟨hfresh, h⟩
    exact ⟨_, listing_eq_ok_iff.mpr ⟨a, c, hrun, rfl⟩⟩

/-- A tree that is not lowered is too deep. -/
theorem cause_of_listing_eq_error (hn : Meaningful .statement n) {e : LoweringError}
    (h : listing n o = .error e) : e.cause = .tooDeep o.maxDepth := by
  have htame : (lowerScript n).Tame :=
    .bind (need_as hn).1.stops fun _ => .bind .tell fun _ => .pure
  exact (htame { options := o }).2 e h

/-- **The limit does not show in the listing.** -/
theorem listing_eq_of_height_le (hn : Meaningful .statement n) (hids : n.ids.Nodup) {o' : Options}
    (hswitch : o'.switchFallthrough = o.switchFallthrough) (h : height n .statement ≤ o.maxDepth)
    (hle : o.maxDepth ≤ o'.maxDepth) : listing n o' = listing n o := by
  obtain ⟨l, hl⟩ := (lowers_iff_height_le hn hids).mpr h
  obtain ⟨a, c, hrun, rfl⟩ := listing_eq_ok_iff.mp hl
  have halike : Alike (fun _ => True) { options := o } { options := o' } :=
    ⟨rfl, rfl, hswitch.symm, hle, fun _ _ => Iff.rfl⟩
  obtain ⟨d, hrun', -⟩ := hrun.transfer halike (fun _ _ => trivial) (.inr rfl)
  rw [hl]
  exact listing_eq_ok_iff.mpr ⟨a, d, hrun', rfl⟩

end

end ThreeAddress.Lowering

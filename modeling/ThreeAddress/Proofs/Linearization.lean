import ThreeAddress.Proofs.Dependence
import ThreeAddress.Proofs.Simulation

/-!
# Linearization preserves behaviour

Lowering a statement and outlining it go through the same expressions in the same order, so
they give them the same temporaries, and what lowering makes of the statement is its outline,
linearized (`Outlines`): one lemma for every control structure. With the simulation, **the
machine does with a listing what the statements do** (`linearization_preserves_behaviour`).
-/

namespace ThreeAddress.Lowering

open Syntax (Node Kind)
open Plan (Runs)
open Lower
open scoped List

/-! ## Contexts side by side -/

/-- The contexts of lowering and of outlining before the nodes `is` are met. Outlining stays at
the top level. -/
structure Abreast (is : List Nat) (c d : Context) : Prop where
  nodup : is.Nodup
  fresh : ∀ i ∈ is, i ∉ c.visited ∧ i ∉ d.visited
  temps : c.temps = d.temps
  labels : c.labels = d.labels
  options : c.options = d.options
  depth : d.depth = 0

namespace Abreast

variable {is js ks : List Nat} {c c' d d' : Context}

theorem mono (h : Abreast is c d) (hsub : js <+~ is) : Abreast js c d := by
  obtain ⟨ks, hperm, hks⟩ := id hsub
  exact { h with
    nodup := hperm.nodup_iff.mp (h.nodup.sublist hks)
    fresh := fun i hi => h.fresh i (hsub.subset hi) }

theorem assoc (h : Abreast (is ++ js ++ ks) c d) : Abreast (is ++ (js ++ ks)) c d :=
  List.append_assoc is js ks ▸ h

theorem swap (h : Abreast (is ++ (js ++ ks)) c d) : Abreast (js ++ (is ++ ks)) c d :=
  h.mono (List.perm_append_comm_assoc js is ks).subperm

theorem alike (h : Abreast is c d) : Alike (· ∈ is) c d where
  temps := h.temps
  labels := h.labels
  switchFallthrough := by rw [h.options]
  room := by
    rw [h.options, h.depth]
    omega
  visited i hi := iff_of_false (h.fresh i hi).1 (h.fresh i hi).2

theorem met {i : Nat} (h : Abreast (i :: is) c d) : Abreast is (c.met i) d := by
  obtain ⟨hi, hnodup⟩ := List.nodup_cons.mp h.nodup
  refine ⟨hnodup, fun j hj => ?_, h.temps, h.labels, h.options, h.depth⟩
  obtain ⟨hc, hd⟩ := h.fresh j (List.mem_cons_of_mem _ hj)
  refine ⟨fun hmem => ?_, hd⟩
  obtain rfl | hmem := Context.mem_met.mp hmem
  · exact hi hj
  · exact hc hmem

theorem told {e : Event} (h : Abreast is c d) : Abreast is (c.told e) d :=
  ⟨h.nodup, h.fresh, h.temps, h.labels, h.options, h.depth⟩

theorem below (h : Abreast is c d) : Abreast is c.below d :=
  ⟨h.nodup, h.fresh, h.temps, h.labels, h.options, h.depth⟩

theorem above (h : Abreast is c d) : Abreast is c.above d :=
  ⟨h.nodup, h.fresh, h.temps, h.labels, h.options, h.depth⟩

theorem framed {fs : List Frame} (h : Abreast is c d) : Abreast is (c.framed fs) d :=
  ⟨h.nodup, h.fresh, h.temps, h.labels, h.options, h.depth⟩

theorem labelled (h : Abreast is c d) : Abreast is c.labelled d.labelled :=
  ⟨h.nodup, h.fresh, h.temps, congrArg (· + 1) h.labels, h.options, h.depth⟩

/-- **A value is lowered and outlined alike.** -/
theorem runs {p : Plan} {a : Lowered} (h : Abreast (p.ids ++ ks) c d) (hp : p.IsValue)
    (hrun : Runs p c a c') : ∃ d', Runs p d a d' ∧ Abreast ks c' d' := by
  obtain ⟨d', hrun', ha⟩ :=
    hrun.transfer h.alike (fun i hi => List.mem_append_left _ hi) (.inl hp)
  have hnew {e e' : Context} {i : Nat} (he : Runs p e a e') (hi : i ∈ ks) (hold : i ∉ e.visited) :
      i ∉ e'.visited := fun hmem =>
    (he.meets i hmem).elim hold (fun hmem => List.disjoint_of_nodup_append h.nodup hmem hi)
  refine ⟨d', hrun', h.nodup.sublist (List.sublist_append_right _ _), fun i hi => ?_, ha.temps,
    ha.labels, ?_, ?_⟩
  · obtain ⟨hc, hd⟩ := h.fresh i (List.mem_append_right _ hi)
    exact ⟨hnew hrun hi hc, hnew hrun' hi hd⟩
  · rw [hrun.options_eq, hrun'.options_eq, h.options]
  · rw [hrun'.depth_eq, h.depth]

end Abreast

/-! ## Outlines -/

theorem Straight.map_text {code : List Instruction} (h : Straight code) :
    (linesOf code).map .text = code := by
  induction code with
  | nil => rfl
  | cons i code ih =>
    obtain ⟨⟨s, rfl⟩, hcode⟩ := List.forall_mem_cons.mp h
    exact congrArg (.text s :: ·) (ih hcode)

theorem Straight.linear {fs : List Frame} {code : List Instruction} (h : Straight code) :
    Linear fs (.lines (linesOf code)) code := by
  have hlinear : Linear fs (.lines (linesOf code)) ((linesOf code).map .text) := .lines
  rwa [h.map_text] at hlinear

/-- A condition is lowered to what it is outlined to. -/
theorem Abreast.test {n : Planned} {ks : List Nat} {c c' d : Context} {a : Lowered}
    (h : Abreast (n.value.ids ++ ks) c d) (hn : n.value.IsValue) (hrun : Runs n.value c a c') :
    ∃ t d', (outlineTest n).Gives d t d' ∧ t.lowered = a ∧ Abreast ks c' d' := by
  obtain ⟨d', hrun', hab⟩ := h.runs hn hrun
  exact ⟨testOf a, d', gives_bind.mpr ⟨a, d', hrun'.gives, gives_pure.mpr ⟨rfl, rfl⟩⟩,
    congrArg (Lowered.mk a.value) (hrun.straight hn).map_text, hab⟩

theorem Abreast.lines {p : Plan} {ks : List Nat} {c c' d : Context} {a : Lowered}
    (h : Abreast (p.ids ++ ks) c d) (hp : p.IsValue) (hrun : Runs p c a c') :
    ∃ ls d', (outlineLines p).Gives d ls d' ∧ a.effects = ls.map .text ∧ Abreast ks c' d' := by
  obtain ⟨d', hrun', hab⟩ := h.runs hp hrun
  exact ⟨linesOf a.effects, d', gives_bind.mpr ⟨a, d', hrun'.gives, gives_pure.mpr ⟨rfl, rfl⟩⟩,
    (hrun.straight hp).map_text.symm, hab⟩

theorem gives_passLabels_zero {d : Context} : (passLabels 0).Gives d () d :=
  gives_pure.mpr ⟨rfl, rfl⟩

theorem gives_passLabels_succ {k : Nat} {d d' : Context}
    (h : (passLabels k).Gives d.labelled () d') : (passLabels (k + 1)).Gives d () d' :=
  gives_bind.mpr ⟨_, _, gives_newLabels.mpr ⟨rfl, rfl⟩, h⟩

/-- So many loops, and nothing else. -/
def OnlyLoops (loops : Nat) (fs : List Frame) : Prop :=
  fs.length = loops ∧ .switch ∉ fs

theorem OnlyLoops.loop {loops : Nat} {fs : List Frame} {b n : String} (h : OnlyLoops loops fs) :
    OnlyLoops (loops + 1) (.loop b n :: fs) :=
  ⟨congrArg (· + 1) h.1, by simpa using h.2⟩

/-- A jump that stays inside the loops has a loop to go to. -/
theorem OnlyLoops.getElem? {loops k : Nat} {fs : List Frame} (h : OnlyLoops loops fs)
    (hk : k < loops) : ∃ b n, fs[k]? = some (.loop b n) := by
  have hlt : k < fs.length := h.1 ▸ hk
  cases hf : fs[k] with
  | loop b n => exact ⟨b, n, by rw [List.getElem?_eq_getElem hlt, hf]⟩
  | switch => exact absurd (hf ▸ List.getElem_mem hlt) h.2

theorem Shape.forLoop_eq_append (init tests step : List Instruction) (l : Labels)
    (round next : String) (code : List Instruction) :
    forLoop init tests step l round next code
      = init ++ forLoop [] tests step l round next code := by
  simp [forLoop]

theorem Shape.foreachLoop_eq_append (i b : Lowered) (l : Labels) (next : String)
    (code : List Instruction) :
    foreachLoop i b l next code
      = (i.effects ++ b.effects) ++ foreachLoop ⟨i.value, []⟩ ⟨b.value, []⟩ l next code := by
  simp [foreachLoop]

/-- What lowering makes of the plan inside so many loops is the flow, linearized. -/
structure Outlines (loops : Nat) (p : Plan) (x : Lower Flow) : Prop where
  isRegular : p.IsRegular
  linear {ks : List Nat} {c c' d : Context} {a : Lowered} : Runs p c a c' →
    OnlyLoops loops c.frames → Abreast (p.ids ++ ks) c d →
    ∃ f d', x.Gives d f d' ∧ Linear c.frames f a.effects ∧ Abreast ks c' d'

namespace Outlines

variable {loops : Nat} {p q : Plan} {x y : Lower Flow}

theorem statement {t : Tag} (h : Outlines loops p x) : Outlines loops (.statement t p) x where
  isRegular := h.isRegular
  linear hrun hframes hab := by
    cases hrun with
    | statement hid hdepth hrun =>
      obtain ⟨f, d', hf, hlinear, hab'⟩ := h.linear hrun hframes hab.met.told.below
      exact ⟨f, d', hf, hlinear, hab'.above⟩
    | statementAgain hid => exact absurd hid (hab.fresh _ List.mem_cons_self).1

/-- A plan of lines. -/
theorem lines (hp : p.IsValue) : Outlines loops p (return .lines (← outlineLines p)) where
  isRegular := hp.isRegular
  linear hrun _ hab := by
    obtain ⟨ls, d', hls, heffects, hab'⟩ := hab.lines hp hrun
    rw [heffects]
    exact ⟨.lines ls, d', gives_bind.mpr ⟨ls, d', hls, gives_pure.mpr ⟨rfl, rfl⟩⟩, .lines, hab'⟩

theorem seq (hp : Outlines loops p x) (hq : Outlines loops q y) :
    Outlines loops (p ++ q) (do let f ← x; return .seq f (← y)) where
  isRegular := ⟨hp.isRegular, hq.isRegular⟩
  linear hrun hframes hab := by
    cases hrun with
    | both hrun₁ hrun₂ =>
      obtain ⟨f, d₁, hf, hlinear₁, hab₁⟩ := hp.linear hrun₁ hframes hab.assoc
      rw [← hrun₁.frames_eq] at hframes
      obtain ⟨g, d₂, hg, hlinear₂, hab₂⟩ := hq.linear hrun₂ hframes hab₁
      rw [hrun₁.frames_eq] at hlinear₂
      exact ⟨.seq f g, d₂, gives_bind.mpr ⟨f, d₁, hf, gives_bind.mpr ⟨g, d₂, hg,
        gives_pure.mpr ⟨rfl, rfl⟩⟩⟩, .seq hlinear₁ hlinear₂, hab₂⟩

theorem all {ns : List Node} (h : ∀ n ∈ ns, Outlines loops (planned n).code (outline n)) :
    Outlines loops (codeOf (ns.map planned)) (outlineAll (ns.map outline)) := by
  induction ns with
  | nil =>
    refine ⟨trivial, fun {ks c c' d a} hrun _ hab => ?_⟩
    cases hrun
    exact ⟨.lines [], d, gives_pure.mpr ⟨rfl, rfl⟩, .lines, hab⟩
  | cons n ns ih =>
    obtain ⟨hn, hns⟩ := List.forall_mem_cons.mp h
    exact seq hn (ih hns)

section Structures

variable {n : Planned} (hn : n.value.IsValue)
include hn

theorem ifThen (hq : Outlines loops q x) :
    Outlines loops (.ifThen n.value q)
      (do
        let t ← outlineTest n
        passLabels 1
        return .choice t (← x) (.lines [])) where
  isRegular := ⟨hn, hq.isRegular⟩
  linear hrun hframes hab := by
    cases hrun with
    | ifThen hrun₁ hrun₂ =>
      obtain ⟨t, d₁, ht, rfl, hab₁⟩ := hab.assoc.test hn hrun₁
      rw [← hrun₁.frames_eq] at hframes ⊢
      obtain ⟨f, d₂, hf, hlinear, hab₂⟩ := hq.linear hrun₂ hframes hab₁.labelled
      exact ⟨.choice t f (.lines []), d₂, gives_bind.mpr ⟨t, d₁, ht, gives_bind.mpr ⟨(), _,
        gives_passLabels_succ gives_passLabels_zero, gives_bind.mpr ⟨f, d₂, hf,
          gives_pure.mpr ⟨rfl, rfl⟩⟩⟩⟩, .ifThen hlinear, hab₂⟩

theorem ifThenElse (hp : Outlines loops p x) (hq : Outlines loops q y) :
    Outlines loops (.ifThenElse n.value p q)
      (do
        let t ← outlineTest n
        passLabels 2
        let f ← x
        return .choice t f (← y)) where
  isRegular := ⟨hn, hp.isRegular, hq.isRegular⟩
  linear hrun hframes hab := by
    cases hrun with
    | ifThenElse hrun₁ hrun₂ hrun₃ =>
      obtain ⟨t, d₁, ht, rfl, hab₁⟩ := hab.assoc.assoc.test hn hrun₁
      rw [← hrun₁.frames_eq] at hframes ⊢
      obtain ⟨f, d₂, hf, hlinear₁, hab₂⟩ :=
        hp.linear hrun₂ hframes hab₁.labelled.labelled
      have hframes₂ := hrun₂.frames_eq
      obtain ⟨g, d₃, hg, hlinear₂, hab₃⟩ := hq.linear hrun₃ (hframes₂ ▸ hframes) hab₂
      rw [hframes₂] at hlinear₂
      exact ⟨.choice t f g, d₃, gives_bind.mpr ⟨t, d₁, ht, gives_bind.mpr ⟨(), _,
        gives_passLabels_succ (gives_passLabels_succ gives_passLabels_zero),
        gives_bind.mpr ⟨f, d₂, hf, gives_bind.mpr ⟨g, d₃, hg, gives_pure.mpr ⟨rfl, rfl⟩⟩⟩⟩⟩,
        .ifThenElse hlinear₁ hlinear₂, hab₃⟩

theorem whileLoop (hq : Outlines (loops + 1) q x) :
    Outlines loops (.whileLoop n.value q)
      (do
        passLabels 2
        let t ← outlineTest n
        return .whileLoop t (← x)) where
  isRegular := ⟨hn, hq.isRegular⟩
  linear hrun hframes hab := by
    cases hrun with
    | whileLoop hrun₁ hrun₂ =>
      obtain ⟨t, d₁, ht, rfl, hab₁⟩ := hab.assoc.labelled.labelled.test hn hrun₁
      have hframes₁ := hrun₁.frames_eq
      obtain ⟨f, d₂, hf, hlinear, hab₂⟩ := hq.linear hrun₂ (hframes₁ ▸ hframes).loop hab₁.framed
      refine ⟨.whileLoop t f, d₂, gives_bind.mpr ⟨(), _,
        gives_passLabels_succ (gives_passLabels_succ gives_passLabels_zero),
        gives_bind.mpr ⟨t, d₁, ht, gives_bind.mpr ⟨f, d₂, hf, gives_pure.mpr ⟨rfl, rfl⟩⟩⟩⟩,
        .whileLoop ?_, hab₂.framed⟩
      exact hframes₁ ▸ hlinear

theorem doWhile (hq : Outlines (loops + 1) q x) :
    Outlines loops (.doWhile q n.value)
      (do
        passLabels 2
        let f ← x
        return .doWhile f (← outlineTest n)) where
  isRegular := ⟨hq.isRegular, hn⟩
  linear hrun hframes hab := by
    cases hrun with
    | doWhile hrun₁ hrun₂ =>
      obtain ⟨f, d₁, hf, hlinear, hab₁⟩ :=
        hq.linear hrun₁ hframes.loop hab.assoc.labelled.labelled.framed
      obtain ⟨t, d₂, ht, rfl, hab₂⟩ := hab₁.framed.test hn hrun₂
      exact ⟨.doWhile f t, d₂, gives_bind.mpr ⟨(), _,
        gives_passLabels_succ (gives_passLabels_succ gives_passLabels_zero),
        gives_bind.mpr ⟨f, d₁, hf, gives_bind.mpr ⟨t, d₂, ht, gives_pure.mpr ⟨rfl, rfl⟩⟩⟩⟩,
        .doWhile hlinear, hab₂⟩

end Structures

/-- The tests of a loop with a head. -/
theorem tests {ns : List Planned} {last : Planned} {stop next round : String} {fs : List Frame}
    {ks : List Nat} {c c₁ c₂ d : Context} {g a : Lowered} (hns : ∀ n ∈ ns, n.value.IsValue)
    (hlast : last.value.IsValue)
    (hrun : Runs (Plan.all (ns.map fun n => .barrier n.value)) c g c₁)
    (hrun' : Runs last.value (c₁.framed fs) a c₂) (hframes : c.frames = .loop stop next :: fs)
    (hab : Abreast ((Plan.all (ns.map fun n => .barrier n.value)).ids
      ++ (last.value.ids ++ ks)) c d) :
    ∃ ts d', (outlineTests (ns ++ [last])).Gives d ts d' ∧
      LinearTests stop round ts (g.effects ++ Shape.test a round stop) ∧ Abreast ks c₂ d' := by
  induction ns generalizing c d g with
  | nil =>
    cases hrun
    obtain ⟨t, d', ht, rfl, hab'⟩ := hab.framed.test hlast hrun'
    exact ⟨[t], d', gives_bind.mpr ⟨t, d', ht, gives_pure.mpr ⟨rfl, rfl⟩⟩, .last, hab'⟩
  | cons n ns ih =>
    obtain ⟨hn, hns⟩ := List.forall_mem_cons.mp hns
    cases hrun with
    | both hrun₁ hrun₂ =>
      cases hrun₁ with
      | @barrier _ _ c₁ _ hrun₁ =>
        obtain ⟨t, d₁, ht, rfl, hab₁⟩ := hab.assoc.test hn hrun₁
        have hframes₁ : c₁.frames = .loop stop next :: fs := hrun₁.frames_eq.trans hframes
        obtain ⟨ts, d₂, hts, hlinear, hab₂⟩ := ih hns hrun₂ hframes₁ hab₁.labelled
        have hjump : c₁.jump .leave none = .goto stop := by
          unfold Context.jump Context.frame?
          rw [hframes₁]
          rfl
        refine ⟨t :: ts, d₂, ?_, ?_, hab₂⟩
        · cases ns <;> exact gives_bind.mpr ⟨t, d₁, ht, gives_bind.mpr ⟨(), _,
            gives_passLabels_succ gives_passLabels_zero, gives_bind.mpr ⟨ts, d₂, hts,
              gives_pure.mpr ⟨rfl, rfl⟩⟩⟩⟩
        · rw [hjump]
          show LinearTests stop round (t :: ts) (_ ++ _ ++ _)
          rw [List.append_assoc]
          exact .barrier hlinear

theorem forLoop {i s : Plan} {ns : List Planned} {last : Planned} (hi : i.IsValue)
    (hns : ∀ n ∈ ns, n.value.IsValue) (hlast : last.value.IsValue) (hs : s.IsValue)
    (hq : Outlines (loops + 1) q x) :
    Outlines loops (.forLoop i (Plan.all (ns.map fun n => .barrier n.value)) last.value s q)
      (do
        let before ← outlineLines i
        passLabels 3
        let ts ← outlineTests (ns ++ [last])
        let f ← x
        let after ← outlineLines s
        return .seq (.lines before) (.forLoop ts after f)) where
  isRegular := by
    refine ⟨hi, ?_, hlast, hs, hq.isRegular⟩
    induction ns with
    | nil => trivial
    | cons n ns ih =>
      obtain ⟨hn, hns⟩ := List.forall_mem_cons.mp hns
      exact ⟨hn, ih hns⟩
  linear hrun hframes hab := by
    cases hrun with
    | @forLoop _ _ _ _ _ _ c₁ _ _ _ _ i _ _ b s hrun₁ hrun₂ hrun₃ hrun₄ hrun₅ =>
      obtain ⟨before, d₁, hbefore, hieffects, hab₁⟩ :=
        hab.assoc.assoc.assoc.assoc.lines hi hrun₁
      rw [← hrun₁.frames_eq] at hframes
      obtain ⟨ts, d₂, hts, htests, hab₂⟩ :=
        tests hns hlast hrun₂ hrun₃ rfl hab₁.labelled.labelled.labelled.framed
      have hframes₃ := hrun₃.frames_eq
      obtain ⟨f, d₃, hf, hlinear, hab₃⟩ :=
        hq.linear hrun₄ (hframes₃ ▸ hframes).loop hab₂.swap.framed
      obtain ⟨after, d₄, hafter, hseffects, hab₄⟩ := hab₃.framed.lines hs hrun₅
      refine ⟨.seq (.lines before) (.forLoop ts after f), d₄, gives_bind.mpr ⟨before, d₁, hbefore,
        gives_bind.mpr ⟨(), _, gives_passLabels_succ (gives_passLabels_succ
          (gives_passLabels_succ gives_passLabels_zero)), gives_bind.mpr ⟨ts, d₂, hts,
          gives_bind.mpr ⟨f, d₃, hf, gives_bind.mpr ⟨after, d₄, hafter,
            gives_pure.mpr ⟨rfl, rfl⟩⟩⟩⟩⟩⟩, ?_, hab₄⟩
      rw [← hrun₁.frames_eq]
      show Linear c₁.frames _ (Shape.forLoop i.effects _ s.effects _ _ _ _)
      rw [Shape.forLoop_eq_append, hieffects, hseffects]
      have hframes₃ : c₁.frames = _ := hframes₃.symm
      rw [hframes₃]
      exact .seq .lines (.forLoop htests hlinear)

theorem endless {i s : Plan} (hi : i.IsValue) (hs : s.IsValue) (hq : Outlines (loops + 1) q x) :
    Outlines loops (.endless i s q)
      (do
        let before ← outlineLines i
        passLabels 3
        let ts ← outlineTests []
        let f ← x
        let after ← outlineLines s
        return .seq (.lines before) (.forLoop ts after f)) where
  isRegular := ⟨hi, hs, hq.isRegular⟩
  linear hrun hframes hab := by
    cases hrun with
    | @endless _ _ _ _ c₁ _ _ i b s hrun₁ hrun₂ hrun₃ =>
      obtain ⟨before, d₁, hbefore, hieffects, hab₁⟩ := hab.assoc.assoc.lines hi hrun₁
      rw [← hrun₁.frames_eq] at hframes
      obtain ⟨f, d₂, hf, hlinear, hab₂⟩ :=
        hq.linear hrun₂ hframes.loop hab₁.swap.labelled.labelled.labelled.framed
      obtain ⟨after, d₃, hafter, hseffects, hab₃⟩ := hab₂.framed.lines hs hrun₃
      refine ⟨.seq (.lines before) (.forLoop [] after f), d₃, gives_bind.mpr ⟨before, d₁, hbefore,
        gives_bind.mpr ⟨(), _, gives_passLabels_succ (gives_passLabels_succ
          (gives_passLabels_succ gives_passLabels_zero)), gives_bind.mpr ⟨[], _,
          gives_pure.mpr ⟨rfl, rfl⟩, gives_bind.mpr ⟨f, d₂, hf, gives_bind.mpr ⟨after, d₃, hafter,
            gives_pure.mpr ⟨rfl, rfl⟩⟩⟩⟩⟩⟩, ?_, hab₃⟩
      rw [← hrun₁.frames_eq]
      show Linear c₁.frames _ (Shape.forLoop i.effects _ s.effects _ _ _ _)
      rw [Shape.forLoop_eq_append, hieffects, hseffects]
      exact .seq .lines (.forLoop .nil hlinear)

theorem foreachLoop {n : Planned} {v : Plan} (hn : n.value.IsValue) (hv : v.IsValue)
    (hq : Outlines (loops + 1) q x) :
    Outlines loops (.foreachLoop n.value v q)
      (do
        let i ← n.value.run
        let b ← v.run
        passLabels 2
        let f ← x
        return .seq (.lines (linesOf (i.effects ++ b.effects)))
          (.foreachLoop i.value b.value f)) where
  isRegular := ⟨hn, hv, hq.isRegular⟩
  linear hrun hframes hab := by
    cases hrun with
    | @foreachLoop _ _ _ _ _ c₂ _ i b _ hrun₁ hrun₂ hrun₃ =>
      obtain ⟨d₁, hrun₁', hab₁⟩ := hab.assoc.assoc.runs hn hrun₁
      obtain ⟨d₂, hrun₂', hab₂⟩ := hab₁.runs hv hrun₂
      have hframes₂ := hrun₂.frames_eq.trans hrun₁.frames_eq
      rw [← hframes₂] at hframes
      obtain ⟨f, d₃, hf, hlinear, hab₃⟩ :=
        hq.linear hrun₃ hframes.loop hab₂.labelled.labelled.framed
      refine ⟨_, d₃, gives_bind.mpr ⟨i, d₁, hrun₁'.gives, gives_bind.mpr ⟨b, d₂, hrun₂'.gives,
        gives_bind.mpr ⟨(), _, gives_passLabels_succ (gives_passLabels_succ
          gives_passLabels_zero), gives_bind.mpr ⟨f, d₃, hf, gives_pure.mpr ⟨rfl, rfl⟩⟩⟩⟩⟩, ?_,
        hab₃.framed⟩
      have hstraight := (hrun₁.straight hn).append (hrun₂.straight hv)
      rw [← hframes₂]
      show Linear c₂.frames _ (Shape.foreachLoop i b _ _ _)
      rw [Shape.foreachLoop_eq_append]
      exact .seq hstraight.linear (.foreachLoop hlinear)

section Jumps

variable {levels : Option Nat} (hpos : 1 ≤ levels.getD 1) (hle : levels.getD 1 ≤ loops)
include hpos hle

theorem jump_eq {c : Context} (h : OnlyLoops loops c.frames) :
    ∃ b n, c.frames[levels.getD 1 - 1]? = some (.loop b n) ∧
      c.jump .leave levels = .goto b ∧ c.jump .next levels = .goto n := by
  obtain ⟨b, n, hf⟩ := h.getElem? (k := levels.getD 1 - 1) (by omega)
  have hframe : c.frame? (levels.getD 1) = some (.loop b n) := by
    unfold Context.frame?
    rwa [Nat.max_eq_left hpos]
  refine ⟨b, n, hf, ?_, ?_⟩
  all_goals
    unfold Context.jump
    rw [hframe]

theorem leave : Outlines loops (.jump .leave levels) (return .leave (levels.getD 1 - 1)) where
  isRegular := trivial
  linear {_ c _ d _} hrun hframes hab := by
    cases hrun
    obtain ⟨b, n, hf, hjump, -⟩ := jump_eq hpos hle hframes
    rw [hjump]
    exact ⟨.leave _, d, gives_pure.mpr ⟨rfl, rfl⟩, .leave hf, hab⟩

theorem next : Outlines loops (.jump .next levels) (return .next (levels.getD 1 - 1)) where
  isRegular := trivial
  linear {_ c _ d _} hrun hframes hab := by
    cases hrun
    obtain ⟨b, n, hf, -, hjump⟩ := jump_eq hpos hle hframes
    rw [hjump]
    exact ⟨.next _, d, gives_pure.mpr ⟨rfl, rfl⟩, .next hf, hab⟩

end Jumps

end Outlines

/-! ## Statements -/

theorem isValue_expressionsCode (ns : List Node) :
    (expressionsCode (ns.map planned)).IsValue :=
  (Made.all (u := .value) (f := Planned.expressionCode) (ns.map planned)).isValue rfl (by
    simp only [List.forall_mem_map]
    exact fun n _ _ => isValue_as n (r := .effect) rfl)

theorem isValue_bindingPlan (key : Option Node) (value : Node) (byRef : Bool) :
    (bindingPlan (key.map planned) (planned value) byRef).IsValue := by
  have hvalue (n : Node) : (planned n).value.IsValue := isValue_as n (r := .value) rfl
  refine ⟨⟨?_, ?_⟩, hvalue value⟩
  · cases key with
    | none => trivial
    | some key => exact hvalue key
  · cases byRef <;> trivial

theorem isValue_valueList (ns : List Node) : (valueList (ns.map planned)).IsValue := by
  refine Plan.isValue_joined ?_
  simp only [List.forall_mem_map]
  exact fun n _ => isValue_as n (r := .value) rfl

theorem outlines_forPlan {init conditions step body : List Node} {loops : Nat}
    (h : Outlines (loops + 1) (codeOf (body.map planned)) (outlineAll (body.map outline))) :
    Outlines loops
      (forPlan (init.map planned) (conditions.map planned) (step.map planned) (body.map planned))
      (do
        let before ← outlineLines (expressionsCode (init.map planned))
        passLabels 3
        let ts ← outlineTests (conditions.map planned)
        let f ← outlineAll (body.map outline)
        let after ← outlineLines (expressionsCode (step.map planned))
        return .seq (.lines before) (.forLoop ts after f)) := by
  have hvalue (n : Node) : (planned n).value.IsValue := isValue_as n (r := .value) rfl
  have hinit := isValue_expressionsCode init
  have hstep := isValue_expressionsCode step
  obtain rfl | ⟨cs, last, rfl⟩ := conditions.eq_nil_or_concat
  · exact .endless hinit hstep h
  · have hplan : forPlan (init.map planned) ((cs.concat last).map planned) (step.map planned)
        (body.map planned) = .forLoop (expressionsCode (init.map planned))
          (Plan.all ((cs.map planned).map fun n => .barrier n.value)) (planned last).value
          (expressionsCode (step.map planned)) (codeOf (body.map planned)) := by
      simp [forPlan]
    rw [hplan, List.concat_eq_append, List.map_append]
    refine .forLoop hinit ?_ (hvalue last) hstep h
    simp only [List.forall_mem_map]
    exact fun n _ => hvalue n

theorem fst_outlined (n : Node) : (outlined n).1 = planned n := by
  unfold outlined
  rw [Node.fold_eq]

theorem map_fst_outlined (ns : List Node) : (ns.map outlined).map Prod.fst = ns.map planned := by
  rw [List.map_map]
  exact List.map_congr_left fun n _ => fst_outlined n

theorem option_map_fst_outlined (n : Option Node) :
    (n.map outlined).map Prod.fst = n.map planned := by
  cases n with
  | none => rfl
  | some n => exact congrArg some (fst_outlined n)

theorem map_snd_outlined (ns : List Node) : (ns.map outlined).map Prod.snd = ns.map outline :=
  List.map_map

/-- **What lowering makes of a structured statement is its flow, linearized.** -/
theorem outlines_statement (n : Node) {loops : Nat} (h : isStructured n loops) :
    Outlines loops (planned n).code (outline n) := by
  induction n using Node.induction_on_children generalizing loops with
  | step n ih =>
    obtain ⟨id, k, location, span⟩ := n
    have hvalue (m : Node) : (planned m).value.IsValue := isValue_as m (r := .value) rfl
    have hplanned (ms : List Node) : Node.foldAll _ ms = ms.map planned := Node.foldAll_eq_map _ ms
    have houtlined (ms : List Node) : Node.foldAll _ ms = ms.map outlined :=
      Node.foldAll_eq_map _ ms
    have hall {ms : List Node} {l : Nat} (hms : ∀ m ∈ ms, m ∈ k.children)
        (h : (Node.foldAll (fun _ => structuredKind) ms).all (· l)) :
        Outlines l (codeOf (ms.map planned)) (outlineAll (ms.map outline)) := by
      rw [Node.foldAll_eq_map, List.all_map, List.all_eq_true] at h
      exact .all fun m hm => ih m (hms m hm) (h m hm)
    cases k with
    | expressionStmt expr =>
      exact .statement (.lines (isValue_as expr (r := .effect) rfl))
    | echo exprs =>
      refine .statement (.lines ?_)
      show ((True ∧ (valueList (Node.foldAll _ exprs)).IsValue) ∧ True)
      rw [hplanned]
      exact ⟨⟨trivial, isValue_valueList exprs⟩, trivial⟩
    | nop => exact .statement (.lines trivial)
    | inlineHtml text => exact .statement (.lines trivial)
    | block body =>
      show Outlines loops (.statement _ (codeOf (Node.foldAll _ body)))
        (outlineAll ((Node.foldAll _ body).map Prod.snd))
      rw [hplanned, houtlined, map_snd_outlined]
      exact .statement
        (hall (by simp +contextual [Kind.children, Kind.fields, Syntax.Field.children]) h)
    | ifElse condition thenBranch elseBranch =>
      cases elseBranch with
      | none =>
        show Outlines loops
          (.statement _ (.ifThen (planned condition).value (codeOf (Node.foldAll _ thenBranch))))
          (do
            let t ← outlineTest (outlined condition).1
            passLabels 1
            return .choice t (← outlineAll ((Node.foldAll _ thenBranch).map Prod.snd)) (.lines []))
        rw [hplanned, houtlined, map_snd_outlined, fst_outlined]
        have h := (Bool.and_eq_true_iff.mp h).1
        exact .statement (.ifThen (hvalue condition)
          (hall (by simp +contextual [Kind.children, Kind.fields, Syntax.Field.children]) h))
      | some elseBranch =>
        show Outlines loops
          (.statement _ (.ifThenElse (planned condition).value
            (codeOf (Node.foldAll _ thenBranch)) (codeOf (Node.foldAll _ elseBranch))))
          (do
            let t ← outlineTest (outlined condition).1
            passLabels 2
            let f ← outlineAll ((Node.foldAll _ thenBranch).map Prod.snd)
            return .choice t f (← outlineAll ((Node.foldAll _ elseBranch).map Prod.snd)))
        rw [hplanned, hplanned, houtlined, houtlined, map_snd_outlined, map_snd_outlined,
          fst_outlined]
        obtain ⟨hthen, helse⟩ := Bool.and_eq_true_iff.mp h
        exact .statement (.ifThenElse (hvalue condition)
          (hall (by simp +contextual [Kind.children, Kind.fields, Syntax.Field.children]) hthen)
          (hall (by simp +contextual [Kind.children, Kind.fields, Syntax.Field.children]) helse))
    | whileLoop condition body =>
      show Outlines loops
        (.statement _ (.whileLoop (planned condition).value (codeOf (Node.foldAll _ body))))
        (do
          passLabels 2
          let t ← outlineTest (outlined condition).1
          return .whileLoop t (← outlineAll ((Node.foldAll _ body).map Prod.snd)))
      rw [hplanned, houtlined, map_snd_outlined, fst_outlined]
      exact .statement (.whileLoop (hvalue condition)
        (hall (by simp +contextual [Kind.children, Kind.fields, Syntax.Field.children]) h))
    | doWhile body condition =>
      show Outlines loops
        (.statement _ (.doWhile (codeOf (Node.foldAll _ body)) (planned condition).value))
        (do
          passLabels 2
          let f ← outlineAll ((Node.foldAll _ body).map Prod.snd)
          return .doWhile f (← outlineTest (outlined condition).1))
      rw [hplanned, houtlined, map_snd_outlined, fst_outlined]
      exact .statement (.doWhile (hvalue condition)
        (hall (by simp +contextual [Kind.children, Kind.fields, Syntax.Field.children]) h))
    | forLoop init conditions step body =>
      show Outlines loops
        (.statement _ (forPlan (Node.foldAll _ init) (Node.foldAll _ conditions)
          (Node.foldAll _ step) (Node.foldAll _ body)))
        (do
          let before ← outlineLines (expressionsCode ((Node.foldAll _ init).map Prod.fst))
          passLabels 3
          let ts ← outlineTests ((Node.foldAll _ conditions).map Prod.fst)
          let f ← outlineAll ((Node.foldAll _ body).map Prod.snd)
          let after ← outlineLines (expressionsCode ((Node.foldAll _ step).map Prod.fst))
          return .seq (.lines before) (.forLoop ts after f))
      simp only [hplanned, houtlined, map_snd_outlined, map_fst_outlined]
      exact .statement (outlines_forPlan
        (hall (by simp +contextual [Kind.children, Kind.fields, Syntax.Field.children]) h))
    | foreachLoop iterable key value byRef body =>
      show Outlines loops
        (.statement _ (.foreachLoop (planned iterable).value
          (bindingPlan (Node.foldOption _ key) (planned value) byRef)
          (codeOf (Node.foldAll _ body))))
        (do
          let i ← (outlined iterable).1.value.run
          let b ← (bindingPlan ((Node.foldOption _ key).map Prod.fst) (outlined value).1 byRef).run
          passLabels 2
          let f ← outlineAll ((Node.foldAll _ body).map Prod.snd)
          return .seq (.lines (linesOf (i.effects ++ b.effects)))
            (.foreachLoop i.value b.value f))
      have hkey : Node.foldOption _ key = key.map planned := Node.foldOption_eq_map _ key
      have hkey' : Node.foldOption _ key = key.map outlined := Node.foldOption_eq_map _ key
      rw [hplanned, houtlined, map_snd_outlined, fst_outlined, fst_outlined, hkey, hkey',
        option_map_fst_outlined]
      exact .statement (.foreachLoop (hvalue iterable) (isValue_bindingPlan key value byRef)
        (hall (by simp +contextual [Kind.children, Kind.fields, Syntax.Field.children]) h))
    | breakStmt levels =>
      obtain ⟨hpos, hle⟩ := of_decide_eq_true h
      exact .statement (.leave hpos hle)
    | continueStmt levels =>
      obtain ⟨hpos, hle⟩ := of_decide_eq_true h
      exact .statement (.next hpos hle)
    | _ => exact absurd h Bool.false_ne_true

theorem ids_codeOf_subperm (ns : List Node) :
    (codeOf (ns.map planned)).ids <+~ ns.flatMap Node.ids := by
  induction ns with
  | nil => exact .refl _
  | cons n ns ih => exact (ids_as_subperm n .statement).append ih

/-- **Linearization preserves behaviour.** Statements that are lowered from a fresh context have
a flow, and for all answers of the oracle the machine does with their instructions what the flow
does: it shows the same lines and tests, and if it ends, it ends in the same way with the same
answers left. -/
theorem linearization_preserves_behaviour (ns : List Node) (o : Options) (a : Lowered)
    (c : Context) (hstructured : ∀ n ∈ ns, isStructured n 0)
    (hids : (ns.flatMap Node.ids).Nodup)
    (hrun : (codeOf (ns.map planned)).run.Gives { options := o } a c) :
    ∃ flow d, (outlineAll (ns.map outline)).Gives { options := o } flow d ∧ ∀ oracle,
      (∀ seen rest e,
        Machine.Ends a.effects oracle seen rest e ↔ flow.Ends oracle seen rest e) ∧
      ∀ seen, Machine.Shows a.effects oracle seen ↔ flow.Shows oracle seen := by
  have houtlines := Outlines.all fun n hn => outlines_statement n (hstructured n hn)
  have hrun := Plan.runs_of_gives hrun
  have hfresh : Abreast (ns.flatMap Node.ids) { options := o } { options := o } :=
    ⟨hids, fun i _ => by simp, rfl, rfl, rfl, rfl⟩
  have hab : Abreast ((codeOf (ns.map planned)).ids ++ []) { options := o } { options := o } :=
    hfresh.mono (List.append_nil _ ▸ ids_codeOf_subperm ns)
  obtain ⟨flow, d, hflow, hlinear, -⟩ :=
    houtlines.linear hrun ⟨rfl, List.not_mem_nil⟩ hab
  have hlabels := (hrun.sealed houtlines.isRegular).nodup
  exact ⟨flow, d, hflow, fun oracle => hlinear.behaves hlabels oracle⟩

/-- A loop over what a call gives, inside another loop; some elements go on with the outer
loop. -/
def nestedLoops : List Node :=
  let element : Nat → Node := fun id => ⟨id, .var "v", none, none⟩
  let call := ⟨4, .call ⟨5, .identifier "f", none, none⟩ [], none, none⟩
  let test := ⟨7, .ifElse (element 8) [⟨9, .continueStmt (some 2), none, none⟩] none, none, none⟩
  let inner := ⟨3, .foreachLoop call none (element 6) false
    [test, ⟨10, .echo [element 11], none, none⟩], none, none⟩
  [⟨1, .whileLoop ⟨2, .var "a", none, none⟩ [inner], none, none⟩]

/-- The instructions of `nestedLoops`. -/
def nestedLoopsCode : List Instruction :=
  [.label "L0", .ifGoto "$a" "L1", .goto "L0_end",
    .label "L1", .text "t0 = f();", .foreach "t0" "$v" "L2", .goto "L2_end",
    .label "L2", .ifGoto "$v" "L4", .goto "L4_end",
    .label "L4", .goto "L0", .goto "L4_end",
    .label "L4_end", .text "echo $v;",
    .label "L3", .foreach "t0" "$v" "L2",
    .label "L2_end", .ifGoto "$a" "L1", .goto "L0_end",
    .label "L0_end"]

theorem gives_nestedLoops :
    ∃ a c, (codeOf (nestedLoops.map planned)).run.Gives { options := {} } a c ∧
      a.effects = nestedLoopsCode := by
  refine ⟨_, _, Plan.Runs.gives (.both (.statement ?_ ?_ (.whileLoop (.expression ?_ ?_ .text)
    (.both (.statement ?_ ?_ (.foreachLoop
      (.expression ?_ ?_ (.bind (.both (.both (.both (.guarded ?_ .text) .text) .nothing) .text)))
      (.both (.both (.unlessEmpty .nothing) .nothing) (.expression ?_ ?_ .text))
      (.both (.statement ?_ ?_ (.ifThen (.expression ?_ ?_ .text)
        (.both (.statement ?_ ?_ .jump) .nothing))) (.both (.statement ?_ ?_
          (.line (.both (.both .text (.expression ?_ ?_ .text)) .text))) .nothing))
    )) .nothing))) .nothing), rfl⟩
  all_goals first
    | decide
    | simp [Context.met, Context.told, Context.below, Context.framed, Context.labelled,
        Context.above, Context.temped]
  all_goals decide

theorem behaviour_nestedLoops :
    (∀ n ∈ nestedLoops, isStructured n 0) ∧ (nestedLoops.flatMap Node.ids).Nodup ∧
      ∃ flow d, (outlineAll (nestedLoops.map outline)).Gives { options := {} } flow d ∧
        ∀ oracle,
          (∀ seen rest e,
            Machine.Ends nestedLoopsCode oracle seen rest e ↔ flow.Ends oracle seen rest e) ∧
          ∀ seen, Machine.Shows nestedLoopsCode oracle seen ↔ flow.Shows oracle seen := by
  have hstructured : ∀ n ∈ nestedLoops, isStructured n 0 := by decide
  have hids : (nestedLoops.flatMap Node.ids).Nodup := by decide
  obtain ⟨a, c, hrun, hcode⟩ := gives_nestedLoops
  have h := linearization_preserves_behaviour nestedLoops {} a c hstructured hids hrun
  rw [hcode] at h
  exact ⟨hstructured, hids, h⟩

/-- What a loop over a collection evaluates is evaluated once, before the first test: with two
tests of the inner loop, the line of the call is seen before the first of them only. -/
theorem collection_not_evaluated_again :
    (∃ a c, (codeOf (nestedLoops.map planned)).run.Gives { options := {} } a c ∧
      a.effects = nestedLoopsCode) ∧
    Machine.Ends nestedLoopsCode [true, true, false, false, false]
      [.test "$a" true, .line "t0 = f();", .advance "t0" "$v" true, .test "$v" false,
        .line "echo $v;", .advance "t0" "$v" false, .test "$a" false] [] .finished ∧
    ¬ Machine.Ends nestedLoopsCode [true, true, false, false, false]
      [.test "$a" true, .line "t0 = f();", .advance "t0" "$v" true, .test "$v" false,
        .line "echo $v;", .line "t0 = f();", .advance "t0" "$v" false, .test "$a" false] []
      .finished := by
  have hends : Machine.Ends nestedLoopsCode [true, true, false, false, false]
      [.test "$a" true, .line "t0 = f();", .advance "t0" "$v" true, .test "$v" false,
        .line "echo $v;", .advance "t0" "$v" false, .test "$a" false] [] .finished :=
    ⟨20, _, rfl, rfl, rfl⟩
  refine ⟨gives_nestedLoops, hends, fun h => ?_⟩
  exact absurd (h.seen_eq hends) (by decide)

end ThreeAddress.Lowering

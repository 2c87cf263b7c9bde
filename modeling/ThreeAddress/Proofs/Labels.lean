import Std.Data.String.ToNat
import ThreeAddress.Proofs.Values

/-!
# Labels and jumps

Every construct takes fresh labels from one counter and defines each of them at most once,
and a jump goes to a label of its own construct or to one of the loops around it. So code is
**sealed** between two states of the counter (`Sealed`), which passes from parts to whole
constructs, and in a whole listing **labels are unique and jumps are closed**
(`labels_nodup_and_jumps_closed`).
-/

namespace ThreeAddress.Lowering

open Syntax (Node)

/-! ## Names of labels -/

namespace Labels

theorem start_inj {m n : Nat} : (ofNat m).start = (ofNat n).start ↔ m = n := by
  simp [ofNat]

theorem stop_inj {m n : Nat} : (ofNat m).stop = (ofNat n).stop ↔ m = n := by
  simp [ofNat]

/-- The underscore of a stop label is no digit. -/
theorem start_ne_stop (m n : Nat) : (ofNat m).start ≠ (ofNat n).stop := by
  intro h
  have hdigits : Nat.toDigits 10 m = Nat.toDigits 10 n ++ ['_', 'e', 'n', 'd'] := by
    simpa [ofNat] using congrArg String.toList h
  have hmem : '_' ∈ Nat.toDigits 10 m := by
    rw [hdigits]
    simp
  exact absurd (Nat.isDigit_of_mem_toDigits (by decide) (by decide) hmem) (by decide)

end Labels

/-- The label has a number from `lo` up to `hi`. -/
def Numbered (lo hi : Nat) (t : String) : Prop :=
  ∃ n, lo ≤ n ∧ n < hi ∧ (t = (Labels.ofNat n).start ∨ t = (Labels.ofNat n).stop)

namespace Numbered

theorem start {lo hi n : Nat} (hlo : lo ≤ n) (hhi : n < hi) :
    Numbered lo hi (Labels.ofNat n).start :=
  ⟨n, hlo, hhi, .inl rfl⟩

theorem stop {lo hi n : Nat} (hlo : lo ≤ n) (hhi : n < hi) :
    Numbered lo hi (Labels.ofNat n).stop :=
  ⟨n, hlo, hhi, .inr rfl⟩

theorem mono {lo hi lo' hi' : Nat} {t : String} (h : Numbered lo hi t) (hlo : lo' ≤ lo)
    (hhi : hi ≤ hi') : Numbered lo' hi' t := by
  obtain ⟨n, hl, hh, ht⟩ := h
  exact ⟨n, hlo.trans hl, hh.trans_le hhi, ht⟩

theorem ne_start {lo hi n : Nat} {t : String} (h : Numbered lo hi t) (hn : n < lo) :
    t ≠ (Labels.ofNat n).start := by
  obtain ⟨m, hl, -, rfl | rfl⟩ := h
  · rw [ne_eq, Labels.start_inj]
    omega
  · exact (Labels.start_ne_stop n m).symm

theorem ne_stop {lo hi n : Nat} {t : String} (h : Numbered lo hi t) (hn : n < lo) :
    t ≠ (Labels.ofNat n).stop := by
  obtain ⟨m, hl, -, rfl | rfl⟩ := h
  · exact Labels.start_ne_stop m n
  · rw [ne_eq, Labels.stop_inj]
    omega

/-- Labels from different stretches of the counter differ. -/
theorem ne {lo mid hi : Nat} {t t' : String} (h : Numbered lo mid t)
    (h' : Numbered mid hi t') : t ≠ t' := by
  obtain ⟨n, -, hn, rfl | rfl⟩ := h
  · exact (h'.ne_start hn).symm
  · exact (h'.ne_stop hn).symm

end Numbered

/-! ## Sealed code -/

/-- The labels that a frame can be left to. -/
def Frame.targets : Frame → List String
  | .loop breakTo continueTo => [breakTo, continueTo]
  | .switch => []

/-- The labels that code defines. -/
def labelsIn (code : List Instruction) : List String :=
  code.filterMap Instruction.label?

/-- The labels that code may jump to. -/
def targetsIn (code : List Instruction) : List String :=
  code.filterMap Instruction.jumpTarget?

@[simp] theorem labelsIn_nil : labelsIn [] = [] := rfl

@[simp] theorem labelsIn_append (code code' : List Instruction) :
    labelsIn (code ++ code') = labelsIn code ++ labelsIn code' :=
  List.filterMap_append

@[simp] theorem labelsIn_label (t : String) (code : List Instruction) :
    labelsIn (.label t :: code) = t :: labelsIn code := rfl

@[simp] theorem labelsIn_goto (t : String) (code : List Instruction) :
    labelsIn (.goto t :: code) = labelsIn code := rfl

@[simp] theorem labelsIn_ifGoto (v t : String) (code : List Instruction) :
    labelsIn (.ifGoto v t :: code) = labelsIn code := rfl

@[simp] theorem labelsIn_foreach (i v t : String) (code : List Instruction) :
    labelsIn (.foreach i v t :: code) = labelsIn code := rfl

@[simp] theorem targetsIn_nil : targetsIn [] = [] := rfl

@[simp] theorem targetsIn_append (code code' : List Instruction) :
    targetsIn (code ++ code') = targetsIn code ++ targetsIn code' :=
  List.filterMap_append

@[simp] theorem targetsIn_label (t : String) (code : List Instruction) :
    targetsIn (.label t :: code) = targetsIn code := rfl

@[simp] theorem targetsIn_goto (t : String) (code : List Instruction) :
    targetsIn (.goto t :: code) = t :: targetsIn code := rfl

@[simp] theorem targetsIn_ifGoto (v t : String) (code : List Instruction) :
    targetsIn (.ifGoto v t :: code) = t :: targetsIn code := rfl

@[simp] theorem targetsIn_foreach (i v t : String) (code : List Instruction) :
    targetsIn (.foreach i v t :: code) = t :: targetsIn code := rfl

/-- The labels of the code are unique and taken from a stretch of the counter, and its jumps
go to them or out of the frames around it. -/
structure Sealed (lo hi : Nat) (fs : List Frame) (code : List Instruction) : Prop where
  nodup : (labelsIn code).Nodup
  numbered : ∀ t ∈ labelsIn code, Numbered lo hi t
  closed : ∀ t ∈ targetsIn code, t ∈ labelsIn code ∨ t ∈ fs.flatMap Frame.targets

theorem Straight.labelsIn {code : List Instruction} (h : Straight code) :
    labelsIn code = [] := by
  refine List.filterMap_eq_nil_iff.mpr fun i hi => ?_
  obtain ⟨s, rfl⟩ := h i hi
  rfl

theorem Straight.targetsIn {code : List Instruction} (h : Straight code) :
    targetsIn code = [] := by
  refine List.filterMap_eq_nil_iff.mpr fun i hi => ?_
  obtain ⟨s, rfl⟩ := h i hi
  rfl

namespace Sealed

variable {lo mid hi n : Nat} {fs : List Frame} {code code' : List Instruction}

theorem straight (h : Straight code) : Sealed lo hi fs code where
  nodup := by rw [h.labelsIn]; exact List.nodup_nil
  numbered := by rw [h.labelsIn]; exact List.forall_mem_nil _
  closed := by rw [h.targetsIn]; exact List.forall_mem_nil _

theorem mono {lo' hi' : Nat} (h : Sealed lo hi fs code) (hlo : lo' ≤ lo) (hhi : hi ≤ hi') :
    Sealed lo' hi' fs code :=
  ⟨h.nodup, fun t ht => (h.numbered t ht).mono hlo hhi, h.closed⟩

theorem append (h : Sealed lo mid fs code) (h' : Sealed mid hi fs code') (hlo : lo ≤ mid)
    (hhi : mid ≤ hi) : Sealed lo hi fs (code ++ code') where
  nodup := by
    rw [labelsIn_append]
    exact List.nodup_append.mpr ⟨h.nodup, h'.nodup, fun t ht t' ht' =>
      (h.numbered t ht).ne (h'.numbered t' ht')⟩
  numbered := by
    rw [labelsIn_append]
    exact List.forall_mem_append.mpr ⟨fun t ht => (h.numbered t ht).mono le_rfl hhi,
      fun t ht => (h'.numbered t ht).mono hlo le_rfl⟩
  closed := by
    rw [targetsIn_append, labelsIn_append]
    refine List.forall_mem_append.mpr ⟨fun t ht => ?_, fun t ht => ?_⟩
    · exact (h.closed t ht).imp_left (List.mem_append_left _)
    · exact (h'.closed t ht).imp_left (List.mem_append_right _)

/-- A construct adds its own labels to those of the code inside it. -/
theorem around {fs' : List Frame} {inner : List Instruction} (h : Sealed mid hi fs' inner)
    (own : List String) (hlo : lo ≤ mid) (hhi : mid ≤ hi)
    (hperm : (labelsIn code).Perm (own ++ labelsIn inner)) (hown : own.Nodup)
    (hnumbered : ∀ t ∈ own, Numbered lo mid t)
    (htargets : ∀ t ∈ targetsIn code, t ∈ own ∨ t ∈ targetsIn inner ∨
      t ∈ fs.flatMap Frame.targets)
    (hframes : ∀ t ∈ fs'.flatMap Frame.targets, t ∈ own ∨ t ∈ fs.flatMap Frame.targets) :
    Sealed lo hi fs code where
  nodup := hperm.nodup_iff.mpr (List.nodup_append.mpr ⟨hown, h.nodup, fun t ht t' ht' =>
    (hnumbered t ht).ne (h.numbered t' ht')⟩)
  numbered t ht := by
    obtain ht | ht := List.mem_append.mp (hperm.mem_iff.mp ht)
    · exact (hnumbered t ht).mono le_rfl hhi
    · exact (h.numbered t ht).mono hlo le_rfl
  closed t ht := by
    rw [hperm.mem_iff, List.mem_append]
    obtain ht | ht | ht := htargets t ht
    · exact .inl (.inl ht)
    · obtain ht | ht := h.closed t ht
      · exact .inl (.inr ht)
      · exact (hframes t ht).imp_left .inl
    · exact .inr ht

end Sealed

/-! ## Constructs -/

namespace Shape

variable {n mid hi : Nat} {fs : List Frame} {a : Lowered} {code code' : List Instruction}

/-- The labels of a conditional. -/
def pair (n : Nat) : List String :=
  [(Labels.ofNat n).start, (Labels.ofNat n).stop]

/-- The labels of a construct with two entries. -/
def triple (n : Nat) : List String :=
  [(Labels.ofNat n).start, (Labels.ofNat (n + 1)).start, (Labels.ofNat n).stop]

/-- The labels of a loop with a head. -/
def quadruple (n : Nat) : List String :=
  [(Labels.ofNat n).start, (Labels.ofNat (n + 1)).start, (Labels.ofNat (n + 2)).start,
   (Labels.ofNat n).stop]

theorem pair_nodup (n : Nat) : (pair n).Nodup := by
  simp [pair, Labels.start_ne_stop]

theorem triple_nodup (n : Nat) : (triple n).Nodup := by
  simp [triple, Labels.start_ne_stop, Labels.start_inj]

theorem quadruple_nodup (n : Nat) : (quadruple n).Nodup := by
  simp [quadruple, Labels.start_ne_stop, Labels.start_inj]

theorem pair_numbered (n : Nat) : ∀ t ∈ pair n, Numbered n (n + 1) t := by
  simp [pair, Numbered.start, Numbered.stop]

theorem triple_numbered (n : Nat) : ∀ t ∈ triple n, Numbered n (n + 2) t := by
  simp [triple, Numbered.start, Numbered.stop]

theorem quadruple_numbered (n : Nat) : ∀ t ∈ quadruple n, Numbered n (n + 3) t := by
  simp [quadruple, Numbered.start, Numbered.stop]

theorem labels_ifThen (ha : Straight a.effects) (n : Nat) (code : List Instruction) :
    (labelsIn (ifThen a (.ofNat n) code)).Perm (pair n ++ labelsIn code) := by
  have hlabels : labelsIn (ifThen a (.ofNat n) code)
      = (Labels.ofNat n).start :: (labelsIn code ++ [(Labels.ofNat n).stop]) := by
    simp [ifThen, test, ha.labelsIn]
  rw [hlabels]
  exact (List.perm_append_singleton _ _).cons _

theorem labels_ifThenElse (ha : Straight a.effects) (n : Nat) (code code' : List Instruction) :
    (labelsIn (ifThenElse a (.ofNat n) (Labels.ofNat (n + 1)).start code code')).Perm
      (triple n ++ labelsIn (code ++ code')) := by
  have hlabels : labelsIn (ifThenElse a (.ofNat n) (Labels.ofNat (n + 1)).start code code')
      = (Labels.ofNat n).start :: (labelsIn code ++ (Labels.ofNat (n + 1)).start
        :: (labelsIn code' ++ [(Labels.ofNat n).stop])) := by
    simp [ifThenElse, test, ha.labelsIn]
  rw [hlabels, labelsIn_append]
  exact List.perm_iff_count.mpr fun t => by grind [triple]

theorem labels_whileLoop (ha : Straight a.effects) (n : Nat) (code : List Instruction) :
    (labelsIn (whileLoop a (.ofNat n) (Labels.ofNat (n + 1)).start code)).Perm
      (triple n ++ labelsIn code) := by
  have hlabels : labelsIn (whileLoop a (.ofNat n) (Labels.ofNat (n + 1)).start code)
      = (Labels.ofNat n).start :: (Labels.ofNat (n + 1)).start
        :: (labelsIn code ++ [(Labels.ofNat n).stop]) := by
    simp [whileLoop, test, ha.labelsIn]
  rw [hlabels]
  exact ((List.perm_append_singleton _ _).cons _).cons _

theorem labels_doWhile (ha : Straight a.effects) (n : Nat) (code : List Instruction) :
    (labelsIn (doWhile a (.ofNat n) (Labels.ofNat (n + 1)).start code)).Perm
      (triple n ++ labelsIn code) := by
  have hlabels : labelsIn (doWhile a (.ofNat n) (Labels.ofNat (n + 1)).start code)
      = (Labels.ofNat n).start :: (labelsIn code
        ++ [(Labels.ofNat (n + 1)).start, (Labels.ofNat n).stop]) := by
    simp [doWhile, ha.labelsIn]
  rw [hlabels]
  exact List.perm_append_comm.cons _

theorem labels_foreachLoop {b : Lowered} (ha : Straight a.effects) (hb : Straight b.effects)
    (n : Nat) (code : List Instruction) :
    (labelsIn (foreachLoop a b (.ofNat n) (Labels.ofNat (n + 1)).start code)).Perm
      (triple n ++ labelsIn code) := by
  have hlabels : labelsIn (foreachLoop a b (.ofNat n) (Labels.ofNat (n + 1)).start code)
      = (Labels.ofNat n).start :: (labelsIn code
        ++ [(Labels.ofNat (n + 1)).start, (Labels.ofNat n).stop]) := by
    simp [foreachLoop, ha.labelsIn, hb.labelsIn]
  rw [hlabels]
  exact List.perm_append_comm.cons _

theorem labels_forLoop {init barriers last step : List Instruction} (hinit : Straight init)
    (hstep : Straight step) (hlast : labelsIn last = []) (n : Nat) (code : List Instruction) :
    (labelsIn (forLoop init (barriers ++ last) step (.ofNat n) (Labels.ofNat (n + 1)).start
      (Labels.ofNat (n + 2)).start code)).Perm (quadruple n ++ labelsIn (barriers ++ code)) := by
  have hlabels : labelsIn (forLoop init (barriers ++ last) step (.ofNat n)
      (Labels.ofNat (n + 1)).start (Labels.ofNat (n + 2)).start code)
      = (Labels.ofNat n).start :: (labelsIn barriers ++ (Labels.ofNat (n + 1)).start
        :: (labelsIn code ++ [(Labels.ofNat (n + 2)).start, (Labels.ofNat n).stop])) := by
    simp [forLoop, hinit.labelsIn, hstep.labelsIn, hlast]
  rw [hlabels, labelsIn_append]
  exact List.perm_iff_count.mpr fun t => by grind [quadruple]

theorem sealed_ifThen (ha : Straight a.effects) (hhi : n + 1 ≤ hi)
    (h : Sealed (n + 1) hi fs code) : Sealed n hi fs (ifThen a (.ofNat n) code) := by
  have htargets : targetsIn (ifThen a (.ofNat n) code)
      = pair n ++ (targetsIn code ++ [(Labels.ofNat n).stop]) := by
    simp [ifThen, test, ha.targetsIn, pair]
  refine h.around (pair n) n.le_succ hhi (labels_ifThen ha n code) (pair_nodup n)
    (pair_numbered n) ?_ fun t ht => .inr ht
  rw [htargets]
  grind [pair]

theorem sealed_ifThenElse (ha : Straight a.effects) (hmid : n + 2 ≤ mid) (hhi : mid ≤ hi)
    (h : Sealed (n + 2) mid fs code) (h' : Sealed mid hi fs code') :
    Sealed n hi fs (ifThenElse a (.ofNat n) (Labels.ofNat (n + 1)).start code code') := by
  have htargets : targetsIn (ifThenElse a (.ofNat n) (Labels.ofNat (n + 1)).start code code')
      = (Labels.ofNat n).start :: (Labels.ofNat (n + 1)).start :: (targetsIn code
        ++ (Labels.ofNat n).stop :: (targetsIn code' ++ [(Labels.ofNat n).stop])) := by
    simp [ifThenElse, test, ha.targetsIn]
  refine (h.append h' hmid hhi).around (triple n) (by omega) (hmid.trans hhi)
    (labels_ifThenElse ha n code code') (triple_nodup n) (triple_numbered n) ?_ fun t ht => .inr ht
  rw [htargets, targetsIn_append]
  grind [triple]

theorem sealed_whileLoop (ha : Straight a.effects) (hhi : n + 2 ≤ hi)
    (h : Sealed (n + 2) hi (.loop (Labels.ofNat n).stop (Labels.ofNat n).start :: fs) code) :
    Sealed n hi fs (whileLoop a (.ofNat n) (Labels.ofNat (n + 1)).start code) := by
  have htargets : targetsIn (whileLoop a (.ofNat n) (Labels.ofNat (n + 1)).start code)
      = (Labels.ofNat (n + 1)).start :: (Labels.ofNat n).stop :: (targetsIn code
        ++ [(Labels.ofNat (n + 1)).start, (Labels.ofNat n).stop]) := by
    simp [whileLoop, test, ha.targetsIn]
  refine h.around (triple n) (by omega) hhi (labels_whileLoop ha n code) (triple_nodup n)
    (triple_numbered n) ?_ ?_
  · rw [htargets]
    grind [triple]
  · grind [Frame.targets, triple]

theorem sealed_doWhile (ha : Straight a.effects) (hhi : n + 2 ≤ hi)
    (h : Sealed (n + 2) hi
      (.loop (Labels.ofNat n).stop (Labels.ofNat (n + 1)).start :: fs) code) :
    Sealed n hi fs (doWhile a (.ofNat n) (Labels.ofNat (n + 1)).start code) := by
  have htargets : targetsIn (doWhile a (.ofNat n) (Labels.ofNat (n + 1)).start code)
      = targetsIn code ++ [(Labels.ofNat n).start] := by
    simp [doWhile, ha.targetsIn]
  refine h.around (triple n) (by omega) hhi (labels_doWhile ha n code) (triple_nodup n)
    (triple_numbered n) ?_ ?_
  · rw [htargets]
    grind [triple]
  · grind [Frame.targets, triple]

theorem sealed_foreachLoop {b : Lowered} (ha : Straight a.effects) (hb : Straight b.effects)
    (hhi : n + 2 ≤ hi)
    (h : Sealed (n + 2) hi
      (.loop (Labels.ofNat n).stop (Labels.ofNat (n + 1)).start :: fs) code) :
    Sealed n hi fs (foreachLoop a b (.ofNat n) (Labels.ofNat (n + 1)).start code) := by
  have htargets : targetsIn (foreachLoop a b (.ofNat n) (Labels.ofNat (n + 1)).start code)
      = (Labels.ofNat n).start :: (Labels.ofNat n).stop
        :: (targetsIn code ++ [(Labels.ofNat n).start]) := by
    simp [foreachLoop, ha.targetsIn, hb.targetsIn]
  refine h.around (triple n) (by omega) hhi (labels_foreachLoop ha hb n code) (triple_nodup n)
    (triple_numbered n) ?_ ?_
  · rw [htargets]
    grind [triple]
  · grind [Frame.targets, triple]

/-- The tests of a loop with a head are its barriers and the last test, if it has one. -/
theorem sealed_forLoop {init barriers last step : List Instruction} (hinit : Straight init)
    (hstep : Straight step) (hmid : n + 3 ≤ mid) (hhi : mid ≤ hi)
    (hlast : labelsIn last = []) (hexit : ∀ t ∈ targetsIn last, t ∈ quadruple n)
    (hbarriers : Sealed (n + 3) mid
      (.loop (Labels.ofNat n).stop (Labels.ofNat (n + 2)).start :: fs) barriers)
    (h : Sealed mid hi
      (.loop (Labels.ofNat n).stop (Labels.ofNat (n + 2)).start :: fs) code) :
    Sealed n hi fs (forLoop init (barriers ++ last) step (.ofNat n)
      (Labels.ofNat (n + 1)).start (Labels.ofNat (n + 2)).start code) := by
  have htargets : targetsIn (forLoop init (barriers ++ last) step (.ofNat n)
      (Labels.ofNat (n + 1)).start (Labels.ofNat (n + 2)).start code)
      = targetsIn barriers ++ (targetsIn last ++ (targetsIn code
        ++ [(Labels.ofNat n).start])) := by
    simp [forLoop, hinit.targetsIn, hstep.targetsIn]
  refine (hbarriers.append h hmid hhi).around (quadruple n) (by omega) (hmid.trans hhi)
    (labels_forLoop hinit hstep hlast n code) (quadruple_nodup n) (quadruple_numbered n) ?_ ?_
  · rw [htargets, targetsIn_append]
    grind [quadruple]
  · grind [Frame.targets, quadruple]

end Shape

theorem labelsIn_jump (c : Context) (j : Jump) (levels : Option Nat) :
    labelsIn [c.jump j levels] = [] := by
  unfold Context.jump
  split
  · rfl
  · rfl
  · split <;> rfl

theorem barrier_eq (a : Lowered) (pass : String) (exit : Instruction) :
    Shape.barrier a pass exit
      = a.effects ++ [.ifGoto a.value pass] ++ ([exit] ++ [.label pass]) := by
  simp [Shape.barrier]

theorem labelsIn_barrier {c : Context} {a : Lowered} (ha : Straight a.effects) (pass : String) :
    labelsIn (Shape.barrier a pass (c.jump .leave none)) = [pass] := by
  rw [barrier_eq, labelsIn_append, labelsIn_append, labelsIn_append, ha.labelsIn, labelsIn_jump]
  rfl

theorem sealed_jump (lo hi : Nat) (c : Context) (j : Jump) (levels : Option Nat) :
    Sealed lo hi c.frames [c.jump j levels] := by
  have hmem (f : Frame) (hf : c.frame? (levels.getD 1) = some f) {t : String}
      (ht : t ∈ f.targets) : t ∈ c.frames.flatMap Frame.targets :=
    List.mem_flatMap.mpr ⟨f, List.mem_of_getElem? hf, ht⟩
  unfold Context.jump
  split
  · next breakTo continueTo hf =>
    refine ⟨List.nodup_nil, List.forall_mem_nil _, List.forall_mem_singleton.mpr (.inr ?_)⟩
    refine hmem _ hf ?_
    cases j <;> simp [Frame.targets]
  · exact .straight (.text _)
  · split <;> exact .straight (.text _)

theorem sealed_barrier {c : Context} {a : Lowered} (ha : Straight a.effects) :
    Sealed c.labels (c.labels + 1) c.frames
      (Shape.barrier a (Labels.ofNat c.labels).stop (c.jump .leave none)) := by
  have hjump := sealed_jump (c.labels + 1) (c.labels + 1) c .leave none
  have htargets : targetsIn (Shape.barrier a (Labels.ofNat c.labels).stop (c.jump .leave none))
      = (Labels.ofNat c.labels).stop :: (targetsIn [c.jump .leave none] ++ []) := by
    rw [barrier_eq, targetsIn_append, targetsIn_append, targetsIn_append, ha.targetsIn]
    rfl
  refine hjump.around [(Labels.ofNat c.labels).stop] (Nat.le_succ _) le_rfl ?_
    (List.nodup_singleton _) ?_ ?_ fun t ht => .inr ht
  · rw [labelsIn_barrier ha, labelsIn_jump]
    exact .refl _
  · exact List.forall_mem_singleton.mpr (.stop le_rfl (Nat.lt_succ_self _))
  · rw [htargets]
    grind

/-! ## Plans of code -/

/-- The plan jumps only as its control structures do. -/
def Plan.IsRegular : Plan → Prop
  | .both p q => p.IsRegular ∧ q.IsRegular
  | .statement _ p | .inSwitch p | .apart p | .declared _ p => p.IsRegular
  | .jump _ _ | .closeCase => True
  | .barrier p => p.IsValue
  | .ifThen p q | .whileLoop p q => p.IsValue ∧ q.IsRegular
  | .ifThenElse p q r => p.IsValue ∧ q.IsRegular ∧ r.IsRegular
  | .doWhile p q => p.IsRegular ∧ q.IsValue
  | .forLoop i g c s b =>
    i.IsValue ∧ g.IsRegular ∧ c.IsValue ∧ s.IsValue ∧ b.IsRegular
  | .endless i s b => i.IsValue ∧ s.IsValue ∧ b.IsRegular
  | .foreachLoop i v b => i.IsValue ∧ v.IsValue ∧ b.IsRegular
  | p => p.IsValue

theorem Plan.IsValue.isRegular {p : Plan} (h : p.IsValue) : p.IsRegular := by
  induction p with
  | both p q hp hq => exact ⟨hp h.1, hq h.2⟩
  | statement | inSwitch | apart | declared | jump | closeCase | barrier | ifThen | whileLoop
  | ifThenElse | doWhile | forLoop | endless | foreachLoop => exact h.elim
  | _ => exact h

/-- The plan fits its use. -/
def Plan.Fits : Use → Plan → Prop
  | .value, p => p.IsValue
  | .code, p => p.IsRegular

theorem Made.fits {u : Use} {p : Plan} {ps : List Part} (h : Made u p ps)
    (hps : ∀ x ∈ ps, x.2.Fits x.1) : p.Fits u := by
  induction h with
  | part => exact hps _ List.mem_cons_self
  | asCode _ hp => exact (hp hps).isRegular
  | nothing => rename_i u; cases u <;> trivial
  | text | jump | closeCase => trivial
  | @append u p q _ _ _ _ hp hq =>
    obtain ⟨h₁, h₂⟩ := List.forall_mem_append.mp hps
    cases u <;> exact ⟨hp h₁, hq h₂⟩
  | unlessEmpty _ hp | compact _ hp | bind _ hp | effects _ hp | line _ _ hp | valueLine _ hp
  | barrier _ hp | inSwitch _ hp | apart _ hp | declared _ hp => exact hp hps
  | closed _ _ hp _ => exact hp (List.forall_mem_append.mp hps).1
  | braced _ _ _ hp hq =>
    obtain ⟨h₁, h₂⟩ := List.forall_mem_append.mp hps
    exact ⟨⟨⟨hp h₁, trivial⟩, hq h₂⟩, trivial⟩
  | instantiation =>
    obtain ⟨hn, hargs⟩ := List.forall_mem_cons.mp hps
    exact isValue_instantiation hn fun m hm => hargs _ (List.mem_map_of_mem hm)
  | shownBefore _ _ hp hq | ifThen _ _ hp hq | whileLoop _ _ hp hq | doWhile _ _ hp hq =>
    obtain ⟨h₁, h₂⟩ := List.forall_mem_append.mp hps
    exact ⟨hp h₁, hq h₂⟩
  | ifThenElse _ _ _ hp hq hr | endless _ _ _ hp hq hr | foreachLoop _ _ _ hp hq hr =>
    obtain ⟨h₁, h₃⟩ := List.forall_mem_append.mp hps
    obtain ⟨h₁, h₂⟩ := List.forall_mem_append.mp h₁
    exact ⟨hp h₁, hq h₂, hr h₃⟩
  | forLoop _ _ _ _ _ hi hg hc hs hb =>
    obtain ⟨h₁, h₅⟩ := List.forall_mem_append.mp hps
    obtain ⟨h₁, h₄⟩ := List.forall_mem_append.mp h₁
    obtain ⟨h₁, h₃⟩ := List.forall_mem_append.mp h₁
    obtain ⟨h₁, h₂⟩ := List.forall_mem_append.mp h₁
    exact ⟨hi h₁, hg h₂, hc h₃, hs h₄, hb h₅⟩

theorem inherited_fits : Inherited (fun _ => True) fun u p => p.Fits u where
  made h hps := h.fits hps
  mark {u _} _ := by cases u <;> trivial
  fail {u _} := by cases u <;> trivial
  guarded _ hp := hp
  expression _ hp := hp
  statement _ hp := hp

/-- Without labels and jumps of its own, a node is lowered by the control structures only. -/
theorem isRegular_code (n : Node) (hgoto : ∀ m ∈ n.subtree, ¬ m.kind.isGoto) :
    (planned n).code.IsRegular :=
  inherited_fits.as n (fun _ _ => trivial) (fun m hm h => absurd h (hgoto m hm)) .statement

/-! ## Runs -/

/-- **A run seals what it writes.** -/
theorem Plan.Runs.sealed {p : Plan} {c c' : Context} {a : Lowered} (h : Runs p c a c')
    (hp : p.IsRegular) : Sealed c.labels c'.labels c.frames a.effects := by
  induction h with
  | both h₁ h₂ ih₁ ih₂ =>
    exact (ih₁ hp.1).append (h₁.frames_eq ▸ ih₂ hp.2) h₁.labels_le h₂.labels_le
  | statement _ _ _ ih | declared _ ih => exact ih hp
  | inSwitch _ ih =>
    obtain ⟨hnodup, hnumbered, hclosed⟩ := ih hp
    exact ⟨hnodup, hnumbered, hclosed⟩
  | apart _ ih =>
    obtain ⟨hnodup, hnumbered, hclosed⟩ := ih hp
    exact ⟨hnodup, hnumbered, fun t ht => (hclosed t ht).imp_right fun h => nomatch h⟩
  | nothing | text | mark | guardedAgain | expressionAgain | statementAgain => exact .straight .nil
  | jump => exact sealed_jump _ _ _ _ _
  | closeCase =>
    refine .straight ?_
    split
    · exact .nil
    · exact .text _
  | ifThen h₁ h₂ _ ih₂ =>
    have hthen := h₁.frames_eq ▸ ih₂ hp.2
    exact (Shape.sealed_ifThen (h₁.straight hp.1) h₂.labels_le hthen).mono h₁.labels_le le_rfl
  | ifThenElse h₁ h₂ h₃ _ ih₂ ih₃ =>
    have hthen := h₁.frames_eq ▸ ih₂ hp.2.1
    have helse := h₁.frames_eq ▸ h₂.frames_eq ▸ ih₃ hp.2.2
    exact (Shape.sealed_ifThenElse (h₁.straight hp.1) h₂.labels_le h₃.labels_le hthen
      helse).mono h₁.labels_le le_rfl
  | whileLoop h₁ h₂ _ ih₂ =>
    have hbody := (ih₂ hp.2).mono h₁.labels_le le_rfl
    exact Shape.sealed_whileLoop (h₁.straight hp.1) (h₁.labels_le.trans h₂.labels_le)
      (h₁.frames_eq ▸ hbody)
  | doWhile h₁ h₂ ih₁ _ =>
    have hbody := (ih₁ hp.1).mono le_rfl h₂.labels_le
    exact Shape.sealed_doWhile (h₂.straight hp.2) (h₁.labels_le.trans h₂.labels_le) hbody
  | @barrier condition c c₁ a h₁ _ =>
    have hexit := sealed_barrier (c := c₁) (h₁.straight hp)
    exact h₁.frames_eq ▸ hexit.mono h₁.labels_le le_rfl
  | forLoop h₁ h₂ h₃ h₄ h₅ _ ih₂ _ ih₄ _ =>
    obtain ⟨hi, hg, hc, hs, hb⟩ := hp
    have hbody := (ih₄ hb).mono h₃.labels_le h₅.labels_le
    have hhi := h₃.labels_le.trans (h₄.labels_le.trans h₅.labels_le)
    rw [show (Context.framed _ (_ :: _)).frames = _ from rfl, h₃.frames_eq] at hbody
    exact h₁.frames_eq ▸ (Shape.sealed_forLoop (h₁.straight hi) (h₅.straight hs) h₂.labels_le
      hhi (by simp [Shape.test, (h₃.straight hc).labelsIn])
      (by simp [Shape.test, (h₃.straight hc).targetsIn, Shape.quadruple])
      (ih₂ hg) hbody).mono h₁.labels_le le_rfl
  | endless h₁ h₂ h₃ _ ih₂ _ =>
    obtain ⟨hi, hs, hb⟩ := hp
    have hbody := (ih₂ hb).mono le_rfl h₃.labels_le
    exact h₁.frames_eq ▸ (Shape.sealed_forLoop (h₁.straight hi) (h₃.straight hs) le_rfl
      (h₂.labels_le.trans h₃.labels_le) labelsIn_nil (List.forall_mem_nil _)
      (.straight .nil) hbody).mono h₁.labels_le le_rfl
  | foreachLoop h₁ h₂ h₃ _ _ ih₃ =>
    obtain ⟨hi, hv, hb⟩ := hp
    have hframes := h₂.frames_eq.trans h₁.frames_eq
    exact (Shape.sealed_foreachLoop (h₁.straight hi) (h₂.straight hv) h₃.labels_le
      (hframes ▸ ih₃ hb)).mono (h₁.labels_le.trans h₂.labels_le) le_rfl
  | guarded hid h ih => exact .straight (Runs.straight (.guarded hid h) hp)
  | expression hid hd h ih => exact .straight (Runs.straight (.expression hid hd h) hp)
  | unlessEmpty h ih => exact .straight (Runs.straight (.unlessEmpty h) hp)
  | compact h ih => exact .straight (Runs.straight (.compact h) hp)
  | shownBefore h₁ h₂ => exact .straight (Runs.straight (.shownBefore h₁ h₂) hp)
  | bind h ih => exact .straight (Runs.straight (.bind h) hp)
  | closed => exact .straight .nil
  | effects h ih => exact .straight (Runs.straight (.effects h) hp)
  | line h ih => exact .straight (Runs.straight (.line h) hp)
  | valueLine h ih => exact .straight (Runs.straight (.valueLine h) hp)
  | emit => exact hp.elim

/-- **Labels are unique and jumps are closed.** Whatever the numbers of its nodes are, a tree
without labels and jumps of its own is lowered to a listing in which no label is defined twice
and every jump has its target. -/
theorem labels_nodup_and_jumps_closed (n : Node) (o : Options) (l : Listing)
    (hgoto : ∀ m ∈ n.subtree, ¬ m.kind.isGoto) (h : listing n o = .ok l) :
    l.labels.Nodup ∧ ∀ t ∈ l.jumpTargets, t ∈ l.labels := by
  obtain ⟨a, c, hrun, rfl⟩ := listing_eq_ok_iff.mp h
  obtain ⟨hnodup, -, hclosed⟩ := hrun.sealed (isRegular_code n hgoto)
  exact ⟨hnodup, fun t ht => (hclosed t ht).resolve_right fun h => nomatch h⟩

/-- A loop that is left from inside a conditional; the condition of both is one node, which is
lowered only the first time. -/
def leavingLoop : Node :=
  let condition := ⟨2, .var "a", none, none⟩
  let leave := ⟨4, .breakStmt none, none, none⟩
  let test := ⟨3, .ifElse condition [leave] none, none, none⟩
  ⟨0, .script [⟨1, .whileLoop condition [test], none, none⟩], none, none⟩

/-- The listing of `leavingLoop`. -/
def leavingLoopListing : Listing :=
  ⟨[.label "L0", .ifGoto "$a" "L1", .goto "L0_end",
    .label "L1", .ifGoto "" "L2", .goto "L2_end",
    .label "L2", .goto "L0_end", .goto "L2_end",
    .label "L2_end", .ifGoto "$a" "L1", .goto "L0_end",
    .label "L0_end"]⟩

theorem listing_leavingLoop : listing leavingLoop {} = .ok leavingLoopListing := by
  refine listing_eq_ok_iff.mpr ⟨_, _, .statement ?_ ?_ (.both (.statement ?_ ?_
    (.whileLoop (.expression ?_ ?_ .text) (.both (.statement ?_ ?_ (.ifThen
      (.expressionAgain ?_) (.both (.statement ?_ ?_ .jump) .nothing))) .nothing)))
    .nothing), rfl⟩
  all_goals first
    | decide
    | simp [Context.met, Context.told, Context.below, Context.framed, Context.labelled,
        Context.above]
  all_goals decide

theorem labels_leavingLoop :
    (∀ m ∈ leavingLoop.subtree, ¬ m.kind.isGoto) ∧
      listing leavingLoop {} = .ok leavingLoopListing ∧
      ["L0", "L1", "L2", "L2_end", "L0_end"].Nodup ∧
      ∀ t ∈ ["L1", "L0_end", "L2", "L2_end", "L0_end", "L2_end", "L1", "L0_end"],
        t ∈ ["L0", "L1", "L2", "L2_end", "L0_end"] :=
  have hgoto : ∀ m ∈ leavingLoop.subtree, ¬ m.kind.isGoto := by decide
  ⟨hgoto, listing_leavingLoop,
    labels_nodup_and_jumps_closed leavingLoop {} leavingLoopListing hgoto listing_leavingLoop⟩

end ThreeAddress.Lowering

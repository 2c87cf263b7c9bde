import ThreeAddress.Proofs.Labels

/-!
# The goto machine

Runs instructions one after the other. A label does nothing, a jump goes on behind the
definition of its label, and a test asks an **oracle**, a list of answers that may run out.
What can be seen of a run are its lines and its tests, and **what is seen of a shorter run is
seen of a longer one first** (`run_seen_mono`).
-/

namespace ThreeAddress

/-- Something that can be seen of a run. -/
inductive Observation where
  | line (s : String)
  | test (condition : String) (answer : Bool)
  /-- Another element of a collection is asked for. -/
  | advance (iterable binding : String) (answer : Bool)
deriving DecidableEq, Repr

/-- Why a run goes no further. -/
inductive Ending where
  /-- The end of the program is reached. -/
  | finished
  /-- A test has no answer any more. -/
  | starved
  /-- A jump has no target. -/
  | lost
deriving DecidableEq, Repr

namespace Machine

/-- A state of the machine. -/
structure State where
  /-- The instructions from here to the end of the program. -/
  rest : List Instruction
  /-- The answers that are left. -/
  oracle : List Bool
  /-- What was seen so far. -/
  seen : List Observation
deriving DecidableEq, Repr

/-- What follows the definition of a label. -/
def after (t : String) : List Instruction → Option (List Instruction)
  | [] => none
  | i :: code => if i = .label t then some code else after t code

/-- Goes on behind the definition of a label. -/
def jump (program : List Instruction) (t : String) (s : State) : Except Ending State :=
  match after t program with
  | some code => .ok { s with rest := code }
  | none => .error .lost

/-- Asks the oracle, shows the answer, and jumps if it is yes. -/
def ask (program : List Instruction) (shown : Bool → Observation) (t : String)
    (code : List Instruction) (s : State) : Except Ending State :=
  match s.oracle with
  | [] => .error .starved
  | b :: oracle =>
    let s' := ⟨code, oracle, s.seen ++ [shown b]⟩
    if b then jump program t s' else .ok s'

/-- One step. -/
def step (program : List Instruction) (s : State) : Except Ending State :=
  match s.rest with
  | [] => .error .finished
  | .label _ :: code => .ok { s with rest := code }
  | .text line :: code => .ok { s with rest := code, seen := s.seen ++ [.line line] }
  | .goto t :: _ => jump program t s
  | .ifGoto condition t :: code => ask program (.test condition) t code s
  | .foreach iterable binding t :: code => ask program (.advance iterable binding) t code s

/-- So many steps, or as many as there are: the last state, and how the run ended if it did. -/
def run (program : List Instruction) : Nat → State → State × Option Ending
  | 0, s => (s, none)
  | k + 1, s =>
    match step program s with
    | .ok s' => run program k s'
    | .error e => (s, some e)

/-- The state before the first instruction. -/
def start (program : List Instruction) (oracle : List Bool) : State :=
  ⟨program, oracle, []⟩

/-- The run of the program ends, after all of `seen` and with the answers `rest` left. -/
def Ends (program : List Instruction) (oracle : List Bool) (seen : List Observation)
    (rest : List Bool) (e : Ending) : Prop :=
  ∃ k s, run program k (start program oracle) = (s, some e) ∧ s.seen = seen ∧ s.oracle = rest

/-- The run of the program starts with `seen`. -/
def Shows (program : List Instruction) (oracle : List Bool) (seen : List Observation) : Prop :=
  ∃ k, seen <+: (run program k (start program oracle)).1.seen

/-! ## Sequences of steps -/

/-- The second state is reached from the first one in so many steps. -/
inductive Steps (program : List Instruction) : Nat → State → State → Prop
  | refl {s : State} : Steps program 0 s s
  | head {k : Nat} {s s₁ s' : State} :
      step program s = .ok s₁ → Steps program k s₁ s' → Steps program (k + 1) s s'

variable {program : List Instruction} {j k : Nat} {s s₁ s' : State}

theorem run_succ (program : List Instruction) (k : Nat) (s : State) :
    run program (k + 1) s = match step program s with
      | .ok s' => run program k s'
      | .error e => (s, some e) :=
  rfl

namespace Steps

theorem trans (h : Steps program j s s₁) (h' : Steps program k s₁ s') :
    Steps program (j + k) s s' := by
  induction h with
  | refl => rwa [Nat.zero_add]
  | head hs _ ih =>
    rw [Nat.add_right_comm]
    exact .head hs (ih h')

theorem run_eq (h : Steps program k s s') (j : Nat) :
    run program (k + j) s = run program j s' := by
  induction h with
  | refl => rw [Nat.zero_add]
  | @head k s s₁ s' hs _ ih =>
    rw [Nat.add_right_comm, run_succ, hs]
    exact ih

theorem run_self (h : Steps program k s s') : run program k s = (s', none) :=
  h.run_eq 0

end Steps

theorem step_seen (h : step program s = .ok s') : s.seen <+: s'.seen := by
  have hjump {t : String} {s s' : State} (h : jump program t s = .ok s') : s'.seen = s.seen := by
    unfold jump at h
    split at h
    · cases h
      rfl
    · cases h
  have hask {f : Bool → Observation} {t : String} {code : List Instruction}
      (h : ask program f t code s = .ok s') : s.seen <+: s'.seen := by
    unfold ask at h
    split at h
    · cases h
    · next b oracle _ =>
      have hlast : s'.seen = s.seen ++ [f b] := by
        cases b with
        | true => exact hjump h
        | false =>
          cases h
          rfl
      rw [hlast]
      exact List.prefix_append _ _
  unfold step at h
  split at h
  · cases h
  · cases h
    exact List.prefix_refl _
  · cases h
    exact List.prefix_append _ _
  · rw [hjump h]
  · exact hask h
  · exact hask h

/-- A longer run goes on where a shorter one has stopped. -/
theorem run_add (program : List Instruction) (j k : Nat) (s : State) :
    run program (j + k) s = match run program j s with
      | (s', none) => run program k s'
      | (s', some e) => (s', some e) := by
  induction j generalizing s with
  | zero => rw [Nat.zero_add]; rfl
  | succ j ih =>
    rw [Nat.add_right_comm, run_succ, run_succ]
    cases step program s with
    | ok s' => exact ih s'
    | error e => rfl

/-- A run that has ended stays as it is. -/
theorem run_ended {e : Ending} (h : run program j s = (s', some e)) (hjk : j ≤ k) :
    run program k s = (s', some e) := by
  obtain ⟨i, rfl⟩ := Nat.exists_eq_add_of_le hjk
  rw [run_add, h]

/-- A run ends in one way. -/
theorem run_unique {e e' : Ending} (h : run program j s = (s₁, some e))
    (h' : run program k s = (s', some e')) : s₁ = s' ∧ e = e' := by
  have hj := run_ended h (Nat.le_max_left j k)
  rw [run_ended h' (Nat.le_max_right j k)] at hj
  cases hj
  exact ⟨rfl, rfl⟩

theorem Ends.seen_eq {oracle rest rest' : List Bool} {seen seen' : List Observation}
    {e e' : Ending} (h : Ends program oracle seen rest e)
    (h' : Ends program oracle seen' rest' e') : seen = seen' := by
  obtain ⟨_, _, hrun, rfl, -⟩ := h
  obtain ⟨_, _, hrun', rfl, -⟩ := h'
  rw [(run_unique hrun hrun').1]

theorem run_seen (program : List Instruction) (k : Nat) (s : State) :
    s.seen <+: (run program k s).1.seen := by
  induction k generalizing s with
  | zero => exact List.prefix_refl _
  | succ k ih =>
    rw [run_succ]
    cases hs : step program s with
    | ok s' => exact (step_seen hs).trans (ih s')
    | error e => exact List.prefix_refl _

/-- **What is seen of a shorter run is seen of a longer one first.** -/
theorem run_seen_mono (program : List Instruction) (s : State) (hjk : j ≤ k) :
    (run program j s).1.seen <+: (run program k s).1.seen := by
  obtain ⟨i, rfl⟩ := Nat.exists_eq_add_of_le hjk
  rw [run_add]
  cases run program j s with
  | mk s' e =>
    cases e with
    | none => exact run_seen program i s'
    | some e => exact List.prefix_refl _

/-! ## Jumps -/

theorem after_append {t : String} {code code' : List Instruction}
    (h : t ∉ Lowering.labelsIn code) : after t (code ++ code') = after t code' := by
  induction code with
  | nil => rfl
  | cons i code ih =>
    have hi : i ≠ .label t := by
      rintro rfl
      exact h List.mem_cons_self
    show (if i = .label t then some (code ++ code') else after t (code ++ code')) = _
    rw [if_neg hi]
    refine ih fun hmem => h ?_
    obtain ⟨l, hl, ht⟩ := List.mem_filterMap.mp hmem
    exact List.mem_filterMap.mpr ⟨l, List.mem_cons_of_mem _ hl, ht⟩

/-- **Where labels are unique, a jump goes to the one definition of its label.** -/
theorem after_of_suffix {t : String} {code : List Instruction}
    (hnodup : (Lowering.labelsIn program).Nodup) (h : .label t :: code <:+ program) :
    after t program = some code := by
  obtain ⟨before, rfl⟩ := h
  have hfresh : t ∉ Lowering.labelsIn before := by
    rw [Lowering.labelsIn_append] at hnodup
    exact fun ht => List.disjoint_of_nodup_append hnodup ht List.mem_cons_self
  rw [after_append hfresh]
  exact if_pos rfl

theorem exists_after {t : String} (h : t ∈ Lowering.labelsIn program) :
    ∃ code, after t program = some code := by
  induction program with
  | nil => exact nomatch h
  | cons i code ih =>
    unfold after
    split
    · exact ⟨code, rfl⟩
    · next hi =>
      obtain ⟨l, hl, ht⟩ := List.mem_filterMap.mp h
      obtain rfl | hl := List.mem_cons.mp hl
      · cases l with
        | label name => exact absurd (congrArg Instruction.label (Option.some.inj ht)) hi
        | _ => exact nomatch ht
      · exact ih (List.mem_filterMap.mpr ⟨l, hl, ht⟩)

end Machine

end ThreeAddress

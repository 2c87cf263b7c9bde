import ThreeAddress.Proofs.Flow

/-!
# Linearized flows

`Linear` says which instructions a flow becomes, whatever labels are chosen, and the machine
**does with them what the flow does** (`Linear.simulates`), provided that labels are unique.
The steps of the argument follow the ways to put executions together: one lemma for lines,
for a sequence, for a test, for a loop.
-/

namespace ThreeAddress

open Lowering (Frame Labels Lowered labelsIn)
open Machine (State Steps after step)
open ThreeAddress.Flow (Outcome Exit)

/-! ## Following an execution -/

/-- Where the machine goes on after a jump out of a loop. -/
structure Targets where
  leave : Option (List Instruction)
  next : Option (List Instruction)

/-- Where the machine is after `k` steps if an execution has come to an exit. -/
def Lands (program : List Instruction) (ts : List Targets) (bound least : Nat)
    (E : List Instruction → Prop) (k : Nat) (s : State) : Exit → Prop
  | .normal => least ≤ k ∧ E s.rest
  | .leave n => ts[n]?.bind Targets.leave = some s.rest
  | .next n => ts[n]?.bind Targets.next = some s.rest
  | .starved => step program s = .error .starved
  | .unfinished => bound ≤ k

/-- The machine comes from a state to what an execution comes to. After a normal exit it has
taken at least `least` steps and is at a place with `E`; if the execution is unfinished, it has
taken at least `bound` steps. -/
def Reaches (program : List Instruction) (ts : List Targets) (bound least : Nat)
    (E : List Instruction → Prop) (s : State) (x : Outcome) : Prop :=
  ∃ k s', Steps program k s s' ∧ s'.oracle = x.oracle ∧ s'.seen = s.seen ++ x.seen ∧
    Lands program ts bound least E k s' x.exit

/-- From the instructions `code` on, the machine follows the execution. -/
def Follows (program : List Instruction) (ts : List Targets) (bound least : Nat)
    (code : List Instruction) (E : List Instruction → Prop) (go : List Bool → Outcome) : Prop :=
  ∀ oracle seen, Reaches program ts bound least E ⟨code, oracle, seen⟩ (go oracle)

theorem Flow.Outcome.andThen_done (x : Outcome) : x.andThen Flow.done = x := by
  obtain ⟨exit, oracle, seen⟩ := x
  cases exit with
  | normal => exact congrArg (Outcome.mk .normal oracle) (List.append_nil seen)
  | _ => rfl

variable {program code mid post : List Instruction} {ts : List Targets} {bound least : Nat}
variable {E : List Instruction → Prop} {go : List Bool → Outcome}

theorem Lands.mono {bound' least' k k' : Nat} {s : State} {e : Exit}
    (h : Lands program ts bound least E k s e) (hb : bound' ≤ bound) (hk : k ≤ k')
    (hl : least ≤ k → least' ≤ k') : Lands program ts bound' least' E k' s e := by
  cases e with
  | normal => exact ⟨hl h.1, h.2⟩
  | unfinished => exact hb.trans (h.trans hk)
  | _ => exact h

/-- A round of a loop that took a step leaves one round less. -/
theorem Lands.later {j k : Nat} {s : State} {e : Exit}
    (h : Lands program ts bound 0 E k s e) (hj : 1 ≤ j) :
    Lands program ts (bound + 1) 0 E (j + k) s e := by
  cases e with
  | normal => exact ⟨Nat.zero_le _, h.2⟩
  | unfinished =>
    have : bound ≤ k := h
    show bound + 1 ≤ j + k
    omega
  | _ => exact h

theorem Reaches.mono {bound' least' : Nat} {s : State} {x : Outcome}
    (h : Reaches program ts bound least E s x) (hb : bound' ≤ bound) (hl : least' ≤ least) :
    Reaches program ts bound' least' E s x := by
  obtain ⟨k, s', hsteps, ho, hs, hland⟩ := h
  exact ⟨k, s', hsteps, ho, hs, hland.mono hb le_rfl hl.trans⟩

/-- After a step, the machine goes on from the next state. -/
theorem Reaches.head {s s₁ : State} {x : Outcome} (shown : List Observation)
    (hstep : step program s = .ok s₁) (hseen : s₁.seen = s.seen ++ shown)
    (h : Reaches program ts bound least E s₁ x) :
    Reaches program ts bound (least + 1) E s (x.behind shown) := by
  obtain ⟨k, s', hsteps, ho, hs, hland⟩ := h
  refine ⟨k + 1, s', .head hstep hsteps, ho, ?_, hland.mono le_rfl k.le_succ Nat.succ_le_succ⟩
  rw [hs, hseen, List.append_assoc]
  rfl

theorem Reaches.andThen {s : State} {x : Outcome} {least' : Nat} {M : List Instruction → Prop}
    (h : Reaches program ts bound least M s x)
    (h' : ∀ mid, M mid → Follows program ts bound least' mid E go) :
    Reaches program ts bound (least + least') E s (x.andThen go) := by
  obtain ⟨k, s₁, hsteps, ho, hs, hland⟩ := h
  obtain ⟨exit, oracle, seen⟩ := x
  cases exit with
  | normal =>
    obtain ⟨k', s', hsteps', ho', hs', hland'⟩ := h' s₁.rest hland.2 s₁.oracle s₁.seen
    obtain rfl : s₁.oracle = oracle := ho
    refine ⟨k + k', s', hsteps.trans hsteps', ho', ?_, ?_⟩
    · rw [hs', hs, List.append_assoc]
      rfl
    · exact hland'.mono le_rfl (Nat.le_add_left _ _) fun hl => Nat.add_le_add hland.1 hl
  | leave n | next n | starved | unfinished => exact ⟨k, s₁, hsteps, ho, hs, hland⟩

/-- The machine comes from one place to another without anything to be seen. -/
def Silent (program code code' : List Instruction) : Prop :=
  ∀ oracle seen, ∃ k, Steps program k ⟨code, oracle, seen⟩ ⟨code', oracle, seen⟩

namespace Silent

theorem refl : Silent program code code :=
  fun _ _ => ⟨0, .refl⟩

theorem label {t : String} (h : Silent program code post) :
    Silent program (.label t :: code) post := by
  intro oracle seen
  obtain ⟨k, hsteps⟩ := h oracle seen
  exact ⟨k + 1, .head rfl hsteps⟩

theorem goto {t : String} (ht : after t program = some post) :
    Silent program (.goto t :: code) post := by
  refine fun oracle seen => ⟨1, .head ?_ .refl⟩
  show Machine.jump program t _ = _
  unfold Machine.jump
  rw [ht]

end Silent

namespace Follows

theorem mono {bound' least' : Nat} (h : Follows program ts bound least code E go)
    (hb : bound' ≤ bound) (hl : least' ≤ least) : Follows program ts bound' least' code E go :=
  fun oracle seen => (h oracle seen).mono hb hl

theorem andThen {M : List Instruction → Prop} {go' : List Bool → Outcome}
    (h : Follows program ts bound least code M go) (least' : Nat)
    (h' : ∀ mid, M mid → Follows program ts bound least' mid E go') :
    Follows program ts bound (least + least') code E fun oracle => (go oracle).andThen go' :=
  fun oracle seen => (h oracle seen).andThen h'

/-- Nothing is left to do. -/
theorem done (h : E code) : Follows program ts bound 0 code E Flow.done :=
  fun _ seen => ⟨0, _, .refl, rfl, (List.append_nil seen).symm, Nat.zero_le 0, h⟩

/-- A jump out of loops. -/
theorem exit {code' : List Instruction} {e : Exit} (hsilent : Silent program code code')
    (he : ∀ k s, s.rest = code' → Lands program ts bound least E k s e) :
    Follows program ts bound least code E fun oracle => ⟨e, oracle, []⟩ := by
  intro oracle seen
  obtain ⟨k, hsteps⟩ := hsilent oracle seen
  exact ⟨k, _, hsteps, rfl, (List.append_nil seen).symm, he _ _ rfl⟩

/-- Leaves the innermost loop. -/
theorem stop {next : Option (List Instruction)} (hsilent : Silent program code post) :
    Follows program (⟨some post, next⟩ :: ts) bound least code E Flow.stop :=
  exit hsilent fun _ _ hs => congrArg some hs.symm

theorem label {t : String} (h : Follows program ts bound least code E go) :
    Follows program ts bound (least + 1) (.label t :: code) E go :=
  fun oracle seen => (h oracle seen).head [] rfl (List.append_nil seen).symm

/-- The machine may come to the execution silently. -/
theorem ofSilent {code' : List Instruction} (hsilent : Silent program code' code)
    (h : Follows program ts bound least code E go) :
    Follows program ts bound least code' E go := by
  intro oracle seen
  obtain ⟨j, hsteps⟩ := hsilent oracle seen
  obtain ⟨k, s, hsteps', ho, hs, hland⟩ := h oracle seen
  exact ⟨j + k, s, hsteps.trans hsteps', ho, hs,
    hland.mono le_rfl (Nat.le_add_left _ _) (Nat.le_add_left_of_le ·)⟩

/-- After the execution the machine may go on silently. -/
theorem silent {M : List Instruction → Prop} (h : Follows program ts bound least code M go)
    (hM : ∀ mid, M mid → ∃ post, Silent program mid post ∧ E post) :
    Follows program ts bound least code E go := by
  have hdone : ∀ mid, M mid → Follows program ts bound 0 mid E Flow.done := by
    intro mid hmid
    obtain ⟨post, hsilent, hE⟩ := hM mid hmid
    exact exit hsilent fun k s hs => ⟨Nat.zero_le k, hs ▸ hE⟩
  exact fun oracle seen => (go oracle).andThen_done ▸ (h oracle seen).andThen hdone

theorem emit (ls : List String) (h : E post) :
    Follows program ts bound 0 (ls.map .text ++ post) E (Flow.emit ls) := by
  induction ls with
  | nil => exact done h
  | cons l ls ih =>
    intro oracle seen
    have htail := ih oracle (seen ++ [.line l])
    exact (htail.head (s := ⟨_, oracle, seen⟩) [.line l] rfl rfl).mono le_rfl
      (Nat.zero_le _)

/-- A test that jumps to `t` if it holds and goes on otherwise. -/
theorem ask {i : Instruction} {shown : Bool → Observation} {t : String}
    {codeYes codeNo : List Instruction} {yes no : List Bool → Outcome}
    (hi : ∀ s, s.rest = i :: codeNo → step program s = Machine.ask program shown t codeNo s)
    (ht : after t program = some codeYes)
    (hyes : Follows program ts bound least codeYes E yes)
    (hno : Follows program ts bound least codeNo E no) :
    Follows program ts bound (least + 1) (i :: codeNo) E (Flow.ask shown yes no) := by
  intro oracle seen
  cases oracle with
  | nil =>
    exact ⟨0, _, .refl, rfl, (List.append_nil seen).symm, hi _ rfl⟩
  | cons b oracle =>
    cases b with
    | true =>
      refine (hyes oracle (seen ++ [shown true])).head _ ?_ rfl
      rw [hi _ rfl]
      show Machine.jump program t _ = _
      unfold Machine.jump
      rw [ht]
    | false => exact (hno oracle (seen ++ [shown false])).head _ (hi _ rfl) rfl

/-- The lines of a test, and the test. -/
theorem check {t : Test} {l : String} {codeYes codeNo : List Instruction}
    {yes no : List Bool → Outcome} (hl : after l program = some codeYes)
    (hyes : Follows program ts bound least codeYes E yes)
    (hno : Follows program ts bound least codeNo E no) :
    Follows program ts bound (least + 1)
      (t.lines.map .text ++ .ifGoto t.condition l :: codeNo) E (Flow.check t yes no) := by
  have hlines : Follows program ts bound 0
      (t.lines.map .text ++ .ifGoto t.condition l :: codeNo)
      (· = .ifGoto t.condition l :: codeNo) (Flow.emit t.lines) := emit _ rfl
  rw [← Nat.zero_add (least + 1)]
  refine hlines.andThen (least + 1) ?_
  rintro _ rfl
  exact ask (fun s hs => by unfold step; rw [hs]) hl hyes hno

/-- The next round of the loop is where the body ends. -/
theorem caught {leave next : Option (List Instruction)}
    (h : Follows program (⟨leave, next⟩ :: ts) bound 0 code E go)
    (hnext : ∀ e, next = some e → E e) :
    Follows program (⟨leave, none⟩ :: ts) bound 0 code E fun oracle => (go oracle).caught := by
  intro oracle seen
  obtain ⟨k, s, hsteps, ho, hs, hland⟩ := h oracle seen
  show Reaches _ _ _ _ _ _ (go oracle).caught
  revert ho hs hland
  obtain ⟨exit, oracle', seen'⟩ := go oracle
  intro ho hs hland
  refine ⟨k, s, hsteps, ?_⟩
  cases exit with
  | next n =>
    cases n with
    | zero => exact ⟨ho, hs, Nat.zero_le _, hnext _ hland⟩
    | succ n => exact ⟨ho, hs, hland⟩
  | leave n => cases n <;> exact ⟨ho, hs, hland⟩
  | normal | starved | unfinished => exact ⟨ho, hs, hland⟩

/-- **A loop is followed round by round.** -/
theorem loop {round : List Bool → Outcome}
    (hround : ∀ e, E e → Follows program (⟨some post, none⟩ :: ts) bound 1 e E round)
    (k : Nat) (hk : k ≤ bound) (he : E code) :
    Follows program ts k 0 code (· = post) (Flow.loop round k) := by
  induction k generalizing code with
  | zero => exact fun oracle seen => ⟨0, _, .refl, rfl, (List.append_nil seen).symm, le_rfl⟩
  | succ k ih =>
    intro oracle seen
    obtain ⟨j, s, hsteps, ho, hs, hland⟩ := hround code he oracle seen
    show Reaches _ _ _ _ _ _ ((round oracle).again (Flow.loop round k))
    revert ho hs hland
    obtain ⟨exit, oracle', seen'⟩ := round oracle
    rintro rfl hs hland
    cases exit with
    | normal =>
      obtain ⟨j', s', hsteps', ho', hs', hland'⟩ := ih (by omega) hland.2 s.oracle s.seen
      refine ⟨j + j', s', hsteps.trans hsteps', ho', ?_, ?_⟩
      · rw [hs', hs, List.append_assoc]
        rfl
      · exact hland'.later hland.1
    | leave n =>
      cases n with
      | zero => exact ⟨j, s, hsteps, rfl, hs, Nat.zero_le _, (Option.some.inj hland).symm⟩
      | succ n => exact ⟨j, s, hsteps, rfl, hs, hland⟩
    | next n =>
      cases n with
      | zero => exact nomatch hland
      | succ n => exact ⟨j, s, hsteps, rfl, hs, hland⟩
    | starved => exact ⟨j, s, hsteps, rfl, hs, hland⟩
    | unfinished => exact ⟨j, s, hsteps, rfl, hs, hk.trans hland⟩

end Follows

/-! ## Linearization -/

namespace Test

/-- A test as it is lowered. -/
def lowered (t : Test) : Lowered :=
  ⟨t.condition, t.lines.map .text⟩

end Test

open Lowering

/-- The instructions before a round of a loop with a head: all tests but the last one jump over
the exit, and the last one jumps to the round. -/
inductive LinearTests (stop round : String) : List Test → List Instruction → Prop
  | nil : LinearTests stop round [] []
  | last {t : Test} : LinearTests stop round [t] (Shape.test t.lowered round stop)
  | barrier {t : Test} {ts : List Test} {pass : String} {code : List Instruction} :
      LinearTests stop round ts code →
      LinearTests stop round (t :: ts) (Shape.barrier t.lowered pass (.goto stop) ++ code)

/-- The flow becomes the instructions inside the given frames. -/
inductive Linear : List Frame → Flow → List Instruction → Prop
  | lines {fs : List Frame} {ls : List String} : Linear fs (.lines ls) (ls.map .text)
  | seq {fs : List Frame} {f g : Flow} {code code' : List Instruction} :
      Linear fs f code → Linear fs g code' → Linear fs (.seq f g) (code ++ code')
  | ifThen {fs : List Frame} {t : Test} {f : Flow} {l : Labels} {code : List Instruction} :
      Linear fs f code → Linear fs (.choice t f (.lines [])) (Shape.ifThen t.lowered l code)
  | ifThenElse {fs : List Frame} {t : Test} {f g : Flow} {l : Labels} {other : String}
      {code code' : List Instruction} :
      Linear fs f code → Linear fs g code' →
      Linear fs (.choice t f g) (Shape.ifThenElse t.lowered l other code code')
  | whileLoop {fs : List Frame} {t : Test} {f : Flow} {l : Labels} {round : String}
      {code : List Instruction} :
      Linear (.loop l.stop l.start :: fs) f code →
      Linear fs (.whileLoop t f) (Shape.whileLoop t.lowered l round code)
  | doWhile {fs : List Frame} {t : Test} {f : Flow} {l : Labels} {next : String}
      {code : List Instruction} :
      Linear (.loop l.stop next :: fs) f code →
      Linear fs (.doWhile f t) (Shape.doWhile t.lowered l next code)
  | forLoop {fs : List Frame} {ts : List Test} {s : List String} {f : Flow} {l : Labels}
      {round next : String} {tests code : List Instruction} :
      LinearTests l.stop round ts tests → Linear (.loop l.stop next :: fs) f code →
      Linear fs (.forLoop ts s f) (Shape.forLoop [] tests (s.map .text) l round next code)
  | foreachLoop {fs : List Frame} {i b : String} {f : Flow} {l : Labels} {next : String}
      {code : List Instruction} :
      Linear (.loop l.stop next :: fs) f code →
      Linear fs (.foreachLoop i b f) (Shape.foreachLoop ⟨i, []⟩ ⟨b, []⟩ l next code)
  | leave {fs : List Frame} {n : Nat} {b c : String} :
      fs[n]? = some (.loop b c) → Linear fs (.leave n) [.goto b]
  | next {fs : List Frame} {n : Nat} {b c : String} :
      fs[n]? = some (.loop b c) → Linear fs (.next n) [.goto c]

/-- Where the jumps out of a frame go. -/
def resolve (program : List Instruction) : Frame → Targets
  | .loop b c => ⟨after b program, after c program⟩
  | .switch => ⟨none, none⟩

/-- The labels of all frames are defined. -/
def Resolved (program : List Instruction) (fs : List Frame) : Prop :=
  ∀ f ∈ fs, ∀ t ∈ f.targets, ∃ code, after t program = some code

section Shapes

variable {t : Test} {l : Labels} {code' : List Instruction} {go' : List Bool → Outcome}

/-- A test with a jump for either answer. -/
theorem follows_test {yes no : String} {codeYes codeNo rest : List Instruction}
    (hy : after yes program = some codeYes) (hn : after no program = some codeNo)
    (hyes : Follows program ts bound least codeYes E go)
    (hno : Follows program ts bound least codeNo E go') :
    Follows program ts bound (least + 1) (Shape.test t.lowered yes no ++ rest) E
      (Flow.check t go go') := by
  unfold Shape.test
  rw [List.append_assoc]
  exact Follows.check hy hyes (.ofSilent (.goto hn) hno)

theorem follows_ifThen (hnodup : (labelsIn program).Nodup)
    (hsuffix : Shape.ifThen t.lowered l code ++ post <:+ program)
    (hthen : ∀ rest, code ++ rest <:+ program →
      Follows program ts bound 0 (code ++ rest) (· = rest) go) :
    Follows program ts bound 0 (Shape.ifThen t.lowered l code ++ post) (· = post)
      (Flow.check t go Flow.done) := by
  have hshape : Shape.ifThen t.lowered l code ++ post = Shape.test t.lowered l.start l.stop
      ++ .label l.start :: (code ++ ([Instruction.goto l.stop] ++ .label l.stop :: post)) := by
    simp [Shape.ifThen]
  rw [hshape] at hsuffix ⊢
  have hstart := (List.suffix_append _ _).trans hsuffix
  have hcode := (List.suffix_cons _ _).trans hstart
  have hstop := (List.suffix_append _ _).trans ((List.suffix_append _ _).trans hcode)
  have hleave := Machine.after_of_suffix hnodup hstop
  refine (follows_test (Machine.after_of_suffix hnodup hstart) hleave ?_
    (Follows.done (E := (· = post)) rfl)).mono le_rfl (Nat.zero_le 1)
  exact (hthen _ hcode).silent fun _ hmid => ⟨post, hmid ▸ .goto hleave, rfl⟩

theorem follows_ifThenElse {other : String} (hnodup : (labelsIn program).Nodup)
    (hsuffix : Shape.ifThenElse t.lowered l other code code' ++ post <:+ program)
    (hthen : ∀ rest, code ++ rest <:+ program →
      Follows program ts bound 0 (code ++ rest) (· = rest) go)
    (helse : ∀ rest, code' ++ rest <:+ program →
      Follows program ts bound 0 (code' ++ rest) (· = rest) go') :
    Follows program ts bound 0 (Shape.ifThenElse t.lowered l other code code' ++ post) (· = post)
      (Flow.check t go go') := by
  have hshape : Shape.ifThenElse t.lowered l other code code' ++ post
      = Shape.test t.lowered l.start other ++ .label l.start :: (code ++ ([Instruction.goto l.stop]
        ++ .label other :: (code' ++ ([Instruction.goto l.stop] ++ .label l.stop :: post)))) := by
    simp [Shape.ifThenElse]
  rw [hshape] at hsuffix ⊢
  have hstart := (List.suffix_append _ _).trans hsuffix
  have hcode := (List.suffix_cons _ _).trans hstart
  have hother := (List.suffix_append _ _).trans ((List.suffix_append _ _).trans hcode)
  have hcode' := (List.suffix_cons _ _).trans hother
  have hstop := (List.suffix_append _ _).trans ((List.suffix_append _ _).trans hcode')
  have hleave := Machine.after_of_suffix hnodup hstop
  refine (follows_test (Machine.after_of_suffix hnodup hstart)
    (Machine.after_of_suffix hnodup hother) ?_ ?_).mono le_rfl (Nat.zero_le 1)
  · exact (hthen _ hcode).silent fun _ hmid => ⟨post, hmid ▸ .goto hleave, rfl⟩
  · exact (helse _ hcode').silent fun _ hmid => ⟨post, hmid ▸ .goto hleave, rfl⟩

theorem follows_whileLoop {round : String} (hnodup : (labelsIn program).Nodup)
    (hsuffix : Shape.whileLoop t.lowered l round code ++ post <:+ program)
    (hbody : ∀ rest, code ++ rest <:+ program →
      Follows program (resolve program (.loop l.stop l.start) :: ts) bound 0 (code ++ rest)
        (· = rest) go) :
    Follows program ts bound 0 (Shape.whileLoop t.lowered l round code ++ post) (· = post)
      (Flow.loop (Flow.check t (fun oracle => (go oracle).caught) Flow.stop) bound) := by
  have hshape : Shape.whileLoop t.lowered l round code ++ post
      = .label l.start :: (Shape.test t.lowered round l.stop ++ .label round :: (code
        ++ (Shape.test t.lowered round l.stop ++ .label l.stop :: post))) := by
    simp [Shape.whileLoop]
  rw [hshape] at hsuffix ⊢
  have hround := (List.suffix_append _ _).trans ((List.suffix_cons _ _).trans hsuffix)
  have hcode := (List.suffix_cons _ _).trans hround
  have hstop := (List.suffix_append _ _).trans ((List.suffix_append _ _).trans hcode)
  have hleave := Machine.after_of_suffix hnodup hstop
  have hnext := Machine.after_of_suffix hnodup hsuffix
  rw [show resolve program (.loop l.stop l.start) = ⟨_, _⟩ from congrArg₂ Targets.mk hleave hnext]
    at hbody
  -- A round starts with the first test or with the second one.
  let E (e : List Instruction) : Prop := ∃ rest, e = Shape.test t.lowered round l.stop ++ rest
  refine .ofSilent (.label .refl) (Follows.loop (E := E) ?_ bound le_rfl ⟨_, rfl⟩)
  rintro _ ⟨rest, rfl⟩
  refine follows_test (Machine.after_of_suffix hnodup hround) hleave
    (.caught ((hbody _ hcode).silent ?_) ?_) (.stop .refl)
  · exact fun _ hmid => ⟨_, .refl, _, hmid⟩
  · rintro _ ⟨⟩
    exact ⟨_, rfl⟩

theorem follows_doWhile {next : String} (hnodup : (labelsIn program).Nodup)
    (hsuffix : Shape.doWhile t.lowered l next code ++ post <:+ program)
    (hbody : ∀ rest, code ++ rest <:+ program →
      Follows program (resolve program (.loop l.stop next) :: ts) bound 0 (code ++ rest)
        (· = rest) go) :
    Follows program ts bound 0 (Shape.doWhile t.lowered l next code ++ post) (· = post)
      (Flow.loop (fun oracle => (go oracle).caught.andThen (Flow.check t Flow.done Flow.stop))
        bound) := by
  obtain ⟨last, hlast⟩ : ∃ last, last
      = t.lines.map .text ++ ([Instruction.ifGoto t.condition l.start] ++ .label l.stop :: post) :=
    ⟨_, rfl⟩
  have hshape : Shape.doWhile t.lowered l next code ++ post
      = .label l.start :: (code ++ .label next :: last) := by
    simp [Shape.doWhile, Test.lowered, hlast]
  rw [hshape] at hsuffix ⊢
  have hcode := (List.suffix_cons _ _).trans hsuffix
  have hmid := (List.suffix_append _ _).trans hcode
  have hstop : .label l.stop :: post <:+ program := by
    refine List.IsSuffix.trans ?_ ((List.suffix_cons _ _).trans hmid)
    rw [hlast]
    exact (List.suffix_append _ _).trans (List.suffix_append _ _)
  have hleave := Machine.after_of_suffix hnodup hstop
  have hnext := Machine.after_of_suffix hnodup hmid
  rw [show resolve program (.loop l.stop next) = ⟨_, _⟩ from congrArg₂ Targets.mk hleave hnext]
    at hbody
  have hround : Follows program (⟨some post, none⟩ :: ts) bound 0 (code ++ .label next :: last)
      (· = last) fun oracle => (go oracle).caught := by
    refine .caught ((hbody _ hcode).silent ?_) ?_
    · rintro _ rfl
      exact ⟨last, .label .refl, rfl⟩
    · rintro _ ⟨⟩
      rfl
  refine .ofSilent (.label .refl)
    (Follows.loop (E := (· = code ++ .label next :: last)) ?_ bound le_rfl rfl)
  rintro _ rfl
  refine hround.andThen 1 ?_
  rintro _ rfl
  rw [hlast]
  exact Follows.check (hlast ▸ Machine.after_of_suffix hnodup hsuffix) (.done rfl)
    (.stop (.label .refl))

theorem follows_foreachLoop {i b next : String} (hnodup : (labelsIn program).Nodup)
    (hsuffix : Shape.foreachLoop ⟨i, []⟩ ⟨b, []⟩ l next code ++ post <:+ program)
    (hbody : ∀ rest, code ++ rest <:+ program →
      Follows program (resolve program (.loop l.stop next) :: ts) bound 0 (code ++ rest)
        (· = rest) go) :
    Follows program ts bound 0 (Shape.foreachLoop ⟨i, []⟩ ⟨b, []⟩ l next code ++ post) (· = post)
      (Flow.loop (Flow.ask (.advance i b) (fun oracle => (go oracle).caught) Flow.stop)
        bound) := by
  have hshape : Shape.foreachLoop ⟨i, []⟩ ⟨b, []⟩ l next code ++ post
      = [Instruction.foreach i b l.start, .goto l.stop] ++ .label l.start :: (code ++ .label next
        :: ([Instruction.foreach i b l.start] ++ .label l.stop :: post)) := by
    simp [Shape.foreachLoop]
  rw [hshape] at hsuffix ⊢
  have hstart := (List.suffix_append _ _).trans hsuffix
  have hcode := (List.suffix_cons _ _).trans hstart
  have hmid := (List.suffix_append _ _).trans hcode
  have hstop := (List.suffix_append _ _).trans ((List.suffix_cons _ _).trans hmid)
  have hleave := Machine.after_of_suffix hnodup hstop
  have hnext := Machine.after_of_suffix hnodup hmid
  rw [show resolve program (.loop l.stop next) = ⟨_, _⟩ from congrArg₂ Targets.mk hleave hnext]
    at hbody
  -- A round starts at either of the two instructions that ask for another element.
  let E (e : List Instruction) : Prop :=
    ∃ rest, e = .foreach i b l.start :: rest ∧ Silent program rest post
  refine Follows.loop (E := E) ?_ bound le_rfl ⟨_, rfl, .goto hleave⟩
  rintro _ ⟨rest, rfl, hrest⟩
  refine Follows.ask (fun s hs => by unfold step; rw [hs])
    (Machine.after_of_suffix hnodup hstart) (.caught ((hbody _ hcode).silent ?_) ?_) (.stop hrest)
  · rintro _ rfl
    exact ⟨_, .label .refl, _, rfl, .label .refl⟩
  · rintro _ ⟨⟩
    exact ⟨_, rfl, .label .refl⟩

theorem LinearTests.follows {stop round : String} {tests : List Test}
    {rest : List Instruction} (h : LinearTests stop round tests code)
    (hnodup : (labelsIn program).Nodup) (hsuffix : code ++ .label round :: rest <:+ program)
    (hstop : after stop program = some post)
    (hyes : Follows program (⟨some post, none⟩ :: ts) bound 0 rest E go) :
    Follows program (⟨some post, none⟩ :: ts) bound 1 (code ++ .label round :: rest) E
      (Flow.checkAll go Flow.stop tests) := by
  induction h with
  | nil => exact hyes.label
  | last =>
    have hround := Machine.after_of_suffix hnodup ((List.suffix_append _ _).trans hsuffix)
    exact follows_test hround hstop hyes (.stop .refl)
  | @barrier t tests pass code _ ih =>
    have hshape : Shape.barrier t.lowered pass (.goto stop) ++ code ++ .label round :: rest
        = t.lines.map .text ++ ([Instruction.ifGoto t.condition pass, .goto stop]
          ++ .label pass :: (code ++ .label round :: rest)) := by
      simp [Shape.barrier, Test.lowered]
    rw [hshape] at hsuffix ⊢
    have hpass := (List.suffix_append _ _).trans ((List.suffix_append _ _).trans hsuffix)
    have htests := ih ((List.suffix_cons _ _).trans hpass)
    exact Follows.check (Machine.after_of_suffix hnodup hpass) (htests.mono le_rfl (Nat.zero_le 1))
      (.stop (.goto hstop))

theorem follows_forLoop {tests : List Test} {ls : List String} {round next : String}
    {testCode : List Instruction} (hnodup : (labelsIn program).Nodup)
    (hsuffix : Shape.forLoop [] testCode (ls.map .text) l round next code ++ post <:+ program)
    (htests : LinearTests l.stop round tests testCode)
    (hbody : ∀ rest, code ++ rest <:+ program →
      Follows program (resolve program (.loop l.stop next) :: ts) bound 0 (code ++ rest)
        (· = rest) go) :
    Follows program ts bound 0
      (Shape.forLoop [] testCode (ls.map .text) l round next code ++ post) (· = post)
      (Flow.loop (Flow.checkAll (fun oracle => (go oracle).caught.andThen (Flow.emit ls))
        Flow.stop tests) bound) := by
  obtain ⟨last, hlast⟩ : ∃ last, last
      = ls.map .text ++ ([Instruction.goto l.start] ++ .label l.stop :: post) := ⟨_, rfl⟩
  have hshape : Shape.forLoop [] testCode (ls.map .text) l round next code ++ post
      = .label l.start :: (testCode ++ .label round :: (code ++ .label next :: last)) := by
    simp [Shape.forLoop, hlast]
  rw [hshape] at hsuffix ⊢
  have htop := (List.suffix_cons _ _).trans hsuffix
  have hcode := (List.suffix_cons _ _).trans ((List.suffix_append _ _).trans htop)
  have hmid := (List.suffix_append _ _).trans hcode
  have hstop : .label l.stop :: post <:+ program := by
    refine List.IsSuffix.trans ?_ ((List.suffix_cons _ _).trans hmid)
    rw [hlast]
    exact (List.suffix_append _ _).trans (List.suffix_append _ _)
  have hleave := Machine.after_of_suffix hnodup hstop
  have hnext := Machine.after_of_suffix hnodup hmid
  rw [show resolve program (.loop l.stop next) = ⟨_, _⟩ from congrArg₂ Targets.mk hleave hnext]
    at hbody
  have hcaught : Follows program (⟨some post, none⟩ :: ts) bound 0 (code ++ .label next :: last)
      (· = last) fun oracle => (go oracle).caught := by
    refine .caught ((hbody _ hcode).silent ?_) ?_
    · rintro _ rfl
      exact ⟨last, .label .refl, rfl⟩
    · rintro _ ⟨⟩
      rfl
  have hstep : Follows program (⟨some post, none⟩ :: ts) bound 0 last
      (· = testCode ++ .label round :: (code ++ .label next :: last)) (Flow.emit ls) := by
    have hemit : Follows program (⟨some post, none⟩ :: ts) bound 0 (ls.map .text ++ _)
        (· = [Instruction.goto l.start] ++ .label l.stop :: post) (Flow.emit ls) := .emit ls rfl
    rw [← hlast] at hemit
    refine hemit.silent ?_
    rintro _ rfl
    exact ⟨_, .goto (Machine.after_of_suffix hnodup hsuffix), rfl⟩
  refine .ofSilent (.label .refl) (Follows.loop
    (E := (· = testCode ++ .label round :: (code ++ .label next :: last))) ?_ bound le_rfl rfl)
  rintro _ rfl
  refine htests.follows hnodup htop hleave (hcaught.andThen 0 ?_)
  rintro _ rfl
  exact hstep

/-- A loop defines the labels that it is left to. -/
theorem Resolved.loop {fs : List Frame} {b c : String} (h : Resolved program fs)
    (hsuffix : code ++ post <:+ program) (hb : b ∈ labelsIn code) (hc : c ∈ labelsIn code) :
    Resolved program (.loop b c :: fs) := by
  obtain ⟨before, rfl⟩ := hsuffix
  have hmem {t : String} (ht : t ∈ labelsIn code) : t ∈ labelsIn (before ++ (code ++ post)) := by
    simp [ht]
  refine List.forall_mem_cons.mpr ⟨fun t ht => ?_, h⟩
  obtain rfl | rfl : t = b ∨ t = c := by simpa [Frame.targets] using ht
  · exact Machine.exists_after (hmem hb)
  · exact Machine.exists_after (hmem hc)

end Shapes

/-- **The machine does with the instructions what the flow does.** -/
theorem Linear.simulates {fs : List Frame} {f : Flow} (h : Linear fs f code)
    (hnodup : (labelsIn program).Nodup) (hfs : Resolved program fs)
    (hsuffix : code ++ post <:+ program) (rounds : Nat) :
    Follows program (fs.map (resolve program)) rounds 0 (code ++ post) (· = post)
      (f.exec rounds) := by
  induction h generalizing post with
  | lines => exact .emit _ rfl
  | seq _ _ ihf ihg =>
    rw [List.append_assoc] at hsuffix ⊢
    refine (ihf hfs hsuffix).andThen 0 ?_
    rintro _ rfl
    exact ihg hfs ((List.suffix_append _ _).trans hsuffix)
  | ifThen _ ih => exact follows_ifThen hnodup hsuffix fun _ hs => ih hfs hs
  | ifThenElse _ _ ihf ihg =>
    exact follows_ifThenElse hnodup hsuffix (fun _ hs => ihf hfs hs) fun _ hs => ihg hfs hs
  | whileLoop _ ih =>
    refine follows_whileLoop hnodup hsuffix fun _ hs => ih (hfs.loop hsuffix ?_ ?_) hs <;>
      simp [Shape.whileLoop]
  | doWhile _ ih =>
    refine follows_doWhile hnodup hsuffix fun _ hs => ih (hfs.loop hsuffix ?_ ?_) hs <;>
      simp [Shape.doWhile]
  | forLoop htests _ ih =>
    refine follows_forLoop hnodup hsuffix htests fun _ hs => ih (hfs.loop hsuffix ?_ ?_) hs <;>
      simp [Shape.forLoop]
  | foreachLoop _ ih =>
    refine follows_foreachLoop hnodup hsuffix fun _ hs => ih (hfs.loop hsuffix ?_ ?_) hs <;>
      simp [Shape.foreachLoop]
  | @leave fs n b c hn =>
    obtain ⟨code, hcode⟩ := hfs _ (List.mem_of_getElem? hn) b (by simp [Frame.targets])
    refine .exit (.goto hcode) fun k s hs => ?_
    show ((fs.map (resolve program))[n]?).bind Targets.leave = some s.rest
    rw [List.getElem?_map, hn, hs]
    exact hcode
  | @next fs n b c hn =>
    obtain ⟨code, hcode⟩ := hfs _ (List.mem_of_getElem? hn) c (by simp [Frame.targets])
    refine .exit (.goto hcode) fun k s hs => ?_
    show ((fs.map (resolve program))[n]?).bind Targets.next = some s.rest
    rw [List.getElem?_map, hn, hs]
    exact hcode

/-! ## Whole programs -/

namespace Reaches

variable {s s' : State} {x : Outcome} {e : Ending} {j : Nat}

/-- An execution that has ended is a run that has ended. -/
theorem run_eq (h : Reaches program ts bound least (· = []) s x)
    (he : x.exit.ending? = some e) :
    ∃ k s', Machine.run program k s = (s', some e) ∧ s'.oracle = x.oracle ∧
      s'.seen = s.seen ++ x.seen := by
  obtain ⟨k, s', hsteps, ho, hs, hland⟩ := h
  have hstep : step program s' = .error e := by
    obtain ⟨exit, oracle, seen⟩ := x
    cases exit with
    | normal =>
      obtain rfl : .finished = e := Option.some.inj he
      unfold step
      rw [show s'.rest = [] from hland.2]
    | starved =>
      obtain rfl : .starved = e := Option.some.inj he
      exact hland
    | leave n | next n | unfinished => exact nomatch he
  refine ⟨k + 1, s', ?_, ho, hs⟩
  rw [hsteps.run_eq, Machine.run_succ, hstep]

/-- Outside of all loops, an execution ends or runs out of rounds. -/
theorem ends_or_unfinished (h : Reaches program [] bound least E s x) :
    (∃ e, x.exit.ending? = some e) ∨ x.exit = .unfinished := by
  obtain ⟨k, s', -, -, -, hland⟩ := h
  obtain ⟨exit, oracle, seen⟩ := x
  cases exit with
  | normal => exact .inl ⟨_, rfl⟩
  | starved => exact .inl ⟨_, rfl⟩
  | leave n | next n => exact nomatch hland
  | unfinished => exact .inr rfl

/-- An execution that is not finished belongs to a run of as many steps. -/
theorem bound_le (h : Reaches program ts bound least E s x) (hx : x.exit = .unfinished) :
    ∃ k, bound ≤ k ∧ (Machine.run program k s).2 = none ∧
      (Machine.run program k s).1.seen = s.seen ++ x.seen := by
  obtain ⟨k, s', hsteps, -, hs, hland⟩ := h
  rw [hx] at hland
  refine ⟨k, hland, ?_⟩
  rw [hsteps.run_self]
  exact ⟨rfl, hs⟩

/-- A run that ends within the bound is an execution that ends. -/
theorem ending_eq (h : Reaches program [] bound least (· = []) s x)
    (hrun : Machine.run program j s = (s', some e)) (hj : j ≤ bound) :
    x.exit.ending? = some e ∧ s'.oracle = x.oracle ∧ s'.seen = s.seen ++ x.seen := by
  obtain ⟨e', he⟩ | hx := h.ends_or_unfinished
  · obtain ⟨k, s₁, hk, ho, hs⟩ := h.run_eq he
    obtain ⟨rfl, rfl⟩ := Machine.run_unique hrun hk
    exact ⟨he, ho, hs⟩
  · obtain ⟨k, hk, hnone, -⟩ := h.bound_le hx
    rw [Machine.run_ended hrun (hj.trans hk)] at hnone
    exact nomatch hnone

end Reaches

/-- **A linearized program behaves as its flow**: it ends in the same way, after the same lines
and tests and with the same answers left, and the same can be seen of it if it does not end. -/
theorem Linear.behaves {f : Flow} (h : Linear [] f program) (hnodup : (labelsIn program).Nodup)
    (oracle : List Bool) :
    (∀ seen rest e, Machine.Ends program oracle seen rest e ↔ f.Ends oracle seen rest e) ∧
      ∀ seen, Machine.Shows program oracle seen ↔ f.Shows oracle seen := by
  have hreach (rounds : Nat) : Reaches program [] rounds 0 (· = [])
      (Machine.start program oracle) (f.exec rounds oracle) := by
    have hsuffix : program ++ [] <:+ program := by rw [List.append_nil]
    have hsim := h.simulates hnodup (List.forall_mem_nil _) hsuffix rounds oracle []
    rwa [List.append_nil] at hsim
  constructor
  · intro seen rest e
    constructor
    · rintro ⟨k, s, hrun, rfl, rfl⟩
      obtain ⟨he, ho, hs⟩ := (hreach k).ending_eq hrun le_rfl
      exact ⟨k, _, rfl, he, hs.symm, ho.symm⟩
    · rintro ⟨rounds, _, rfl, he, rfl, rfl⟩
      obtain ⟨k, s, hrun, ho, hs⟩ := (hreach rounds).run_eq he
      exact ⟨k, s, hrun, hs, ho⟩
  · intro seen
    constructor
    · rintro ⟨k, hseen⟩
      refine ⟨k, hseen.trans ?_⟩
      obtain ⟨e, he⟩ | hx := (hreach k).ends_or_unfinished
      · obtain ⟨j, s, hrun, -, hs⟩ := (hreach k).run_eq he
        have hlonger := Machine.run_seen_mono program (Machine.start program oracle)
          (Nat.le_max_right j k)
        rw [Machine.run_ended hrun (Nat.le_max_left j k)] at hlonger
        rwa [show s.seen = (f.exec k oracle).seen from hs] at hlonger
      · obtain ⟨j, hj, -, hs⟩ := (hreach k).bound_le hx
        have hlonger := Machine.run_seen_mono program (Machine.start program oracle) hj
        rwa [hs] at hlonger
    · rintro ⟨rounds, hseen⟩
      obtain ⟨k, s, hsteps, -, hs, -⟩ := hreach rounds
      refine ⟨k, ?_⟩
      rw [hsteps.run_self]
      rwa [show s.seen = (f.exec rounds oracle).seen from hs]

end ThreeAddress

import ThreeAddress.Proofs.Depth

/-!
# Terms and phrases

Terms are trees of operators over variables, also of the operators that keep no parentheses of
their own: assignments, clones, conditionals, tests for a class and members. A term is
what such a node says, without its numbers and places (`Term.Is`).

A phrase is a term as it is written, with the parentheses that stand in the text. A plan that is
made of texts alone writes them one after another (`Plan.Runs.eq_written`), so **a term is printed
as the text of its phrase** (`exists_runs_term`): there are parentheses around conditionals and
where the operators next to a term ask for them.
-/

namespace ThreeAddress.Syntax

open Lowering (arrow)

/-! ## Operators -/

/-- An operator before its operand. -/
inductive Front where
  | plus | minus | not | bitNot | silence | preInc | preDec | clone
  | cast (type : CastType)
deriving DecidableEq, Repr

/-- An operator after its operand. -/
inductive Back where
  | postInc | postDec
  /-- The test for the class that a variable names. -/
  | isA (owner : String)
deriving DecidableEq, Repr

/-- An operator between two operands. -/
inductive Link where
  | op (o : BinaryOperator)
  | assign
  /-- A conditional whose first value is its condition. -/
  | fallback
deriving DecidableEq, Repr

/-- What the operator makes of a node. -/
def Front.kind : Front → Node → Kind Node
  | .plus, x => .unaryOp .plus x
  | .minus, x => .unaryOp .minus x
  | .not, x => .unaryOp .not x
  | .bitNot, x => .unaryOp .bitNot x
  | .silence, x => .unaryOp .silence x
  | .preInc, x => .unaryOp .preInc x
  | .preDec, x => .unaryOp .preDec x
  | .clone, x => .clone x
  | .cast type, x => .cast type x

/-- The text before the operand. -/
def Front.text : Front → String
  | .plus => "+"
  | .minus => "-"
  | .not => "!"
  | .bitNot => "~"
  | .silence => "@"
  | .preInc => "++"
  | .preDec => "--"
  | .clone => "clone "
  | .cast type => type.token ++ " "

/-- The text after the operand. -/
def Back.text : Back → List Char
  | .postInc => "++".toList
  | .postDec => "--".toList
  | .isA owner => " instanceof $".toList ++ owner.toList

/-- What the operator makes of two nodes. -/
def Link.kind : Link → Node → Node → Kind Node
  | .op o, l, r => .binaryOp l o r
  | .assign, l, r => .assign l r
  | .fallback, l, r => .ternary l none r

/-- The token between the operands. -/
def Link.token : Link → String
  | .op o => o.token
  | .assign => "="
  | .fallback => "?:"

/-! ## Terms -/

/-- A tree of operators over variables. -/
inductive Term where
  | var (name : String)
  /-- A member that a variable names; `safe` if the object may be missing. -/
  | member (x : Term) (safe : Bool) (property : String)
  | before (f : Front) (x : Term)
  | after (x : Term) (b : Back)
  | between (l : Term) (o : Link) (r : Term)
  | choice (condition yes no : Term)
deriving DecidableEq, Repr

namespace Term

/-- The node is the term, with some numbers and places. -/
inductive Is : Term → Node → Prop
  | var {x : String} {id : Nat} {location : Option Location} {span : Option Span} :
      Is (.var x) ⟨id, .var x, location, span⟩
  | member {x : Term} {safe : Bool} {property : String} {m n : Node} {id : Nat}
      {location : Option Location} {span : Option Span} : Is x m → Is (.var property) n →
      Is (.member x safe property) ⟨id, .propertyFetch m n safe, location, span⟩
  | before {f : Front} {x : Term} {n : Node} {id : Nat} {location : Option Location}
      {span : Option Span} : Is x n → Is (.before f x) ⟨id, f.kind n, location, span⟩
  | postInc {x : Term} {n : Node} {id : Nat} {location : Option Location} {span : Option Span} :
      Is x n → Is (.after x .postInc) ⟨id, .unaryOp .postInc n, location, span⟩
  | postDec {x : Term} {n : Node} {id : Nat} {location : Option Location} {span : Option Span} :
      Is x n → Is (.after x .postDec) ⟨id, .unaryOp .postDec n, location, span⟩
  | isA {x : Term} {owner : String} {m n : Node} {id : Nat} {location : Option Location}
      {span : Option Span} : Is x m → Is (.var owner) n →
      Is (.after x (.isA owner)) ⟨id, .instanceOf m n, location, span⟩
  | between {l r : Term} {o : Link} {m n : Node} {id : Nat} {location : Option Location}
      {span : Option Span} :
      Is l m → Is r n → Is (.between l o r) ⟨id, o.kind m n, location, span⟩
  | choice {c y z : Term} {k m n : Node} {id : Nat} {location : Option Location}
      {span : Option Span} : Is c k → Is y m → Is z n →
      Is (.choice c y z) ⟨id, .ternary k (some m) n, location, span⟩

/-- The term as a node without numbers and places. -/
def node : Term → Node
  | .var x => ⟨0, .var x, none, none⟩
  | .member x safe property =>
    ⟨0, .propertyFetch x.node ⟨0, .var property, none, none⟩ safe, none, none⟩
  | .before f x => ⟨0, f.kind x.node, none, none⟩
  | .after x .postInc => ⟨0, .unaryOp .postInc x.node, none, none⟩
  | .after x .postDec => ⟨0, .unaryOp .postDec x.node, none, none⟩
  | .after x (.isA owner) => ⟨0, .instanceOf x.node ⟨0, .var owner, none, none⟩, none, none⟩
  | .between l o r => ⟨0, o.kind l.node r.node, none, none⟩
  | .choice c y n => ⟨0, .ternary c.node (some y.node) n.node, none, none⟩

theorem Is.bare {t : Term} {n : Node} (h : t.Is n) : n.bare = t.node := by
  induction h with
  | var => rfl
  | @member _ safe _ _ _ _ _ _ _ _ hx hp =>
    exact congrArg₂ (fun x y => (⟨0, .propertyFetch x y safe, none, none⟩ : Node)) hx hp
  | @before f x n _ _ _ _ hx =>
    have hbare {id : Nat} {location : Option Location} {span : Option Span} :
        (⟨id, f.kind n, location, span⟩ : Node).bare = ⟨0, f.kind n.bare, none, none⟩ := by
      cases f <;> rfl
    rw [hbare, hx]
    rfl
  | postInc _ hx => exact congrArg (fun x => (⟨0, .unaryOp .postInc x, none, none⟩ : Node)) hx
  | postDec _ hx => exact congrArg (fun x => (⟨0, .unaryOp .postDec x, none, none⟩ : Node)) hx
  | isA _ _ hx ho =>
    exact congrArg₂ (fun x y => (⟨0, .instanceOf x y, none, none⟩ : Node)) hx ho
  | @between l r o m n _ _ _ _ _ hl hr =>
    have hbare {id : Nat} {location : Option Location} {span : Option Span} :
        (⟨id, o.kind m n, location, span⟩ : Node).bare = ⟨0, o.kind m.bare n.bare, none, none⟩ := by
      cases o <;> rfl
    rw [hbare, hl, hr]
    rfl
  | @choice c y z k m n _ _ _ _ _ _ hc hy hz =>
    show (⟨0, .ternary k.bare (some m.bare) n.bare, none, none⟩ : Node) = _
    rw [hc, hy, hz]
    rfl

end Term

/-! ## Phrases -/

/-- A term as it is written. -/
inductive Phrase where
  | var (name : String)
  /-- A phrase in parentheses. -/
  | group (p : Phrase)
  | member (p : Phrase) (safe : Bool) (property : String)
  | before (f : Front) (p : Phrase)
  | after (p : Phrase) (b : Back)
  | between (l : Phrase) (o : Link) (r : Phrase)
  | choice (condition yes no : Phrase)
deriving DecidableEq, Repr

namespace Phrase

/-- The text of a phrase. -/
def text : Phrase → List Char
  | .var x => '$' :: x.toList
  | .group p => '(' :: (p.text ++ [')'])
  | .member p safe property => p.text ++ ((arrow safe).toList ++ '$' :: property.toList)
  | .before f p => f.text.toList ++ p.text
  | .after p b => p.text ++ b.text
  | .between l o r => l.text ++ (' ' :: (o.token.toList ++ ' ' :: r.text))
  | .choice c y n => c.text ++ (" ? ".toList ++ (y.text ++ (" : ".toList ++ n.text)))

/-- The term without the parentheses. -/
def term : Phrase → Term
  | .var x => .var x
  | .group p => p.term
  | .member p safe property => .member p.term safe property
  | .before f p => .before f p.term
  | .after p b => .after p.term b
  | .between l o r => .between l.term o r.term
  | .choice c y n => .choice c.term y.term n.term

/-- The phrase, in parentheses if asked for. -/
def wrap (b : Bool) (p : Phrase) : Phrase :=
  if b then .group p else p

theorem term_wrap (b : Bool) (p : Phrase) : (wrap b p).term = p.term := by
  cases b <;> rfl

end Phrase

namespace Term

open Phrase (wrap)

/-- Whether the term stands in parentheses on the given side of an operator. -/
def grouped (outer : BinaryOperator) (onRight : Bool) : Term → Bool
  | .between _ (.op inner) _ =>
    inner.precedence < outer.precedence
      || (inner.precedence == outer.precedence && onRight != outer.groupsRight)
  | .between _ .assign _ => true
  | .before .clone _ => false
  | .before .. => outer == .pow && !onRight
  | _ => false

/-- Whether the term stands in parentheses next to an operator with one operand. -/
def groupedAfter : Term → Bool
  | .between _ (.op _) _ | .between _ .assign _ | .after _ (.isA _) => true
  | _ => false

/-- How the term is written. -/
def phrase : Term → Phrase
  | .var x => .var x
  | .member x safe property => .member x.phrase safe property
  | .before .clone x => .before .clone x.phrase
  | .before f x => .before f (wrap x.groupedAfter x.phrase)
  | .after x (.isA owner) => .after x.phrase (.isA owner)
  | .after x b => .after (wrap x.groupedAfter x.phrase) b
  | .between l (.op o) r =>
    .between (wrap (l.grouped o false) l.phrase) (.op o) (wrap (r.grouped o true) r.phrase)
  | .between l .assign r => .between l.phrase .assign r.phrase
  | .between c .fallback n => .group (.between c.phrase .fallback n.phrase)
  | .choice c y n => .group (.choice c.phrase y.phrase n.phrase)

/-- A phrase says the term that it is written for. -/
theorem term_phrase (t : Term) : t.phrase.term = t := by
  induction t with
  | var x => rfl
  | member x safe property ih => exact congrArg (Term.member · safe property) ih
  | before f x ih =>
    have hwrap : (wrap x.groupedAfter x.phrase).term = x := (Phrase.term_wrap _ _).trans ih
    cases f with
    | clone => exact congrArg (Term.before .clone) ih
    | _ => exact congrArg (Term.before _) hwrap
  | after x b ih =>
    have hwrap : (wrap x.groupedAfter x.phrase).term = x := (Phrase.term_wrap _ _).trans ih
    cases b with
    | isA owner => exact congrArg (Term.after · (.isA owner)) ih
    | _ => exact congrArg (Term.after · _) hwrap
  | between l o r hl hr =>
    cases o with
    | op o =>
      exact congrArg₂ (Term.between · (.op o) ·) ((Phrase.term_wrap _ _).trans hl)
        ((Phrase.term_wrap _ _).trans hr)
    | _ => exact congrArg₂ (Term.between · _ ·) hl hr
  | choice c y n hc hy hn =>
    show Term.choice c.phrase.term y.phrase.term n.phrase.term = _
    rw [hc, hy, hn]

end Term

end ThreeAddress.Syntax

namespace ThreeAddress.Lowering

open Syntax (Node Term Phrase)

namespace Plan

/-- The text of a plan that is made of texts alone. -/
def written? : Plan → Option (List Char)
  | .nothing | .mark _ => some []
  | .text s => some s.toList
  | .guarded _ p | .expression _ p => p.written?
  | .both p q => p.written?.bind fun cs => q.written?.map (cs ++ ·)
  | _ => none

variable {p q : Plan} {c c' : Context} {a : Lowered} {cs ds : List Char}

theorem written?_append (hp : p.written? = some cs) (hq : q.written? = some ds) :
    (p ++ q).written? = some (cs ++ ds) := by
  show p.written?.bind _ = _
  rw [hp, hq]
  rfl

theorem written?_groupedIf (b : Bool) {q : Phrase} (hp : p.written? = some q.text) :
    (groupedIf b p).written? = some (Phrase.wrap b q).text := by
  cases b with
  | false => exact hp
  | true => exact written?_append (written?_append (p := text "(") rfl hp) (q := text ")") rfl

/-- **What a plan of texts writes is its text**, where all its nodes are new. -/
theorem Runs.eq_written (h : Runs p c a c') (hfresh : Fresh p.ids c) (hp : p.written? = some cs) :
    a = ⟨.ofList cs, []⟩ := by
  induction h generalizing cs with
  | nothing | mark =>
    obtain rfl := Option.some.inj hp
    rfl
  | text =>
    obtain rfl := Option.some.inj hp
    rw [String.ofList_toList]
  | guardedAgain hid | expressionAgain hid => exact absurd hid (hfresh.2 _ List.mem_cons_self)
  | guarded _ _ ih | expression _ _ _ ih => exact ih hfresh.met hp
  | @both p q c c₁ c₂ a b hrun _ ih₁ ih₂ =>
    obtain ⟨cs₁, h₁, hp⟩ := Option.bind_eq_some_iff.mp hp
    obtain ⟨cs₂, h₂, rfl⟩ := Option.map_eq_some_iff.mp hp
    rw [ih₁ hfresh.left h₁, ih₂ (hrun.fresh hfresh) h₂]
    exact congrArg (Lowered.mk · []) String.ofList_append.symm
  | _ => cases hp

end Plan

open Plan

theorem needsGroup_of_is {t : Term} {n : Node} (h : t.Is n) (op : Syntax.BinaryOperator)
    (onRight : Bool) : (planned n).needsGroup op onRight = t.grouped op onRight := by
  cases h with
  | @before f =>
    cases f with
    | clone | cast type => rfl
    | _ => exact Bool.and_true _
  | @between _ _ o => cases o <;> rfl
  | postInc | postDec => exact Bool.and_false _
  | _ => rfl

theorem needsGroupUnderUnary_of_is {t : Term} {n : Node} (h : t.Is n) :
    (planned n).needsGroupUnderUnary = t.groupedAfter := by
  cases h with
  | @before f => cases f <;> rfl
  | @between _ _ o => cases o <;> rfl
  | _ => rfl

/-- **A term is written as the text of its phrase.** -/
theorem written?_term {t : Term} {n : Node} (h : t.Is n) :
    (planned n).value.written? = some t.phrase.text := by
  have join {p q : Plan} {s : String} {cs ds : List Char} (hp : p.written? = some cs)
      (hq : q.written? = some ds) : (p ++ text s ++ q).written? = some (cs ++ (s.toList ++ ds)) := by
    rw [← List.append_assoc]
    exact written?_append (written?_append hp rfl) hq
  have operand {x : Term} {n : Node} (hn : x.Is n)
      (hx : (planned n).value.written? = some x.phrase.text) :
      (unaryOperand (planned n)).written? = some (Phrase.wrap x.groupedAfter x.phrase).text := by
    rw [← needsGroupUnderUnary_of_is hn]
    exact written?_groupedIf _ hx
  induction h with
  | var => exact congrArg some String.toList_append
  | member _ hp hx hn =>
    cases hp
    exact join hx hn
  | @before f _ _ _ _ _ hn hx =>
    cases f with
    | clone => exact written?_append (p := text "clone ") rfl hx
    | _ => exact written?_append rfl (operand hn hx)
  | postInc hn hx | postDec hn hx => exact written?_append (operand hn hx) rfl
  | @isA x owner _ _ _ _ _ _ ho hx hn =>
    cases ho
    have htext : (Term.after x (.isA owner)).phrase.text
        = x.phrase.text ++ (" instanceof ".toList ++ (Term.var owner).phrase.text) := by
      show x.phrase.text ++ (" instanceof $".toList ++ owner.toList) = _ ++ (_ ++ '$' :: owner.toList)
      simp
    rw [htext]
    exact join hx hn
  | @between l r o m n _ _ _ hm hn hl hr =>
    cases o with
    | op o =>
      have htext : (Term.between l (.op o) r).phrase.text
          = (Phrase.wrap ((planned m).needsGroup o false) l.phrase).text ++
            ((" " ++ o.token ++ " ").toList ++
              (Phrase.wrap ((planned n).needsGroup o true) r.phrase).text) := by
        rw [needsGroup_of_is hm, needsGroup_of_is hn]
        show _ ++ (' ' :: (o.token.toList ++ ' ' :: _)) = _
        simp
      rw [htext]
      exact join (written?_groupedIf _ hl) (written?_groupedIf _ hr)
    | assign =>
      refine (join (s := " = ") hl hr).trans (congrArg some ?_)
      show _ = l.phrase.text ++ (' ' :: ("=".toList ++ ' ' :: r.phrase.text))
      simp
    | fallback =>
      have hopen := written?_append (p := text "(") rfl hl
      refine (written?_append (join (s := " ?: ") hopen hr) (q := text ")") rfl).trans
        (congrArg some ?_)
      show _ = '(' :: ((l.phrase.text ++ (' ' :: ("?:".toList ++ ' ' :: r.phrase.text))) ++ [')'])
      simp
  | @choice c y z _ _ _ _ _ _ _ _ _ hc hy hz =>
    have hopen := written?_append (p := text "(") rfl hc
    refine (written?_append (join (s := " : ") (join (s := " ? ") hopen hy) hz)
      (q := text ")") rfl).trans (congrArg some ?_)
    show _ = '(' :: ((c.phrase.text ++ (" ? ".toList ++ (y.phrase.text ++ (" : ".toList
      ++ z.phrase.text)))) ++ [')'])
    simp

/-- A term has a meaning as a value. -/
theorem meaningful_term {t : Term} {n : Node} (h : t.Is n) : Meaningful .value n := by
  have intro {n : Node} (hs : standing .value n.kind ≠ .wrong) (ht : n.kind.hasToken)
      {xs : List (Role × Node)} (hxs : placed n.kind = xs) (h : ∀ x ∈ xs, Meaningful x.1 x.2) :
      Meaningful .value n := .intro hs ht (hxs ▸ h)
  induction h with
  | var => exact intro nofun rfl rfl nofun
  | @before f _ _ _ _ _ _ hx =>
    cases f <;> exact intro nofun rfl rfl (List.forall_mem_singleton.mpr hx)
  | postInc _ hx | postDec _ hx =>
    exact intro nofun rfl rfl (List.forall_mem_singleton.mpr hx)
  | isA _ ho hx | member _ ho hx =>
    cases ho
    exact intro nofun rfl rfl (List.forall_mem_cons.mpr ⟨hx, List.forall_mem_singleton.mpr
      (.intro nofun rfl nofun)⟩)
  | @between _ _ o _ _ _ _ _ _ _ hl hr =>
    cases o <;> exact intro nofun rfl rfl
      (List.forall_mem_cons.mpr ⟨hl, List.forall_mem_singleton.mpr hr⟩)
  | choice _ _ _ hc hy hz =>
    exact intro nofun rfl rfl (List.forall_mem_cons.mpr ⟨hc, List.forall_mem_cons.mpr
      ⟨hy, List.forall_mem_singleton.mpr hz⟩⟩)

/-- **A term is printed as the text of its phrase**, where its nodes are new and there is room for
its height. -/
theorem exists_runs_term {t : Term} {n : Node} (h : t.Is n) (hids : n.ids.Nodup) {o : Options}
    (ho : height n .value ≤ o.maxDepth) :
    ∃ c, Runs (planned n).value { options := o } ⟨.ofList t.phrase.text, []⟩ c := by
  obtain ⟨hsound, hneed⟩ := need_as (meaningful_term h)
  have hfresh : Fresh (planned n).value.ids { options := o } :=
    Fresh.mono ⟨hids, by simp⟩ (ids_as_subperm n .value)
  have hfits : Fits (planned n).value.need { options := o } := by
    show 0 + ((planned n).as .value).need ≤ o.maxDepth
    omega
  obtain ⟨a, c, hrun⟩ := Plan.exists_runs hsound ⟨hfresh, hfits⟩
  rw [hrun.eq_written hfresh (written?_term h)] at hrun
  exact ⟨c, hrun⟩

end ThreeAddress.Lowering

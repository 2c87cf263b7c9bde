import Mathlib.Order.Lattice.Nat
import ThreeAddress.Lowering.Script
import ThreeAddress.Proofs.Outcome

/-!
# Successful runs of plans

`Plan.Runs` says once what a successful run of a plan does, one rule for every way to put
plans together; **it is exactly success of `Plan.run`** (`Plan.run_gives_iff`). What holds of
all runs is proved by induction on it, without going back to the monad.
-/

namespace ThreeAddress.Lowering

namespace Plan

/-- The plan runs from one context to another and gives a value and instructions. -/
inductive Runs : Plan → Context → Lowered → Context → Prop
  | nothing {c : Context} : Runs .nothing c {} c
  | both {p q : Plan} {c c₁ c₂ : Context} {a b : Lowered} :
      Runs p c a c₁ → Runs q c₁ b c₂ → Runs (.both p q) c (a ++ b) c₂
  | text {s : String} {c : Context} : Runs (.text s) c { value := s } c
  | mark {id : Nat} {c : Context} : Runs (.mark id) c {} (c.met id)
  | guarded {id : Nat} {p : Plan} {c c' : Context} {a : Lowered} :
      id ∉ c.visited → Runs p (c.met id) a c' → Runs (.guarded id p) c a c'
  | guardedAgain {id : Nat} {p : Plan} {c : Context} :
      id ∈ c.visited → Runs (.guarded id p) c {} (c.met id)
  | expression {t : Tag} {p : Plan} {c c' : Context} {a : Lowered} :
      t.id ∉ c.visited → c.depth < c.options.maxDepth → Runs p (c.met t.id).below a c' →
      Runs (.expression t p) c a c'.above
  | expressionAgain {t : Tag} {p : Plan} {c : Context} :
      t.id ∈ c.visited → Runs (.expression t p) c {} (c.met t.id)
  | statement {t : Tag} {p : Plan} {c c' : Context} {a : Lowered} :
      t.id ∉ c.visited → c.depth < c.options.maxDepth →
      Runs p ((c.met t.id).told (.statement t)).below a c' →
      Runs (.statement t p) c a c'.above
  | statementAgain {t : Tag} {p : Plan} {c : Context} :
      t.id ∈ c.visited → Runs (.statement t p) c {} (c.met t.id)
  | unlessEmpty {before after : String} {p : Plan} {c c' : Context} {a : Lowered} :
      Runs p c a c' → Runs (.unlessEmpty before p after) c (a.wrapped before after) c'
  | compact {p : Plan} {c c' : Context} {a : Lowered} :
      Runs p c a c' →
      Runs (.compact p) c { a with value := String.ofList (compactChars a.value.toList) } c'
  | shownBefore {p q : Plan} {c c₁ c₂ : Context} {a b : Lowered} :
      Runs q c b c₁ → Runs p c₁ a c₂ →
      Runs (.shownBefore p q) c ⟨a.value ++ b.value, b.effects ++ a.effects⟩ c₂
  | bind {p : Plan} {c c' : Context} {a : Lowered} :
      Runs p c a c' →
      Runs (.bind p) c ⟨temporary c'.temps,
        a.effects ++ [.text (temporary c'.temps ++ " = " ++ a.value ++ ";")]⟩ c'.temped
  | closed {header body : Plan} {c c₁ c₂ : Context} {a b : Lowered} :
      Runs header c a c₁ → Runs body (c₁.framed []) b c₂ →
      Runs (.closed header body) c { value := a.value ++ inBraces (a.effects ++ b.effects) }
        (c₂.framed c₁.frames)
  | effects {p : Plan} {c c' : Context} {a : Lowered} :
      Runs p c a c' → Runs (.effects p) c (.ofCode a.effects) c'
  | line {p : Plan} {c c' : Context} {a : Lowered} :
      Runs p c a c' → Runs (.line p) c a.asLine c'
  | valueLine {p : Plan} {c c' : Context} {a : Lowered} :
      Runs p c a c' → Runs (.valueLine p) c a.asValueLine c'
  | emit {i : Instruction} {c : Context} : Runs (.emit i) c (.ofCode [i]) c
  | jump {j : Jump} {levels : Option Nat} {c : Context} :
      Runs (.jump j levels) c (.ofCode [c.jump j levels]) c
  | closeCase {c : Context} :
      Runs .closeCase c
        (.ofCode (if c.options.switchFallthrough then [] else [.text "break;"])) c
  | ifThen {condition thenBranch : Plan} {c c₁ c₂ : Context} {a b : Lowered} :
      Runs condition c a c₁ → Runs thenBranch c₁.labelled b c₂ →
      Runs (.ifThen condition thenBranch) c
        (.ofCode (Shape.ifThen a (.ofNat c₁.labels) b.effects)) c₂
  | ifThenElse {condition thenBranch elseBranch : Plan} {c c₁ c₂ c₃ : Context}
      {a b d : Lowered} :
      Runs condition c a c₁ → Runs thenBranch c₁.labelled.labelled b c₂ →
      Runs elseBranch c₂ d c₃ →
      Runs (.ifThenElse condition thenBranch elseBranch) c
        (.ofCode (Shape.ifThenElse a (.ofNat c₁.labels) (Labels.ofNat (c₁.labels + 1)).start
          b.effects d.effects)) c₃
  | whileLoop {condition body : Plan} {c c₁ c₂ : Context} {a b : Lowered} :
      Runs condition c.labelled.labelled a c₁ →
      Runs body (c₁.framed (.loop (Labels.ofNat c.labels).stop (Labels.ofNat c.labels).start ::
        c₁.frames)) b c₂ →
      Runs (.whileLoop condition body) c
        (.ofCode (Shape.whileLoop a (.ofNat c.labels) (Labels.ofNat (c.labels + 1)).start
          b.effects)) (c₂.framed c₁.frames)
  | doWhile {body condition : Plan} {c c₁ c₂ : Context} {a b : Lowered} :
      Runs body (c.labelled.labelled.framed (.loop (Labels.ofNat c.labels).stop
        (Labels.ofNat (c.labels + 1)).start :: c.frames)) b c₁ →
      Runs condition (c₁.framed c.frames) a c₂ →
      Runs (.doWhile body condition) c
        (.ofCode (Shape.doWhile a (.ofNat c.labels) (Labels.ofNat (c.labels + 1)).start
          b.effects)) c₂
  | barrier {condition : Plan} {c c₁ : Context} {a : Lowered} :
      Runs condition c a c₁ →
      Runs (.barrier condition) c
        (.ofCode (Shape.barrier a (Labels.ofNat c₁.labels).stop (c₁.jump .leave none)))
        c₁.labelled
  | forLoop {init barriers test step body : Plan} {c c₁ c₂ c₃ c₄ c₅ : Context}
      {i g a b s : Lowered} :
      Runs init c i c₁ →
      Runs barriers (c₁.labelled.labelled.labelled.framed
        (.loop (Labels.ofNat c₁.labels).stop (Labels.ofNat (c₁.labels + 2)).start ::
          c₁.frames)) g c₂ →
      Runs test (c₂.framed c₁.frames) a c₃ →
      Runs body (c₃.framed (.loop (Labels.ofNat c₁.labels).stop
        (Labels.ofNat (c₁.labels + 2)).start :: c₃.frames)) b c₄ →
      Runs step (c₄.framed c₃.frames) s c₅ →
      Runs (.forLoop init barriers test step body) c
        (.ofCode (Shape.forLoop i.effects (g.effects ++ Shape.test a
            (Labels.ofNat (c₁.labels + 1)).start (Labels.ofNat c₁.labels).stop)
          s.effects (.ofNat c₁.labels) (Labels.ofNat (c₁.labels + 1)).start
          (Labels.ofNat (c₁.labels + 2)).start b.effects)) c₅
  | endless {init step body : Plan} {c c₁ c₂ c₃ : Context} {i b s : Lowered} :
      Runs init c i c₁ →
      Runs body (c₁.labelled.labelled.labelled.framed
        (.loop (Labels.ofNat c₁.labels).stop (Labels.ofNat (c₁.labels + 2)).start ::
          c₁.frames)) b c₂ →
      Runs step (c₂.framed c₁.frames) s c₃ →
      Runs (.endless init step body) c
        (.ofCode (Shape.forLoop i.effects [] s.effects (.ofNat c₁.labels)
          (Labels.ofNat (c₁.labels + 1)).start (Labels.ofNat (c₁.labels + 2)).start
          b.effects)) c₃
  | foreachLoop {iterable binding body : Plan} {c c₁ c₂ c₃ : Context} {i v b : Lowered} :
      Runs iterable c i c₁ → Runs binding c₁ v c₂ →
      Runs body (c₂.labelled.labelled.framed (.loop (Labels.ofNat c₂.labels).stop
        (Labels.ofNat (c₂.labels + 1)).start :: c₂.frames)) b c₃ →
      Runs (.foreachLoop iterable binding body) c
        (.ofCode (Shape.foreachLoop i v (.ofNat c₂.labels) (Labels.ofNat (c₂.labels + 1)).start
          b.effects)) (c₃.framed c₂.frames)
  | inSwitch {p : Plan} {c c' : Context} {a : Lowered} :
      Runs p (c.framed (.switch :: c.frames)) a c' →
      Runs (.inSwitch p) c a (c'.framed c.frames)
  | apart {p : Plan} {c c' : Context} {a : Lowered} :
      Runs p (c.framed []) a c' → Runs (.apart p) c a (c'.framed c.frames)
  | declared {kind : String} {p : Plan} {c c' : Context} {a : Lowered} :
      Runs p c a c' →
      Runs (.declared kind p) c a (c'.told (.declaration kind a.effects.length))

open Lower

theorem Runs.gives {p : Plan} {c c' : Context} {a : Lowered} (h : Runs p c a c') :
    p.run.Gives c a c' := by
  have done {b : Lowered} {d : Context} : (pure b : Lower Lowered).Gives d b d :=
    gives_pure.mpr ⟨rfl, rfl⟩
  induction h with
  | nothing => exact done
  | both _ _ hp hq => exact gives_bind.mpr ⟨_, _, hp, gives_bind.mpr ⟨_, _, hq, done⟩⟩
  | text => exact done
  | mark => exact gives_bind.mpr ⟨(), _, gives_mark.mpr rfl, done⟩
  | @guarded id p c c' a hid _ hp =>
    have hnew : c.visited.contains id = false := by simpa using hid
    exact gives_bind.mpr ⟨true, _, gives_enter.mpr ⟨by rw [hnew]; rfl, rfl⟩, hp⟩
  | @guardedAgain id p c hid =>
    have hold : c.visited.contains id = true := by simpa using hid
    exact gives_bind.mpr ⟨false, _, gives_enter.mpr ⟨by rw [hold]; rfl, rfl⟩, done⟩
  | @expression t p c c' a hid hd _ hp =>
    have hnew : c.visited.contains t.id = false := by simpa using hid
    exact gives_bind.mpr ⟨true, _, gives_enter.mpr ⟨by rw [hnew]; rfl, rfl⟩,
      gives_bind.mpr ⟨(), _, gives_descend.mpr ⟨hd, rfl⟩, gives_bind.mpr ⟨_, _, hp,
        gives_bind.mpr ⟨(), _, gives_ascend.mpr rfl, done⟩⟩⟩⟩
  | @expressionAgain t p c hid =>
    have hold : c.visited.contains t.id = true := by simpa using hid
    exact gives_bind.mpr ⟨false, _, gives_enter.mpr ⟨by rw [hold]; rfl, rfl⟩, done⟩
  | @statement t p c c' a hid hd _ hp =>
    have hnew : c.visited.contains t.id = false := by simpa using hid
    exact gives_bind.mpr ⟨true, _, gives_enter.mpr ⟨by rw [hnew]; rfl, rfl⟩,
      gives_bind.mpr ⟨(), _, gives_tell.mpr rfl, gives_bind.mpr ⟨(), _,
        gives_descend.mpr ⟨hd, rfl⟩, gives_bind.mpr ⟨_, _, hp,
          gives_bind.mpr ⟨(), _, gives_ascend.mpr rfl, done⟩⟩⟩⟩⟩
  | @statementAgain t p c hid =>
    have hold : c.visited.contains t.id = true := by simpa using hid
    exact gives_bind.mpr ⟨false, _, gives_enter.mpr ⟨by rw [hold]; rfl, rfl⟩, done⟩
  | unlessEmpty _ hp => exact gives_bind.mpr ⟨_, _, hp, done⟩
  | compact _ hp => exact gives_bind.mpr ⟨_, _, hp, done⟩
  | shownBefore _ _ hq hp => exact gives_bind.mpr ⟨_, _, hq, gives_bind.mpr ⟨_, _, hp, done⟩⟩
  | bind _ hp =>
    exact gives_bind.mpr ⟨_, _, hp, gives_bind.mpr ⟨_, _, gives_newTemp.mpr ⟨rfl, rfl⟩, done⟩⟩
  | closed _ _ hh hb =>
    exact gives_bind.mpr ⟨_, _, hh, gives_bind.mpr ⟨_, _,
      gives_withFrames.mpr ⟨_, hb, rfl⟩, done⟩⟩
  | effects _ hp => exact gives_bind.mpr ⟨_, _, hp, done⟩
  | line _ hp => exact gives_bind.mpr ⟨_, _, hp, done⟩
  | valueLine _ hp => exact gives_bind.mpr ⟨_, _, hp, done⟩
  | emit => exact done
  | jump => exact gives_bind.mpr ⟨_, _, gives_get.mpr ⟨rfl, rfl⟩, done⟩
  | closeCase => exact gives_bind.mpr ⟨_, _, gives_get.mpr ⟨rfl, rfl⟩, done⟩
  | ifThen _ _ hc ht =>
    exact gives_bind.mpr ⟨_, _, hc, gives_bind.mpr ⟨_, _, gives_newLabels.mpr ⟨rfl, rfl⟩,
      gives_bind.mpr ⟨_, _, ht, done⟩⟩⟩
  | ifThenElse _ _ _ hc ht he =>
    exact gives_bind.mpr ⟨_, _, hc, gives_bind.mpr ⟨_, _, gives_newLabels.mpr ⟨rfl, rfl⟩,
      gives_bind.mpr ⟨_, _, gives_newLabels.mpr ⟨rfl, rfl⟩, gives_bind.mpr ⟨_, _, ht,
        gives_bind.mpr ⟨_, _, he, done⟩⟩⟩⟩⟩
  | whileLoop _ _ hc hb =>
    exact gives_bind.mpr ⟨_, _, gives_newLabels.mpr ⟨rfl, rfl⟩, gives_bind.mpr ⟨_, _,
      gives_newLabels.mpr ⟨rfl, rfl⟩, gives_bind.mpr ⟨_, _, hc, gives_bind.mpr ⟨_, _,
        gives_withFrames.mpr ⟨_, hb, rfl⟩, done⟩⟩⟩⟩
  | doWhile _ _ hb hc =>
    exact gives_bind.mpr ⟨_, _, gives_newLabels.mpr ⟨rfl, rfl⟩, gives_bind.mpr ⟨_, _,
      gives_newLabels.mpr ⟨rfl, rfl⟩, gives_bind.mpr ⟨_, _,
        gives_withFrames.mpr ⟨_, hb, rfl⟩, gives_bind.mpr ⟨_, _, hc, done⟩⟩⟩⟩
  | barrier _ hc =>
    exact gives_bind.mpr ⟨_, _, hc, gives_bind.mpr ⟨_, _, gives_newLabels.mpr ⟨rfl, rfl⟩,
      gives_bind.mpr ⟨_, _, gives_get.mpr ⟨rfl, rfl⟩, done⟩⟩⟩
  | forLoop _ _ _ _ _ hi hg hc hb hs =>
    exact gives_bind.mpr ⟨_, _, hi, gives_bind.mpr ⟨_, _, gives_newLabels.mpr ⟨rfl, rfl⟩,
      gives_bind.mpr ⟨_, _, gives_newLabels.mpr ⟨rfl, rfl⟩, gives_bind.mpr ⟨_, _,
        gives_newLabels.mpr ⟨rfl, rfl⟩, gives_bind.mpr ⟨_, _,
          gives_withFrames.mpr ⟨_, hg, rfl⟩, gives_bind.mpr ⟨_, _, hc, gives_bind.mpr ⟨_, _,
            gives_withFrames.mpr ⟨_, hb, rfl⟩, gives_bind.mpr ⟨_, _, hs, done⟩⟩⟩⟩⟩⟩⟩⟩
  | endless _ _ _ hi hb hs =>
    exact gives_bind.mpr ⟨_, _, hi, gives_bind.mpr ⟨_, _, gives_newLabels.mpr ⟨rfl, rfl⟩,
      gives_bind.mpr ⟨_, _, gives_newLabels.mpr ⟨rfl, rfl⟩, gives_bind.mpr ⟨_, _,
        gives_newLabels.mpr ⟨rfl, rfl⟩, gives_bind.mpr ⟨_, _,
          gives_withFrames.mpr ⟨_, hb, rfl⟩, gives_bind.mpr ⟨_, _, hs, done⟩⟩⟩⟩⟩⟩
  | foreachLoop _ _ _ hi hv hb =>
    exact gives_bind.mpr ⟨_, _, hi, gives_bind.mpr ⟨_, _, hv, gives_bind.mpr ⟨_, _,
      gives_newLabels.mpr ⟨rfl, rfl⟩, gives_bind.mpr ⟨_, _, gives_newLabels.mpr ⟨rfl, rfl⟩,
        gives_bind.mpr ⟨_, _, gives_withFrames.mpr ⟨_, hb, rfl⟩, done⟩⟩⟩⟩⟩
  | inSwitch _ hp => exact gives_withFrames.mpr ⟨_, hp, rfl⟩
  | apart _ hp => exact gives_withFrames (f := fun _ => []).mpr ⟨_, hp, rfl⟩
  | declared _ hp =>
    exact gives_bind.mpr ⟨_, _, hp, gives_bind.mpr ⟨(), _, gives_tell.mpr rfl, done⟩⟩

theorem runs_of_gives {p : Plan} {c c' : Context} {a : Lowered} (h : p.run.Gives c a c') :
    Runs p c a c' := by
  induction p generalizing c a c' with
  | nothing | text | emit =>
    obtain ⟨rfl, rfl⟩ := gives_pure.mp h
    constructor
  | both p q hp hq =>
    obtain ⟨_, _, h₁, h⟩ := gives_bind.mp h
    obtain ⟨_, _, h₂, h⟩ := gives_bind.mp h
    obtain ⟨rfl, rfl⟩ := gives_pure.mp h
    exact .both (hp h₁) (hq h₂)
  | mark id =>
    obtain ⟨_, _, h₁, h⟩ := gives_bind.mp h
    obtain rfl := gives_mark.mp h₁
    obtain ⟨rfl, rfl⟩ := gives_pure.mp h
    exact .mark
  | guarded id p hp =>
    obtain ⟨b, _, h₁, h⟩ := gives_bind.mp h
    obtain ⟨hb, rfl⟩ := gives_enter.mp h₁
    cases b with
    | true => exact .guarded (by simpa using hb.symm) (hp h)
    | false =>
      obtain ⟨rfl, rfl⟩ := gives_pure.mp h
      exact .guardedAgain (by simpa using hb.symm)
  | expression t p hp =>
    obtain ⟨b, _, h₁, h⟩ := gives_bind.mp h
    obtain ⟨hb, rfl⟩ := gives_enter.mp h₁
    cases b with
    | true =>
      obtain ⟨_, _, h₂, h⟩ := gives_bind.mp h
      obtain ⟨hd, rfl⟩ := gives_descend.mp h₂
      obtain ⟨_, _, h₃, h⟩ := gives_bind.mp h
      obtain ⟨_, _, h₄, h⟩ := gives_bind.mp h
      obtain rfl := gives_ascend.mp h₄
      obtain ⟨rfl, rfl⟩ := gives_pure.mp h
      exact .expression (by simpa using hb.symm) hd (hp h₃)
    | false =>
      obtain ⟨rfl, rfl⟩ := gives_pure.mp h
      exact .expressionAgain (by simpa using hb.symm)
  | statement t p hp =>
    obtain ⟨b, _, h₁, h⟩ := gives_bind.mp h
    obtain ⟨hb, rfl⟩ := gives_enter.mp h₁
    cases b with
    | true =>
      obtain ⟨_, _, h₂, h⟩ := gives_bind.mp h
      obtain rfl := gives_tell.mp h₂
      obtain ⟨_, _, h₃, h⟩ := gives_bind.mp h
      obtain ⟨hd, rfl⟩ := gives_descend.mp h₃
      obtain ⟨_, _, h₄, h⟩ := gives_bind.mp h
      obtain ⟨_, _, h₅, h⟩ := gives_bind.mp h
      obtain rfl := gives_ascend.mp h₅
      obtain ⟨rfl, rfl⟩ := gives_pure.mp h
      exact .statement (by simpa using hb.symm) hd (hp h₄)
    | false =>
      obtain ⟨rfl, rfl⟩ := gives_pure.mp h
      exact .statementAgain (by simpa using hb.symm)
  | fail e => exact absurd h not_gives_throw
  | unlessEmpty before p after hp =>
    obtain ⟨_, _, h₁, h⟩ := gives_bind.mp h
    obtain ⟨rfl, rfl⟩ := gives_pure.mp h
    exact .unlessEmpty (hp h₁)
  | compact p hp =>
    obtain ⟨_, _, h₁, h⟩ := gives_bind.mp h
    obtain ⟨rfl, rfl⟩ := gives_pure.mp h
    exact .compact (hp h₁)
  | shownBefore p q hp hq =>
    obtain ⟨_, _, h₁, h⟩ := gives_bind.mp h
    obtain ⟨_, _, h₂, h⟩ := gives_bind.mp h
    obtain ⟨rfl, rfl⟩ := gives_pure.mp h
    exact .shownBefore (hq h₁) (hp h₂)
  | bind p hp =>
    obtain ⟨_, _, h₁, h⟩ := gives_bind.mp h
    obtain ⟨_, _, h₂, h⟩ := gives_bind.mp h
    obtain ⟨rfl, rfl⟩ := gives_newTemp.mp h₂
    obtain ⟨rfl, rfl⟩ := gives_pure.mp h
    exact .bind (hp h₁)
  | closed header body hh hb =>
    obtain ⟨_, _, h₁, h⟩ := gives_bind.mp h
    obtain ⟨_, _, h₂, h⟩ := gives_bind.mp h
    obtain ⟨_, w₂, rfl⟩ := gives_withFrames.mp h₂
    obtain ⟨rfl, rfl⟩ := gives_pure.mp h
    exact .closed (hh h₁) (hb w₂)
  | effects p hp =>
    obtain ⟨_, _, h₁, h⟩ := gives_bind.mp h
    obtain ⟨rfl, rfl⟩ := gives_pure.mp h
    exact .effects (hp h₁)
  | line p hp =>
    obtain ⟨_, _, h₁, h⟩ := gives_bind.mp h
    obtain ⟨rfl, rfl⟩ := gives_pure.mp h
    exact .line (hp h₁)
  | valueLine p hp =>
    obtain ⟨_, _, h₁, h⟩ := gives_bind.mp h
    obtain ⟨rfl, rfl⟩ := gives_pure.mp h
    exact .valueLine (hp h₁)
  | jump j levels =>
    obtain ⟨_, _, h₁, h⟩ := gives_bind.mp h
    obtain ⟨rfl, rfl⟩ := gives_get.mp h₁
    obtain ⟨rfl, rfl⟩ := gives_pure.mp h
    exact .jump
  | closeCase =>
    obtain ⟨_, _, h₁, h⟩ := gives_bind.mp h
    obtain ⟨rfl, rfl⟩ := gives_get.mp h₁
    obtain ⟨rfl, rfl⟩ := gives_pure.mp h
    exact .closeCase
  | ifThen condition thenBranch hc ht =>
    obtain ⟨_, _, h₁, h⟩ := gives_bind.mp h
    obtain ⟨_, _, hl, h⟩ := gives_bind.mp h
    obtain ⟨rfl, rfl⟩ := gives_newLabels.mp hl
    obtain ⟨_, _, h₂, h⟩ := gives_bind.mp h
    obtain ⟨rfl, rfl⟩ := gives_pure.mp h
    exact .ifThen (hc h₁) (ht h₂)
  | ifThenElse condition thenBranch elseBranch hc ht he =>
    obtain ⟨_, _, h₁, h⟩ := gives_bind.mp h
    obtain ⟨_, _, hl, h⟩ := gives_bind.mp h
    obtain ⟨rfl, rfl⟩ := gives_newLabels.mp hl
    obtain ⟨_, _, ho, h⟩ := gives_bind.mp h
    obtain ⟨rfl, rfl⟩ := gives_newLabels.mp ho
    obtain ⟨_, _, h₂, h⟩ := gives_bind.mp h
    obtain ⟨_, _, h₃, h⟩ := gives_bind.mp h
    obtain ⟨rfl, rfl⟩ := gives_pure.mp h
    exact .ifThenElse (hc h₁) (ht h₂) (he h₃)
  | whileLoop condition body hc hb =>
    obtain ⟨_, _, hl, h⟩ := gives_bind.mp h
    obtain ⟨rfl, rfl⟩ := gives_newLabels.mp hl
    obtain ⟨_, _, hr, h⟩ := gives_bind.mp h
    obtain ⟨rfl, rfl⟩ := gives_newLabels.mp hr
    obtain ⟨_, _, h₁, h⟩ := gives_bind.mp h
    obtain ⟨_, _, h₂, h⟩ := gives_bind.mp h
    obtain ⟨_, w₂, rfl⟩ := gives_withFrames.mp h₂
    obtain ⟨rfl, rfl⟩ := gives_pure.mp h
    exact .whileLoop (hc h₁) (hb w₂)
  | doWhile body condition hb hc =>
    obtain ⟨_, _, hl, h⟩ := gives_bind.mp h
    obtain ⟨rfl, rfl⟩ := gives_newLabels.mp hl
    obtain ⟨_, _, hr, h⟩ := gives_bind.mp h
    obtain ⟨rfl, rfl⟩ := gives_newLabels.mp hr
    obtain ⟨_, _, h₁, h⟩ := gives_bind.mp h
    obtain ⟨_, w₁, rfl⟩ := gives_withFrames.mp h₁
    obtain ⟨_, _, h₂, h⟩ := gives_bind.mp h
    obtain ⟨rfl, rfl⟩ := gives_pure.mp h
    exact .doWhile (hb w₁) (hc h₂)
  | barrier condition hc =>
    obtain ⟨_, _, h₁, h⟩ := gives_bind.mp h
    obtain ⟨_, _, hl, h⟩ := gives_bind.mp h
    obtain ⟨rfl, rfl⟩ := gives_newLabels.mp hl
    obtain ⟨_, _, hg, h⟩ := gives_bind.mp h
    obtain ⟨rfl, rfl⟩ := gives_get.mp hg
    obtain ⟨rfl, rfl⟩ := gives_pure.mp h
    exact .barrier (hc h₁)
  | forLoop init barriers test step body hi hg hc hs hb =>
    obtain ⟨_, _, h₁, h⟩ := gives_bind.mp h
    obtain ⟨_, _, hl, h⟩ := gives_bind.mp h
    obtain ⟨rfl, rfl⟩ := gives_newLabels.mp hl
    obtain ⟨_, _, hr, h⟩ := gives_bind.mp h
    obtain ⟨rfl, rfl⟩ := gives_newLabels.mp hr
    obtain ⟨_, _, hn, h⟩ := gives_bind.mp h
    obtain ⟨rfl, rfl⟩ := gives_newLabels.mp hn
    obtain ⟨_, _, h₂, h⟩ := gives_bind.mp h
    obtain ⟨_, w₂, rfl⟩ := gives_withFrames.mp h₂
    obtain ⟨_, _, h₃, h⟩ := gives_bind.mp h
    obtain ⟨_, _, h₄, h⟩ := gives_bind.mp h
    obtain ⟨_, w₄, rfl⟩ := gives_withFrames.mp h₄
    obtain ⟨_, _, h₅, h⟩ := gives_bind.mp h
    obtain ⟨rfl, rfl⟩ := gives_pure.mp h
    exact .forLoop (hi h₁) (hg w₂) (hc h₃) (hb w₄) (hs h₅)
  | endless init step body hi hs hb =>
    obtain ⟨_, _, h₁, h⟩ := gives_bind.mp h
    obtain ⟨_, _, hl, h⟩ := gives_bind.mp h
    obtain ⟨rfl, rfl⟩ := gives_newLabels.mp hl
    obtain ⟨_, _, hr, h⟩ := gives_bind.mp h
    obtain ⟨rfl, rfl⟩ := gives_newLabels.mp hr
    obtain ⟨_, _, hn, h⟩ := gives_bind.mp h
    obtain ⟨rfl, rfl⟩ := gives_newLabels.mp hn
    obtain ⟨_, _, h₂, h⟩ := gives_bind.mp h
    obtain ⟨_, w₂, rfl⟩ := gives_withFrames.mp h₂
    obtain ⟨_, _, h₃, h⟩ := gives_bind.mp h
    obtain ⟨rfl, rfl⟩ := gives_pure.mp h
    exact .endless (hi h₁) (hb w₂) (hs h₃)
  | foreachLoop iterable binding body hi hv hb =>
    obtain ⟨_, _, h₁, h⟩ := gives_bind.mp h
    obtain ⟨_, _, h₂, h⟩ := gives_bind.mp h
    obtain ⟨_, _, hl, h⟩ := gives_bind.mp h
    obtain ⟨rfl, rfl⟩ := gives_newLabels.mp hl
    obtain ⟨_, _, hn, h⟩ := gives_bind.mp h
    obtain ⟨rfl, rfl⟩ := gives_newLabels.mp hn
    obtain ⟨_, _, h₃, h⟩ := gives_bind.mp h
    obtain ⟨_, w₃, rfl⟩ := gives_withFrames.mp h₃
    obtain ⟨rfl, rfl⟩ := gives_pure.mp h
    exact .foreachLoop (hi h₁) (hv h₂) (hb w₃)
  | inSwitch p hp =>
    obtain ⟨_, h₁, rfl⟩ := gives_withFrames.mp h
    exact .inSwitch (hp h₁)
  | apart p hp =>
    obtain ⟨_, h₁, rfl⟩ := gives_withFrames (f := fun _ => []).mp h
    exact .apart (hp h₁)
  | declared kind p hp =>
    obtain ⟨_, _, h₁, h⟩ := gives_bind.mp h
    obtain ⟨_, _, h₂, h⟩ := gives_bind.mp h
    obtain rfl := gives_tell.mp h₂
    obtain ⟨rfl, rfl⟩ := gives_pure.mp h
    exact .declared (hp h₁)

/-- **The rules describe all successful runs and nothing else.** -/
theorem run_gives_iff {p : Plan} {c c' : Context} {a : Lowered} :
    p.run.Gives c a c' ↔ Runs p c a c' :=
  ⟨runs_of_gives, Runs.gives⟩

/-- A run leaves the frames as they were. -/
theorem Runs.frames_eq {p : Plan} {c c' : Context} {a : Lowered} (h : Runs p c a c') :
    c'.frames = c.frames := by
  induction h with
  | both _ _ hp hq => rw [hq, hp]
  | shownBefore _ _ hq hp => rw [hp, hq]
  | closed _ _ hh _ => exact hh
  | ifThen _ _ hc ht => exact ht.trans hc
  | ifThenElse _ _ _ hc ht he => exact he.trans (ht.trans hc)
  | whileLoop _ _ hc _ => exact hc
  | doWhile _ _ _ hc => exact hc
  | forLoop _ _ _ _ _ hi _ hc _ hs => exact hs.trans (hc.trans hi)
  | endless _ _ _ hi _ hs => exact hs.trans hi
  | foreachLoop _ _ _ hi hv _ => exact hv.trans hi
  | nothing | text | mark | guardedAgain | expressionAgain | statementAgain | emit | jump
  | closeCase | inSwitch | apart => rfl
  | guarded _ _ hp | expression _ _ _ hp | statement _ _ _ hp | unlessEmpty _ hp
  | compact _ hp | bind _ hp | effects _ hp | line _ hp | valueLine _ hp | barrier _ hp
  | declared _ hp => exact hp

/-- A run hands out labels and never takes any back. -/
theorem Runs.labels_le {p : Plan} {c c' : Context} {a : Lowered} (h : Runs p c a c') :
    c.labels ≤ c'.labels := by
  have next (d : Context) : d.labels ≤ d.labelled.labels := Nat.le_succ _
  induction h with
  | nothing | text | mark | guardedAgain | expressionAgain | statementAgain | emit | jump
  | closeCase => exact Nat.le_refl _
  | guarded _ _ hp | expression _ _ _ hp | statement _ _ _ hp | unlessEmpty _ hp
  | compact _ hp | bind _ hp | effects _ hp | line _ hp | valueLine _ hp | inSwitch _ hp
  | apart _ hp | declared _ hp => exact hp
  | both _ _ h₁ h₂ | shownBefore _ _ h₁ h₂ | closed _ _ h₁ h₂ => exact h₁.trans h₂
  | ifThen _ _ hc ht => exact hc.trans ((next _).trans ht)
  | ifThenElse _ _ _ hc ht he =>
    exact hc.trans ((next _).trans ((next _).trans (ht.trans he)))
  | whileLoop _ _ hc hb => exact (next _).trans ((next _).trans (hc.trans hb))
  | doWhile _ _ hb hc => exact (next _).trans ((next _).trans (hb.trans hc))
  | barrier _ hc => exact hc.trans (next _)
  | forLoop _ _ _ _ _ hi hg hc hb hs =>
    exact hi.trans ((next _).trans ((next _).trans ((next _).trans
      (hg.trans (hc.trans (hb.trans hs))))))
  | endless _ _ _ hi hb hs =>
    exact hi.trans ((next _).trans ((next _).trans ((next _).trans (hb.trans hs))))
  | foreachLoop _ _ _ hi hv hb =>
    exact hi.trans (hv.trans ((next _).trans ((next _).trans hb)))

end Plan

/-- **A listing is what a run of the plan of its root writes.** -/
theorem listing_eq_ok_iff {n : Syntax.Node} {o : Options} {l : Listing} :
    listing n o = .ok l ↔
      ∃ a c, Plan.Runs (planned n).code { options := o } a c ∧ l = ⟨a.effects⟩ := by
  have hfst : listing n o = ((lowerScript n).outcome { options := o }).1 := rfl
  have hok : listing n o = .ok l ↔ ∃ c, (lowerScript n).Gives { options := o } l c := by
    rw [hfst]
    unfold Lower.Gives
    exact ⟨fun h => ⟨_, Prod.ext h rfl⟩, fun ⟨c, h⟩ => congrArg Prod.fst h⟩
  unfold lowerScript at hok
  simp only [Lower.gives_bind, Lower.gives_tell, Lower.gives_pure, Plan.run_gives_iff] at hok
  rw [hok]
  constructor
  · rintro ⟨_, a, c, h, _, _, rfl, rfl, rfl⟩
    exact ⟨a, c, h, rfl⟩
  · rintro ⟨a, c, h, rfl⟩
    exact ⟨_, a, c, h, (), _, rfl, rfl, rfl⟩

end ThreeAddress.Lowering

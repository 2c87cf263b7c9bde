import ThreeAddress.Proofs.Progress
import ThreeAddress.Proofs.Tokens

/-!
# The trees of the grammar

What is known of every tree that a match leaves, whatever the text: below every rule its children
come as its definition says, and a token that is looked up in a table spells one of its entries.
**Every tree of a parse is grown like this** (`parse_grown`).
-/

namespace ThreeAddress.Grammar

/-- The tree and all trees in it are as the definitions of their rules say. -/
inductive Grown : ParseTree → Prop
  | intro {t : ParseTree} :
      (t.rule.definition.mode ≠ .atomic →
        t.rule.definition.body.Yields ParseTree.OfRule t.children) →
      t.rule.Spelled t.extent.chars → (∀ u ∈ t.children, Grown u) → Grown t

/-- A rule leaves grown trees. -/
theorem Rule.run_grown {n : Nat} {r : Rule} {sc : Scope} {s s' : State} {ts : List ParseTree}
    (h : Rule.run n r sc s = .matched s' ts) : Shaped Grown sc (.rule r) ts := by
  refine Rule.run_matched (fun {n sc r s s' ts} hbody hshape hgrown => ?_) h
  refine .intro hshape ?_ hgrown
  obtain ⟨cs, hcs, hspells⟩ :=
    Pattern.run_spells between_reads (fun q => Rule.run_spelled n q _) _ _ _ _ hbody
  have hchars : (⟨s.cursor, s'.cursor⟩ : Extent).chars = cs := hcs.textTo_eq
  exact hchars ▸ r.spelled_of_spells cs hspells

/-- **A text that the grammar matches is read as a grown script.** -/
theorem parse_grown {text : String} {t : ParseTree} (h : parse text = .tree t) :
    t.rule = .script ∧ Grown t := by
  unfold parse parseWithin at h
  cases hr : Rule.run (boundFor text.length) .script ⟨.spaced, .none⟩ ⟨.ofText text, [], .none⟩ with
  | failed a | exhausted => simp [hr] at h
  | matched s ts =>
    obtain ⟨hone, hgrown⟩ := Rule.run_grown hr
    obtain ⟨u, rfl, hrule⟩ := hone nofun
    simp only [hr, Parse.tree.injEq] at h
    exact h ▸ ⟨hrule, hgrown u List.mem_cons_self⟩

end ThreeAddress.Grammar

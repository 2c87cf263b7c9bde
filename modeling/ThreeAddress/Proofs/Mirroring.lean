import ThreeAddress.Proofs.Schedules

/-!
# Where outputs are found

The output of a file has the names of the file below the output directory, however the directory
was written: with slashes at its end, with dots inside, or as dots alone. **There is one exception**:
with a dot in front of its names, the names of the directory itself come in between
(`convertFolder_mirrors`), and if only a slash follows the dots, nothing is found at all.
-/

namespace ThreeAddress

/-- The steps of a path that is read from a directory. -/
theorem Path.steps_join {p q : Path} {x : String} {rest : List String}
    (hp : p.segments = x :: rest) (hx : x ≠ "") (hq : q.parts = (.nothing, q.segments)) :
    (p.join q).steps = (⟨p.stem⟩ : Path).steps ++ q.segments.filterMap step? := by
  obtain ⟨rest', hstem⟩ := stem_eq_cons hp hx
  have hsegments := segments_join (p := p) (q := q) (by rw [hq]; simp)
  obtain ⟨-, hparts⟩ := parts_append (p := ⟨p.stem⟩) hstem hx q.segments
  have hjoin : p.join q = ⟨p.stem ++ q.segments⟩ := by rw [← hsegments]
  rw [hjoin, steps, hparts, steps, List.filterMap_append, List.append_assoc]

namespace Batch

open FileTree Session

namespace Apart

variable {tree : FileTree} {name : String} {o : Options} {place target : List String}
  (h : Apart tree name o.outputSuffix place target) {root : Path}
  (hroot : searchRoot? (.ofText name) = some root)

include h hroot

/-- The output path of a file: with a dot in front of the directory, the found path as a whole. -/
theorem outputPath_found (out : Path) {r : List String} (hr : r ∈ scriptsBelow tree place) :
    outputPath (.ofText name) out (root.join ⟨r⟩) =
      out.join (if (Path.ofText name).parts.1 = .here then root.join ⟨r⟩ else ⟨r⟩) := by
  obtain ⟨-, hsteps, hrel⟩ := check_eq_ok_iff.mp h.reach.1
  rw [h.join_found hroot hr, outputPath, (h.isSearchRoot hroot).under_found
    (fun s hs => (h.names hr s hs).1) hrel hsteps]

/-- The names of the directory come in between exactly if it has any and a dot in front. -/
theorem same_join_iff {r : List String} (hr : r ∈ scriptsBelow tree place) :
    (outputPath (.ofText name) (outputRoot (.ofText name) o.outputSuffix) (root.join ⟨r⟩)).same
        ((outputRoot (.ofText name) o.outputSuffix).join ⟨r⟩) = true ↔
      ((Path.ofText name).parts.1 = .here → root.segments = []) := by
  obtain ⟨x, rest, hout, hx⟩ := segments_outputRoot h.reach.1 o.outputSuffix
  have hsearch := h.isSearchRoot hroot
  have hnames : ∀ s ∈ r, Path.isIdle s = false ∧ s ≠ ".." := fun s hs =>
    ⟨(h.names hr s hs).1, (h.names hr s hs).2.1⟩
  have hr' := Path.parts_names fun s hs => (hnames s hs).1
  rw [h.outputPath_found hroot _ hr, Path.same, beq_iff_eq, Path.steps_join hout hx hr']
  by_cases hdot : (Path.ofText name).parts.1 = .here
  · rw [if_pos hdot, Path.steps_join hout hx (by rw [h.parts_found hroot hr, h.join_found hroot hr]),
      List.append_right_inj, h.join_found hroot hr, List.filterMap_append]
    simp only [List.append_left_eq_self, hdot, forall_const]
    constructor
    · intro hnil
      cases hsegments : root.segments with
      | nil => rfl
      | cons z zs =>
        have hidle : Path.isIdle z = false := by
          have hdot := hsearch.not_dot
          rw [hsegments] at hdot
          simp only [Path.isIdle, Bool.or_eq_false_iff, beq_eq_false_iff_ne]
          exact ⟨hsearch.not_empty z (by simp [hsegments]), by simpa using hdot⟩
        obtain ⟨step, hstep⟩ := Path.step?_eq_some hidle
        cases hstep.symm.trans (List.filterMap_eq_nil_iff.mp hnil z (by simp [hsegments]))
    · intro hnil
      rw [hnil]
      rfl
  · rw [if_neg hdot, Path.steps_join hout hx hr']
    simp [hdot]

/-- Where all outputs go is found once it is there. -/
theorem reach_target {t : FileTree} (ht : t.Sound)
    (hfolders : ∀ n, tree.get? n = some .folder → t.get? n = some .folder)
    (htarget : t.get? target = some .folder) :
    t.reach (outputPath (.ofText name) (outputRoot (.ofText name) o.outputSuffix) root).parts.2 =
      .ok target := by
  obtain ⟨pre, post, base, hsplit, hpost, hpre, rfl⟩ := split_of_aim (h.aim root hroot)
  rw [hsplit]
  exact ht.reach_of_folder (reach_mono hfolders hpre) hpost htarget

/-- What is written for a file can be read at its output path. -/
theorem read_output {c : Conversion} {t : FileTree}
    (hst : Stage c tree root target (scriptsBelow tree place) t) {r : List String}
    (hr : r ∈ scriptsBelow tree place) {text : String}
    (hfile : t.get? (target ++ r) = some (.file (some text)))
    (hcheck : check (outputPath (.ofText name) (outputRoot (.ofText name) o.outputSuffix)
      (root.join ⟨r⟩)) = .ok ()) :
    t.read (outputPath (.ofText name) (outputRoot (.ofText name) o.outputSuffix)
      (root.join ⟨r⟩)) = .ok text := by
  obtain ⟨hlead, hparts⟩ := h.parts_output hroot hr
  have htarget : t.get? target = some .folder :=
    hst.sound.prefix_folder (by rw [hfile]; rfl) (List.prefix_append target r)
      fun heq => h.ne_nil hr (List.append_right_eq_self.mp heq.symm)
  have hreach := h.reach_target hroot hst.sound hst.folders htarget
  rw [← reach_front] at hreach
  have hentry := hst.sound.entry_names hcheck
    (by rw [Path.segments_eq (by rwa [hparts]), hparts, ← List.append_assoc]) hreach
    (fun s hs => ⟨(h.names hr s hs).1, (h.names hr s hs).2.1⟩) hfile
  rw [FileTree.read, hentry]
  rfl

end Apart

theorem outputRoot_withSlash : outputRoot (.ofText "src/") "_TAC" = ⟨["src_TAC"]⟩ := by
  decide

theorem apart_withSlash : Apart nestedScripts "src/" "_TAC" ["src"] ["src_TAC"] where
  proper := proper_nestedScripts
  folder := by cbv
  resolve := by cbv
  aim root hroot := by
    cases (show searchRoot? (.ofText "src/") = some ⟨["src"]⟩ by decide).symm.trans hroot
    rw [outputRoot_withSlash]
    decide
  disjoint r _ r' _ := disjoint_of_not_prefix (by decide) (by decide) r r'

theorem outputRoot_withDot : outputRoot (.ofText "./src") "_TAC" = ⟨[".", "src_TAC"]⟩ := by
  decide

theorem apart_withDot : Apart nestedScripts "./src" "_TAC" ["src"] ["src_TAC", "src"] where
  proper := proper_nestedScripts
  folder := by cbv
  resolve := by cbv
  aim root hroot := by
    cases (show searchRoot? (.ofText "./src") = some ⟨["src"]⟩ by decide).symm.trans hroot
    rw [outputRoot_withDot]
    decide
  disjoint r _ r' _ := disjoint_of_not_prefix (by decide) (by decide) r r'

end Batch

end ThreeAddress

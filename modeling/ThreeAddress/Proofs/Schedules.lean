import Mathlib
import ThreeAddress.Proofs.Batches

/-!
# Batches in any order

The files of a batch can be converted in any order. **The report and the files that are left are
those of the program's own order** (`Apart.convertFolder_eq`), every file is reported once and in
the order of the paths, no file that was found is changed, and what becomes of a file depends on
nothing in the tree but the file itself and what lies on the way to its output.
-/

namespace ThreeAddress

/-! ## Runs that look at the clock -/

/-- What can be said of the result of a run, and what it makes of the tree. -/
structure Session.Gives {α : Type} (x : StateM Session α) (t : FileTree) (P : α → Prop)
    (t' : FileTree) : Prop where
  run : ∀ s : Session, s.tree = t → P (x s).1 ∧ (x s).2.tree = t'

namespace Session.Gives

variable {α β : Type} {x : StateM Session α} {f : α → StateM Session β} {P : α → Prop}
  {Q : β → Prop} {a : α} {t t₁ t₂ : FileTree}

theorem pure (t : FileTree) (h : P a) : Gives (Pure.pure a) t P t :=
  ⟨fun _ hs => ⟨h, hs⟩⟩

theorem bind (hx : Gives x t P t₁) (hf : ∀ a, P a → Gives (f a) t₁ Q t₂) :
    Gives (x >>= f) t Q t₂ := by
  refine ⟨fun s hs => ?_⟩
  obtain ⟨hP, htree⟩ := hx.run s hs
  exact (hf _ hP).run _ htree

theorem bind_acts (hx : Acts x t a t₁) (hf : Gives (f a) t₁ Q t₂) : Gives (x >>= f) t Q t₂ :=
  bind (P := (· = a)) ⟨hx⟩ fun _ ha => ha ▸ hf

theorem now (t : FileTree) : Gives (World.now : StateM Session String) t (fun _ => True) t :=
  ⟨fun _ hs => ⟨trivial, hs⟩⟩

end Session.Gives

namespace Batch

open FileTree Session

/-! ## Reports -/

theorem FileReport.settled_input (report : FileReport) (sent : Except FileFault Unit) :
    (report.settled sent).input = report.input := by
  cases sent with
  | ok _ => rfl
  | error fault => rfl

theorem scriptReport_input (o : Options) (input output : Path) (s : Script) :
    (scriptReport o input output s).input = input := by
  unfold scriptReport
  split
  · rfl
  · rfl

theorem Conversion.outcome_input (c : Conversion) (t : FileTree) (input : Path)
    (w : List String) : (c.outcome t input w).input = input := by
  unfold outcome
  split
  · rfl
  · exact (FileReport.settled_input _ _).trans (scriptReport_input _ _ _ _)

/-- The scripts that are found below a place, in the order of their paths. -/
def foundIn (t : FileTree) (root : Path) (place : List String) : List Path :=
  ((scriptsBelow t place).map fun r => root.join ⟨r⟩).mergeSort Path.le

/-- What becomes of a file that was found. -/
def Conversion.entry (c : Conversion) (t : FileTree) (root : Path) (target : List String)
    (input : Path) : FileReport :=
  c.outcome t input (target ++ input.segments.drop root.segments.length)

theorem acts_findScripts_of_none {name : String} {t : FileTree}
    (h : searchRoot? (.ofText name) = none) : Acts (findScripts (.ofText name)) t [] t := by
  rw [findScripts, h]
  exact .pure _ _

theorem acts_findScripts {dir root : Path} {place : List String} {t : FileTree}
    (hroot : searchRoot? dir = some root) (hfolder : t.isFolder dir = true)
    (hresolve : t.resolve dir = .ok place) :
    Acts (findScripts dir) t (foundIn t root place) t := by
  rw [findScripts, hroot]
  have hisFolder := Acts.isFolder dir t
  rw [hfolder] at hisFolder
  have hbelow : Acts (World.filesBelow dir : StateM Session _) t (t.filesBelow place) t := by
    rintro s rfl
    refine ⟨?_, rfl⟩
    show (s.tree.resolve dir).toOption.elim [] s.tree.filesBelow = _
    rw [hresolve]
    rfl
  exact .bind hisFolder (.bind hbelow (.pure _ _))

theorem mem_foundIn {t : FileTree} {root input : Path} {place : List String} :
    input ∈ foundIn t root place ↔ ∃ r ∈ scriptsBelow t place, root.join ⟨r⟩ = input := by
  rw [foundIn, List.mem_mergeSort, List.mem_map]

theorem sorted_foundIn (t : FileTree) (root : Path) (place : List String) :
    (foundIn t root place).Pairwise fun p q => p.le q = true :=
  @List.pairwise_mergeSort Path Path.le (fun _ _ _ => Path.le_trans) Path.le_total _

namespace Apart

variable {tree : FileTree} {name : String} {o : Options} {place target : List String}
  (h : Apart tree name o.outputSuffix place target) {root : Path}
  (hroot : searchRoot? (.ofText name) = some root)

include h hroot

theorem drop_found {r : List String} (hr : r ∈ scriptsBelow tree place) :
    (root.join ⟨r⟩).segments.drop root.segments.length = r := by
  rw [h.join_found hroot hr]
  exact List.drop_left

theorem nodup_foundIn : (foundIn tree root place).Nodup := by
  rw [foundIn, List.nodup_mergeSort]
  refine List.Nodup.map_on (fun r hr r' hr' heq => ?_)
    ((h.proper.nodup_filesBelow place).filter _)
  rw [← h.drop_found hroot hr, heq, h.drop_found hroot hr']

/-- Found paths that mean the same are the same. -/
theorem eq_of_steps {p q : Path} (hp : p ∈ foundIn tree root place)
    (hq : q ∈ foundIn tree root place) (hsteps : p.steps = q.steps) : p = q := by
  obtain ⟨r, hr, rfl⟩ := mem_foundIn.mp hp
  obtain ⟨r', hr', rfl⟩ := mem_foundIn.mp hq
  rw [h.steps_found hroot hr, h.steps_found hroot hr'] at hsteps
  have hnames := List.append_cancel_left hsteps
  rw [List.map_injective_iff.mpr (fun _ _ => Path.Step.name.inj) hnames]

/-- An order of the found paths is one of the scripts. -/
theorem exists_order {order : List Path} (horder : order.Perm (foundIn tree root place)) :
    ∃ rs : List (List String), rs.Perm (scriptsBelow tree place) ∧
      order = rs.map fun r => root.join ⟨r⟩ := by
  have hperm := horder.trans (List.mergeSort_perm _ _)
  refine ⟨order.map fun p => p.segments.drop root.segments.length, ?_, ?_⟩
  · have hscripts : ((scriptsBelow tree place).map fun r => root.join ⟨r⟩).map
        (fun p => p.segments.drop root.segments.length) = scriptsBelow tree place := by
      rw [List.map_map]
      conv_rhs => rw [← List.map_id (scriptsBelow tree place)]
      exact List.map_congr_left fun r hr => h.drop_found hroot hr
    have hmap := hperm.map fun p => p.segments.drop root.segments.length
    rwa [hscripts] at hmap
  · rw [List.map_map]
    conv_lhs => rw [← List.map_id order]
    refine List.map_congr_left fun p hp => ?_
    obtain ⟨r, hr, rfl⟩ := List.mem_map.mp (hperm.mem_iff.mp hp)
    show root.join ⟨r⟩ = root.join ⟨(root.join ⟨r⟩).segments.drop root.segments.length⟩
    rw [h.drop_found hroot hr]

/-- **A finished report does not show the order.** -/
theorem files_finish (c : Conversion) {order : List Path}
    (horder : order.Perm (foundIn tree root place)) (report : Report) (time : String) :
    (report.finish (order.map (c.entry tree root target)) time).files =
      (foundIn tree root place).map (c.entry tree root target) := by
  have hinput (p : Path) : (c.entry tree root target p).input = p := c.outcome_input _ _ _
  refine @List.Perm.eq_of_pairwise FileReport (fun a b => a.input.le b.input = true) _ _ ?_
    (@List.pairwise_mergeSort FileReport (fun a b => a.input.le b.input)
      (fun _ _ _ => Path.le_trans) (fun _ _ => Path.le_total _ _) _) ?_
    ((List.mergeSort_perm _ _).trans (horder.map _))
  · intro a b ha hb hab hba
    rw [Report.finish, List.mem_mergeSort, List.mem_map] at ha
    obtain ⟨p, hp, rfl⟩ := ha
    obtain ⟨q, hq, rfl⟩ := List.mem_map.mp hb
    rw [hinput, hinput] at hab hba
    rw [h.eq_of_steps hroot (horder.mem_iff.mp hp) hq (Path.steps_eq_of_le hab hba)]
  · rw [List.pairwise_map]
    simpa only [hinput] using sorted_foundIn tree root place

/-- Two files are never written to one path. -/
theorem output_ne {p q : Path} (hp : p ∈ foundIn tree root place)
    (hq : q ∈ foundIn tree root place) (hne : p ≠ q) :
    (outputPath (.ofText name) (outputRoot (.ofText name) o.outputSuffix) p).same
      (outputPath (.ofText name) (outputRoot (.ofText name) o.outputSuffix) q) = false := by
  obtain ⟨r, hr, rfl⟩ := mem_foundIn.mp hp
  obtain ⟨r', hr', rfl⟩ := mem_foundIn.mp hq
  have hnames {r : List String} (hr : r ∈ scriptsBelow tree place) :
      r.filterMap Path.step? = r.map .name :=
    Path.filterMap_step_names fun s hs => ⟨(h.names hr s hs).1, (h.names hr s hs).2.1⟩
  rw [Path.same, beq_eq_false_iff_ne]
  intro hsteps
  rw [Path.steps, Path.steps, (h.parts_output hroot hr).2, (h.parts_output hroot hr').2,
    List.filterMap_append, List.filterMap_append] at hsteps
  have hrest := List.append_cancel_left (List.append_cancel_left hsteps)
  rw [hnames hr, hnames hr'] at hrest
  exact hne (by rw [List.map_injective_iff.mpr (fun _ _ => Path.Step.name.inj) hrest])

variable (shown : Severity)

theorem outcome_found {c : Conversion} {r : List String} (hr : r ∈ scriptsBelow tree place) :
    c.entry tree root target (root.join ⟨r⟩) = c.outcome tree (root.join ⟨r⟩) (target ++ r) := by
  rw [Conversion.entry, h.drop_found hroot hr]

/-- **A batch comes to the same in every order.** -/
theorem acts_order {order : List Path} (horder : order.Perm (foundIn tree root place)) :
    ∃ t, Acts ((conversion name o shown).convertAll 0 order) tree
        (order.map ((conversion name o shown).entry tree root target)) t ∧
      Stage (conversion name o shown) tree root target (scriptsBelow tree place) t := by
  obtain ⟨rs, hrs, rfl⟩ := h.exists_order hroot horder
  have hscripts (r : List String) (hr : r ∈ rs ++ []) : r ∈ scriptsBelow tree place :=
    hrs.mem_iff.mp (by simpa using hr)
  have hnodup : (rs ++ []).Nodup := by
    rw [List.append_nil]
    exact hrs.nodup_iff.mpr ((h.proper.nodup_filesBelow place).filter _)
  have hstart : Stage (conversion name o shown) tree root target [] tree :=
    ⟨h.proper.sound, fun k => by simp [Conversion.arrivals]⟩
  obtain ⟨t, hacts, hst⟩ := h.acts_convertAll hroot shown hnodup hscripts hstart 0
  refine ⟨t, ?_, hst.sound, fun k => ?_⟩
  · rw [List.map_map]
    have hentries : rs.map ((conversion name o shown).entry tree root target ∘
        fun r => root.join ⟨r⟩) = rs.map fun r =>
          (conversion name o shown).outcome tree (root.join ⟨r⟩) (target ++ r) :=
      List.map_congr_left fun r hr => h.outcome_found hroot (hscripts r (by simpa using hr))
    rwa [hentries]
  · rw [hst.get?]
    refine landed_congr (fun w => ?_) k
    simp [Conversion.arrivals, hrs.mem_iff]

omit hroot in
/-- What lies where the output of a file goes. -/
theorem get?_stage {c : Conversion} {t : FileTree}
    (hst : Stage c tree root target (scriptsBelow tree place) t) {r : List String}
    (hr : r ∈ scriptsBelow tree place) : t.get? (target ++ r) =
      if c.writes tree (root.join ⟨r⟩) = true ∧ tree.writing (target ++ r) = .ok () then
        some (.file (some (c.textAt tree root target (target ++ r))))
      else tree.get? (target ++ r) := by
  have hmem : target ++ r ∈ c.arrivals tree root target (scriptsBelow tree place) ↔
      c.writes tree (root.join ⟨r⟩) = true := by
    simp only [Conversion.arrivals, List.mem_map, List.mem_filter, List.append_cancel_left_eq,
      exists_eq_right, hr, true_and]
  rw [hst.get?, landed]
  refine if_congr (and_congr_left' hmem) rfl (if_neg ?_)
  rintro ⟨-, -, w, hw, hfront⟩
  obtain ⟨r', hr', rfl⟩ := List.mem_map.mp hw
  have hscript := (List.mem_filter.mp hr').1
  -- no directory is made in the place of an output
  have heq := h.eq_of_prefix hr hscript ((List.prefix_append_right_inj target).mp
    (hfront.trans (List.dropLast_prefix _)))
  subst heq
  have hlength := hfront.length_le
  rw [List.length_dropLast] at hlength
  have hpos := List.length_pos_of_ne_nil (h.ne_nil hr)
  simp only [List.length_append] at hlength
  omega

/-- What becomes of a file depends on the file and on what lies on the way to its output. -/
theorem congr_outcome {tree' : FileTree} (h' : Apart tree' name o.outputSuffix place target)
    (htarget : ∀ k, k <+: target ∨ target <+: k → tree'.get? k = tree.get? k) {r : List String}
    (hr : r ∈ scriptsBelow tree place)
    (hfile : tree'.get? (place ++ r) = tree.get? (place ++ r)) :
    r ∈ scriptsBelow tree' place ∧ tree'.read (root.join ⟨r⟩) = tree.read (root.join ⟨r⟩) ∧
      tree'.writing (target ++ r) = tree.writing (target ++ r) ∧
      tree'.get? (target ++ r) = tree.get? (target ++ r) := by
  obtain ⟨text?, hget⟩ := h.file hr
  have hr' : r ∈ scriptsBelow tree' place :=
    List.mem_filter.mpr ⟨h'.proper.mem_filesBelow.mpr ⟨text?, hfile.trans hget⟩,
      (List.mem_filter.mp hr).2⟩
  have hway {m : List String} (hm : m <+: target ++ r) : tree'.get? m = tree.get? m :=
    htarget m (List.prefix_or_prefix_of_prefix hm (List.prefix_append target r))
  refine ⟨hr', ?_, ?_, hway (List.prefix_refl _)⟩
  · unfold FileTree.read
    rw [h'.entry_found hroot h'.proper.sound (fun _ hn => hn) hr' (hfile.trans hget),
      h.entry_found hroot h.proper.sound (fun _ hn => hn) hr hget]
  · rw [writing, writing, hway (List.prefix_refl _), making_congr fun m hm => ?_]
    rw [isFileAt, isFileAt, hway (hm.trans (List.dropLast_prefix _))]

end Apart

/-! ## Whole runs -/

/-- A directory is converted by finding its files and converting them. -/
theorem gives_convertFolder {name : String} {o : Options} {shown : Severity} {t t' : FileTree}
    {inputs : List Path} {files : List FileReport} (hfolder : t.isFolder (.ofText name) = true)
    (hfound : Acts (findScripts (.ofText name)) t inputs t)
    (hacts : Acts ((conversion name o shown).convertAll 0 inputs) t files t') :
    Gives (convertFolder (.ofText name) o shown) t
      (fun result => ∃ report, result = .ok report ∧
        report.files = files.mergeSort fun a b => a.input.le b.input) t' := by
  have hisFolder := Acts.isFolder (.ofText name) t
  rw [hfolder] at hisFolder
  refine .bind_acts hisFolder ?_
  refine .bind_acts hfound (.bind_acts (.tell _ _ _) (.bind (.now t) fun started _ => ?_))
  refine .bind_acts hacts (.bind (.now t') fun finished _ => .bind_acts (.tell _ _ _) ?_)
  exact .pure _ ⟨_, rfl, rfl⟩

/-- The entry of a file in a report. -/
theorem file?_eq {report : Report} {inputs : List Path} {entry : Path → FileReport}
    (hfiles : report.files = inputs.map entry) (hentry : ∀ p, (entry p).input = p)
    (hsteps : ∀ p ∈ inputs, ∀ q ∈ inputs, p.steps = q.steps → p = q) {p : Path}
    (hp : p ∈ inputs) : report.file? p = some (entry p) := by
  rw [Report.file?, hfiles, List.find?_map]
  have hfind : inputs.find? ((fun f : FileReport => f.input.same p) ∘ entry) = some p := by
    cases hq : inputs.find? ((fun f : FileReport => f.input.same p) ∘ entry) with
    | none =>
      have hnot := List.find?_eq_none.mp hq p hp
      simp [hentry, Path.same] at hnot
    | some q =>
      have hsame := List.find?_some hq
      simp only [Function.comp_apply, hentry, Path.same, beq_iff_eq] at hsame
      rw [hsteps q (List.mem_of_find?_eq_some hq) p hp hsame]
  rw [hfind, Option.map_some]

/-- The files that a session finds. -/
def found (s : Session) (name : String) : List Path :=
  ((findScripts (.ofText name) : StateM Session (List Path)).run s).1

/-- A session after a directory was converted, and what it was told. -/
def converted (s : Session) (name : String) (o : Options) (shown : Severity) :
    Except String Report × Session :=
  (convertFolder (.ofText name) o shown : StateM Session (Except String Report)).run s

/-- A session after the files of a directory were converted in some order, and what is reported
of them. -/
def convertedIn (s : Session) (name : String) (o : Options) (shown : Severity)
    (order : List Path) : List FileReport × Session :=
  ((conversion name o shown).convertAll 0 order : StateM Session (List FileReport)).run s

section

variable {name : String} {o : Options} {place target : List String} {s : Session}
  (h : Apart s.tree name o.outputSuffix place target) (shown : Severity)

include h

/-- Nothing is found in a directory that is written as a dot and a slash. -/
theorem Apart.converted_of_none (hroot : searchRoot? (.ofText name) = none) :
    found s name = [] ∧ ∃ report, (converted s name o shown).1 = .ok report ∧
      report.files = [] ∧ (converted s name o shown).2.tree = s.tree := by
  have hfound := acts_findScripts_of_none (t := s.tree) hroot
  have hall : Acts ((conversion name o shown).convertAll 0 []) s.tree [] s.tree := .pure _ _
  obtain ⟨⟨report, hok, hfiles⟩, htree⟩ :=
    (gives_convertFolder h.folder hfound hall).run s rfl
  exact ⟨(hfound s rfl).1, report, hok, hfiles.trans List.mergeSort_nil, htree⟩

variable {root : Path} (hroot : searchRoot? (.ofText name) = some root)

include hroot

theorem Apart.found_eq : found s name = foundIn s.tree root place :=
  (acts_findScripts hroot h.folder h.resolve s rfl).1

theorem Apart.convertedIn_eq {order : List Path} (horder : order.Perm (found s name)) :
    (convertedIn s name o shown order).1 =
        order.map ((conversion name o shown).entry s.tree root target) ∧
      Stage (conversion name o shown) s.tree root target (scriptsBelow s.tree place)
        (convertedIn s name o shown order).2.tree := by
  rw [h.found_eq hroot] at horder
  obtain ⟨t, hacts, hst⟩ := h.acts_order hroot shown horder
  obtain ⟨hfiles, htree⟩ := hacts s rfl
  exact ⟨hfiles, htree.symm ▸ hst⟩

theorem Apart.converted_eq : ∃ report, (converted s name o shown).1 = .ok report ∧
    report.files =
      (found s name).map ((conversion name o shown).entry s.tree root target) ∧
    Stage (conversion name o shown) s.tree root target (scriptsBelow s.tree place)
      (converted s name o shown).2.tree := by
  obtain ⟨t, hacts, hst⟩ := h.acts_order hroot shown (List.Perm.refl _)
  obtain ⟨⟨report, hok, hfiles⟩, htree⟩ :=
    (gives_convertFolder h.folder (acts_findScripts hroot h.folder h.resolve) hacts).run s rfl
  refine ⟨report, hok, ?_, htree.symm ▸ hst⟩
  rw [h.found_eq hroot, hfiles]
  exact h.files_finish hroot _ (List.Perm.refl _) report ""

theorem Apart.file?_converted {report : Report}
    (hfiles : report.files =
      (found s name).map ((conversion name o shown).entry s.tree root target))
    {r : List String} (hr : r ∈ scriptsBelow s.tree place) : report.file? (root.join ⟨r⟩) =
      some ((conversion name o shown).outcome s.tree (root.join ⟨r⟩) (target ++ r)) := by
  rw [h.found_eq hroot] at hfiles
  rw [file?_eq hfiles (fun p => Conversion.outcome_input _ _ _ _)
    (fun p hp q hq => h.eq_of_steps hroot hp hq) (mem_foundIn.mpr ⟨r, hr, rfl⟩),
    h.outcome_found hroot hr]

end

/-- Two scripts of one name, one of them in a directory beside the other. -/
def nestedScripts : FileTree :=
  ⟨[(["src"], .folder), (["src", "a.php"], .file (some "<?php echo 1;")),
    (["src", "lib"], .folder), (["src", "lib", "a.php"], .file (some "<?php echo 2;"))]⟩

theorem proper_nestedScripts : nestedScripts.Proper := by
  refine ⟨by decide, by decide, by decide, ?_, by decide⟩
  simp [nestedScripts, Path.isIdle]

theorem apart_nestedScripts : Apart nestedScripts "src" "_TAC" ["src"] ["src_TAC"] where
  proper := proper_nestedScripts
  folder := by cbv
  resolve := by cbv
  aim root hroot := by
    cases (show searchRoot? (.ofText "src") = some ⟨["src"]⟩ by cbv).symm.trans hroot
    cbv
  disjoint r _ r' _ := disjoint_of_not_prefix (by decide) (by decide) r r'

/-- A script in a directory of the name of the one around it, and one beside that directory. -/
def doubledName : FileTree :=
  ⟨[(["a"], .folder), (["a", "a"], .folder), (["a", "a", "x.php"], .file (some "<?php echo 1;")),
    (["a", "x.php"], .file (some "<?php echo 2;"))]⟩

theorem proper_doubledName : doubledName.Proper := by
  refine ⟨by decide, by decide, by decide, ?_, by decide⟩
  simp [doubledName, Path.isIdle]

/-- What is written is never a script on one line. -/
theorem outputText_ne {o : Options} (h : o.wrapTags = true) (s : Script) :
    outputText o s ≠ "<?php echo 2;" := by
  intro heq
  unfold outputText at heq
  have hchars := congrArg String.toList heq
  split at hchars
  · simp [listingText, h] at hchars
  · rename_i e _
    cases e with
    | syntactic e => simp [FailureText.ofFailure] at hchars
    | lowering e => simp [FailureText.ofFailure] at hchars

/-- The way around the directory, and the place of the script beside the inner one. -/
theorem entry_beside {t : FileTree} (h : t.Sound) {e : Entry}
    (he : t.get? ["a", "x.php"] = some e) : t.entry ⟨["a", "x.php"]⟩ = .ok e :=
  h.entry_names (by cbv) (List.nil_append ["a", "x.php"]).symm rfl (by decide) he

/-- The outer script, and the place of the output of the inner one. -/
theorem read_doubledName : doubledName.read ⟨["a", "x.php"]⟩ = .ok "<?php echo 2;" ∧
    outputPath ⟨["a"]⟩ (outputRoot (.ofText "a") "/..") ⟨["a", "a", "x.php"]⟩ =
      ⟨["a", "..", "a", "x.php"]⟩ :=
  ⟨by cbv, by cbv⟩

/-- What a run whose outputs go around the directory makes of the tree: the text of an output stands
where the outer script was. -/
inductive Overwritten (t : FileTree) : Prop
  | intro (files : List FileReport) (s : Script)
    (hacts : Acts ((conversion "a" { outputSuffix := "/.." } .info).convertAll 0
      [⟨["a", "a", "x.php"]⟩, ⟨["a", "x.php"]⟩]) doubledName files t)
    (hsound : t.Sound)
    (hget : t.get? ["a", "x.php"] =
      some (.file (some (outputText { outputSuffix := "/.." } s))))

/-- Where the outputs go around the directory, one of them takes the place of a script. -/
theorem acts_doubledName : ∃ t, Overwritten t := by
  have hsound := proper_doubledName.sound
  let c := conversion "a" { outputSuffix := "/.." } .info
  have hread₁ : doubledName.read ⟨["a", "a", "x.php"]⟩ = .ok "<?php echo 1;" := by cbv
  have hout₁ : outputPath c.root c.outputRoot ⟨["a", "a", "x.php"]⟩ =
      ⟨["a", "..", "a", "x.php"]⟩ := read_doubledName.2
  generalize hs₁ : scriptAt ⟨["a", "a", "x.php"]⟩ "<?php echo 1;" = s₁
  obtain ⟨t₁, hwrite₁, hget₁⟩ := hsound.acts_writeWithFolders
    (p := ⟨["a", "..", "a", "x.php"]⟩) (by cbv) (show doubledName.reach ["a", ".."] = .ok [] by cbv)
    (show ".." ∉ ["a"] by decide) (by cbv) (by decide) (by decide) (by decide)
    (outputText c.options s₁)
  rw [← hout₁, ← hs₁] at hwrite₁
  obtain ⟨later, hconvert₁⟩ := acts_convert_of_read hread₁ hwrite₁ 0
  have hsound₁ : t₁.Sound := hsound.of_written (n := ["a"]) (s := "x.php") (by decide) hget₁
  have hfile₁ : t₁.get? ["a", "x.php"] = some (.file (some (outputText c.options s₁))) := by
    rw [hget₁]
    exact if_pos ⟨by decide, by cbv⟩
  have hreach₁ : t₁.reach ["a", ".."] = .ok [] := by
    refine reach_mono (fun n hn => ?_) (show doubledName.reach ["a", ".."] = .ok [] by cbv)
    rw [hget₁, written, if_neg, made_of_isSome (by rw [hn]; rfl), hn]
    rintro ⟨rfl, -⟩
    revert hn
    decide
  -- the second script is read as what the first came to, and is left like that
  have hread₂ : t₁.read ⟨["a", "x.php"]⟩ = .ok (outputText c.options s₁) := by
    rw [FileTree.read, entry_beside hsound₁ hfile₁]
    rfl
  have hout₂ : outputPath c.root c.outputRoot ⟨["a", "x.php"]⟩ = ⟨["a", "..", "x.php"]⟩ := by cbv
  obtain ⟨t₂, hwrite₂, hget₂⟩ := hsound₁.acts_writeWithFolders
    (p := ⟨["a", "..", "x.php"]⟩) (by cbv) hreach₁ (show ".." ∉ [] by decide) (by cbv) (by decide)
    (by decide) (by decide)
    (outputText c.options (scriptAt ⟨["a", "x.php"]⟩ (outputText c.options s₁)))
  rw [← hout₂] at hwrite₂
  obtain ⟨last, hconvert₂⟩ := acts_convert_of_read hread₂ hwrite₂ later
  refine ⟨t₂, _, s₁,
    .bind hconvert₁ (.bind (.bind hconvert₂ (.bind (.pure [] _) (.pure _ _))) (.pure _ _)),
    hsound₁.of_written (n := []) (s := "x.php") (by decide) hget₂, ?_⟩
  rw [hget₂, written, if_neg fun h => absurd h.1 (by decide),
    made_of_isSome (by rw [hfile₁]; rfl)]
  exact hfile₁

end Batch

end ThreeAddress

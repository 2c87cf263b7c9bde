import Mathlib.Data.List.Nodup
import ThreeAddress.Proofs.OutputPaths
import ThreeAddress.Proofs.TreeWrites

/-!
# Batches

A batch converts the files that it found one after another, in one file tree. No output is in the
way of another, since the files that were found are not in the way of each other, so **what
becomes of a file is what would become of it alone** (`Apart.acts_convert`), and a whole batch
comes to the same whatever the order of its files (`Apart.acts_convertAll`), as long as no output
takes the place of a file that was found.
-/

namespace ThreeAddress

namespace FileTree

open ThreeAddress.Path (isIdle)

variable {t : FileTree}

/-! ## Files below a directory -/

/-- A tree as a file system has it: there is one thing at a place, it lies in a directory, and
names are names. -/
structure Proper (t : FileTree) : Prop where
  nodup : (t.entries.map (·.1)).Nodup
  ne_nil : ∀ x ∈ t.entries, x.1 ≠ []
  parent : ∀ x ∈ t.entries, t.get? x.1.dropLast = some .folder
  names : ∀ x ∈ t.entries, ∀ s ∈ x.1, isIdle s = false ∧ s ≠ ".." ∧ s.contains '\x00' = false
  short : ∀ x ∈ t.entries, isShort x.1 = true

theorem lookup_eq_some_iff_mem {xs : List (List String × Entry)} (h : (xs.map (·.1)).Nodup)
    {k : List String} {e : Entry} : xs.lookup k = some e ↔ (k, e) ∈ xs := by
  induction xs with
  | nil => simp
  | cons x xs ih =>
    obtain ⟨place, e'⟩ := x
    rw [List.map_cons, List.nodup_cons] at h
    rw [List.lookup_cons, List.mem_cons]
    by_cases hk : k = place
    · subst hk
      have hnot : (k, e) ∉ xs := fun hmem => h.1 (List.mem_map.mpr ⟨_, hmem, rfl⟩)
      simp [hnot, eq_comm]
    · rw [beq_false_of_ne hk]
      simp [ih h.2, hk]

theorem Proper.get?_eq_some_iff (h : t.Proper) {k : List String} {e : Entry} (hk : k ≠ []) :
    t.get? k = some e ↔ (k, e) ∈ t.entries := by
  rw [get?, if_neg (by simpa using hk), lookup_eq_some_iff_mem h.nodup]

theorem Proper.sound (h : t.Proper) : t.Sound := by
  constructor
  · intro names s hsome
    obtain ⟨e, he⟩ := Option.isSome_iff_exists.mp hsome
    have hparent := h.parent _ ((h.get?_eq_some_iff (by simp)).mp he)
    rwa [List.dropLast_concat] at hparent
  · intro names hsome
    by_cases hnil : names = []
    · rw [hnil]
      rfl
    · obtain ⟨e, he⟩ := Option.isSome_iff_exists.mp hsome
      exact h.short _ ((h.get?_eq_some_iff hnil).mp he)

theorem ne_nil_of_file {k : List String} {text? : Option String}
    (hk : t.get? k = some (.file text?)) : k ≠ [] := by
  rintro rfl
  cases hk

/-- The files below a place are what lies there. -/
theorem Proper.mem_filesBelow (h : t.Proper) {n r : List String} :
    r ∈ t.filesBelow n ↔ ∃ text?, t.get? (n ++ r) = some (.file text?) := by
  rw [filesBelow, List.mem_filterMap]
  constructor
  · rintro ⟨⟨place, e⟩, hmem, hr⟩
    cases e with
    | folder => cases hr
    | file text? =>
      dsimp only at hr
      split at hr
      · rename_i hfront
        obtain ⟨k, rfl⟩ := List.isPrefixOf_iff_prefix.mp hfront
        rw [List.drop_left, Option.some.injEq] at hr
        subst hr
        exact ⟨text?, (h.get?_eq_some_iff (h.ne_nil _ hmem)).mpr hmem⟩
      · cases hr
  · rintro ⟨text?, hfile⟩
    refine ⟨_, (h.get?_eq_some_iff (ne_nil_of_file hfile)).mp hfile, ?_⟩
    have hfront : n.isPrefixOf (n ++ r) = true :=
      List.isPrefixOf_iff_prefix.mpr (List.prefix_append n r)
    simp [hfront]

theorem Proper.nodup_filesBelow (h : t.Proper) (n : List String) : (t.filesBelow n).Nodup := by
  have hsub (xs : List (List String × Entry)) :
      (((FileTree.mk xs).filesBelow n).map (n ++ ·)).Sublist (xs.map (·.1)) := by
    induction xs with
    | nil => exact List.Sublist.slnil
    | cons x xs ih =>
      obtain ⟨place, e⟩ := x
      unfold filesBelow at ih ⊢
      rw [List.filterMap_cons]
      split
      · exact ih.cons place
      · rename_i r hr
        have hplace : n ++ r = place := by
          cases e with
          | folder => cases hr
          | file text? =>
            dsimp only at hr
            split at hr
            · rename_i hfront
              obtain ⟨k, rfl⟩ := List.isPrefixOf_iff_prefix.mp hfront
              rw [List.drop_left, Option.some.injEq] at hr
              rw [hr]
            · cases hr
        rw [List.map_cons, List.map_cons, hplace]
        exact ih.cons_cons place
  exact List.Nodup.of_map (n ++ ·) (h.nodup.sublist (hsub t.entries))

theorem Proper.names_of_isSome (h : t.Proper) {k : List String} (hk : (t.get? k).isSome = true) :
    ∀ s ∈ k, isIdle s = false ∧ s ≠ ".." ∧ s.contains '\x00' = false := by
  by_cases hnil : k = []
  · simp [hnil]
  · obtain ⟨e, he⟩ := Option.isSome_iff_exists.mp hk
    exact h.names _ ((h.get?_eq_some_iff hnil).mp he)

/-- A way through directories leads along its names. -/
theorem Sound.walk_names (h : t.Sound) {n r : List String} (hsome : (t.get? (n ++ r)).isSome = true)
    (hr : ∀ s ∈ r, isIdle s = false ∧ s ≠ "..") : t.walk n r = .ok (n ++ r) := by
  induction r generalizing n with
  | nil => rw [List.append_nil, walk]
  | cons s r ih =>
    have hn : t.get? n = some .folder :=
      h.prefix_folder hsome (List.prefix_append n (s :: r)) (by simp)
    have hs : s.utf8ByteSize ≤ longestName := by
      have hshort := h.short _ hsome
      rw [isShort_append] at hshort
      simp only [isShort, List.all_cons, Bool.and_eq_true, decide_eq_true_eq] at hshort
      exact hshort.2.1
    obtain ⟨hidle, hup⟩ := hr s (by simp)
    rw [List.append_cons] at hsome ⊢
    rw [walk, hn]
    dsimp only
    rw [if_pos hs, advance_name hidle hup, ih hsome fun x hx => hr x (by simp [hx])]

/-- What lies along some names from a directory on is found there. -/
theorem Sound.entry_names (h : t.Sound) {p : Path} {ss n r : List String} {e : Entry}
    (hcheck : check p = .ok ()) (hp : p.segments = ss ++ r) (hreach : t.reach ss = .ok n)
    (hr : ∀ s ∈ r, isIdle s = false ∧ s ≠ "..") (he : t.get? (n ++ r) = some e) :
    t.entry p = .ok e := by
  obtain ⟨hwalk, -⟩ := reach_eq_ok_iff.mp hreach
  rw [entry, resolve, hcheck, hp, walk_append, hwalk]
  simp only [bind, Except.bind, h.walk_names (by rw [he]; rfl) hr, he]
  rfl

/-! ## Places that are still to be made -/

/-- The place that some segments lead to. Directories may be missing on the way there, but none of
those that a step upwards is taken from. -/
def aim (t : FileTree) (body : List String) : Except FileFault (List String) := do
  let base ← t.reach (body.reverse.dropWhile (· ≠ "..")).reverse
  return below base (body.reverse.takeWhile (· ≠ "..")).reverse

theorem split_of_aim {body n : List String} (h : t.aim body = .ok n) :
    ∃ pre post base, body = pre ++ post ∧ ".." ∉ post ∧ t.reach pre = .ok base ∧
      n = below base post := by
  unfold aim at h
  generalize hpre : (body.reverse.dropWhile (· ≠ "..")).reverse = pre at h
  generalize hpost : (body.reverse.takeWhile (· ≠ "..")).reverse = post at h
  cases hbase : t.reach pre with
  | error e => simp [hbase, bind, Except.bind] at h
  | ok base =>
    rw [hbase] at h
    refine ⟨pre, post, base, ?_, ?_, hbase, (Except.ok.inj h).symm⟩
    · rw [← hpre, ← hpost, ← List.reverse_append, List.takeWhile_append_dropWhile,
        List.reverse_reverse]
    · rw [← hpost, List.mem_reverse]
      intro hmem
      simpa using List.mem_takeWhile_imp hmem

end FileTree

namespace Batch

open FileTree Session

/-! ## One file -/

/-- The script in a file. -/
def scriptAt (input : Path) (content : String) : Script :=
  ⟨input.fileName?.getD "", input.text, content⟩

/-- The text to write for a script: its listing, or why there is none. -/
def outputText (o : Options) (s : Script) : String :=
  match compile s o.lower with
  | .ok listing => listingText o listing
  | .error e => (FailureText.ofFailure e).written

/-- What is reported of a script whose text was written. -/
def scriptReport (o : Options) (input output : Path) (s : Script) : FileReport :=
  match compile s o.lower with
  | .ok listing => .ok input output listing.size
  | .error e =>
    .failed input (some output) (FailureText.ofFailure e).status (FailureText.ofFailure e).message

/-- What is reported of a file that cannot be read. -/
def unreadReport (input : Path) (fault : FileFault) : FileReport :=
  .failed input none .ioError (MissingScript.diagnostic ⟨input.text, fault.text⟩).message

/-- The report after the text was written, or was not. -/
def FileReport.settled (report : FileReport) : Except FileFault Unit → FileReport
  | .ok () => report
  | .error fault => .failed report.input none .ioError ("write error: " ++ fault.text)

section

variable {c : Conversion} {t t' : FileTree} {input : Path} {sent : Except FileFault Unit}
  {text : String}

theorem acts_write {report : FileReport} {output : Path}
    (h : Acts (writeWithFolders output text) t sent t') :
    Acts (c.write report output text) t (report.settled sent) t' := by
  refine .bind h ?_
  cases sent with
  | ok _ => exact .pure _ _
  | error fault => exact .bind (.tell _ _ _) (.pure _ _)

theorem acts_tellAll (shown : Severity) (log : List LogEntry) (t : FileTree) :
    Acts (forIn log PUnit.unit fun e _ => do
      World.tell shown e
      return .yield PUnit.unit : StateM Session PUnit) t PUnit.unit t := by
  induction log with
  | nil => exact .pure _ _
  | cons e log ih =>
    rw [List.forIn_cons]
    exact .bind (.bind (.tell shown e t) (.pure _ _)) ih

theorem acts_load {content : String} (h : t.read input = .ok content) :
    Acts (Script.load input) t (.ok (scriptAt input content)) t := by
  have hread := Acts.readText input t
  rw [h] at hread
  exact .bind hread (.pure _ _)

theorem acts_convert_of_unread {fault : FileFault} (h : t.read input = .error fault)
    (earlier : Nat) : Acts (c.convert earlier input) t (unreadReport input fault, earlier) t := by
  have hread := Acts.readText input t
  rw [h] at hread
  have hload : Acts (Script.load input) t (.error ⟨input.text, fault.text⟩) t :=
    .bind hread (.pure _ _)
  exact .bind (.tell _ _ _) (.bind hload (.bind (.tell _ _ _) (.pure _ _)))

theorem acts_convert_of_read {content : String} (h : t.read input = .ok content)
    (hwrite : Acts (writeWithFolders (outputPath c.root c.outputRoot input)
      (outputText c.options (scriptAt input content))) t sent t') (earlier : Nat) :
    ∃ later, Acts (c.convert earlier input) t
      ((scriptReport c.options input (outputPath c.root c.outputRoot input)
        (scriptAt input content)).settled sent, later) t' := by
  refine ⟨earlier + (compilation (scriptAt input content) c.options.lower).nodes,
    .bind (.tell _ _ _) (.bind (acts_load h) (.bind (acts_tellAll _ _ _) ?_))⟩
  unfold outputText compile at hwrite
  unfold scriptReport compile
  generalize (compilation (scriptAt input content) c.options.lower).result = result at hwrite ⊢
  cases result with
  | ok listing => exact .bind (acts_write hwrite) (.pure _ _)
  | error e => exact .bind (.tell _ _ _) (.bind (acts_write hwrite) (.pure _ _))

end

/-! ## The files of a batch -/

/-- The scripts below a place. -/
def scriptsBelow (t : FileTree) (n : List String) : List (List String) :=
  (t.filesBelow n).filter isScriptName

/-- The conversion of a directory as it was written. -/
def conversion (name : String) (o : Options) (shown : Severity) : Conversion :=
  ⟨.ofText name, outputRoot (.ofText name) o.outputSuffix, o, shown⟩

/-- A directory whose outputs go to another place: **no output takes the place of a file that was
found**, and no directory is left upwards on the way there that is still to be made. -/
structure Apart (tree : FileTree) (name suffix : String) (place target : List String) : Prop where
  proper : tree.Proper
  folder : tree.isFolder (.ofText name) = true
  resolve : tree.resolve (.ofText name) = .ok place
  aim : ∀ root, searchRoot? (.ofText name) = some root →
    tree.aim (outputPath (.ofText name) (outputRoot (.ofText name) suffix) root).parts.2 =
      .ok target
  disjoint : ∀ r ∈ scriptsBelow tree place, ∀ r' ∈ scriptsBelow tree place,
    target ++ r ≠ place ++ r'

/-- It is enough that neither place lies below the other. -/
theorem disjoint_of_not_prefix {place target : List String} (h : ¬ place <+: target)
    (h' : ¬ target <+: place) (r r' : List String) : target ++ r ≠ place ++ r' := by
  intro heq
  have htarget : target <+: place ++ r' := heq ▸ List.prefix_append target r
  obtain hle | hle := List.prefix_or_prefix_of_prefix (List.prefix_append place r') htarget
  · exact h hle
  · exact h' hle

namespace Apart

variable {tree : FileTree} {name suffix : String} {place target : List String}
  (h : Apart tree name suffix place target) {root : Path}

include h

theorem reach : check (.ofText name) = .ok () ∧ tree.reach (Path.ofText name).segments = .ok place := by
  have hfolder := h.folder
  have hresolve := h.resolve
  unfold FileTree.isFolder FileTree.entry at hfolder
  rw [hresolve] at hfolder
  unfold FileTree.resolve at hresolve
  cases hcheck : check (.ofText name) with
  | error e => simp [hcheck, bind, Except.bind] at hresolve
  | ok _ =>
    simp only [hcheck, bind, Except.bind] at hresolve hfolder
    refine ⟨rfl, reach_eq_ok_iff.mpr ⟨hresolve, ?_⟩⟩
    cases hget : tree.get? place with
    | none => simp [hget, throw, throwThe, MonadExceptOf.throw] at hfolder
    | some e =>
      cases e with
      | folder => rfl
      | file x => simp [hget, pure, Except.pure] at hfolder

/-- A script that was found is a file, and its names are names. -/
theorem file {r : List String} (hr : r ∈ scriptsBelow tree place) :
    ∃ text?, tree.get? (place ++ r) = some (.file text?) :=
  h.proper.mem_filesBelow.mp (List.mem_filter.mp hr).1

theorem ne_nil {r : List String} (hr : r ∈ scriptsBelow tree place) : r ≠ [] := by
  rintro rfl
  obtain ⟨text?, hfile⟩ := h.file hr
  rw [List.append_nil, (reach_eq_ok_iff.mp h.reach.2).2] at hfile
  cases hfile

theorem names {r : List String} (hr : r ∈ scriptsBelow tree place) :
    ∀ s ∈ r, Path.isIdle s = false ∧ s ≠ ".." ∧ s.contains '\x00' = false := by
  obtain ⟨text?, hfile⟩ := h.file hr
  exact fun s hs => h.proper.names_of_isSome (by rw [hfile]; rfl) s (List.mem_append_right _ hs)

theorem short {r : List String} (hr : r ∈ scriptsBelow tree place) :
    ∀ s ∈ r, s.utf8ByteSize ≤ longestName := by
  obtain ⟨text?, hfile⟩ := h.file hr
  have hshort := h.proper.sound.short _ (by rw [hfile]; rfl)
  rw [isShort_append, Bool.and_eq_true] at hshort
  simpa [isShort] using hshort.2

/-- No script is in the way of another. -/
theorem eq_of_prefix {r r' : List String} (hr : r ∈ scriptsBelow tree place)
    (hr' : r' ∈ scriptsBelow tree place) (hfront : r <+: r') : r = r' := by
  obtain ⟨text?, hfile⟩ := h.file hr
  obtain ⟨text?', hfile'⟩ := h.file hr'
  by_contra hne
  have hfolder := h.proper.sound.prefix_folder (by rw [hfile']; rfl)
    ((List.prefix_append_right_inj place).mpr hfront) fun heq => hne (List.append_cancel_left heq)
  cases hfile.symm.trans hfolder

variable (hroot : searchRoot? (.ofText name) = some root)

include hroot

theorem isSearchRoot : IsSearchRoot (.ofText name) root :=
  Batch.isSearchRoot hroot (check_eq_ok_iff.mp h.reach.1).2.2

theorem join_found {r : List String} (hr : r ∈ scriptsBelow tree place) :
    root.join ⟨r⟩ = ⟨root.segments ++ r⟩ :=
  (h.isSearchRoot hroot).join_found fun s hs => (h.names hr s hs).1

theorem reach_root : tree.reach root.segments = .ok place := by
  rw [← reach_filter, (h.isSearchRoot hroot).names, reach_filter, h.reach.2]

theorem parts_found {r : List String} (hr : r ∈ scriptsBelow tree place) :
    (root.join ⟨r⟩).parts = (.nothing, root.segments ++ r) := by
  rw [h.join_found hroot hr]
  exact (h.isSearchRoot hroot).parts_found fun s hs => (h.names hr s hs).1

theorem steps_found {r : List String} (hr : r ∈ scriptsBelow tree place) :
    (root.join ⟨r⟩).steps = root.segments.filterMap Path.step? ++ r.map .name :=
  Path.steps_names (h.parts_found hroot hr) fun s hs =>
    ⟨(h.names hr s hs).1, (h.names hr s hs).2.1⟩

theorem check_found {r : List String} (hr : r ∈ scriptsBelow tree place) :
    check (root.join ⟨r⟩) = .ok () := by
  refine check_eq_ok_iff.mpr ⟨fun s hs => ?_, ?_, by rw [h.parts_found hroot hr]; simp⟩
  · rw [h.join_found hroot hr, List.mem_append] at hs
    obtain hs | hs := hs
    · exact (check_eq_ok_iff.mp h.reach.1).1 s ((h.isSearchRoot hroot).subset s hs)
    · exact (h.names hr s hs).2.2
  · rw [h.steps_found hroot hr]
    exact List.append_ne_nil_of_right_ne_nil _ (by simpa using h.ne_nil hr)

/-- What is read of a script is what lies at its place, also where other things have changed. -/
theorem entry_found {t : FileTree} (ht : t.Sound)
    (hfolders : ∀ n, tree.get? n = some .folder → t.get? n = some .folder) {r : List String}
    (hr : r ∈ scriptsBelow tree place) {e : Entry} (he : t.get? (place ++ r) = some e) :
    t.entry (root.join ⟨r⟩) = .ok e :=
  ht.entry_names (h.check_found hroot hr) (by rw [h.join_found hroot hr])
    (reach_mono hfolders (h.reach_root hroot))
    (fun s hs => ⟨(h.names hr s hs).1, (h.names hr s hs).2.1⟩) he

theorem read_found {t : FileTree} (ht : t.Sound)
    (hfolders : ∀ n, tree.get? n = some .folder → t.get? n = some .folder) {r : List String}
    (hr : r ∈ scriptsBelow tree place) (hsame : t.get? (place ++ r) = tree.get? (place ++ r)) :
    t.read (root.join ⟨r⟩) = tree.read (root.join ⟨r⟩) := by
  obtain ⟨text?, hfile⟩ := h.file hr
  unfold FileTree.read
  rw [h.entry_found hroot ht hfolders hr (hsame.trans hfile),
    h.entry_found hroot h.proper.sound (fun _ hn => hn) hr hfile]

/-- The output of a script has its names after the segments of where all outputs go. -/
theorem parts_output {r : List String} (hr : r ∈ scriptsBelow tree place) :
    (outputPath (.ofText name) (outputRoot (.ofText name) suffix) root).parts.1 ≠ .root ∧
      (outputPath (.ofText name) (outputRoot (.ofText name) suffix) (root.join ⟨r⟩)).parts =
        ((outputPath (.ofText name) (outputRoot (.ofText name) suffix) root).parts.1,
          (outputPath (.ofText name) (outputRoot (.ofText name) suffix) root).parts.2 ++ r) := by
  obtain ⟨-, hsteps, hrel⟩ := check_eq_ok_iff.mp h.reach.1
  have hidle : ∀ s ∈ r, Path.isIdle s = false := fun s hs => (h.names hr s hs).1
  have hsearch := h.isSearchRoot hroot
  have hunder := hsearch.under_found (r := []) (by simp) hrel hsteps
  have hwhole : (⟨root.segments ++ []⟩ : Path) = root := by rw [List.append_nil]
  rw [hwhole] at hunder
  have hbase := segments_outputBase h.reach.1 suffix root (by
    rw [hunder]
    have hparts := hsearch.parts_found (r := []) (by simp)
    rw [hwhole] at hparts
    split
    · rw [hparts]
      simp
    · decide)
  obtain ⟨x, rest, hM, hx⟩ := hbase
  obtain ⟨hlead, hparts⟩ := Path.parts_append hM hx r
  refine ⟨hlead, ?_⟩
  rw [← hparts, ← hsearch.segments_outputPath hidle hrel hsteps, h.join_found hroot hr]

/-- The output of a script is written to the place of its names below the target. -/
theorem acts_writeWithFolders {t : FileTree} (ht : t.Sound)
    (hfolders : ∀ n, tree.get? n = some .folder → t.get? n = some .folder) {r : List String}
    (hr : r ∈ scriptsBelow tree place) (text : String) {output : Path}
    (houtput : output =
      outputPath (.ofText name) (outputRoot (.ofText name) suffix) (root.join ⟨r⟩)) :
    match check output with
    | .ok () => ∃ t', Acts (writeWithFolders output text) t (t.writing (target ++ r)) t' ∧
        ∀ k, t'.get? k = t.written (target ++ r) text k
    | .error e => Acts (writeWithFolders output text) t (.error e) t := by
  subst houtput
  obtain ⟨hlead, hparts⟩ := h.parts_output hroot hr
  obtain ⟨pre, post, base, hsplit, hpost, hpre, rfl⟩ := split_of_aim (h.aim root hroot)
  rw [hsplit] at hparts
  obtain ⟨init, s, rfl⟩ : ∃ init s, r = init ++ [s] :=
    ⟨_, _, (List.dropLast_concat_getLast (h.ne_nil hr)).symm⟩
  have hnames := h.names hr
  obtain ⟨hidle, hup, hnul⟩ := hnames s (by simp)
  generalize houtput : outputPath (.ofText name) (outputRoot (.ofText name) suffix)
    (root.join ⟨init ++ [s]⟩) = output at hparts
  have hbody : output.parts.2 = pre ++ (post ++ init) ++ [s] := by
    rw [hparts]
    simp
  split
  · rename_i hcheck
    have hpost' : ".." ∉ post ++ init := by
      simp only [List.mem_append, hpost, false_or]
      exact fun hmem => (hnames ".." (by simp [hmem])).2.1 rfl
    have hshort := h.short hr s (by simp)
    have hplace : below base post ++ (init ++ [s]) = below base (post ++ init ++ [s]) := by
      have hfilter : init.filter (!Path.isIdle ·) = init := by
        refine List.filter_eq_self.mpr fun x hx => ?_
        rw [(hnames x (by simp [hx])).1]
        rfl
      simp [below, hfilter, hidle]
    rw [hplace]
    exact ht.acts_writeWithFolders hcheck (reach_mono hfolders hpre) hpost' hbody hidle hup hshort
      text
  · rename_i e hcheck
    exact acts_writeWithFolders_of_error (by rwa [hparts]) hbody hidle hnul hcheck text

end Apart

/-! ## Whole batches -/

/-- What comes of writing to a path that leads to the place. -/
def sending (t : FileTree) (output : Path) (w : List String) : Except FileFault Unit := do
  check output
  t.writing w

/-- What becomes of a file by itself. -/
def Conversion.outcome (c : Conversion) (t : FileTree) (input : Path) (w : List String) :
    FileReport :=
  let output := outputPath c.root c.outputRoot input
  match t.read input with
  | .error fault => unreadReport input fault
  | .ok content =>
    (scriptReport c.options input output (scriptAt input content)).settled (sending t output w)

/-- Whether there is something to write for a file, and a path to write it to. -/
def Conversion.writes (c : Conversion) (t : FileTree) (input : Path) : Bool :=
  (t.read input).isOk && (check (outputPath c.root c.outputRoot input)).isOk

/-- The places where the outputs of some files arrive. -/
def Conversion.arrivals (c : Conversion) (t : FileTree) (root : Path) (target : List String)
    (rs : List (List String)) : List (List String) :=
  (rs.filter fun r => c.writes t (root.join ⟨r⟩)).map (target ++ ·)

/-- The text that arrives at a place. -/
def Conversion.textAt (c : Conversion) (t : FileTree) (root : Path) (target k : List String) :
    String :=
  let input := root.join ⟨k.drop target.length⟩
  outputText c.options (scriptAt input ((t.read input).toOption.getD ""))

/-- The tree after some files were converted. -/
structure Stage (c : Conversion) (tree : FileTree) (root : Path) (target : List String)
    (rs : List (List String)) (t : FileTree) : Prop where
  sound : t.Sound
  get? : ∀ k, t.get? k =
    tree.landed (c.textAt tree root target) (c.arrivals tree root target rs) k

theorem Stage.folders {c : Conversion} {tree t : FileTree} {root : Path} {target : List String}
    {rs : List (List String)} (hst : Stage c tree root target rs t) (n : List String)
    (hn : tree.get? n = some .folder) : t.get? n = some .folder := by
  rw [hst.get?, landed_of_folder hn]

namespace Apart

variable {tree : FileTree} {name : String} {o : Options} {place target : List String}
  (h : Apart tree name o.outputSuffix place target) {root : Path}
  (hroot : searchRoot? (.ofText name) = some root)

include h hroot

/-- No file that was found is changed. -/
theorem read_stage {c : Conversion} {rs : List (List String)}
    (hrs : ∀ r ∈ rs, r ∈ scriptsBelow tree place) {t : FileTree}
    (hst : Stage c tree root target rs t) {r : List String} (hr : r ∈ scriptsBelow tree place) :
    t.read (root.join ⟨r⟩) = tree.read (root.join ⟨r⟩) := by
  refine h.read_found hroot hst.sound hst.folders hr ?_
  obtain ⟨text?, hfile⟩ := h.file hr
  rw [hst.get?, landed_of_isSome ?_ (by rw [hfile]; rfl)]
  intro hmem
  obtain ⟨r', hr', heq⟩ := List.mem_map.mp hmem
  exact h.disjoint r' (hrs r' (List.mem_filter.mp hr').1) r hr heq

variable (shown : Severity)

/-- **A file that is converted after others becomes what it would become alone.** -/
theorem acts_convert {rs : List (List String)} (hrs : ∀ r ∈ rs, r ∈ scriptsBelow tree place)
    {t : FileTree} (hst : Stage (conversion name o shown) tree root target rs t)
    {r : List String} (hr : r ∈ scriptsBelow tree place) (hnew : r ∉ rs) (earlier : Nat) :
    ∃ later t', Acts ((conversion name o shown).convert earlier (root.join ⟨r⟩)) t
        ((conversion name o shown).outcome tree (root.join ⟨r⟩) (target ++ r), later) t' ∧
      Stage (conversion name o shown) tree root target (r :: rs) t' := by
  generalize hc : conversion name o shown = c at hst ⊢
  have houtput : outputPath c.root c.outputRoot (root.join ⟨r⟩) =
      outputPath (.ofText name) (outputRoot (.ofText name) o.outputSuffix) (root.join ⟨r⟩) := by
    rw [← hc]
    rfl
  have hread := h.read_stage hroot hrs hst hr
  have hway : ∀ w ∈ c.arrivals tree root target rs, ¬ w <+: target ++ r ∧ ¬ target ++ r <+: w := by
    intro w hw
    obtain ⟨r', hr', rfl⟩ := List.mem_map.mp hw
    have hold := (List.mem_filter.mp hr').1
    rw [List.prefix_append_right_inj, List.prefix_append_right_inj]
    exact ⟨fun hfront => hnew (h.eq_of_prefix (hrs r' hold) hr hfront ▸ hold),
      fun hfront => hnew (h.eq_of_prefix hr (hrs r' hold) hfront ▸ hold)⟩
  cases hcontent : tree.read (root.join ⟨r⟩) with
  | error fault =>
    have hrest : c.arrivals tree root target (r :: rs) = c.arrivals tree root target rs := by
      simp [Conversion.arrivals, Conversion.writes, hcontent, Except.isOk, Except.toBool]
    refine ⟨earlier, t, ?_, hst.sound, by rw [hrest]; exact hst.get?⟩
    rw [Conversion.outcome, hcontent]
    exact acts_convert_of_unread (hread.trans hcontent) earlier
  | ok content =>
    rw [Conversion.outcome, hcontent]
    dsimp only
    have hsend := h.acts_writeWithFolders hroot hst.sound hst.folders hr
      (outputText c.options (scriptAt (root.join ⟨r⟩) content)) houtput
    cases hcheck : check (outputPath c.root c.outputRoot (root.join ⟨r⟩)) with
    | error e =>
      have hrest : c.arrivals tree root target (r :: rs) = c.arrivals tree root target rs := by
        simp [Conversion.arrivals, Conversion.writes, hcheck, Except.isOk, Except.toBool]
      rw [hcheck] at hsend
      have hsending : sending tree (outputPath c.root c.outputRoot (root.join ⟨r⟩))
          (target ++ r) = .error e := by
        rw [sending, hcheck]
        rfl
      obtain ⟨later, hacts⟩ := acts_convert_of_read (hread.trans hcontent) hsend earlier
      rw [hsending]
      exact ⟨later, t, hacts, hst.sound, by rw [hrest]; exact hst.get?⟩
    | ok _ =>
      have hrest : c.arrivals tree root target (r :: rs) =
          (target ++ r) :: c.arrivals tree root target rs := by
        simp [Conversion.arrivals, Conversion.writes, hcontent, hcheck, Except.isOk, Except.toBool]
      have htext : outputText c.options (scriptAt (root.join ⟨r⟩) content) =
          c.textAt tree root target (target ++ r) := by
        rw [Conversion.textAt, List.drop_left, hcontent]
        rfl
      have hsending : sending tree (outputPath c.root c.outputRoot (root.join ⟨r⟩))
          (target ++ r) = t.writing (target ++ r) := by
        rw [writing_landed hst.get? hway, sending, hcheck]
        rfl
      rw [hcheck] at hsend
      obtain ⟨t', hwrite, hwritten⟩ := hsend
      obtain ⟨later, hacts⟩ := acts_convert_of_read (hread.trans hcontent) hwrite earlier
      rw [hsending]
      refine ⟨later, t', hacts, ?_, fun k => ?_⟩
      · obtain ⟨init, s, rfl⟩ : ∃ init s, r = init ++ [s] :=
          ⟨_, _, (List.dropLast_concat_getLast (h.ne_nil hr)).symm⟩
        rw [← List.append_assoc] at hwritten
        exact hst.sound.of_written (h.short hr s (by simp)) hwritten
      · rw [hwritten, htext, hrest, written_landed hst.get? hway]

/-- A batch in some order. -/
theorem acts_convertAll {rs rs' : List (List String)} (hnodup : (rs' ++ rs).Nodup)
    (hrs : ∀ r ∈ rs' ++ rs, r ∈ scriptsBelow tree place) {t : FileTree}
    (hst : Stage (conversion name o shown) tree root target rs t) (earlier : Nat) :
    ∃ t', Acts ((conversion name o shown).convertAll earlier (rs'.map fun r => root.join ⟨r⟩)) t
        (rs'.map fun r =>
          (conversion name o shown).outcome tree (root.join ⟨r⟩) (target ++ r)) t' ∧
      Stage (conversion name o shown) tree root target (rs'.reverse ++ rs) t' := by
  induction rs' generalizing rs t earlier with
  | nil => exact ⟨t, .pure _ _, hst⟩
  | cons r rs' ih =>
    rw [List.cons_append, List.nodup_cons] at hnodup
    obtain ⟨later, t₁, hconvert, hst₁⟩ := h.acts_convert hroot shown
      (fun x hx => hrs x (by simp [hx])) hst (hrs r (by simp))
      (fun hmem => hnodup.1 (List.mem_append_right _ hmem)) earlier
    have hnodup' : (rs' ++ r :: rs).Nodup := List.nodup_middle.mpr (List.nodup_cons.mpr hnodup)
    obtain ⟨t₂, hrest, hst₂⟩ := ih hnodup'
      (fun x hx => hrs x (by simpa [or_left_comm] using hx)) hst₁ later
    refine ⟨t₂, .bind hconvert (.bind hrest (.pure _ _)), ?_⟩
    rwa [List.reverse_cons, List.append_assoc]

end Apart

end Batch

end ThreeAddress

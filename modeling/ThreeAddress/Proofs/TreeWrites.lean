import ThreeAddress.Proofs.FileTrees

/-!
# Making directories and writing files

A run that makes directories asks for the innermost first and goes outwards while they are
missing, so the order of its operations depends on the tree. What it comes to does not: **the
directories are made as far as nothing is in the way** (`Sound.makesAt`), and a file that is
written with its directories is there unless something is in the way of them or in its own place
(`Sound.acts_writeWithFolders`).
-/

namespace ThreeAddress

namespace FileTree

variable {t t' : FileTree}

/-! ## Files in new directories -/

/-- What comes of writing a file at a place, with the directories that it lies in. -/
def writing (t : FileTree) (w : List String) : Except FileFault Unit := do
  t.making w.dropLast
  if t.get? w = some .folder then throw .isFolder

/-- What lies at a place after a file was written. -/
def written (t : FileTree) (w : List String) (text : String) (k : List String) : Option Entry :=
  if k = w ∧ t.writing w = .ok () then some (.file (some text)) else t.made w.dropLast k

theorem writing_eq_ok_iff {w : List String} :
    t.writing w = .ok () ↔ t.making w.dropLast = .ok () ∧ t.get? w ≠ some .folder := by
  unfold writing
  cases t.making w.dropLast with
  | error e => simp [bind, Except.bind]
  | ok _ =>
    by_cases h : t.get? w = some .folder
    · simp [h, bind, Except.bind, throw, throwThe, MonadExceptOf.throw]
    · simp [h, bind, Except.bind, pure, Except.pure]

/-- A tree stays sound where a file is written. -/
theorem Sound.of_written (h : t.Sound) {n : List String} {s text : String}
    (hs : s.utf8ByteSize ≤ longestName) (ht' : ∀ k, t'.get? k = t.written (n ++ [s]) text k) :
    t'.Sound := by
  simp only [written, List.dropLast_concat] at ht'
  have hmaking (hok : t.writing (n ++ [s]) = .ok ()) : t.made n n = some .folder := by
    have hmaking := (writing_eq_ok_iff.mp hok).1
    rw [List.dropLast_concat] at hmaking
    exact made_self hmaking
  constructor
  · intro names x hsome
    rw [ht'] at hsome ⊢
    split at hsome
    · rename_i hfile
      obtain ⟨heq, hok⟩ := hfile
      obtain ⟨rfl, -⟩ := List.append_inj' heq rfl
      rw [if_neg (by simp), hmaking hok]
    · rw [if_neg]
      · exact h.made_folder hsome
      · rintro ⟨rfl, hok⟩
        have hfolder := h.made_folder hsome
        rw [made_elsewhere not_concat_prefix] at hfolder
        exact (writing_eq_ok_iff.mp hok).2 hfolder
  · intro names hsome
    rw [ht'] at hsome
    split at hsome
    · rename_i hfile
      rw [hfile.1, isShort_append, h.made_short (by rw [hmaking hfile.2]; rfl)]
      simpa [isShort] using hs
    · exact h.made_short hsome

/-- What lies at a place after files were written at others, none of them in the way of
another. -/
def landed (t : FileTree) (text : List String → String) (ws : List (List String))
    (k : List String) : Option Entry :=
  if k ∈ ws ∧ t.writing k = .ok () then some (.file (some (text k)))
  else if t.get? k = none ∧ t.opens k = true ∧ ∃ w ∈ ws, k <+: w.dropLast then some .folder
  else t.get? k

section

variable {text : List String → String} {w : List String} {ws : List (List String)}

@[simp] theorem landed_nil (k : List String) : t.landed text [] k = t.get? k := by
  simp [landed]

theorem landed_congr {ws' : List (List String)} (h : ∀ w, w ∈ ws ↔ w ∈ ws') (k : List String) :
    t.landed text ws k = t.landed text ws' k := by
  simp only [landed, h]

/-- What is there is kept, unless a file is written in its place. -/
theorem landed_of_isSome {k : List String} (hk : k ∉ ws) (hsome : (t.get? k).isSome = true) :
    t.landed text ws k = t.get? k := by
  rw [landed, if_neg fun h => hk h.1, if_neg]
  rintro ⟨hnone, -⟩
  rw [hnone] at hsome
  cases hsome

theorem landed_of_folder {k : List String} (hk : t.get? k = some .folder) :
    t.landed text ws k = some .folder := by
  rw [landed, if_neg, if_neg, hk]
  · rintro ⟨hnone, -⟩
    cases hk.symm.trans hnone
  · rintro ⟨-, hok⟩
    exact (writing_eq_ok_iff.mp hok).2 hk

variable (ht' : ∀ k, t'.get? k = t.landed text ws k) (hw : ∀ w' ∈ ws, ¬ w' <+: w ∧ ¬ w <+: w')

include ht' hw

theorem isFileAt_landed {m : List String} (hm : m <+: w.dropLast) :
    t'.isFileAt m = t.isFileAt m := by
  have hmem : m ∉ ws := fun hmem => (hw m hmem).1 (hm.trans (List.dropLast_prefix w))
  rw [isFileAt, ht', landed, if_neg fun h => hmem h.1]
  by_cases h : t.get? m = none ∧ t.opens m = true ∧ ∃ w ∈ ws, m <+: w.dropLast
  · rw [if_pos h, isFileAt_of_none h.1]
  · rw [if_neg h, isFileAt]

theorem get?_landed_self : t'.get? w = t.get? w := by
  rw [ht', landed, if_neg fun h => (hw w h.1).1 (List.prefix_refl w), if_neg]
  rintro ⟨-, -, w', hw', hfront⟩
  exact (hw w' hw').2 (hfront.trans (List.dropLast_prefix w'))

/-- A file that is written after others comes to what it comes to alone. -/
theorem writing_landed : t'.writing w = t.writing w := by
  rw [writing, writing, making_congr fun m hm => isFileAt_landed ht' hw hm, get?_landed_self ht' hw]

/-- One more file. -/
theorem written_landed (k : List String) :
    t'.written w (text w) k = t.landed text (w :: ws) k := by
  rw [written, writing_landed ht' hw]
  by_cases hk : k = w ∧ t.writing w = .ok ()
  · rw [if_pos hk, landed, if_pos ⟨by simp [hk.1], hk.1 ▸ hk.2⟩, hk.1]
  · have hopens (hfront : k <+: w.dropLast) : t'.opens k = t.opens k :=
      opens_congr fun m hm => isFileAt_landed ht' hw (hm.trans hfront)
    have hfile : ((k = w ∨ k ∈ ws) ∧ t.writing k = .ok ()) ↔ (k ∈ ws ∧ t.writing k = .ok ()) := by
      constructor
      · rintro ⟨rfl | hmem, hok⟩
        · exact absurd ⟨rfl, hok⟩ hk
        · exact ⟨hmem, hok⟩
      · exact fun h => ⟨.inr h.1, h.2⟩
    rw [if_neg hk, made, ht', landed, landed]
    simp only [List.mem_cons, exists_eq_or_imp, hfile]
    -- the files of before, then the directories of before, then the new ones
    by_cases h₁ : k ∈ ws ∧ t.writing k = .ok ()
    · rw [if_pos h₁, if_pos h₁, if_neg (by simp)]
    · rw [if_neg h₁, if_neg h₁]
      by_cases h₂ : t.get? k = none ∧ t.opens k = true ∧ ∃ w ∈ ws, k <+: w.dropLast
      · rw [if_pos h₂, if_neg (by simp), if_pos ⟨h₂.1, h₂.2.1, .inr h₂.2.2⟩]
      · rw [if_neg h₂]
        refine if_congr ⟨?_, ?_⟩ rfl rfl
        · rintro ⟨hnone, hfront, hok⟩
          exact ⟨hnone, hopens hfront ▸ hok, .inl hfront⟩
        · rintro ⟨hnone, hok, hfront | hothers⟩
          · exact ⟨hnone, hfront, (hopens hfront).symm ▸ hok⟩
          · exact absurd ⟨hnone, hok, hothers⟩ h₂

end

end FileTree

/-! ## Runs on trees -/

/-- What a run gives and what it makes of the tree, whatever else is in the session. -/
def Session.Acts {α : Type} (x : StateM Session α) (t : FileTree) (a : α) (t' : FileTree) : Prop :=
  ∀ s : Session, s.tree = t → (x s).1 = a ∧ (x s).2.tree = t'

namespace Session.Acts

variable {α β : Type} {x : StateM Session α} {f : α → StateM Session β} {a : α} {b : β}
  {t t₁ t₂ : FileTree} {p : Path} {around : List Path}

theorem pure (a : α) (t : FileTree) : Acts (Pure.pure a) t a t :=
  fun _ hs => ⟨rfl, hs⟩

theorem bind (hx : Acts x t a t₁) (hf : Acts (f a) t₁ b t₂) : Acts (x >>= f) t b t₂ := by
  intro s hs
  obtain ⟨ha, htree⟩ := hx s hs
  have hrun : (x >>= f) s = f (x s).1 (x s).2 := rfl
  rw [hrun, ha]
  exact hf _ htree

theorem change {g : FileTree → Except FileFault FileTree} (h : g t = .ok t₁) :
    Acts (Session.change g) t (.ok ()) t₁ := by
  rintro s rfl
  simp [Session.change, h]

theorem change_error {g : FileTree → Except FileFault FileTree} {e : FileFault}
    (h : g t = .error e) : Acts (Session.change g) t (.error e) t := by
  rintro s rfl
  simp [Session.change, h]

theorem isFolder (p : Path) (t : FileTree) :
    Acts (World.isFolder p : StateM Session Bool) t (t.isFolder p) t := by
  rintro s rfl
  exact ⟨rfl, rfl⟩

theorem readText (p : Path) (t : FileTree) :
    Acts (World.readText p : StateM Session _) t (t.read p) t := by
  rintro s rfl
  exact ⟨rfl, rfl⟩

theorem tell (shown : Severity) (e : LogEntry) (t : FileTree) :
    Acts (World.tell shown e : StateM Session Unit) t () t := by
  rintro s rfl
  unfold World.tell
  split
  · exact ⟨rfl, rfl⟩
  · exact ⟨rfl, rfl⟩

theorem made (h : t.makeFolder p = .ok t₁) : Acts (makeFolders (p :: around)) t (.ok ()) t₁ :=
  .bind (.change h) (.pure _ _)

/-- One that is there already is as good as a new one. -/
theorem occupied (h : t.makeFolder p = .error .occupied) (around : List Path) :
    Acts (makeFolders (p :: around)) t (if t.isFolder p then .ok () else .error .occupied) t := by
  refine .bind (.change_error h) (.bind (.isFolder p t) ?_)
  cases t.isFolder p with
  | true => exact .pure _ _
  | false => exact .pure _ _

theorem refused {e : FileFault} (h : t.makeFolder p = .error e) (hm : e ≠ .missing)
    (ho : e ≠ .occupied) : Acts (makeFolders (p :: around)) t (.error e) t := by
  cases e with
  | missing => exact absurd rfl hm
  | occupied => exact absurd rfl ho
  | _ => exact .bind (.change_error h) (.bind (.isFolder p t) (.pure _ _))

theorem blocked {e : FileFault} (h : t.makeFolder p = .error .missing)
    (haround : Acts (makeFolders around) t (.error e) t₁) :
    Acts (makeFolders (p :: around)) t (.error e) t₁ :=
  .bind (.change_error h) (.bind haround (.pure _ _))

theorem after (h : t.makeFolder p = .error .missing)
    (haround : Acts (makeFolders around) t (.ok ()) t₁) (hp : t₁.makeFolder p = .ok t₂) :
    Acts (makeFolders (p :: around)) t (.ok ()) t₂ :=
  .bind (.change_error h) (.bind haround (.bind (.change hp) (.pure _ _)))

theorem refused_after {e : FileFault} (h : t.makeFolder p = .error .missing)
    (haround : Acts (makeFolders around) t (.ok ()) t₁) (hp : t₁.makeFolder p = .error e)
    (ho : e ≠ .occupied) : Acts (makeFolders (p :: around)) t (.error e) t₁ := by
  refine .bind (.change_error h) (.bind haround (.bind (.change_error hp)
    (.bind (.isFolder p t₁) ?_)))
  simp only [ho, decide_false, Bool.false_and, Bool.false_eq_true, if_false]
  exact .pure _ _

end Session.Acts

/-! ## Paths and the places that they lead to -/

namespace Path

variable {p : Path} {lead : Lead} {ss : List String} {s : String}

/-- The segments that a path starts with before its names. -/
def Lead.front : Lead → List String
  | .here => ["."]
  | _ => []

theorem segments_ofParts (h : lead ≠ .root) (ss : List String) :
    (ofParts lead ss).segments = lead.front ++ ss := by
  cases lead with
  | nothing => rfl
  | here => rfl
  | root => exact absurd rfl h

/-- A path without a start begins with a name, or is a single empty segment. -/
theorem parts_eq_nothing (hdot : p.segments.head? ≠ some ".")
    (hempty : p.segments.head? = some "" → p.segments = [""]) :
    p.parts = (.nothing, p.segments) := by
  obtain ⟨segments⟩ := p
  unfold parts
  split
  · rename_i hs
    dsimp only at hs
    subst hs
    cases hempty rfl
  · rename_i hs
    dsimp only at hs
    subst hs
    exact absurd rfl hdot
  · rfl

theorem parts_cases (p : Path) :
    (∃ s rest, p.segments = "" :: s :: rest ∧ p.parts = (.root, s :: rest)) ∨
    (∃ rest, p.segments = "." :: rest ∧ p.parts = (.here, rest)) ∨
    (p.segments.head? ≠ some "." ∧ (p.segments.head? = some "" → p.segments = [""]) ∧
      p.parts = (.nothing, p.segments)) := by
  obtain ⟨segments⟩ := p
  match segments with
  | [] => exact .inr (.inr ⟨by simp, by simp, rfl⟩)
  | [s] =>
    by_cases hdot : s = "."
    · subst hdot
      exact .inr (.inl ⟨_, rfl, rfl⟩)
    · have hne : (⟨[s]⟩ : Path).segments.head? ≠ some "." := by simpa using hdot
      exact .inr (.inr ⟨hne, by simp, parts_eq_nothing hne (by simp)⟩)
  | s :: s' :: rest =>
    by_cases hempty : s = ""
    · subst hempty
      exact .inl ⟨_, _, rfl, rfl⟩
    · by_cases hdot : s = "."
      · subst hdot
        exact .inr (.inl ⟨_, rfl, rfl⟩)
      · have hne : (⟨s :: s' :: rest⟩ : Path).segments.head? ≠ some "." := by simpa using hdot
        have hne' : (⟨s :: s' :: rest⟩ : Path).segments.head? ≠ some "" := by simpa using hempty
        exact .inr (.inr ⟨hne, fun h => absurd h hne', parts_eq_nothing hne fun h => absurd h hne'⟩)

theorem segments_eq (h : p.parts.1 ≠ .root) : p.segments = p.parts.1.front ++ p.parts.2 := by
  obtain ⟨_, _, _, hparts⟩ | ⟨_, hs, hparts⟩ | ⟨-, -, hparts⟩ := p.parts_cases
  · rw [hparts] at h
    exact absurd rfl h
  · rw [hparts, hs]
    rfl
  · rw [hparts]
    rfl

/-- A path that ends after some name of another starts like that. -/
theorem parts_ofParts (h : p.parts.1 ≠ .root) (hss : ss ++ [s] <+: p.parts.2)
    (hs : isIdle s = false) :
    (ofParts p.parts.1 (ss ++ [s])).parts = (p.parts.1, ss ++ [s]) := by
  obtain ⟨_, _, _, hparts⟩ | ⟨_, _, hparts⟩ | ⟨hdot, hempty, hparts⟩ := p.parts_cases
  · rw [hparts] at h
    exact absurd rfl h
  · rw [hparts]
    rfl
  · rw [hparts] at hss ⊢
    have hhead : (ss ++ [s]).head? = p.segments.head? := by
      obtain ⟨k, hk⟩ := hss
      dsimp only at hk
      have hne : ss ++ [s] ≠ [] := by simp
      rw [← hk, List.head?_append_of_ne_nil _ hne]
    refine parts_eq_nothing (by rwa [← hhead] at hdot) fun hh => ?_
    have hss : ss ++ [s] <+: [""] := hempty (hhead.symm.trans hh) ▸ hss
    have hmem : s ∈ [""] := hss.subset (by simp)
    rw [List.mem_singleton.mp hmem] at hs
    cases hs

theorem step?_eq_some (hs : isIdle s = false) : ∃ x, step? s = some x := by
  unfold step?
  rw [if_neg (by simp [hs])]
  split
  · exact ⟨_, rfl⟩
  · exact ⟨_, rfl⟩

/-- A path that ends in a name means something. -/
theorem steps_ne_nil (hp : p.parts.2 = ss ++ [s]) (hs : isIdle s = false) : p.steps ≠ [] := by
  obtain ⟨x, hx⟩ := step?_eq_some hs
  have hmem : x ∈ p.parts.2.filterMap step? := List.mem_filterMap.mpr ⟨s, by simp [hp], hx⟩
  exact List.ne_nil_of_mem (List.mem_append_right _ hmem)

end Path

namespace FileTree

open ThreeAddress.Path (isIdle ofParts outward)

variable {t t' : FileTree} {p : Path} {ss : List String} {s : String}

theorem check_eq_ok_iff : check p = .ok () ↔
    (∀ s ∈ p.segments, s.contains '\x00' = false) ∧ p.steps ≠ [] ∧ p.parts.1 ≠ .root := by
  unfold check
  split
  · rename_i hnul
    obtain ⟨x, hx, hcontains⟩ := List.any_eq_true.mp hnul
    refine ⟨fun h => (by cases h), fun h => ?_⟩
    cases hcontains.symm.trans (h.1 x hx)
  · rename_i hnul
    have hnul : ∀ s ∈ p.segments, s.contains '\x00' = false := by simpa using hnul
    split
    · rename_i h
      refine ⟨fun h => (by cases h), fun h' => ?_⟩
      simp only [Bool.or_eq_true, List.isEmpty_iff, decide_eq_true_eq] at h
      exact absurd h (by simpa using h'.2)
    · rename_i h
      simp only [Bool.or_eq_true, List.isEmpty_iff, decide_eq_true_eq, not_or] at h
      exact ⟨fun _ => ⟨hnul, h⟩, fun _ => rfl⟩

theorem check_ofParts (h : check p = .ok ()) (hss : ss ++ [s] <+: p.parts.2)
    (hs : isIdle s = false) : check (ofParts p.parts.1 (ss ++ [s])) = .ok () := by
  obtain ⟨hnul, -, hroot⟩ := check_eq_ok_iff.mp h
  have hparts := Path.parts_ofParts hroot hss hs
  refine check_eq_ok_iff.mpr ⟨fun x hx => hnul x ?_, ?_, by rwa [hparts]⟩
  · rw [Path.segments_ofParts hroot, List.mem_append] at hx
    rw [Path.segments_eq hroot, List.mem_append]
    exact hx.imp_right fun hx => hss.subset hx
  · exact Path.steps_ne_nil (by rw [hparts]) hs

theorem reach_front (lead : Path.Lead) (ss : List String) :
    t.reach (lead.front ++ ss) = t.reach ss := by
  cases lead with
  | nothing => rfl
  | root => rfl
  | here =>
    unfold reach
    rw [Path.Lead.front, List.singleton_append, walk_idle get?_nil (by decide)]

/-- The place for something new is in the directory that the other segments lead to. -/
theorem place_of_name {ss : List String} (hcheck : check p = .ok ()) (hp : p.segments = ss ++ [s])
    (hs : isIdle s = false) (hup : s ≠ "..") :
    t.place p = t.reach ss >>= fun n =>
      if s.utf8ByteSize ≤ longestName then .ok (some (n ++ [s])) else .error .nameTooLong := by
  simp only [isIdle, Bool.or_eq_false_iff, beq_eq_false_iff_ne] at hs
  unfold place
  rw [hcheck, hp, List.reverse_append, List.reverse_singleton, List.singleton_append,
    List.dropWhile_cons_of_neg (by simpa using hs.1)]
  simp only [List.reverse_reverse, walk_dot]
  rw [if_neg (by simpa using ⟨hs.2, hup⟩)]
  rfl

theorem place_of_dots {e : Entry} (hcheck : check p = .ok ()) (hp : p.segments = ss ++ [s])
    (hs : s = "." ∨ s = "..") (h : t.entry p = .ok e) : t.place p = .ok none := by
  have hne : s ≠ "" := by
    rintro rfl
    simp at hs
  unfold place
  rw [hcheck, hp, List.reverse_append, List.reverse_singleton, List.singleton_append,
    List.dropWhile_cons_of_neg (by simpa using hne)]
  simp only [bind, Except.bind, h]
  rw [if_pos (by simpa using hs)]
  rfl

theorem entry_of_reach {base : List String} (hcheck : check p = .ok ())
    (h : t.reach p.segments = .ok base) : t.entry p = .ok .folder := by
  obtain ⟨hwalk, hbase⟩ := reach_eq_ok_iff.mp h
  unfold entry resolve
  rw [hcheck]
  simp only [bind, Except.bind, hwalk, hbase]
  rfl

/-- A directory that is there is not made again. -/
theorem makeFolder_of_reach {base : List String} (hcheck : check p = .ok ())
    (hp : p.segments = ss ++ [s]) (hs : s ≠ "") (h : t.reach p.segments = .ok base) :
    t.makeFolder p = .error .occupied := by
  unfold makeFolder
  by_cases hdots : s = "." ∨ s = ".."
  · rw [place_of_dots hcheck hp hdots (entry_of_reach hcheck h)]
    rfl
  · obtain ⟨hdot, hup⟩ := not_or.mp hdots
    have hidle : isIdle s = false := by simp [isIdle, hs, hdot]
    rw [hp, reach_name hidle hup] at h
    rw [place_of_name hcheck hp hidle hup]
    cases hss : t.reach ss with
    | error e => simp [hss, bind, Except.bind] at h
    | ok n =>
      simp only [hss, bind, Except.bind] at h ⊢
      by_cases hshort : s.utf8ByteSize ≤ longestName
      · simp only [hshort, if_true, enter] at h ⊢
        split at h
        · cases h
        · cases h
        · rename_i hfolder
          rw [hfolder]
          rfl
      · simp [hshort] at h

/-- Making a directory that is wanted below another one. -/
theorem makeFolder_of_name (hcheck : check p = .ok ()) (hp : p.segments = ss ++ [s])
    (hs : isIdle s = false) (hup : s ≠ "..") :
    t.makeFolder p = t.reach ss >>= fun n =>
      if s.utf8ByteSize ≤ longestName then
        if (t.get? (n ++ [s])).isSome then .error .occupied else .ok (t.put (n ++ [s]) .folder)
      else .error .nameTooLong := by
  unfold makeFolder
  rw [place_of_name hcheck hp hs hup]
  cases t.reach ss with
  | error e => rfl
  | ok n =>
    simp only [bind, Except.bind]
    by_cases hshort : s.utf8ByteSize ≤ longestName
    · rw [if_pos hshort, if_pos hshort]
      dsimp only
      cases t.get? (n ++ [s]) with
      | none => rfl
      | some e => rfl
    · rw [if_neg hshort, if_neg hshort]

theorem isFolder_of_name {n : List String} (hcheck : check p = .ok ())
    (hp : p.segments = ss ++ [s]) (hs : isIdle s = false) (hup : s ≠ "..")
    (h : t.reach ss = .ok n) (hshort : s.utf8ByteSize ≤ longestName) :
    t.isFolder p = true ↔ t.get? (n ++ [s]) = some .folder := by
  obtain ⟨hwalk, hn⟩ := reach_eq_ok_iff.mp h
  have hresolve : t.resolve p = .ok (n ++ [s]) := by
    rw [resolve, hcheck, hp, walk_append, hwalk]
    simp only [walk, hn, advance_name hs hup, bind, Except.bind, if_pos hshort]
  unfold isFolder entry
  rw [hresolve]
  simp only [bind, Except.bind]
  cases t.get? (n ++ [s]) with
  | none => simp [throw, throwThe, MonadExceptOf.throw]
  | some e =>
    cases e with
    | folder => simp [pure, Except.pure]
    | file x => simp [pure, Except.pure]

/-- Directories that are there are left alone. -/
theorem acts_makeFolders_of_reach {pre base : List String} (hcheck : check p = .ok ())
    (hpre : t.reach pre = .ok base) (hfront : pre <+: p.parts.2) :
    Session.Acts (makeFolders (outward p.parts.1 pre.reverse)) t (.ok ()) t := by
  have hroot := (check_eq_ok_iff.mp hcheck).2.2
  have hthere {q : Path} {ss : List String} {s : String} {around : List Path}
      (hq : check q = .ok ()) (hsegments : q.segments = ss ++ [s]) (hs : s ≠ "")
      {base : List String} (h : t.reach q.segments = .ok base) :
      Session.Acts (makeFolders (q :: around)) t (.ok ()) t := by
    have hfolder : t.isFolder q = true := by rw [isFolder, entry_of_reach hq h]
    have hacts := Session.Acts.occupied (makeFolder_of_reach hq hsegments hs h) around
    rwa [if_pos hfolder] at hacts
  induction pre using List.reverseRecOn with
  | nil =>
    rw [List.reverse_nil, outward]
    split
    · exact hthere (check_eq_ok_iff.mpr ⟨by simp, by decide, by decide⟩)
        (List.nil_append ["."]).symm (by decide) rfl
    · exact .pure _ _
  | append_singleton pre s ih =>
    rw [List.reverse_append, List.reverse_singleton, List.singleton_append, outward]
    split
    · rename_i hs
      rw [reach_idle hs] at hpre
      exact ih hpre ((List.prefix_append pre [s]).trans hfront)
    · rename_i hs
      have hs : isIdle s = false := by simpa using hs
      rw [List.reverse_cons, List.reverse_reverse]
      have hsegments := Path.segments_ofParts hroot (pre ++ [s])
      refine hthere (check_ofParts hcheck hfront hs) (hsegments.trans (List.append_assoc ..).symm)
        ?_ (by rw [hsegments, reach_front]; exact hpre)
      rintro rfl
      cases hs

/-- The directories are made with whatever is missing around the place, as far as nothing is in
the way. -/
def MakesAt (t : FileTree) (folders : List Path) (n : List String) : Prop :=
  ∃ t', Session.Acts (makeFolders folders) t (t.making n) t' ∧ ∀ k, t'.get? k = t.made n k

section

variable {q : Path} {around : List Path} {n : List String} {s : String}

theorem Sound.makesAt_of_folder (h : t.Sound) (hn : t.get? n = some .folder)
    (hmake : t.makeFolder q = if s.utf8ByteSize ≤ longestName then
      if (t.get? (n ++ [s])).isSome then .error .occupied else .ok (t.put (n ++ [s]) .folder)
      else .error .nameTooLong)
    (hq : s.utf8ByteSize ≤ longestName → (t.isFolder q = true ↔ t.get? (n ++ [s]) = some .folder)) :
    t.MakesAt (q :: around) (n ++ [s]) := by
  obtain ⟨hclear, hnshort⟩ := opens_iff.mp (h.opens_of_folder hn)
  have hway (k : List String) : t.made n k = t.get? k :=
    made_eq_get? (fun m hm hnone => by cases hnone.symm.trans (h.get?_of_prefix hn hm)) k
  -- nothing but the last directory can be missing
  have hsame (hlast : t.get? (n ++ [s]) = none → t.opens (n ++ [s]) = false) (k : List String) :
      t.get? k = t.made (n ++ [s]) k := by
    by_cases hk : k = n ++ [s]
    · subst hk
      refine (made_eq_get? (fun m hm hnone => ?_) _).symm
      obtain rfl | hm := List.prefix_concat_iff.mp hm
      · exact hlast hnone
      · cases hnone.symm.trans (h.get?_of_prefix hn hm)
    · rw [made_concat hk, hway]
  by_cases hshort : s.utf8ByteSize ≤ longestName
  · rw [if_pos hshort] at hmake
    cases hget : t.get? (n ++ [s]) with
    | none =>
      have hopens : t.opens (n ++ [s]) = true := by
        refine opens_iff.mpr ⟨clear_concat hclear (isFileAt_of_none hget), ?_⟩
        rw [isShort_append, hnshort]
        simpa [isShort] using hshort
      rw [hget] at hmake
      rw [MakesAt, making_of_opens hopens]
      refine ⟨_, .made hmake, fun k => ?_⟩
      rw [get?_put (by simp)]
      split
      · rename_i hk
        rw [hk, made_concat_self hget, if_pos hopens]
      · rename_i hk
        rw [made_concat hk, hway]
    | some e =>
      rw [hget] at hmake
      have hocc := Session.Acts.occupied hmake around
      refine ⟨t, ?_, hsame fun hnone => by cases hget.symm.trans hnone⟩
      cases e with
      | folder =>
        rw [if_pos ((hq hshort).mpr hget)] at hocc
        rwa [making_of_opens (h.opens_of_folder hget)]
      | file x =>
        have hfile : t.isFileAt (n ++ [s]) = true := by simp [isFileAt, hget]
        rw [if_neg (by simp [hq hshort, hget])] at hocc
        rwa [making, if_pos hfile]
  · rw [if_neg hshort] at hmake
    have hlong := isShort_concat_of_long (n := n) hshort
    have hnone : t.get? (n ++ [s]) = none := by
      by_contra hne
      cases hlong.symm.trans (h.short _ (Option.isSome_iff_ne_none.mpr hne))
    refine ⟨t, ?_, hsame fun _ => by rw [opens, hlong, Bool.and_false]⟩
    rw [making_of_long (clear_concat hclear (isFileAt_of_none hnone)) hlong]
    exact .refused hmake (by simp) (by simp)

theorem Sound.makesAt_of_file (h : t.Sound) {m : List String} (hm : m <+: n)
    (hfile : t.isFileAt m = true) (hmake : t.makeFolder q = .error .notFolder) :
    t.MakesAt (q :: around) (n ++ [s]) := by
  have hsome : (t.get? m).isSome = true := by
    unfold isFileAt at hfile
    split at hfile
    · simp [*]
    · cases hfile
  have hmn : m <+: n ++ [s] := hm.trans (List.prefix_append n [s])
  have hne : m ≠ n ++ [s] := by
    rintro rfl
    exact not_concat_prefix hm
  have hnone : t.isFileAt (n ++ [s]) = false := by
    refine isFileAt_of_none (by_contra fun hsome => ?_)
    have hfolder := h.prefix_folder (Option.isSome_iff_ne_none.mpr hsome) hmn hne
    cases hfile.symm.trans (isFileAt_of_folder hfolder)
  rw [MakesAt, making_of_file_above hnone hmn hfile]
  refine ⟨t, .refused hmake (by simp) (by simp), fun k => (made_eq_get? ?_ k).symm⟩
  intro k hk hknone
  by_contra hopens
  have hclear := (opens_iff.mp (Bool.of_not_eq_false hopens)).1
  obtain hkm | hmk := List.prefix_or_prefix_of_prefix hk hmn
  · by_cases hkm' : k = m
    · rw [← hkm', hknone] at hsome
      cases hsome
    · cases hknone.symm.trans (h.prefix_folder hsome hkm hkm')
  · cases hfile.symm.trans (hclear m hmk)

theorem Sound.makesAt_of_missing (h : t.Sound) {t₁ : FileTree} (hn : t.get? n = none)
    (hclear : ∀ m, m <+: n → t.isFileAt m = false) (hmake : t.makeFolder q = .error .missing)
    (haround : Session.Acts (makeFolders around) t (t.making n) t₁)
    (hmade : ∀ k, t₁.get? k = t.made n k)
    (hmake₁ : t₁.get? n = some .folder → t₁.makeFolder q = if s.utf8ByteSize ≤ longestName then
      if (t₁.get? (n ++ [s])).isSome then .error .occupied else .ok (t₁.put (n ++ [s]) .folder)
      else .error .nameTooLong) :
    t.MakesAt (q :: around) (n ++ [s]) := by
  have hnone : t.get? (n ++ [s]) = none := h.get?_append_eq_none hn
  have hclear' := clear_concat hclear (isFileAt_of_none hnone)
  have hsame (hlong : isShort (n ++ [s]) = false) (k : List String) :
      t₁.get? k = t.made (n ++ [s]) k := by
    rw [hmade]
    by_cases hk : k = n ++ [s]
    · rw [hk, made_concat_self hnone, opens, hlong, Bool.and_false, if_neg (by simp),
        made_elsewhere not_concat_prefix, hnone]
    · rw [made_concat hk]
  cases hshort : isShort n with
  | false =>
    have hlong : isShort (n ++ [s]) = false := by rw [isShort_append, hshort, Bool.false_and]
    rw [making_of_long hclear hshort] at haround
    rw [MakesAt, making_of_long hclear' hlong]
    exact ⟨t₁, .blocked hmake haround, hsame hlong⟩
  | true =>
    have hopens : t.opens n = true := opens_iff.mpr ⟨hclear, hshort⟩
    have hn₁ : t₁.get? n = some .folder := by
      rw [hmade, made, if_pos ⟨hn, List.prefix_refl n, hopens⟩]
    have hnone₁ : t₁.get? (n ++ [s]) = none := by
      rw [hmade, made_elsewhere not_concat_prefix, hnone]
    have hmake₁ := hmake₁ hn₁
    rw [making_of_opens hopens] at haround
    by_cases hs : s.utf8ByteSize ≤ longestName
    · have hopens' : t.opens (n ++ [s]) = true := by
        refine opens_iff.mpr ⟨hclear', ?_⟩
        rw [isShort_append, hshort]
        simpa [isShort] using hs
      rw [if_pos hs, hnone₁] at hmake₁
      rw [MakesAt, making_of_opens hopens']
      refine ⟨_, .after hmake haround hmake₁, fun k => ?_⟩
      rw [get?_put (by simp)]
      split
      · rename_i hk
        rw [hk, made_concat_self hnone, if_pos hopens']
      · rename_i hk
        rw [made_concat hk, hmade]
    · have hlong := isShort_concat_of_long (n := n) hs
      rw [if_neg hs] at hmake₁
      rw [MakesAt, making_of_long hclear' hlong]
      exact ⟨t₁, .refused_after hmake haround hmake₁ (by simp), hsame hlong⟩

theorem Sound.makesAt_of_tooLong (h : t.Sound) (hn : t.get? n = none)
    (hclear : ∀ m, m <+: n → t.isFileAt m = false)
    (hlong : ∀ m, m <+: n → t.get? m = none → isShort m = false)
    (hmake : t.makeFolder q = .error .nameTooLong) : t.MakesAt (q :: around) (n ++ [s]) := by
  have hnone : t.get? (n ++ [s]) = none := h.get?_append_eq_none hn
  have hlast : isShort (n ++ [s]) = false := by
    rw [isShort_append, hlong n (List.prefix_refl n) hn, Bool.false_and]
  rw [MakesAt, making_of_long (clear_concat hclear (isFileAt_of_none hnone)) hlast]
  refine ⟨t, .refused hmake (by simp) (by simp), fun k => (made_eq_get? ?_ k).symm⟩
  intro m hm hmnone
  have hmlong : isShort m = false := by
    obtain rfl | hm := List.prefix_concat_iff.mp hm
    · exact hlast
    · exact hlong m hm hmnone
  rw [opens, hmlong, Bool.and_false]

end

/-- **Directories that are wanted below one that is there are made as far as nothing is in the
way.** -/
theorem Sound.makesAt (h : t.Sound) (hcheck : check p = .ok ()) {pre base : List String}
    (hpre : t.reach pre = .ok base) {post : List String} (hpost : ".." ∉ post)
    (hfront : pre ++ post <+: p.parts.2) :
    t.MakesAt (outward p.parts.1 (pre ++ post).reverse) (below base post) := by
  have hroot := (check_eq_ok_iff.mp hcheck).2.2
  induction post using List.reverseRecOn with
  | nil =>
    have hbase := (reach_eq_ok_iff.mp hpre).2
    rw [List.append_nil] at hfront ⊢
    rw [show below base [] = base from List.append_nil base, MakesAt,
      making_of_opens (h.opens_of_folder hbase)]
    refine ⟨t, acts_makeFolders_of_reach hcheck hpre hfront, fun k => ?_⟩
    refine (made_eq_get? (fun m hm hnone => ?_) k).symm
    cases hnone.symm.trans (h.get?_of_prefix hbase hm)
  | append_singleton post s ih =>
    obtain ⟨hpost, hup⟩ : ".." ∉ post ∧ s ≠ ".." := by
      simpa [eq_comm] using hpost
    rw [← List.append_assoc] at hfront ⊢
    have ih := ih hpost ((List.prefix_append _ [s]).trans hfront)
    rw [List.reverse_append, List.reverse_singleton, List.singleton_append, outward]
    cases hs : isIdle s with
    | true =>
      rw [below_idle hs]
      exact ih
    | false =>
      have hq := check_ofParts hcheck hfront hs
      have hsegments := Path.segments_ofParts hroot (pre ++ post ++ [s])
      rw [← List.append_assoc] at hsegments
      have hmake (t : FileTree) := makeFolder_of_name (t := t) hq hsegments hs hup
      simp only [reach_front] at hmake
      rw [if_neg (by simp), List.reverse_cons, List.reverse_reverse, below_name hs]
      have hreached := h.reached hpre hpost
      generalize hx : t.reach (pre ++ post) = x at hreached
      cases hreached with
      | there hn =>
        refine h.makesAt_of_folder hn (by rw [hmake, hx]; rfl) fun hshort => ?_
        exact isFolder_of_name hq hsegments hs hup (by rw [reach_front, hx]) hshort
      | file hm hfile => exact h.makesAt_of_file hm hfile (by rw [hmake, hx]; rfl)
      | missing hn hclear =>
        obtain ⟨t₁, haround, hmade⟩ := ih
        refine h.makesAt_of_missing hn hclear (by rw [hmake, hx]; rfl) haround hmade fun hn₁ => ?_
        have hpre₁ : t₁.reach pre = .ok base := by
          refine reach_mono (fun m hm => ?_) hpre
          rw [hmade, made_of_isSome (by rw [hm]; rfl), hm]
        rw [hmake, (h.of_made hmade).reach_of_folder hpre₁ hpost hn₁]
        rfl
      | tooLong hn hclear hlong =>
        exact h.makesAt_of_tooLong hn hclear hlong (by rw [hmake, hx]; rfl)

theorem write_of_name {n : List String} (hcheck : check p = .ok ()) (hp : p.segments = ss ++ [s])
    (hs : isIdle s = false) (hup : s ≠ "..") (hshort : s.utf8ByteSize ≤ longestName)
    (h : t.reach ss = .ok n) (text : String) :
    t.write p text = if t.get? (n ++ [s]) = some .folder then .error .isFolder
      else .ok (t.put (n ++ [s]) (.file (some text))) := by
  have hlast : p.segments.getLast? ≠ some "" := by
    rw [hp, List.getLast?_concat]
    rintro ⟨rfl⟩
    cases hs
  unfold write
  rw [place_of_name hcheck hp hs hup, h]
  simp only [bind, Except.bind, if_pos hshort, hlast, decide_false, Bool.false_or,
    decide_eq_true_eq]
  split
  · rfl
  · rfl

/-- The directories around a path that ends in a name. -/
theorem folders_of_name {body : List String} (hp : p.parts.2 = body ++ [s])
    (hs : isIdle s = false) : p.folders = outward p.parts.1 body.reverse := by
  rw [Path.folders, hp, List.reverse_append, List.reverse_singleton, List.singleton_append, outward,
    if_neg (by simp [hs])]
  rfl

/-- **A file is written unless something is in the way of its directories or in its own place**,
and all else stays. -/
theorem Sound.acts_writeWithFolders (h : t.Sound) (hcheck : check p = .ok ())
    {pre base : List String} (hpre : t.reach pre = .ok base) {post : List String}
    (hpost : ".." ∉ post) (hp : p.parts.2 = pre ++ post ++ [s]) (hs : isIdle s = false)
    (hup : s ≠ "..") (hshort : s.utf8ByteSize ≤ longestName) (text : String) :
    ∃ t', Session.Acts (writeWithFolders p text) t (t.writing (below base (post ++ [s]))) t' ∧
      ∀ k, t'.get? k = t.written (below base (post ++ [s])) text k := by
  simp only [below_name hs, written, List.dropLast_concat]
  have hroot := (check_eq_ok_iff.mp hcheck).2.2
  have hsegments : p.segments = p.parts.1.front ++ (pre ++ post) ++ [s] := by
    rw [Path.segments_eq hroot, hp]
    exact (List.append_assoc _ _ _).symm
  obtain ⟨t₁, hfolders, hmade⟩ := h.makesAt hcheck hpre hpost (hp ▸ List.prefix_append _ _)
  rw [← folders_of_name hp hs] at hfolders
  have hlast : t₁.get? (below base post ++ [s]) = t.get? (below base post ++ [s]) := by
    rw [hmade, made_elsewhere not_concat_prefix]
  cases hmaking : t.making (below base post) with
  | error e =>
    rw [hmaking] at hfolders
    have hwriting : t.writing (below base post ++ [s]) = .error e := by
      rw [writing, List.dropLast_concat, hmaking]
      rfl
    rw [hwriting]
    refine ⟨t₁, .bind hfolders (.pure _ _), fun k => ?_⟩
    rw [hmade, if_neg (by simp)]
  | ok _ =>
    rw [hmaking] at hfolders
    have hreach : t₁.reach (p.parts.1.front ++ (pre ++ post)) = .ok (below base post) := by
      rw [reach_front]
      refine (h.of_made hmade).reach_of_folder (reach_mono (fun m hm => ?_) hpre) hpost ?_
      · rw [hmade, made_of_isSome (by rw [hm]; rfl), hm]
      · rw [hmade, made_self hmaking]
    have hwrite : t₁.write p text =
        if t.get? (below base post ++ [s]) = some .folder then .error .isFolder
        else .ok (t₁.put (below base post ++ [s]) (.file (some text))) := by
      rw [write_of_name hcheck hsegments hs hup hshort hreach, hlast]
    by_cases hfolder : t.get? (below base post ++ [s]) = some .folder
    · rw [if_pos hfolder] at hwrite
      have hwriting : t.writing (below base post ++ [s]) = .error .isFolder := by
        rw [writing, List.dropLast_concat, hmaking, if_pos hfolder]
        rfl
      rw [hwriting]
      refine ⟨t₁, .bind hfolders (.change_error hwrite), fun k => ?_⟩
      rw [hmade, if_neg (by simp)]
    · rw [if_neg hfolder] at hwrite
      have hwriting := writing_eq_ok_iff.mpr ⟨by rwa [List.dropLast_concat], hfolder⟩
      rw [hwriting]
      refine ⟨_, .bind hfolders (.change hwrite), fun k => ?_⟩
      simp only [get?_put (List.concat_ne_nil s _), and_true, hmade]

/-- Only a character that ends a path early keeps one from leading anywhere. -/
theorem nul_of_check_eq_error {body : List String} {e : FileFault} (hroot : p.parts.1 ≠ .root)
    (hp : p.parts.2 = body ++ [s]) (hs : isIdle s = false) (hnul : s.contains '\x00' = false)
    (h : check p = .error e) : e = .nulInName ∧ ∃ x ∈ body, x.contains '\x00' = true := by
  unfold check at h
  split at h
  · rename_i hany
    obtain ⟨x, hx, hcontains⟩ := List.any_eq_true.mp hany
    refine ⟨(Except.error.inj h).symm, x, ?_, hcontains⟩
    rw [Path.segments_eq hroot, hp, List.mem_append, List.mem_append, List.mem_singleton] at hx
    obtain hx | hx | rfl := hx
    · cases hlead : p.parts.1 with
      | nothing => simp [hlead, Path.Lead.front] at hx
      | root => exact absurd hlead hroot
      | here =>
        simp only [hlead, Path.Lead.front, List.mem_singleton] at hx
        subst hx
        simp at hcontains
    · exact hx
    · cases hnul.symm.trans hcontains
  · split at h
    · rename_i hmissing
      simp only [Bool.or_eq_true, decide_eq_true_eq, List.isEmpty_iff, hroot, or_false] at hmissing
      exact absurd hmissing (Path.steps_ne_nil hp hs)
    · cases h

/-- A path that leads nowhere is refused before anything is made. -/
theorem acts_writeWithFolders_of_error {body : List String} {e : FileFault}
    (hroot : p.parts.1 ≠ .root) (hp : p.parts.2 = body ++ [s]) (hs : isIdle s = false)
    (hname : s.contains '\x00' = false) (h : check p = .error e) (text : String) :
    Session.Acts (writeWithFolders p text) t (.error e) t := by
  obtain ⟨rfl, hnul⟩ := nul_of_check_eq_error hroot hp hs hname h
  have hfolders : ∃ q around, outward p.parts.1 body.reverse = q :: around ∧
      check q = .error .nulInName := by
    clear hp
    induction body using List.reverseRecOn with
    | nil => simp at hnul
    | append_singleton body last ih =>
      rw [List.reverse_append, List.reverse_singleton, List.singleton_append, outward]
      cases hlast : isIdle last with
      | true =>
        obtain ⟨x, hx, hcontains⟩ := hnul
        refine ih ⟨x, ?_, hcontains⟩
        rw [List.mem_append, List.mem_singleton] at hx
        refine hx.resolve_right ?_
        rintro rfl
        simp only [isIdle, Bool.or_eq_true, beq_iff_eq] at hlast
        obtain rfl | rfl := hlast
        · simp at hcontains
        · simp at hcontains
      | false =>
        refine ⟨_, _, if_neg (by simp), ?_⟩
        rw [check, Path.segments_ofParts hroot, List.reverse_cons, List.reverse_reverse, if_pos]
        obtain ⟨x, hx, hcontains⟩ := hnul
        exact List.any_eq_true.mpr ⟨x, List.mem_append_right _ hx, hcontains⟩
  obtain ⟨q, around, hfolders, hq⟩ := hfolders
  have hmake : t.makeFolder q = .error .nulInName := by
    rw [makeFolder, place, hq]
    rfl
  rw [writeWithFolders, folders_of_name hp hs, hfolders]
  exact .bind (.refused hmake (by simp) (by simp)) (.pure _ _)

end FileTree

end ThreeAddress

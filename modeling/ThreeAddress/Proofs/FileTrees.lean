import Mathlib.Data.List.Infix
import ThreeAddress.Files.World

/-!
# Places in file trees

What the operations on a file tree come to, place by place. A directory that is wanted at some
place can be made together with those around it, **unless a file or a name that is too long is in
the way** (`making`), and whatever else lies in the tree stays as it was (`made`). The way of a
path through directories that are missing ends at the first of them, whatever comes after
(`Sound.reached`).
-/

namespace ThreeAddress

namespace FileTree

open ThreeAddress.Path (isIdle)

variable {t t' : FileTree}

/-! ## Places -/

@[simp] theorem get?_nil : t.get? [] = some .folder :=
  rfl

theorem lookup_filter_ne {names k : List String} (h : k ≠ names)
    (xs : List (List String × Entry)) : (xs.filter (·.1 ≠ names)).lookup k = xs.lookup k := by
  induction xs with
  | nil => rfl
  | cons x xs ih =>
    obtain ⟨place, e⟩ := x
    by_cases hplace : place = names
    · have hk : (k == place) = false := beq_false_of_ne (hplace ▸ h)
      rw [List.filter_cons_of_neg (by simpa using hplace), ih, List.lookup_cons, hk]
    · rw [List.filter_cons_of_pos (by simpa using hplace), List.lookup_cons, List.lookup_cons, ih]

/-- What is put somewhere lies there, and all else stays. -/
theorem get?_put {names : List String} (h : names ≠ []) (e : Entry) (k : List String) :
    (t.put names e).get? k = if k = names then some e else t.get? k := by
  unfold get? put
  by_cases hk : k = names
  · rw [if_pos hk, if_neg (by simpa [hk] using h), hk, List.lookup_cons_self]
  · have hne : (k == names) = false := beq_false_of_ne hk
    rw [if_neg hk, List.lookup_cons, hne, lookup_filter_ne hk]

/-- Whether there is a file at the place. -/
def isFileAt (t : FileTree) (names : List String) : Bool :=
  match t.get? names with
  | some (.file _) => true
  | _ => false

theorem isFileAt_of_folder {names : List String} (h : t.get? names = some .folder) :
    t.isFileAt names = false := by
  simp [isFileAt, h]

theorem isFileAt_of_none {names : List String} (h : t.get? names = none) :
    t.isFileAt names = false := by
  simp [isFileAt, h]

/-- Whether no name is too long. -/
def isShort (names : List String) : Bool :=
  names.all fun s => s.utf8ByteSize ≤ longestName

theorem isShort_append {m n : List String} : isShort (m ++ n) = (isShort m && isShort n) :=
  List.all_append

theorem isShort_of_prefix {m n : List String} (h : m <+: n) (hn : isShort n = true) :
    isShort m = true := by
  obtain ⟨k, rfl⟩ := h
  rw [isShort_append] at hn
  exact (Bool.and_eq_true_iff.mp hn).1

/-- What lies somewhere lies in a directory, and under names that are not too long. -/
structure Sound (t : FileTree) : Prop where
  folder : ∀ names s, (t.get? (names ++ [s])).isSome = true → t.get? names = some .folder
  short : ∀ names, (t.get? names).isSome = true → isShort names = true

/-- Everything on the way to something is a directory. -/
theorem Sound.prefix_folder (h : t.Sound) {m n : List String} (hn : (t.get? n).isSome = true)
    (hm : m <+: n) (hne : m ≠ n) : t.get? m = some .folder := by
  obtain ⟨k, rfl⟩ := hm
  induction k using List.reverseRecOn with
  | nil => exact absurd (List.append_nil m).symm hne
  | append_singleton k s ih =>
    rw [← List.append_assoc] at hn
    have hfolder := h.folder _ _ hn
    by_cases hk : k = []
    · subst hk
      rwa [List.append_nil] at hfolder
    · refine ih (by rw [hfolder]; rfl) fun heq => hk ?_
      exact List.append_right_eq_self.mp heq.symm

theorem Sound.get?_of_prefix (h : t.Sound) {m n : List String} (hn : t.get? n = some .folder)
    (hm : m <+: n) : t.get? m = some .folder := by
  by_cases hmn : m = n
  · exact hmn ▸ hn
  · exact h.prefix_folder (by rw [hn]; rfl) hm hmn

/-- Nothing lies below a place where nothing lies. -/
theorem Sound.get?_append_eq_none (h : t.Sound) {m k : List String} (hm : t.get? m = none) :
    t.get? (m ++ k) = none := by
  by_contra hne
  have hsome : (t.get? (m ++ k)).isSome = true := Option.isSome_iff_ne_none.mpr hne
  by_cases hk : k = []
  · subst hk
    rw [List.append_nil, hm] at hsome
    cases hsome
  · have := h.prefix_folder hsome (List.prefix_append m k) fun heq => hk
      (List.append_right_eq_self.mp heq.symm)
    rw [hm] at this
    cases this

/-! ## Walks -/

theorem walk_append (names ss ss' : List String) :
    t.walk names (ss ++ ss') = t.walk names ss >>= fun n => t.walk n ss' := by
  induction ss generalizing names with
  | nil => rfl
  | cons s ss ih =>
    simp only [List.cons_append, walk]
    split
    · rfl
    · rfl
    · split
      · exact ih _
      · rfl

/-- More directories are walked through as well. -/
theorem walk_mono (h : ∀ n, t.get? n = some .folder → t'.get? n = some .folder)
    {names ss r : List String} (hwalk : t.walk names ss = .ok r) : t'.walk names ss = .ok r := by
  induction ss generalizing names with
  | nil => exact hwalk
  | cons s ss ih =>
    unfold walk at hwalk ⊢
    split at hwalk
    · cases hwalk
    · cases hwalk
    · rename_i hfolder
      rw [h _ hfolder]
      dsimp only
      split at hwalk
      · rename_i hs
        rw [if_pos hs]
        exact ih hwalk
      · cases hwalk

theorem advance_idle {s : String} (h : isIdle s = true) (names : List String) :
    advance names s = names := by
  rw [advance, if_pos h]

theorem advance_name {s : String} (h : isIdle s = false) (hup : s ≠ "..") (names : List String) :
    advance names s = names ++ [s] := by
  rw [advance, if_neg (by simp [h]), if_neg hup]

theorem walk_idle {names : List String} (h : t.get? names = some .folder) {s : String}
    (hs : isIdle s = true) (ss : List String) : t.walk names (s :: ss) = t.walk names ss := by
  have hshort : s.utf8ByteSize ≤ longestName := by
    simp only [isIdle, Bool.or_eq_true, beq_iff_eq] at hs
    obtain rfl | rfl := hs <;> decide
  rw [walk, h]
  dsimp only
  rw [if_pos hshort, advance_idle hs]

/-- The place, if there is a directory. -/
def enter (t : FileTree) (n : List String) : Except FileFault (List String) :=
  match t.get? n with
  | none => .error .missing
  | some (.file _) => .error .notFolder
  | some .folder => .ok n

/-- Where a walk along some segments leads, which has to end in a directory. -/
def reach (t : FileTree) (ss : List String) : Except FileFault (List String) :=
  t.walk [] ss >>= t.enter

/-- A step that says nothing still has to be taken from a directory. -/
theorem walk_dot (ss : List String) : t.walk [] (ss ++ ["."]) = t.reach ss := by
  rw [reach, walk_append]
  congr 1

theorem reach_eq_ok_iff {ss n : List String} :
    t.reach ss = .ok n ↔ t.walk [] ss = .ok n ∧ t.get? n = some .folder := by
  unfold reach enter
  cases t.walk [] ss with
  | error e => simp [bind, Except.bind]
  | ok m =>
    simp only [bind, Except.bind, Except.ok.injEq]
    constructor
    · intro h
      split at h
      · cases h
      · cases h
      · rename_i hm
        cases h
        exact ⟨rfl, hm⟩
    · rintro ⟨rfl, hm⟩
      rw [hm]

theorem reach_mono (h : ∀ n, t.get? n = some .folder → t'.get? n = some .folder)
    {ss n : List String} (hreach : t.reach ss = .ok n) : t'.reach ss = .ok n := by
  obtain ⟨hwalk, hn⟩ := reach_eq_ok_iff.mp hreach
  exact reach_eq_ok_iff.mpr ⟨walk_mono h hwalk, h n hn⟩

theorem reach_idle {s : String} (hs : isIdle s = true) (ss : List String) :
    t.reach (ss ++ [s]) = t.reach ss := by
  unfold reach
  rw [walk_append]
  cases t.walk [] ss with
  | error e => rfl
  | ok n =>
    show t.walk n [s] >>= t.enter = t.enter n
    cases hn : t.get? n with
    | none => simp [walk, enter, hn, bind, Except.bind]
    | some e =>
      cases e with
      | file x => simp [walk, enter, hn, bind, Except.bind]
      | folder =>
        rw [walk_idle hn hs]
        rfl

/-- One more segment that says something is taken from a directory. -/
theorem reach_concat (ss : List String) (s : String) :
    t.reach (ss ++ [s]) = t.reach ss >>= fun n =>
      if s.utf8ByteSize ≤ longestName then t.enter (advance n s) else .error .nameTooLong := by
  unfold reach
  rw [walk_append]
  cases t.walk [] ss with
  | error e => rfl
  | ok n =>
    show t.walk n [s] >>= t.enter = t.enter n >>= _
    cases hn : t.get? n with
    | none => simp [walk, enter, hn, bind, Except.bind]
    | some e =>
      cases e with
      | file x => simp [walk, enter, hn, bind, Except.bind]
      | folder =>
        have henter : t.enter n = .ok n := by rw [enter, hn]
        rw [henter]
        simp only [walk, hn, bind, Except.bind]
        by_cases hshort : s.utf8ByteSize ≤ longestName
        · rw [if_pos hshort, if_pos hshort]
        · rw [if_neg hshort, if_neg hshort]

theorem reach_name {s : String} (hs : isIdle s = false) (hup : s ≠ "..") (ss : List String) :
    t.reach (ss ++ [s]) = t.reach ss >>= fun n =>
      if s.utf8ByteSize ≤ longestName then t.enter (n ++ [s]) else .error .nameTooLong := by
  simp only [reach_concat, advance_name hs hup]

/-- Segments that say nothing can be left out. -/
theorem reach_filter (ss : List String) : t.reach (ss.filter (!isIdle ·)) = t.reach ss := by
  induction ss using List.reverseRecOn with
  | nil => rfl
  | append_singleton ss s ih =>
    cases hs : isIdle s with
    | true =>
      rw [reach_idle hs, List.filter_append, List.filter_cons_of_neg (by simp [hs]),
        List.filter_nil, List.append_nil, ih]
    | false =>
      rw [List.filter_append, List.filter_cons_of_pos (by simp [hs]), List.filter_nil,
        reach_concat, reach_concat, ih]

/-! ## Chains of directories -/

/-- Whether a directory can be made at the place: no file is in the way, and no name is too long. -/
def opens (t : FileTree) (n : List String) : Bool :=
  !n.inits.any t.isFileAt && isShort n

theorem opens_iff {n : List String} :
    t.opens n = true ↔ (∀ m, m <+: n → t.isFileAt m = false) ∧ isShort n = true := by
  simp [opens, List.mem_inits]

theorem opens_of_prefix {m n : List String} (h : m <+: n) (hn : t.opens n = true) :
    t.opens m = true := by
  obtain ⟨hfiles, hshort⟩ := opens_iff.mp hn
  exact opens_iff.mpr ⟨fun k hk => hfiles k (hk.trans h), isShort_of_prefix h hshort⟩

/-- What comes of making the directory at a place. -/
def making (t : FileTree) (n : List String) : Except FileFault Unit :=
  if t.isFileAt n then .error .occupied
  else if n.inits.any t.isFileAt then .error .notFolder
  else if isShort n then .ok ()
  else .error .nameTooLong

/-- What lies at a place after a directory was made, or as much of the way to it as could be. -/
def made (t : FileTree) (n k : List String) : Option Entry :=
  if t.get? k = none ∧ k <+: n ∧ t.opens k = true then some .folder else t.get? k

theorem made_of_isSome {n k : List String} (h : (t.get? k).isSome = true) :
    t.made n k = t.get? k := by
  rw [made, if_neg]
  rintro ⟨hnone, -⟩
  rw [hnone] at h
  cases h

/-- What can be made at a place depends on the files on the way to it. -/
theorem any_inits_congr {n : List String} (h : ∀ m, m <+: n → t'.isFileAt m = t.isFileAt m) :
    n.inits.any t'.isFileAt = n.inits.any t.isFileAt := by
  rw [Bool.eq_iff_iff, List.any_eq_true, List.any_eq_true]
  simp only [List.mem_inits]
  exact exists_congr fun m => and_congr_right fun hm => by rw [h m hm]

theorem opens_congr {n : List String} (h : ∀ m, m <+: n → t'.isFileAt m = t.isFileAt m) :
    t'.opens n = t.opens n := by
  rw [opens, opens, any_inits_congr h]

theorem making_congr {n : List String} (h : ∀ m, m <+: n → t'.isFileAt m = t.isFileAt m) :
    t'.making n = t.making n := by
  rw [making, making, any_inits_congr h, h n (List.prefix_refl n)]

theorem made_eq_get? {n : List String}
    (h : ∀ k, k <+: n → t.get? k = none → t.opens k = false) (k : List String) :
    t.made n k = t.get? k := by
  rw [made, if_neg]
  rintro ⟨hnone, hk, hopens⟩
  cases hopens.symm.trans (h k hk hnone)

/-- One more directory changes nothing but its own place. -/
theorem made_concat {n k : List String} {s : String} (h : k ≠ n ++ [s]) :
    t.made (n ++ [s]) k = t.made n k := by
  simp only [made, List.prefix_concat_iff, h, false_or]

theorem made_concat_self {n : List String} {s : String} (hnone : t.get? (n ++ [s]) = none) :
    t.made (n ++ [s]) (n ++ [s]) = if t.opens (n ++ [s]) then some .folder else none := by
  simp [made, hnone]

theorem not_concat_prefix {n : List String} {s : String} : ¬ n ++ [s] <+: n :=
  fun h => absurd h.length_le (by simp)

theorem made_elsewhere {n k : List String} (h : ¬ k <+: n) : t.made n k = t.get? k := by
  rw [made, if_neg fun hk => h hk.2.1]

theorem making_of_opens {n : List String} (h : t.opens n = true) : t.making n = .ok () := by
  obtain ⟨hfiles, hshort⟩ := opens_iff.mp h
  have hany : n.inits.any t.isFileAt = false := by
    simpa [List.mem_inits] using hfiles
  simp [making, hfiles n (List.prefix_refl n), hany, hshort]

theorem making_of_long {n : List String} (hfiles : ∀ m, m <+: n → t.isFileAt m = false)
    (hlong : isShort n = false) : t.making n = .error .nameTooLong := by
  have hany : n.inits.any t.isFileAt = false := by
    simpa [List.mem_inits] using hfiles
  simp [making, hfiles n (List.prefix_refl n), hany, hlong]

theorem making_of_file_above {m n : List String} (hn : t.isFileAt n = false) (hm : m <+: n)
    (hfile : t.isFileAt m = true) : t.making n = .error .notFolder := by
  have hany : n.inits.any t.isFileAt = true :=
    List.any_eq_true.mpr ⟨m, List.mem_inits m n |>.mpr hm, hfile⟩
  simp [making, hn, hany]

theorem clear_concat {n : List String} {s : String} (hn : ∀ m, m <+: n → t.isFileAt m = false)
    (hlast : t.isFileAt (n ++ [s]) = false) : ∀ m, m <+: n ++ [s] → t.isFileAt m = false := by
  intro m hm
  obtain rfl | hm := List.prefix_concat_iff.mp hm
  · exact hlast
  · exact hn m hm

theorem isShort_concat_of_long {n : List String} {s : String} (h : ¬ s.utf8ByteSize ≤ longestName) :
    isShort (n ++ [s]) = false := by
  rw [isShort_append, isShort, isShort, List.all_cons, decide_eq_false h]
  simp

/-- How far a walk towards a place comes. -/
inductive Reached (t : FileTree) (n : List String) : Except FileFault (List String) → Prop
  | there : t.get? n = some .folder → Reached t n (.ok n)
  | file {m : List String} : m <+: n → t.isFileAt m = true → Reached t n (.error .notFolder)
  | missing : t.get? n = none → (∀ m, m <+: n → t.isFileAt m = false) →
      Reached t n (.error .missing)
  | tooLong : t.get? n = none → (∀ m, m <+: n → t.isFileAt m = false) →
      (∀ m, m <+: n → t.get? m = none → isShort m = false) → Reached t n (.error .nameTooLong)

/-- The place that some segments without `..` lead to. -/
def below (base post : List String) : List String :=
  base ++ post.filter (!isIdle ·)

theorem below_idle {base post : List String} {s : String} (hs : isIdle s = true) :
    below base (post ++ [s]) = below base post := by
  simp [below, hs]

theorem below_name {base post : List String} {s : String} (hs : isIdle s = false) :
    below base (post ++ [s]) = below base post ++ [s] := by
  simp [below, hs]

/-- **A walk ends where something is in the way**, and nowhere else. -/
theorem Sound.reached (h : t.Sound) {pre base : List String} (hpre : t.reach pre = .ok base)
    {post : List String} (hpost : ".." ∉ post) :
    Reached t (below base post) (t.reach (pre ++ post)) := by
  induction post using List.reverseRecOn with
  | nil =>
    rw [List.append_nil, hpre]
    have hbase := (reach_eq_ok_iff.mp hpre).2
    rw [show below base [] = base from List.append_nil base]
    exact .there hbase
  | append_singleton post s ih =>
    obtain ⟨hpost, hup⟩ : ".." ∉ post ∧ s ≠ ".." := by
      simpa [eq_comm] using hpost
    have ih := ih hpost
    rw [← List.append_assoc]
    cases hs : isIdle s with
    | true =>
      rw [reach_idle hs, below_idle hs]
      exact ih
    | false =>
      rw [reach_name hs hup, below_name hs]
      generalize below base post = n at ih
      generalize t.reach (pre ++ post) = x at ih
      cases ih with
      | there hn =>
        have hfolder {m : List String} (hm : m <+: n) := h.get?_of_prefix hn hm
        have hfiles (hnone : t.get? (n ++ [s]) = none) :
            ∀ m, m <+: n ++ [s] → t.isFileAt m = false :=
          clear_concat (fun m hm => isFileAt_of_folder (hfolder hm)) (isFileAt_of_none hnone)
        show Reached t (n ++ [s]) (if _ then _ else _)
        split
        · unfold enter
          split
          · exact .missing ‹_› (hfiles ‹_›)
          · exact .file (List.prefix_refl _) (by simp [isFileAt, *])
          · exact .there ‹_›
        · rename_i hlong
          have hshort : isShort (n ++ [s]) = false := isShort_concat_of_long hlong
          have hnone : t.get? (n ++ [s]) = none := by
            by_contra hne
            rw [h.short _ (Option.isSome_iff_ne_none.mpr hne)] at hshort
            cases hshort
          refine .tooLong hnone (hfiles hnone) fun m hm hm' => ?_
          obtain rfl | hm := List.prefix_concat_iff.mp hm
          · exact hshort
          · rw [hfolder hm] at hm'
            cases hm'
      | file hm hfile => exact .file (hm.trans (List.prefix_append _ _)) hfile
      | missing hn hfiles =>
        refine .missing (h.get?_append_eq_none hn) fun m hm => ?_
        obtain rfl | hm := List.prefix_concat_iff.mp hm
        · exact isFileAt_of_none (h.get?_append_eq_none hn)
        · exact hfiles m hm
      | tooLong hn hfiles hlong =>
        refine .tooLong (h.get?_append_eq_none hn) (fun m hm => ?_) fun m hm hnone => ?_
        · obtain rfl | hm := List.prefix_concat_iff.mp hm
          · exact isFileAt_of_none (h.get?_append_eq_none hn)
          · exact hfiles m hm
        · obtain rfl | hm := List.prefix_concat_iff.mp hm
          · rw [isShort_append, hlong n (List.prefix_refl n) hn]
            rfl
          · exact hlong m hm hnone

theorem Sound.reach_of_folder (h : t.Sound) {pre base post : List String}
    (hpre : t.reach pre = .ok base) (hpost : ".." ∉ post)
    (hn : t.get? (below base post) = some .folder) :
    t.reach (pre ++ post) = .ok (below base post) := by
  have hreached := h.reached hpre hpost
  generalize t.reach (pre ++ post) = x at hreached
  cases hreached with
  | there => rfl
  | @file m hm hfile =>
    rw [isFileAt_of_folder (h.get?_of_prefix hn hm)] at hfile
    cases hfile
  | missing hnone => cases hn.symm.trans hnone
  | tooLong hnone => cases hn.symm.trans hnone

theorem Sound.opens_of_folder (h : t.Sound) {n : List String} (hn : t.get? n = some .folder) :
    t.opens n = true := by
  refine opens_iff.mpr ⟨fun m hm => ?_, h.short n (by rw [hn]; rfl)⟩
  exact isFileAt_of_folder (h.get?_of_prefix hn hm)

theorem Sound.made_folder (h : t.Sound) {n names : List String} {s : String}
    (hsome : (t.made n (names ++ [s])).isSome = true) : t.made n names = some .folder := by
  rw [made] at hsome ⊢
  split at hsome
  · rename_i hmade
    obtain ⟨-, hfront, hopens⟩ := hmade
    have hnames := (List.prefix_append names [s])
    have hopens' := opens_of_prefix hnames hopens
    split
    · rfl
    · rename_i hkept
      cases hget : t.get? names with
      | none => exact absurd ⟨hget, hnames.trans hfront, hopens'⟩ hkept
      | some e =>
        cases e with
        | folder => rfl
        | file x =>
          have hfile := (opens_iff.mp hopens').1 names (List.prefix_refl names)
          simp [isFileAt, hget] at hfile
  · rw [if_neg]
    · exact h.folder names s hsome
    · rintro ⟨hnone, -⟩
      cases hnone.symm.trans (h.folder names s hsome)

theorem Sound.made_short (h : t.Sound) {n names : List String}
    (hsome : (t.made n names).isSome = true) : isShort names = true := by
  rw [made] at hsome
  split at hsome
  · rename_i hmade
    exact (opens_iff.mp hmade.2.2).2
  · exact h.short names hsome

/-- A tree stays sound where directories are made. -/
theorem Sound.of_made (h : t.Sound) {n : List String} (ht' : ∀ k, t'.get? k = t.made n k) :
    t'.Sound := by
  constructor
  · intro names s hsome
    rw [ht'] at hsome ⊢
    exact h.made_folder hsome
  · intro names hsome
    exact h.made_short (ht' names ▸ hsome)

/-- A directory that can be made is there afterwards. -/
theorem made_self {n : List String} (h : t.making n = .ok ()) : t.made n n = some .folder := by
  unfold making at h
  split at h
  · cases h
  · rename_i hfile
    split at h
    · cases h
    · rename_i hany
      split at h
      · rename_i hshort
        rw [made]
        cases hget : t.get? n with
        | none =>
          refine if_pos ⟨rfl, List.prefix_refl n, ?_⟩
          simp [opens, hshort, Bool.eq_false_iff.mpr hany]
        | some e =>
          cases e with
          | folder => simp
          | file x => simp [isFileAt, hget] at hfile
      · cases h

end FileTree

end ThreeAddress

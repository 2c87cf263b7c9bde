import Mathlib.Data.List.DropRight
import ThreeAddress.Batch.Convert
import ThreeAddress.Proofs.FileTrees
import ThreeAddress.Proofs.TreeWrites

/-!
# The paths of a batch

How the paths that are found below a directory relate to the one that was asked for, and where
their outputs go. A found path has the segments of the directory, without empty segments and
without dots in front, and the names from there on. Its output has **the same names below one
directory** (`segments_outputPath`), which is the output directory itself unless the directory
was written with a dot in front of its names.
-/

namespace ThreeAddress

namespace Path

/-! ## The order of paths -/

@[simp] theorem compare_name (a b : String) :
    compare (Step.name a) (Step.name b) = compare a b := by
  simp [compare, instOrdStep.ord]

instance : Std.OrientedOrd Step where
  eq_swap {a b} := by
    cases a with
    | name a =>
      cases b with
      | name b =>
        rw [compare_name, compare_name]
        exact Std.OrientedCmp.eq_swap
      | _ => rfl
    | _ => cases b <;> rfl

instance : Std.TransOrd Step where
  isLE_trans {a b c} hab hbc := by
    cases b with
    | name b =>
      cases c with
      | name c =>
        cases a with
        | name a =>
          rw [compare_name] at *
          exact Std.TransCmp.isLE_trans hab hbc
        | _ => rfl
      | _ => cases hbc
    | _ => cases a <;> cases c <;> first | rfl | (cases hab; done) | cases hbc

instance : Std.LawfulEqOrd Step where
  compare_self := Std.ReflCmp.compare_self
  eq_of_compare {a b} h := by
    cases a with
    | name a =>
      cases b with
      | name b =>
        rw [compare_name] at h
        rw [Std.LawfulEqCmp.eq_of_compare h]
      | _ => cases h
    | _ => cases b <;> first | rfl | exact nomatch h

theorem le_trans {p q r : Path} (hpq : p.le q = true) (hqr : q.le r = true) : p.le r = true :=
  Std.TransCmp.isLE_trans hpq hqr

theorem le_total (p q : Path) : (p.le q || q.le p) = true := by
  have hswap : compare q.steps p.steps = (compare p.steps q.steps).swap :=
    Std.OrientedCmp.eq_swap
  rw [le, le, hswap]
  cases compare p.steps q.steps <;> rfl

/-- Paths that are each before the other mean the same. -/
theorem steps_eq_of_le {p q : Path} (hpq : p.le q = true) (hqp : q.le p = true) :
    p.steps = q.steps :=
  Std.LawfulEqCmp.eq_of_compare (Std.OrientedCmp.isLE_antisymm hpq hqp)

/-! ## Texts and segments -/

theorem pieces_ne_nil (cs : List Char) : pieces cs ≠ [] := by
  cases cs with
  | nil => simp [pieces]
  | cons c cs =>
    unfold pieces
    split
    · simp
    · split
      · simp
      · simp

theorem intercalate_pieces (cs : List Char) : ['/'].intercalate (pieces cs) = cs := by
  induction cs with
  | nil => rfl
  | cons c cs ih =>
    unfold pieces
    obtain ⟨p, ps, hps⟩ := List.exists_cons_of_ne_nil (pieces_ne_nil cs)
    rw [hps] at ih ⊢
    split
    · rename_i hc
      subst hc
      rw [List.intercalate_cons_of_ne_nil (by simp), ih]
      rfl
    · rw [← ih]
      cases ps with
      | nil => simp
      | cons q ps =>
        have hne : q :: ps ≠ [] := by simp
        rw [List.intercalate_cons_of_ne_nil hne, List.intercalate_cons_of_ne_nil hne]
        rfl

/-- A path is kept as it was written. -/
theorem text_ofText (s : String) : (ofText s).text = s := by
  refine String.toList_injective ?_
  simp [text, ofText, Function.comp_def, intercalate_pieces]

/-- A path that starts with something other than a slash starts with a segment that is not
empty. -/
theorem segments_ofText {s : String} {c : Char} {cs : List Char} (hs : s.toList = c :: cs)
    (hc : c ≠ '/') : ∃ x rest, (ofText s).segments = x :: rest ∧ x ≠ "" := by
  unfold ofText
  rw [hs, pieces, if_neg hc]
  split
  · exact ⟨_, _, rfl, by simp⟩
  · exact ⟨_, _, rfl, by simp⟩

/-! ## Joining and stripping -/

theorem parts_eq_nothing_of_head {p : Path} (hdot : p.segments.head? ≠ some ".")
    (hempty : p.segments.head? ≠ some "") : p.parts = (.nothing, p.segments) :=
  parts_eq_nothing hdot fun h => absurd h hempty

theorem parts_names {r : List String} (hr : ∀ s ∈ r, isIdle s = false) :
    (⟨r⟩ : Path).parts = (.nothing, r) := by
  have hhead {s : String} (hs : r.head? = some s) : s ≠ "." ∧ s ≠ "" := by
    have hidle := hr s (List.mem_of_mem_head? hs)
    simp only [isIdle, Bool.or_eq_false_iff, beq_eq_false_iff_ne] at hidle
    exact hidle.symm
  exact parts_eq_nothing_of_head (fun hdot => (hhead hdot).1 rfl) fun hempty =>
    (hhead hempty).2 rfl

/-- The segments of a directory before those of a path below it. -/
def stem (p : Path) : List String :=
  if p.segments.getLast? = some "" then p.segments.dropLast else p.segments

theorem stem_eq_cons {p : Path} {x : String} {rest : List String} (hp : p.segments = x :: rest)
    (hx : x ≠ "") : ∃ rest', p.stem = x :: rest' := by
  rw [stem, hp]
  split
  · rename_i hlast
    cases rest with
    | nil => exact absurd (by simpa using hlast) hx
    | cons y rest => exact ⟨_, rfl⟩
  · exact ⟨_, rfl⟩

theorem segments_join {p q : Path} (h : q.parts.1 ≠ .root) :
    (p.join q).segments = p.stem ++ q.segments := by
  unfold join stem
  rw [if_neg h]
  split
  · rfl
  · rfl

/-- The names of some segments are dropped from them, whatever lies between. -/
theorem dropNames_filter (xs r : List String) : ∃ ys, (∀ y ∈ ys, isIdle y = true) ∧
    dropNames (xs.filter (!isIdle ·)) (xs ++ r) = some (ys ++ r) := by
  induction xs with
  | nil => exact ⟨[], by simp, by simp [dropNames]⟩
  | cons x xs ih =>
    obtain ⟨ys, hys, hdrop⟩ := ih
    cases hx : isIdle x with
    | false =>
      refine ⟨ys, hys, ?_⟩
      rw [List.filter_cons_of_pos (by simp [hx]), List.cons_append, dropNames,
        if_neg (by simp [hx]), if_pos rfl, hdrop]
    | true =>
      rw [List.filter_cons_of_neg (by simp [hx])]
      cases hnames : xs.filter (!isIdle ·) with
      | nil =>
        refine ⟨x :: xs, fun y hy => ?_, by rw [dropNames]⟩
        obtain rfl | hy := List.mem_cons.mp hy
        · exact hx
        · simpa using List.filter_eq_nil_iff.mp hnames y hy
      | cons n names =>
        rw [hnames] at hdrop
        exact ⟨ys, hys, by rw [List.cons_append, dropNames, if_pos hx, hdrop]⟩

theorem dropWhile_of_names {r : List String} (hr : ∀ s ∈ r, isIdle s = false) :
    r.dropWhile isIdle = r := by
  cases r with
  | nil => rfl
  | cons s r => rw [List.dropWhile_cons_of_neg (by simp [hr s])]

theorem trimEnd_dropWhile {ys r : List String} (hys : ∀ y ∈ ys, isIdle y = true)
    (hr : ∀ s ∈ r, isIdle s = false) : trimEnd ((ys ++ r).dropWhile isIdle) = r := by
  rw [List.dropWhile_append_of_pos hys, dropWhile_of_names hr, trimEnd,
    dropWhile_of_names fun s hs => hr s (List.mem_reverse.mp hs), List.reverse_reverse]

end Path

namespace Batch

open ThreeAddress.Path (isIdle parts_eq_nothing_of_head)

variable {dir root : Path}

/-! ## Found paths -/

/-- The segments of found paths are those of the directory, apart from some that say nothing. -/
structure IsSearchRoot (dir root : Path) : Prop where
  names : root.segments.filter (!isIdle ·) = dir.segments.filter (!isIdle ·)
  subset : ∀ s ∈ root.segments, s ∈ dir.segments
  not_empty : ∀ s ∈ root.segments, s ≠ ""
  not_dot : root.segments.head? ≠ some "."

theorem isSearchRoot (h : searchRoot? dir = some root) (hrel : dir.parts.1 ≠ .root) :
    IsSearchRoot dir root := by
  have hfilter (xs : List String) :
      (xs.filter (· ≠ "")).filter (!isIdle ·) = xs.filter (!isIdle ·) := by
    rw [List.filter_filter]
    refine List.filter_congr fun x _ => ?_
    by_cases hx : x = ""
    · simp [hx, isIdle]
    · simp [hx]
  have hhead {xs : List String} (hdot : xs.head? ≠ some ".") (hempty : xs.head? ≠ some "") :
      (xs.filter (· ≠ "")).head? ≠ some "." := by
    cases xs with
    | nil => simp
    | cons x xs =>
      rw [List.filter_cons_of_pos (by simpa using hempty)]
      exact hdot
  obtain ⟨_, _, _, hparts⟩ | ⟨body, hsegments, hparts⟩ | ⟨hdot, hempty, hparts⟩ := dir.parts_cases
  · rw [hparts] at hrel
    exact absurd rfl hrel
  · simp only [searchRoot?, hparts] at h
    split at h
    · cases h
    · rename_i hslash
      cases h
      have hdots : (body.dropWhile (· == ".")).filter (!isIdle ·) = body.filter (!isIdle ·) := by
        have hall : (body.takeWhile (· == ".")).filter (!isIdle ·) = [] := by
          refine List.filter_eq_nil_iff.mpr fun x hx => ?_
          have hx : x = "." := by simpa using List.mem_takeWhile_imp hx
          rw [hx]
          decide
        conv_rhs => rw [← List.takeWhile_append_dropWhile (p := (· == ".")) (l := body)]
        rw [List.filter_append, hall, List.nil_append]
      refine ⟨?_, fun s hs => ?_, fun s hs => ?_, hhead ?_ hslash⟩
      · rw [hfilter, hdots, hsegments, List.filter_cons_of_neg (by decide)]
      · rw [hsegments]
        exact List.mem_cons_of_mem _ ((List.dropWhile_sublist _).subset (List.mem_filter.mp hs).1)
      · simpa using (List.mem_filter.mp hs).2
      · intro hdot
        have hnot := List.head?_dropWhile_not (· == ".") body
        rw [hdot] at hnot
        cases hnot
  · simp only [searchRoot?, hparts] at h
    cases h
    refine ⟨hfilter _, fun s hs => (List.mem_filter.mp hs).1, fun s hs => ?_, ?_⟩
    · simpa using (List.mem_filter.mp hs).2
    · by_cases hh : dir.segments.head? = some ""
      · rw [hempty hh]
        simp
      · exact hhead hdot hh

namespace IsSearchRoot

variable (h : IsSearchRoot dir root) {r : List String} (hr : ∀ s ∈ r, isIdle s = false)

include h hr

/-- A found path starts with a name, or with a step upwards. -/
theorem parts_found : (⟨root.segments ++ r⟩ : Path).parts = (.nothing, root.segments ++ r) := by
  cases hroot : root.segments with
  | nil => exact Path.parts_names hr
  | cons x xs =>
    have hdot := h.not_dot
    have hempty := h.not_empty x (by simp [hroot])
    rw [hroot] at hdot
    exact parts_eq_nothing_of_head hdot (by simpa using hempty)

theorem join_found : root.join ⟨r⟩ = ⟨root.segments ++ r⟩ := by
  have hstem : root.stem = root.segments :=
    if_neg fun hlast => h.not_empty "" (List.mem_of_getLast? hlast) rfl
  have hsegments := Path.segments_join (p := root) (q := ⟨r⟩) (by rw [Path.parts_names hr]; simp)
  rw [hstem] at hsegments
  exact congrArg Path.mk hsegments

/-- What is left of a found path below the directory: its names from there on, or the whole path
if the directory was written with a dot in front. -/
theorem under_found (hrel : dir.parts.1 ≠ .root) (hsteps : dir.steps ≠ []) :
    ((⟨root.segments ++ r⟩ : Path).under? dir).getD ⟨root.segments ++ r⟩ =
      if dir.parts.1 = .here then ⟨root.segments ++ r⟩ else ⟨r⟩ := by
  have hsteps : dir.steps.isEmpty = false := by simpa using hsteps
  unfold Path.under?
  rw [h.parts_found hr]
  simp only [hsteps, Bool.false_eq_true, if_false]
  obtain ⟨_, _, _, hparts⟩ | ⟨body, _, hparts⟩ | ⟨-, -, hparts⟩ := dir.parts_cases
  · rw [hparts] at hrel
    exact absurd rfl hrel
  · simp [hparts]
  · obtain ⟨ys, hys, hdrop⟩ := Path.dropNames_filter root.segments r
    simp only [hparts, if_true, ← h.names, hdrop]
    simp [Path.trimEnd_dropWhile hys hr]

/-- **The output of a found path has the same names below one directory.** -/
theorem segments_outputPath (hrel : dir.parts.1 ≠ .root) (hsteps : dir.steps ≠ []) (out : Path) :
    (outputPath dir out ⟨root.segments ++ r⟩).segments =
      (outputPath dir out root).segments ++ r := by
  have hroot : (⟨root.segments ++ []⟩ : Path) = root := by rw [List.append_nil]
  have hwhole {r : List String} (hr : ∀ s ∈ r, isIdle s = false) :
      (outputPath dir out ⟨root.segments ++ r⟩).segments =
        out.stem ++ ((if dir.parts.1 = .here then root.segments else []) ++ r) := by
    rw [outputPath, h.under_found hr hrel hsteps]
    split
    · rw [Path.segments_join (by rw [h.parts_found hr]; simp)]
    · rw [Path.segments_join (by rw [Path.parts_names hr]; simp), List.nil_append]
  have hbase := hwhole (r := []) (by simp)
  rw [hroot, List.append_nil] at hbase
  rw [hwhole hr, hbase, List.append_assoc]

end IsSearchRoot

/-! ## The output directory -/

/-- A directory that can be reached is written with a first character other than a slash. -/
theorem text_of_check {name : String} (h : FileTree.check (.ofText name) = .ok ()) :
    ∃ c cs, name.toList = c :: cs ∧ c ≠ '/' := by
  obtain ⟨-, hsteps, hroot⟩ := FileTree.check_eq_ok_iff.mp h
  cases hname : name.toList with
  | nil =>
    have hofText : Path.ofText name = ⟨[""]⟩ := by simp [Path.ofText, hname, Path.pieces]
    rw [hofText] at hsteps
    exact absurd (by decide) hsteps
  | cons c cs =>
    refine ⟨c, cs, rfl, fun hc => hroot ?_⟩
    obtain ⟨p, ps, hps⟩ := List.exists_cons_of_ne_nil (Path.pieces_ne_nil cs)
    have hofText : (Path.ofText name).segments =
        "" :: String.ofList p :: ps.map String.ofList := by
      simp [Path.ofText, hname, Path.pieces, hc, hps]
    rw [Path.parts, hofText]
    rfl

/-- So is its output directory. -/
theorem segments_outputRoot {name : String} (h : FileTree.check (.ofText name) = .ok ())
    (suffix : String) :
    ∃ x rest, (outputRoot (.ofText name) suffix).segments = x :: rest ∧ x ≠ "" := by
  obtain ⟨c, cs, hname, hc⟩ := text_of_check h
  unfold outputRoot
  rw [Path.text_ofText]
  -- what is left of the name without its separators is empty, or starts like the name
  have hstart : ∃ cs', (if ((name.toList.reverse.dropWhile isSeparator).reverse).isEmpty
      then name.toList else (name.toList.reverse.dropWhile isSeparator).reverse) = c :: cs' := by
    split
    · exact ⟨cs, hname⟩
    · rename_i hne
      obtain ⟨k, hk⟩ := List.rdropWhile_prefix isSeparator name.toList
      rw [List.rdropWhile] at hk
      cases hbase : (name.toList.reverse.dropWhile isSeparator).reverse with
      | nil => exact absurd (by rw [hbase]; rfl) hne
      | cons c' cs' =>
        rw [hbase, hname, List.cons_append] at hk
        exact ⟨cs', by rw [(List.cons.inj hk).1]⟩
  obtain ⟨cs', hstart⟩ := hstart
  dsimp only
  rw [hstart]
  have htext : (String.ofList (c :: cs') ++ suffix).toList = c :: (cs' ++ suffix.toList) := by
    simp
  exact Path.segments_ofText htext hc

/-- Where the outputs for the files of a directory go has the segments of the output directory in
front. -/
theorem segments_outputBase {name : String} (h : FileTree.check (.ofText name) = .ok ())
    (suffix : String) (input : Path) (hrel : ((input.under? (.ofText name)).getD input).parts.1 ≠ .root) :
    ∃ x rest, (outputPath (.ofText name) (outputRoot (.ofText name) suffix) input).segments =
      x :: rest ∧ x ≠ "" := by
  obtain ⟨x, rest, hsegments, hx⟩ := segments_outputRoot h suffix
  obtain ⟨rest', hstem⟩ := Path.stem_eq_cons hsegments hx
  rw [outputPath, Path.segments_join hrel, hstem]
  exact ⟨x, _, rfl, hx⟩

end Batch

namespace Path

/-- More segments after those of a path. -/
theorem parts_append {p : Path} {x : String} {rest : List String} (hp : p.segments = x :: rest)
    (hx : x ≠ "") (r : List String) :
    p.parts.1 ≠ .root ∧ (⟨p.segments ++ r⟩ : Path).parts = (p.parts.1, p.parts.2 ++ r) := by
  obtain ⟨_, _, hsegments, _⟩ | ⟨body, hsegments, hparts⟩ | ⟨hdot, _, hparts⟩ := p.parts_cases
  · rw [hp] at hsegments
    exact absurd (List.cons.inj hsegments).1 hx
  · rw [hparts, hsegments]
    exact ⟨by simp, rfl⟩
  · rw [hparts]
    refine ⟨by simp, ?_⟩
    rw [hp] at hdot ⊢
    exact parts_eq_nothing_of_head hdot (by simpa using hx)

theorem filterMap_step_names {r : List String} (hr : ∀ s ∈ r, isIdle s = false ∧ s ≠ "..") :
    r.filterMap step? = r.map .name := by
  rw [← List.filterMap_eq_map]
  refine List.filterMap_congr fun s hs => ?_
  obtain ⟨hidle, hup⟩ := hr s hs
  simp [step?, hidle, hup]

/-- The steps of a path that starts with a name. -/
theorem steps_names {p : Path} {xs r : List String} (hp : p.parts = (.nothing, xs ++ r))
    (hr : ∀ s ∈ r, isIdle s = false ∧ s ≠ "..") :
    p.steps = xs.filterMap step? ++ r.map .name := by
  rw [steps, hp]
  simp [Lead.steps, List.filterMap_append, filterMap_step_names hr]

end Path

end ThreeAddress

import Mathlib.Data.List.Lex
import Mathlib.Data.String.Basic
import RouteBook.Proofs.Glob
import RouteBook.RouteFiles

/-! The route files of a project. Main statement: with the default pattern, the files that are found
are the scripts below a directory for routes and outside of the ignored ones, each once and in the
order of the components of their paths. -/
namespace RouteBook.RouteFiles
open Glob

section Order
variable {p q r : List String}

theorem before_iff : before p q = true ↔ p = q ∨ List.Lex (· < ·) p q := by
  induction p generalizing q with
  | nil => cases q <;> simp [before]
  | cons a p ih =>
    cases q with
    | nil => simp [before]
    | cons b q =>
      rw [before, List.cons_lex_cons_iff, List.cons.injEq]
      by_cases h : a = b
      · rw [if_pos h, ih]
        simp only [h, lt_irrefl, true_and, false_or]
      · have hle : a ≤ b ↔ a < b := ⟨fun hab => lt_of_le_of_ne hab h, le_of_lt⟩
        rw [if_neg h, decide_eq_true_iff, hle]
        simp only [h, false_and, or_false, false_or]

theorem before_trans (p q r : List String) (h : before p q = true) (h' : before q r = true) :
    before p r = true := by
  rw [before_iff] at h h' ⊢
  exact le_iff_eq_or_lt.mp ((le_iff_eq_or_lt.mpr h).trans (le_iff_eq_or_lt.mpr h'))

theorem before_total (p q : List String) : (before p q || before q p) = true := by
  rw [Bool.or_eq_true, before_iff, before_iff]
  exact (le_total p q).imp le_iff_eq_or_lt.mp le_iff_eq_or_lt.mp

/-- Different paths are put in strictly increasing order. -/
theorem pairwise_mergeSort_before {ps : List (List String)} (h : ps.Nodup) :
    (ps.mergeSort before).Pairwise (List.Lex (· < ·)) := by
  have hsorted := List.pairwise_mergeSort before_trans before_total ps
  have hne : (ps.mergeSort before).Nodup := (List.mergeSort_perm ps before).nodup_iff.mpr h
  exact hsorted.imp₂ (fun p q hpq hdiff => (before_iff.mp hpq).resolve_left hdiff) hne

end Order

/-- A route file of a project, by its components from there. -/
structure IsRouteFile (project : FileTree) (p : List String) : Prop where
  file : ∃ data, project.at? p = some (.file data)
  routes : "routes" ∈ p.dropLast
  script : ∃ stem, p.getLast? = some (stem ++ ".js")
  kept : ∀ dir ∈ p.dropLast, dir ≠ "node_modules" ∧ dir ≠ "test" ∧ dir ≠ "tests"

section Finding
variable {p : List String} {start : Spot}

def defaultSteps : List GlobStep :=
  [.deep, .exact "routes", .deep, .wild (.star :: ".js".toList.map .char)]

theorem parse_defaultPattern : Glob.parse defaultPattern = .ok ⟨defaultSteps, false⟩ := by
  decide +kernel

theorem descends_defaultSteps : Descends defaultSteps := ⟨by decide, by decide⟩

theorem matches_defaultSteps : Matches defaultSteps p ↔
    "routes" ∈ p.dropLast ∧ ∃ stem, p.getLast? = some (stem ++ ".js") := by
  have hname (n : String) : NamePart.fits (.star :: ".js".toList.map .char) n.toList = true ↔
      ∃ stem, n = stem ++ ".js" := by
    rw [NamePart.fits_star]
    constructor
    · rintro ⟨a, b, hn, hb⟩
      rw [NamePart.fits_chars] at hb
      exact ⟨String.ofList a, by rw [← String.toList_inj, hn, hb]; simp⟩
    · rintro ⟨stem, rfl⟩
      exact ⟨stem.toList, ".js".toList, by simp, (NamePart.fits_chars _ _).mpr rfl⟩
  constructor
  · rintro ⟨a, _, rfl, _, rfl, d, _, rfl, n, _, rfl, hn, rfl⟩
    obtain ⟨stem, rfl⟩ := (hname n).mp hn
    have hp : a ++ "routes" :: (d ++ [stem ++ ".js"]) =
        (a ++ "routes" :: d) ++ [stem ++ ".js"] := by simp
    rw [hp, List.dropLast_concat]
    exact ⟨by simp, stem, List.getLast?_concat⟩
  · rintro ⟨hmem, stem, hlast⟩
    obtain ⟨a, d, hsplit⟩ := List.append_of_mem hmem
    have hp : p = (a ++ "routes" :: d) ++ [stem ++ ".js"] := by
      rw [← hsplit]
      exact (List.dropLast_append_getLast? _ hlast).symm
    exact ⟨a, "routes" :: (d ++ [stem ++ ".js"]), by simp [hp], d ++ [stem ++ ".js"], rfl, d, _,
      rfl, _, [], rfl, (hname _).mpr ⟨stem, rfl⟩, rfl⟩

theorem isIgnored_eq_false_iff : isIgnored p = false ↔
    ∀ dir ∈ p.dropLast, dir ≠ "node_modules" ∧ dir ≠ "test" ∧ dir ≠ "tests" := by
  simp [isIgnored, ignoredDirs]

/-- Where the default pattern leads from a project, a directory or not. -/
theorem run_defaultSteps (hd : start.tree.Distinct) :
    ∃ ss, Glob.run ⟨defaultSteps, false⟩ start = .ok ss ∧
      Reaches start (Matches defaultSteps) ss ∧ (ss.map Spot.shown).Nodup := by
  rw [Glob.run]
  split
  · obtain ⟨ss, hss, hreach⟩ := select_reaches hd descends_defaultSteps
    exact ⟨ss, hss, hreach, nodup_shown_of_deep hss⟩
  · next hfile =>
    refine ⟨[], rfl, ⟨by simp, fun p t hp ht => ?_⟩, by simp⟩
    have hne : p ≠ [] := descends_defaultSteps.ne_nil (by decide) hp
    exact absurd (FileTree.isDir_of_at? ht hne) hfile

theorem below_defaultSteps (hd : start.tree.Distinct) (hs : start.shown = []) :
    ∃ found, below ⟨defaultSteps, false⟩ start = .ok found ∧
      found.Pairwise (List.Lex (· < ·)) ∧ ∀ p, p ∈ found ↔ IsRouteFile start.tree p := by
  obtain ⟨ss, hrun, hreach, hnodup⟩ := run_defaultSteps hd
  let files := ss.filter fun s => !s.tree.isDir && !isIgnored s.shown
  have hfiles : (files.map (·.shown)).Nodup := hnodup.sublist (List.filter_sublist.map _)
  refine ⟨(files.map (·.shown)).mergeSort before, ?_, pairwise_mergeSort_before hfiles,
    fun p => ?_⟩
  · rw [below, hrun]
    rfl
  · rw [List.mem_mergeSort, List.mem_map]
    constructor
    · rintro ⟨r, hr, rfl⟩
      obtain ⟨hmem, hkeep⟩ := List.mem_filter.mp hr
      obtain ⟨hfile, hkept⟩ := Bool.and_eq_true_iff.mp hkeep
      obtain ⟨p, hp, hshown, hat⟩ := hreach.sound r hmem
      rw [hs, List.nil_append] at hshown
      obtain ⟨hroutes, hscript⟩ := matches_defaultSteps.mp hp
      rw [hshown] at hkept ⊢
      refine ⟨?_, hroutes, hscript, isIgnored_eq_false_iff.mp (by simpa using hkept)⟩
      rw [hat]
      cases ht : r.tree with
      | file data => exact ⟨data, rfl⟩
      | dir es => simp [ht, FileTree.isDir] at hfile
    · intro ⟨⟨data, hat⟩, hroutes, hscript, hkept⟩
      obtain ⟨r, hr, hshown, htree⟩ :=
        hreach.complete p _ (matches_defaultSteps.mpr ⟨hroutes, hscript⟩) hat
      rw [hs, List.nil_append] at hshown
      refine ⟨r, List.mem_filter.mpr ⟨hr, ?_⟩, hshown⟩
      rw [htree, hshown, isIgnored_eq_false_iff.mpr hkept]
      rfl

end Finding

/-- The route files of a project with the default pattern: every file, and nothing else, with a
directory for routes and no ignored one on the way to it from the project, and with a script's name.
Each is given once, in the order of the components of its path. -/
theorem route_files_are_found {fs : FileSystem} {project : Path} {here : List String}
    {tree : FileTree} (hr : fs.resolve project = .ok here) (ht : fs.tree.at? here = some tree)
    (hd : tree.Distinct) :
    ∃ found : List (List String),
      find fs project defaultPattern = .ok (found.map project.append) ∧
      found.Pairwise (List.Lex (· < ·)) ∧ ∀ p, p ∈ found ↔ IsRouteFile tree p := by
  have hstart : ∃ start, spotAt fs here = some start ∧ start.shown = [] ∧ start.tree = tree := by
    rw [spotAt, ht]
    exact ⟨_, rfl, rfl, rfl⟩
  obtain ⟨start, hspot, hshown, rfl⟩ := hstart
  obtain ⟨found, hbelow, hsorted, hmem⟩ := below_defaultSteps hd hshown
  refine ⟨found, ?_, hsorted, hmem⟩
  rw [find, parse_defaultPattern, Outcome.ok_bind]
  simp only [hr, hspot, hbelow]
  rfl

/-- A project inside of an ignored directory, with one directory for routes inside of another. -/
def nested : FileTree :=
  .dir [("routes", .dir [("b.js", .file []), ("tests", .dir [("t.js", .file [])]),
    ("a", .dir [("routes", .dir [("c.js", .file []), ("d.js", .dir [])])])]), ("e.js", .file [])]

theorem route_files_are_found_nested :
    ∃ found : List (List String),
      find ⟨.dir [("test", nested)], []⟩ (.ofString "./test") defaultPattern =
        .ok (found.map (Path.ofString "test").append) ∧
      found.Pairwise (List.Lex (· < ·)) ∧ ["routes", "a", "routes", "c.js"] ∈ found ∧
      ["routes", "b.js"] ∈ found ∧ ["routes", "a", "routes", "d.js"] ∉ found ∧
      ["routes", "tests", "t.js"] ∉ found ∧ ["e.js"] ∉ found := by
  have hd : nested.Distinct := by simp [nested, Pairs.keys]
  have hr : FileSystem.resolve ⟨.dir [("test", nested)], []⟩ (.ofString "./test") =
      .ok ["test"] := by decide +kernel
  obtain ⟨found, hfind, hsorted, hmem⟩ := route_files_are_found hr rfl hd
  refine ⟨found, hfind, hsorted, ?_, ?_, ?_, ?_, ?_⟩
  · exact (hmem _).mpr ⟨⟨[], rfl⟩, by decide, ⟨"c", rfl⟩, by simp⟩
  · exact (hmem _).mpr ⟨⟨[], rfl⟩, by decide, ⟨"b", rfl⟩, by simp⟩
  · intro h
    obtain ⟨data, hfile⟩ := ((hmem _).mp h).file
    cases hfile
  · exact fun h => (((hmem _).mp h).kept "tests" (by decide)).2.2 rfl
  · exact fun h => absurd ((hmem _).mp h).routes (by decide)

end RouteBook.RouteFiles

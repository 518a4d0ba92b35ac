import Mathlib.Control.Monad.Basic
import RouteBook.Extraction
import RouteBook.Proofs.Endpoint
import RouteBook.Proofs.RouteCalls

/-! How the extraction of routes can fail. A text costs its own file a warning, whatever is wrong
with it, unless a registered path names a number of more than 31 bits before any other number
beyond the last code point: that one stops the extraction of all files. -/
namespace RouteBook.Extraction
open Literal Outcome

/-- The first number beyond the last code point among those that the registered paths of a text
name. -/
def firstBeyond? (source : List UInt8) (file : String) : Option Nat :=
  (parse source file).toOption.bind fun t => (RouteCalls.numbers t).find? (lastCodePoint < ·)

def Overflows (source : List UInt8) (file : String) : Prop :=
  ∃ n ∈ firstBeyond? source file, 0x80000000 ≤ n

instance (source : List UInt8) (file : String) : Decidable (Overflows source file) :=
  inferInstanceAs (Decidable (∃ n ∈ firstBeyond? source file, 0x80000000 ≤ n))

theorem parse_error {source : List UInt8} {file : String} {e : SourceError}
    (h : parse source file = .error e) : e = .notParsed := by
  unfold parse at h
  split at h
  · cases h
  · exact (Except.error.inj h).symm

theorem normalize_pair {file : String} {t : Source.Tree} {routes : List RouteFact}
    (h : RouteCalls.find file t = .ok routes) :
    ∀ p ∈ Pairing.pair routes (RouteCalls.docs t),
      Endpoint.normalize p.1 p.2 = .ok (Endpoint.draft p.1 p.2) := by
  rintro ⟨route, doc⟩ hp
  obtain ⟨hr, hd⟩ := Pairing.mem_of_pair hp
  exact Endpoint.normalize_eq_draft (RouteCalls.find_path h hr)
    fun f hf => RouteCalls.statusMap_of_docs (hd f hf)

theorem fromSource_of_parse_error {source : List UInt8} {file : String} {e : SourceError}
    (h : parse source file = .error e) : fromSource source file = .error .notParsed := by
  rw [fromSource, h, parse_error h]
  rfl

theorem fromSource_of_routesIn_error {source : List UInt8} {file : String} {t : Source.Tree}
    {e : SourceError} (ht : parse source file = .ok t)
    (hr : routesIn source file t = .error e) : fromSource source file = .error e := by
  rw [fromSource, ht]
  change (routesIn source file t >>= _) = _
  rw [hr]
  rfl

theorem fromSource_of_find {source : List UInt8} {file : String} {t : Source.Tree}
    {routes : List RouteFact} (ht : parse source file = .ok t)
    (hr : RouteCalls.find file t = .ok routes) :
    fromSource source file =
      .ok ((Pairing.pair routes (RouteCalls.docs t)).map fun p => Endpoint.draft p.1 p.2) := by
  have hroutes : routesIn source file t = .ok routes := by rw [routesIn, hr]
  rw [fromSource, ht]
  change (routesIn source file t >>= _) = _
  rw [hroutes]
  refine mapM_eq_ok_map _ ?_
  rintro ⟨route, doc⟩ hp
  simp only [normalize_pair hr _ hp]

theorem fromSource_of_none {source : List UInt8} {file : String}
    (h : firstBeyond? source file = none) :
    fromSource source file = .error .notParsed ∨ ∃ ds, fromSource source file = .ok ds := by
  cases ht : parse source file with
  | error e => exact .inl (fromSource_of_parse_error ht)
  | ok t =>
    have hf : fault? (RouteCalls.numbers t) = none := by
      simpa [firstBeyond?, ht, Except.toOption, fault?] using h
    cases hr : RouteCalls.find file t with
    | ok routes => exact .inr ⟨_, fromSource_of_find ht hr⟩
    | error b =>
      have hb := (RouteCalls.find_error_iff file t b.error).mp ⟨b.start, hr⟩
      rw [hf] at hb
      cases hb

theorem find_of_some {source : List UInt8} {file : String} {n : Nat}
    (h : firstBeyond? source file = some n) :
    ∃ t start, parse source file = .ok t ∧
      RouteCalls.find file t = .error ⟨start, .ofNumber n⟩ := by
  obtain ⟨t, ht, hn⟩ := Option.bind_eq_some_iff.mp h
  have hf : fault? (RouteCalls.numbers t) = some (.ofNumber n) := by rw [fault?, hn]; rfl
  obtain ⟨start, hr⟩ := (RouteCalls.find_error_iff file t _).mpr hf
  cases hp : parse source file with
  | error e =>
    rw [hp] at ht
    cases ht
  | ok t' =>
    rw [hp] at ht
    obtain rfl := Option.some.inj ht
    exact ⟨t', start, rfl, hr⟩

theorem fromSource_of_lt {source : List UInt8} {file : String} {n : Nat}
    (h : firstBeyond? source file = some n) (hn : n < 0x80000000) :
    ∃ line column, fromSource source file = .error (.badEscape line column) := by
  obtain ⟨t, start, ht, hr⟩ := find_of_some h
  rw [EscapeError.ofNumber, if_pos hn] at hr
  exact ⟨_, _, fromSource_of_routesIn_error ht (by rw [routesIn, hr])⟩

theorem fromSource_of_overflows {source : List UInt8} {file : String}
    (h : Overflows source file) : fromSource source file = .error .hugeEscape := by
  obtain ⟨n, hb, hn⟩ := h
  obtain ⟨t, start, ht, hr⟩ := find_of_some hb
  rw [EscapeError.ofNumber, if_neg (by omega)] at hr
  exact fromSource_of_routesIn_error ht (by rw [routesIn, hr])

/-- What does no harm to other files: descriptors, or an error that can be reported. -/
def Contained (file : String) (r : Except SourceError (List Descriptor)) : Prop :=
  (∃ ds, r = .ok ds) ∨ ∃ e report, r = .error e ∧ e.report? file = some report

theorem contained_of_not_overflows {source : List UInt8} {file : String}
    (h : ¬ Overflows source file) : Contained file (fromSource source file) := by
  cases hb : firstBeyond? source file with
  | none =>
    rcases fromSource_of_none hb with hs | hs
    · exact .inr ⟨_, _, hs, rfl⟩
    · exact .inl hs
  | some n =>
    have hn : n < 0x80000000 := by
      by_contra hn
      exact h ⟨n, hb, by omega⟩
    obtain ⟨line, column, hs⟩ := fromSource_of_lt hb hn
    exact .inr ⟨_, _, hs, rfl⟩

theorem contained_iff (source : List UInt8) (file : String) :
    Contained file (fromSource source file) ↔ ¬ Overflows source file := by
  refine ⟨?_, contained_of_not_overflows⟩
  rintro hc ho
  rw [fromSource_of_overflows ho] at hc
  obtain ⟨ds, hd⟩ | ⟨e, report, he, hr⟩ := hc
  · cases hd
  · obtain rfl := Except.error.inj he
    cases hr

def Readable (fs : FileSystem) (file : String) : Prop :=
  ∃ data, fs.read (Path.ofString file) = .ok data

/-- Whether a file can be read and stops the extraction of all files. -/
def Spoils (fs : FileSystem) (file : String) : Prop :=
  ∃ data, fs.read (Path.ofString file) = .ok data ∧ Overflows data file

theorem fromFile_of_spoils {fs : FileSystem} {file : String} (h : Spoils fs file) :
    fromFile fs file = .error (.source .hugeEscape) := by
  obtain ⟨data, hr, ho⟩ := h
  simp [fromFile, hr, fromSource_of_overflows ho, SourceError.report?]

theorem fromFile_of_not_spoils {fs : FileSystem} {file : String} (hr : Readable fs file)
    (h : ¬ Spoils fs file) : ∃ o, fromFile fs file = .ok o := by
  obtain ⟨data, hr⟩ := hr
  have ho : ¬ Overflows data file := fun ho => h ⟨data, hr, ho⟩
  obtain ⟨ds, hs⟩ | ⟨e, report, hs, he⟩ := contained_of_not_overflows ho
  · exact ⟨.ok ds, by simp [fromFile, hr, hs]⟩
  · exact ⟨.error report, by simp [fromFile, hr, hs, he]⟩

theorem survey_of_spoils {fs : FileSystem} {files : List String}
    (hr : ∀ f ∈ files, Readable fs f) (h : ∃ f ∈ files, Spoils fs f) :
    (survey fs files).failure? = some (.source .hugeEscape) := by
  induction files with
  | nil => simp at h
  | cons file files ih =>
    by_cases hs : Spoils fs file
    · simp [survey, fromFile_of_spoils hs]
    · obtain ⟨o, ho⟩ := fromFile_of_not_spoils (hr file (by simp)) hs
      have ht : ∃ f ∈ files, Spoils fs f := by simpa [hs] using h
      simpa [survey, ho] using ih (fun f hf => hr f (List.mem_cons_of_mem file hf)) ht

theorem survey_of_not_spoils {fs : FileSystem} {files : List String}
    (hr : ∀ f ∈ files, Readable fs f) (h : ∀ f ∈ files, ¬ Spoils fs f) :
    (survey fs files).failure? = none ∧ (survey fs files).outcomes.map Prod.fst = files := by
  induction files with
  | nil => simp [survey]
  | cons file files ih =>
    obtain ⟨o, ho⟩ := fromFile_of_not_spoils (hr file (by simp)) (h file (by simp))
    have ht := ih (fun f hf => hr f (List.mem_cons_of_mem file hf))
      fun f hf => h f (List.mem_cons_of_mem file hf)
    simpa [survey, ho] using ht

theorem result_of_spoils {fs : FileSystem} {files : List String}
    (hr : ∀ f ∈ files, Readable fs f) (h : ∃ f ∈ files, Spoils fs f) :
    (survey fs files).result = .error (.source .hugeEscape) := by
  simp [Survey.result, survey_of_spoils hr h]

theorem result_of_not_spoils {fs : FileSystem} {files : List String} (hne : files ≠ [])
    (hr : ∀ f ∈ files, Readable fs f) (h : ∀ f ∈ files, ¬ Spoils fs f) :
    (∃ r, (survey fs files).result = .ok r) ∨ (survey fs files).result = .error .noRoutes := by
  obtain ⟨hf, ho⟩ := survey_of_not_spoils hr h
  have hout : (survey fs files).outcomes.isEmpty = false := by
    cases hs : (survey fs files).outcomes with
    | nil =>
      rw [hs] at ho
      exact absurd ho.symm hne
    | cons p ps => rfl
  simp only [Survey.result, hf, hout, Bool.false_eq_true, if_false]
  split
  · exact .inr rfl
  · exact .inl ⟨_, rfl⟩

theorem descriptors_of_result {s : Survey} {r : Result} (h : s.result = .ok r) :
    r.descriptors = OperationId.assign s.found := by
  unfold Survey.result at h
  split at h
  · cases h
  · split at h
    · cases h
    · split at h
      · cases h
      · rw [← Except.ok.inj h]

theorem result_of_read {fs : FileSystem} {file : String} {data : List UInt8} {ds : List Descriptor}
    (hr : fs.read (Path.ofString file) = .ok data) (hs : fromSource data file = .ok ds)
    (hne : ds ≠ []) : (survey fs [file]).result = .ok ⟨OperationId.assign ds, []⟩ := by
  have hfile : fromFile fs file = .ok (.ok ds) := by simp [fromFile, hr, hs]
  simp [survey, hfile, Survey.result, Survey.found, Survey.warnings, Except.toOption, hne]

/-- A text gives descriptors or an error that can be reported, exactly if it does not overflow; and
readable files give a result or none of them has a route, exactly if no file overflows. An error
of a finished descriptor never occurs. -/
theorem failures_stay_per_file (source : List UInt8) (file : String) (fs : FileSystem)
    (files : List String) :
    (Contained file (fromSource source file) ↔ ¬ Overflows source file) ∧
    (Overflows source file → fromSource source file = .error .hugeEscape) ∧
    (∀ n, firstBeyond? source file = some n → n < 0x80000000 →
      ∃ line column, fromSource source file = .error (.badEscape line column)) ∧
    (∀ t routes, RouteCalls.find file t = .ok routes →
      ∀ p ∈ Pairing.pair routes (RouteCalls.docs t),
        Endpoint.normalize p.1 p.2 = .ok (Endpoint.draft p.1 p.2)) ∧
    (files ≠ [] → (∀ f ∈ files, Readable fs f) →
      (((∃ r, (survey fs files).result = .ok r) ∨ (survey fs files).result = .error .noRoutes) ↔
        ∀ f ∈ files, ¬ Spoils fs f) ∧
      ((∃ f ∈ files, Spoils fs f) →
        (survey fs files).result = .error (.source .hugeEscape))) := by
  refine ⟨contained_iff source file, fromSource_of_overflows, fun _ => fromSource_of_lt,
    fun _ _ => normalize_pair, ?_⟩
  intro hne hr
  refine ⟨⟨?_, result_of_not_spoils hne hr⟩, result_of_spoils hr⟩
  intro h f hf hs
  rw [result_of_spoils hr ⟨f, hf, hs⟩] at h
  simp at h

/-- The bytes of `a.get('\u{80000000}')`. -/
def hugeText : List UInt8 :=
  [97, 46, 103, 101, 116, 40, 39, 92, 117, 123, 56, 48, 48, 48, 48, 48, 48, 48, 125, 39, 41]

/-- The bytes of `a.get('\u{110000}')`. -/
def beyondText : List UInt8 :=
  [97, 46, 103, 101, 116, 40, 39, 92, 117, 123, 49, 49, 48, 48, 48, 48, 125, 39, 41]

/-- The bytes of `b.get('/')`. -/
def plainText : List UInt8 := [98, 46, 103, 101, 116, 40, 39, 47, 39, 41]

theorem read_top {es : List (String × FileTree)} {name : String} {data : List UInt8}
    (hp : Path.ofString name = ⟨"", [name]⟩) (hz : '\x00' ∉ name.toList) (hd : name ≠ "..")
    (hs : name.utf8ByteSize ≤ maxNameBytes) (hg : Pairs.get? name es = some (.file data)) :
    FileSystem.read ⟨.dir es, []⟩ (Path.ofString name) = .ok data := by
  have hname : ¬ maxNameBytes < name.utf8ByteSize := by omega
  have hpath : ¬ maxPathBytes < name.utf8ByteSize := by
    simp only [maxNameBytes, maxPathBytes] at hs ⊢
    omega
  have hc : FileSystem.check ⟨"", [name]⟩ = .ok () := by
    simp [FileSystem.check, hz, hpath, Path.toString]
  have hr : FileSystem.resolve ⟨.dir es, []⟩ ⟨"", [name]⟩ = .ok [name] := by
    simp [FileSystem.resolve, hc, FileSystem.step, FileTree.at?, hd, hname, Pairs.contains, hg,
      bind, Except.bind, pure, Except.pure]
  simp [FileSystem.read, FileSystem.find, hp, hr, FileTree.at?, FileTree.child?,
    FileTree.entries, hg, bind, Except.bind, pure, Except.pure]

def sampleFiles : FileSystem :=
  ⟨.dir [("a.js", .file hugeText), ("b.js", .file plainText), ("c.js", .file beyondText)], []⟩

theorem read_huge : sampleFiles.read (Path.ofString "a.js") = .ok hugeText :=
  read_top (by decide) (by decide) (by decide) (by decide) rfl

theorem read_plain : sampleFiles.read (Path.ofString "b.js") = .ok plainText :=
  read_top (by decide) (by decide) (by decide) (by decide) rfl

theorem read_beyond : sampleFiles.read (Path.ofString "c.js") = .ok beyondText :=
  read_top (by decide) (by decide) (by decide) (by decide) rfl

theorem failures_stay_per_file_sample :
    (firstBeyond? beyondText "c.js" = some 0x110000 ∧
      ∃ line column, fromSource beyondText "c.js" = .error (.badEscape line column)) ∧
    (Overflows hugeText "a.js" ∧ fromSource hugeText "a.js" = .error .hugeEscape) ∧
    ((∀ f ∈ ["b.js", "c.js"], Readable sampleFiles f ∧ ¬ Spoils sampleFiles f) ∧
      ((∃ r, (survey sampleFiles ["b.js", "c.js"]).result = .ok r) ∨
        (survey sampleFiles ["b.js", "c.js"]).result = .error .noRoutes)) := by
  have hb : firstBeyond? beyondText "c.js" = some 0x110000 := by decide +kernel
  have ho : Overflows hugeText "a.js" := by decide +kernel
  have hp : ¬ Overflows plainText "b.js" := by decide +kernel
  have hc : ¬ Overflows beyondText "c.js" := by decide +kernel
  have hf : ∀ f ∈ ["b.js", "c.js"], Readable sampleFiles f ∧ ¬ Spoils sampleFiles f := by
    intro f hf
    simp only [List.mem_cons, List.not_mem_nil, or_false] at hf
    rcases hf with rfl | rfl
    · refine ⟨⟨_, read_plain⟩, ?_⟩
      rintro ⟨data, hd, hs⟩
      rw [read_plain, Except.ok.injEq] at hd
      exact hp (hd ▸ hs)
    · refine ⟨⟨_, read_beyond⟩, ?_⟩
      rintro ⟨data, hd, hs⟩
      rw [read_beyond, Except.ok.injEq] at hd
      exact hc (hd ▸ hs)
  obtain ⟨-, -, bad, -, files⟩ :=
    failures_stay_per_file beyondText "c.js" sampleFiles ["b.js", "c.js"]
  obtain ⟨-, huge, -⟩ := failures_stay_per_file hugeText "a.js" sampleFiles []
  exact ⟨⟨hb, bad _ hb (by decide)⟩, ⟨ho, huge ho⟩, hf,
    (files (by simp) fun f h => (hf f h).1).1.mpr fun f h => (hf f h).2⟩

/-- One huge number is no error that can be reported, and the route of another file is lost with
it. -/
theorem huge_number_spoils_other_files :
    ¬ Contained "a.js" (fromSource hugeText "a.js") ∧
    (∀ f ∈ ["b.js", "a.js"], Readable sampleFiles f) ∧
    (survey sampleFiles ["b.js", "a.js"]).result = .error (.source .hugeEscape) := by
  have ho : Overflows hugeText "a.js" := by decide +kernel
  have hr : ∀ f ∈ ["b.js", "a.js"], Readable sampleFiles f := by
    intro f hf
    simp only [List.mem_cons, List.not_mem_nil, or_false] at hf
    rcases hf with rfl | rfl
    · exact ⟨_, read_plain⟩
    · exact ⟨_, read_huge⟩
  exact ⟨fun h => (contained_iff _ _).mp h ho, hr,
    result_of_spoils hr ⟨"a.js", by simp, hugeText, read_huge, ho⟩⟩

end RouteBook.Extraction

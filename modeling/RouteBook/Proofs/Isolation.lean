import RouteBook.Proofs.Extraction
import RouteBook.Proofs.FileAction
import RouteBook.Proofs.Workers

/-! Many files, of which some fail. Main statement: a file that cannot be read or parsed costs a
warning at its place and has no influence on what the other files give. -/
namespace RouteBook.Extraction
variable {fs : FileSystem} {file : String} {files bad : List String}

/-- A file has descriptors, or it fails in a way that is reported. -/
def Settles (fs : FileSystem) (file : String) : Prop := ∃ o, fromFile fs file = .ok o

/-- The descriptors of a file; a file that fails has none. -/
def routesOf (fs : FileSystem) (file : String) : List Descriptor :=
  match fromFile fs file with
  | .ok (.ok ds) => ds
  | _ => []

def warning? (fs : FileSystem) (file : String) : Option String :=
  match fromFile fs file with
  | .ok (.error w) => some w
  | _ => none

/-- What is wrong with a text, without the name of its file. -/
def SourceError.detail? : SourceError → Option String
  | notParsed => some "syntax error"
  | badEscape line column =>
    some ("invalid escape in string at line " ++ toString line ++ ", column " ++
      toString column ++ ": chr() arg not in range(0x110000)")
  | _ => none

theorem SourceError.report?_eq (file : String) (e : SourceError) :
    e.report? file = e.detail?.map (fileLabel file ++ ": " ++ ·) := by
  cases e with
  | notParsed => simp [report?, detail?, String.append_assoc]
  | badEscape line column =>
    have hcolon : ": invalid escape in string at line " =
        ": " ++ "invalid escape in string at line " := rfl
    simp only [report?, detail?, Option.map_some, hcolon, String.append_assoc]
  | hugeEscape => rfl
  | invalid errors => rfl

/-- A file cannot be read, or its text is not one that routes can be taken from. -/
inductive Fails (fs : FileSystem) (file : String) : String → Prop where
  | unread (e : FileError) : fs.read (Path.ofString file) = .error e → e ≠ .badName →
      Fails fs file e.message
  | broken (data : List UInt8) (e : SourceError) (message : String) :
      fs.read (Path.ofString file) = .ok data → fromSource data file = .error e →
      e.detail? = some message → Fails fs file message

theorem routesOf_of_warning {w : String} (h : warning? fs file = some w) :
    routesOf fs file = [] := by
  unfold warning? at h
  unfold routesOf
  split at h
  · next hf => rw [hf]
  · cases h

/-- A text that is read has a name: the empty path leads to a directory. -/
theorem fileLabel_of_read {data : List UInt8} (hd : fs.kind? fs.cwd = some .dir)
    (h : fs.read (Path.ofString file) = .ok data) : fileLabel file = file := by
  rw [fileLabel, if_neg]
  intro he
  have hpath : Path.ofString file = ⟨"", []⟩ := by
    rw [beq_iff_eq.mp he]
    decide
  have hres : fs.resolve ⟨"", []⟩ = .ok fs.cwd := by
    rw [FileSystem.resolve_of_check (by decide)]
    rfl
  obtain ⟨t, ht, hk⟩ := Option.map_eq_some_iff.mp hd
  obtain ⟨es, rfl⟩ := FileTree.exists_entries_of_kind hk
  rw [hpath, FileSystem.read, FileSystem.find_eq hres, ht] at h
  cases h

theorem warning?_iff (hd : fs.kind? fs.cwd = some .dir) {w : String} :
    warning? fs file = some w ↔
      ∃ message, Fails fs file message ∧ w = file ++ ": " ++ message := by
  constructor
  · intro h
    unfold warning? fromFile at h
    cases hr : fs.read (Path.ofString file) with
    | error e =>
      have hb : e ≠ .badName := by
        rintro rfl
        rw [hr] at h
        cases h
      refine ⟨e.message, .unread e hr hb, ?_⟩
      rw [hr] at h
      cases e with
      | badName => exact absurd rfl hb
      | _ => exact (Option.some.inj h).symm
    | ok data =>
      rw [hr] at h
      cases hs : fromSource data file with
      | ok ds => simp [hs] at h
      | error e =>
        simp only [hs, SourceError.report?_eq, fileLabel_of_read hd hr] at h
        cases hm : e.detail? with
        | none => simp [hm] at h
        | some message =>
          refine ⟨message, .broken data e message hr hs hm, ?_⟩
          simpa [hm] using h.symm
  · rintro ⟨message, hf, rfl⟩
    unfold warning? fromFile
    cases hf with
    | unread e hr hb =>
      rw [hr]
      cases e with
      | badName => exact absurd rfl hb
      | _ => rfl
    | broken data e message hr hs hm =>
      simp [hr, hs, SourceError.report?_eq, fileLabel_of_read hd hr, hm]

theorem survey_of_settles (h : ∀ f ∈ files, Settles fs f) :
    (survey fs files).failure? = none ∧ (survey fs files).outcomes.map Prod.fst = files ∧
      (survey fs files).found = files.flatMap (routesOf fs) ∧
      (survey fs files).warnings = files.filterMap (warning? fs) := by
  induction files with
  | nil => exact ⟨rfl, rfl, rfl, rfl⟩
  | cons file files ih =>
    obtain ⟨o, ho⟩ := h file (by simp)
    obtain ⟨hf, hnames, hfound, hwarn⟩ := ih fun f hf => h f (List.mem_cons_of_mem file hf)
    have hs : survey fs (file :: files) =
        { survey fs files with outcomes := (file, o) :: (survey fs files).outcomes } := by
      rw [survey, ho]
    have hr : routesOf fs file = o.toOption.getD [] := by
      rw [routesOf, ho]
      cases o <;> rfl
    refine ⟨by rw [hs, hf], by rw [hs, List.map_cons, hnames], ?_, ?_⟩
    · rw [hs, List.flatMap_cons, hr, ← hfound]
      rfl
    · rw [hs, List.filterMap_cons, ← hwarn, warning?, ho]
      cases o <;> rfl

theorem found_insert (front back : List String) (hb : ∀ f ∈ bad, (warning? fs f).isSome) :
    (front ++ bad ++ back).flatMap (routesOf fs) = (front ++ back).flatMap (routesOf fs) := by
  have hnone : bad.flatMap (routesOf fs) = [] := by
    rw [List.flatMap_eq_nil_iff]
    intro f hf
    obtain ⟨w, hw⟩ := Option.isSome_iff_exists.mp (hb f hf)
    exact routesOf_of_warning hw
  simp [List.flatMap_append, hnone]

theorem result_of_settles (h : ∀ f ∈ files, Settles fs f) :
    (survey fs files).result =
      if files = [] then .error .noFiles
      else if files.flatMap (routesOf fs) = [] then .error .noRoutes
      else .ok ⟨OperationId.assign (files.flatMap (routesOf fs)),
        files.filterMap (warning? fs)⟩ := by
  obtain ⟨hf, hnames, hfound, hwarn⟩ := survey_of_settles h
  have hempty : (survey fs files).outcomes.isEmpty = files.isEmpty := by
    rw [← List.isEmpty_map (f := Prod.fst), hnames]
  simp only [Survey.result, hf, hfound, hwarn, hempty, List.isEmpty_iff]

/-- If all files settle, whatever the number of workers and however they proceed: without a file or
without a route there is no result, and otherwise the descriptors are those of the files that
succeed, in the order of the files, and there is one warning for each file that fails. Files that
fail can be put in or taken out without another change. -/
theorem extraction_isolates_failures (fs : FileSystem) (files : List String)
    (h : ∀ f ∈ files, Settles fs f) :
    (∀ workers, 0 < workers → ∀ pool, Pool.Runs fs workers (Pool.start files) pool →
      (∃ last, Pool.Runs fs workers pool last ∧ Pool.survey? last = some (survey fs files)) ∧
      ∀ s, Pool.survey? pool = some s → s = survey fs files) ∧
    ((survey fs files).result = .error .noFiles ↔ files = []) ∧
    ((survey fs files).result = .error .noRoutes ↔
      files ≠ [] ∧ ∀ f ∈ files, routesOf fs f = []) ∧
    ((∃ f ∈ files, routesOf fs f ≠ []) →
      (survey fs files).result = .ok ⟨OperationId.assign (files.flatMap (routesOf fs)),
        files.filterMap (warning? fs)⟩ ∧
      ∀ front bad back, files = front ++ bad ++ back → (∀ f ∈ bad, (warning? fs f).isSome) →
        (survey fs (front ++ back)).result =
          .ok ⟨OperationId.assign (files.flatMap (routesOf fs)),
            front.filterMap (warning? fs) ++ back.filterMap (warning? fs)⟩) ∧
    (fs.kind? fs.cwd = some .dir → ∀ f ∈ files, ∀ w, warning? fs f = some w ↔
      ∃ message, Fails fs f message ∧ w = f ++ ": " ++ message) := by
  have hresult := result_of_settles h
  refine ⟨fun workers hw pool hp => Pool.survey?_of_runs hw hp, ?_, ?_, ?_,
    fun hd f _ w => warning?_iff hd⟩
  · rw [hresult]
    split
    · next he => simp [he]
    · next he => split <;> simp [he]
  · rw [hresult, ← List.flatMap_eq_nil_iff]
    split
    · next he => simp [he]
    · next he => split <;> simp_all
  · rintro ⟨f, hf, hr⟩
    have hne : files ≠ [] := List.ne_nil_of_mem hf
    have hfound : files.flatMap (routesOf fs) ≠ [] := by
      rw [ne_eq, List.flatMap_eq_nil_iff]
      exact fun hall => hr (hall f hf)
    refine ⟨by rw [hresult, if_neg hne, if_neg hfound], ?_⟩
    rintro front bad back rfl hb
    have hsame := found_insert front back hb
    have hrest : ∀ f ∈ front ++ back, Settles fs f := by
      intro f hf
      exact h f (by rcases List.mem_append.mp hf with hf | hf <;> simp [hf])
    have hne' : front ++ back ≠ [] := by
      intro he
      rw [hsame, he] at hfound
      exact hfound rfl
    rw [result_of_settles hrest, if_neg hne', ← hsame, if_neg hfound, List.filterMap_append]

/-- A file that is missing, one that cannot be decoded, and one with a route, twice. -/
def mixedNames : List String := ["none.js", "b.js", "c.js", "b.js"]

theorem extraction_isolates_failures_mixed :
    (∀ f ∈ mixedNames, Settles sampleFiles f) ∧
    (∃ f ∈ mixedNames, routesOf sampleFiles f ≠ []) ∧
    (survey sampleFiles mixedNames).result =
      .ok ⟨OperationId.assign (mixedNames.flatMap (routesOf sampleFiles)),
        ["none.js: No such file or directory",
          "c.js: invalid escape in string at line 1, column 7" ++
            ": chr() arg not in range(0x110000)"]⟩ := by
  have hsettles : ∀ f ∈ mixedNames, Settles sampleFiles f := by
    have hall : (mixedNames.all fun f => (fromFile sampleFiles f).toOption.isSome) = true := by
      decide +kernel
    intro f hf
    have hsome := List.all_eq_true.mp hall f hf
    unfold Settles
    cases ho : fromFile sampleFiles f with
    | ok o => exact ⟨o, rfl⟩
    | error e => simp [ho, Except.toOption] at hsome
  have hroute : (routesOf sampleFiles "b.js").length = 1 := by decide +kernel
  have hfound : ∃ f ∈ mixedNames, routesOf sampleFiles f ≠ [] :=
    ⟨"b.js", by decide, List.ne_nil_of_length_pos (by omega)⟩
  have hwarn : mixedNames.filterMap (warning? sampleFiles) =
      ["none.js: No such file or directory", "c.js: invalid escape in string at line 1, column 7" ++
        ": chr() arg not in range(0x110000)"] := by
    decide +kernel
  obtain ⟨-, -, -, hresult, -⟩ := extraction_isolates_failures sampleFiles mixedNames hsettles
  exact ⟨hsettles, hfound, hwarn ▸ (hresult hfound).1⟩

end RouteBook.Extraction

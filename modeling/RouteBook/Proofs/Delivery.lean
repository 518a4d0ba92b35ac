import RouteBook.Proofs.Command
import RouteBook.Proofs.OperationId

/-! What a generation that succeeds leaves behind. Main statement: the documents of the chosen
formats stand in the output, and neither another file nor a directory off the way to the output is
different. -/
namespace RouteBook

namespace Bundle

def Format.fileNames : Format → List String
  | openapi => ["openapi.json", "openapi.yaml"]
  | markdown => ["API.md"]
  | html => ["index.html"]

theorem keys_documents (ds : List Descriptor) (config : RenderConfig) (f : Format) :
    Pairs.keys (documents ds config f).1 = f.fileNames := by
  cases f <;> rfl

theorem mem_keys_renderFormats {ds : List Descriptor} {config : RenderConfig}
    {formats : List Format} {name : String} :
    name ∈ Pairs.keys (renderFormats ds config formats).1 ↔
      ∃ f ∈ formats, name ∈ f.fileNames := by
  have hold : Holds ds config formats _ := holds_renderFormats formats
  constructor
  · intro h
    obtain ⟨p, hp, rfl⟩ := List.mem_map.mp h
    obtain ⟨f, hf, hpf⟩ := hold.sound p hp
    refine ⟨f, hf, ?_⟩
    rw [← keys_documents ds config]
    exact List.mem_map_of_mem hpf
  · rintro ⟨f, hf, hn⟩
    rw [← keys_documents ds config] at hn
    obtain ⟨p, hp, rfl⟩ := List.mem_map.mp hn
    exact hold.listed f hf p hp

theorem formatsOf_names (formats : List Format) : formatsOf (formats.map (·.name)) = formats := by
  simp [formatsOf, Function.comp_def, Format.ofName?_name]

theorem render_names {ds : List Descriptor} (h : ds ≠ []) (config : RenderConfig)
    (formats : List Format) :
    render ds config (formats.map (·.name)) = .ok (renderFormats ds config formats) := by
  rw [render, if_neg (by simpa using h),
    Outcome.mapM_eq_ok_map fun n => (Format.ofName? n).getD .openapi]
  · change Except.ok (renderFormats ds config (formatsOf (formats.map (·.name)))) = _
    rw [formatsOf_names]
  · intro n hn
    obtain ⟨f, -, rfl⟩ := List.mem_map.mp hn
    rw [Format.ofName?_name]
    rfl

end Bundle

theorem Extraction.descriptors_ne_nil {s : Survey} {r : Result} (h : s.result = .ok r) :
    r.descriptors ≠ [] := by
  have hfound : s.found ≠ [] := by
    intro he
    rw [Survey.result, he] at h
    split at h
    · cases h
    · split at h <;> cases h
  rw [descriptors_of_result h]
  intro he
  have hlen := OperationId.length_assign s.found
  rw [he] at hlen
  exact hfound (List.eq_nil_of_length_eq_zero hlen.symm)

namespace Publication
open FileSystem FileAction

/-- The documents stand in the output, and nothing is different but what this takes. -/
structure Delivered (documents : Bundle.Documents) (output : Path) (here : List String)
    (fs after : FileSystem) : Prop where
  place : after.resolve output = .ok here
  dir : after.kind? here = some .dir
  written : ∀ t ∈ documents, after.data? (here ++ [t.1]) = some (dataOf t.2)
  others : ∀ ns, (∀ t ∈ documents, ns ≠ here ++ [t.1]) → after.data? ns = fs.data? ns
  kept : ∀ ns, fs.kind? ns = some .dir → after.kind? ns = some .dir
  made : ∀ ns, after.kind? ns = some .dir →
    fs.kind? ns = some .dir ∨ fs.kind? ns = none ∧ OnWay after output ns
  unstaged : after.isDir (stagingPath (makeDirs output.parent fs).2 output) = false

theorem delivered_of_publish {documents : Bundle.Documents} {output : Path}
    {fs after : FileSystem} (hp : Proper documents)
    (h : publish documents output fs = (.ok (), after)) :
    ∃ here, Delivered documents output here fs after := by
  obtain ⟨r, fs', hrun, hcases⟩ := publish_trace hp output fs
  rw [h] at hrun
  cases hrun
  rcases hcases with ⟨hstop, -⟩ |
    ⟨here, moved, mid, hgrow, hkeep, hway, hgone, hmoved, ho, hd, hreach⟩
  · exact absurd rfl hstop.1
  · cases hreach with
    | all he =>
      subst he
      refine ⟨here, ho, hd, ?_, ?_, hkeep.dirs, ?_, hgone⟩
      · intro t ht
        rw [FileSystem.data?, hmoved.placed t ht]
      · exact fun ns hns => hmoved.data? hgrow hns
      · intro ns hns
        -- A directory is none of the documents, so the moves have not touched it.
        have hmid : mid ns = some .dir := by
          rw [← hmoved.other ns, hns]
          rintro t ht rfl
          rw [hmoved.placed t ht] at hns
          cases hns
        cases hk : fs.kind? ns with
        | none => exact .inr ⟨rfl, hway ns hk hmid⟩
        | some k =>
          rw [hgrow.kept ns k hk] at hmid
          exact .inl hmid

end Publication

namespace Command
open Publication
variable {fs : FileSystem} {now : String} {args : List String} {g : Generation}

theorem eq_ok_of_toOption {ε α : Type} {x : Except ε α} {a : α} (h : x.toOption = some a) :
    x = .ok a := by
  cases x with
  | error e => cases h
  | ok b => rw [Option.some.inj h]

theorem exists_of_prepared {documents : Bundle.Documents}
    (h : prepared? now g fs = some documents) :
    ∃ config files result, settings fs now g = .ok config ∧
      RouteFiles.find fs g.project g.pattern = .ok files ∧
      (Extraction.survey fs (files.map (·.toString))).result = .ok result ∧
      documents = (Bundle.renderFormats result.descriptors config g.formats).1 := by
  simp only [prepared?, Option.bind_eq_bind, Option.bind_eq_some_iff] at h
  obtain ⟨config, hc, files, hf, result, hr, reports, -, h⟩ := h
  exact ⟨config, files, result, eq_ok_of_toOption hc, eq_ok_of_toOption hf, eq_ok_of_toOption hr,
    (Option.some.inj h).symm⟩

theorem publish_of_exitCode (hg : generation? fs args = some g)
    (h : (run now args fs).exitCode = 0) :
    ∃ documents, prepared? now g fs = some documents ∧
      Publication.publish documents g.output fs = (.ok (), (run now args fs).session.files) := by
  obtain ⟨r, hend, hhalt⟩ := run_generates now hg
  rw [Outcome.exitCode, hhalt] at h
  generalize (run now args fs).session.files = after at hend
  cases hend with
  | early e hd he => exact absurd h he.1
  | failed documents e after hd hp => simp [haltOf, Halt.exitCode] at h
  | done documents after hd hp => exact ⟨documents, hd, hp⟩

theorem exitCode_of_publish (now : String) {documents : Bundle.Documents} {after : FileSystem}
    (hg : generation? fs args = some g) (hd : prepared? now g fs = some documents)
    (hp : Publication.publish documents g.output fs = (.ok (), after)) :
    (run now args fs).exitCode = 0 := by
  rw [Outcome.exitCode, (run_publishes now hg hd hp).2]
  rfl

/-- A generation that succeeds puts the documents of the routes it finds into its output, one for
each file name of its formats, and leaves all else as it was. -/
theorem documents_are_delivered (now : String) (args : List String) (fs : FileSystem)
    (g : Generation) (hg : generation? fs args = some g)
    (h : (run now args fs).exitCode = 0) :
    ∃ config files result documents records here,
      settings fs now g = .ok config ∧
      RouteFiles.find fs g.project g.pattern = .ok files ∧
      (Extraction.survey fs (files.map (·.toString))).result = .ok result ∧
      Bundle.render result.descriptors config (g.formats.map (·.name)) =
        .ok (documents, records) ∧
      (∀ name, name ∈ Pairs.keys documents ↔ ∃ f ∈ g.formats, name ∈ f.fileNames) ∧
      Delivered documents g.output here fs (run now args fs).session.files := by
  obtain ⟨documents, hd, hp⟩ := publish_of_exitCode hg h
  obtain ⟨here, hdeliver⟩ := delivered_of_publish (proper_of_prepared hd) hp
  obtain ⟨config, files, result, hc, hf, hr, rfl⟩ := exists_of_prepared hd
  refine ⟨config, files, result, _, _, here, hc, hf, hr,
    Bundle.render_names (Extraction.descriptors_ne_nil hr) config g.formats, ?_, hdeliver⟩
  exact fun name => Bundle.mem_keys_renderFormats

/-- A project with one route, with an output inside of it that holds an old document and a file of
another kind. -/
def staleFiles : FileSystem :=
  ⟨.dir [("p", .dir [("a.js", .file routeText),
    ("docs", .dir [("openapi.json", .file [65]), ("notes", .file [66])])])], []⟩

def staleArgs : List String :=
  ["generate", "p", "--pattern", "a.js", "-f", "openapi", "-o", "p/docs"]

def staleGeneration : Generation :=
  { project := ⟨"", ["p"]⟩, output := ⟨"", ["p", "docs"]⟩, pattern := "a.js",
    formats := [.openapi] }

theorem documents_are_delivered_stale :
    (run "" staleArgs staleFiles).exitCode = 0 ∧
    ∃ config files result documents records here,
      settings staleFiles "" staleGeneration = .ok config ∧
      RouteFiles.find staleFiles staleGeneration.project staleGeneration.pattern = .ok files ∧
      (Extraction.survey staleFiles (files.map (·.toString))).result = .ok result ∧
      Bundle.render result.descriptors config ["openapi"] = .ok (documents, records) ∧
      (∀ name, name ∈ Pairs.keys documents ↔
        ∃ f ∈ staleGeneration.formats, name ∈ f.fileNames) ∧
      Delivered documents staleGeneration.output here staleFiles
        (run "" staleArgs staleFiles).session.files := by
  have hg : generation? staleFiles staleArgs = some staleGeneration := by decide +kernel
  have hdocs : prepared? "" staleGeneration staleFiles = _ :=
    prepared?_rootRoute rfl (by decide +kernel) (by decide +kernel) rfl
  have hpublish : (Publication.publish (Bundle.renderFormats [rootRoute] {} [.openapi]).1
      staleGeneration.output staleFiles).1 = .ok () := by decide +kernel
  have hexit := exitCode_of_publish "" hg hdocs (Prod.ext hpublish rfl)
  exact ⟨hexit, documents_are_delivered "" staleArgs staleFiles staleGeneration hg hexit⟩

end Command

end RouteBook

import RouteBook.Command.Program
import RouteBook.Proofs.Agreement
import RouteBook.Proofs.Bundle
import RouteBook.Proofs.Extraction
import RouteBook.Proofs.Publication

/-! What a run of the program leaves of the files. All that it reads comes from the files as they
were, and only the publication of the documents changes them. -/
namespace RouteBook.Command
open Run Publication
variable {fs fs' : FileSystem} {now : String} {args : List String} {g : Generation}
  {level : LogLevel} {α β ε : Type}

structure Ends (act : Run α) (fs : FileSystem) (post : Except Halt α → FileSystem → Prop) :
    Prop where
  out : ∀ s, s.files = fs → post (act s).1 (act s).2.files

theorem Ends.bind {act : Run α} {next : α → Run β} {mid : Except Halt α → FileSystem → Prop}
    {post : Except Halt β → FileSystem → Prop} (h : Ends act fs mid)
    (hok : ∀ a fs', mid (.ok a) fs' → Ends (next a) fs' post)
    (herr : ∀ e fs', mid (.error e) fs' → post (.error e) fs') :
    Ends (act >>= next) fs post := by
  constructor
  intro s hs
  have hmid := h.out s hs
  change post (ExceptT.bindCont next (act s).1 (act s).2).1
    (ExceptT.bindCont next (act s).1 (act s).2).2.files
  cases hr : (act s).1 with
  | ok a =>
    rw [hr] at hmid
    exact (hok a _ hmid).out _ rfl
  | error e =>
    rw [hr] at hmid
    exact herr e _ hmid

/-- An action that only tells something. -/
def Tells (act : Run Unit) : Prop :=
  ∀ fs, Ends act fs fun r fs' => r = .ok () ∧ fs' = fs

theorem tells_print (line : String) : Tells (print line) := fun _ => ⟨fun _ hs => ⟨rfl, hs⟩⟩

theorem tells_printError (line : String) : Tells (printError line) :=
  fun _ => ⟨fun _ hs => ⟨rfl, hs⟩⟩

theorem tells_log (level : LogLevel) (records : List LogRecord) : Tells (log level records) :=
  fun _ => ⟨fun _ hs => ⟨rfl, hs⟩⟩

theorem Tells.bind {act : Run Unit} {next : Unit → Run α}
    {post : Except Halt α → FileSystem → Prop} (h : Tells act) (hn : Ends (next ()) fs post) :
    Ends (act >>= next) fs post := by
  apply (h fs).bind
  · rintro a fs' ⟨-, rfl⟩
    exact hn
  · rintro e fs' ⟨he, -⟩
    cases he

theorem Tells.then {act next : Run Unit} (h : Tells act) (hn : Tells next) :
    Tells (act >>= fun _ => next) := fun fs => h.bind (hn fs)

theorem tells_forM {f : α → Run Unit} (h : ∀ a, Tells (f a)) (items : List α) :
    Tells (items.forM f) := by
  induction items with
  | nil => exact fun _ => ⟨fun _ hs => ⟨rfl, hs⟩⟩
  | cons a items ih => exact (h a).then ih

theorem ends_get {next : Session → Run α} {post : Except Halt α → FileSystem → Prop}
    (h : ∀ s, s.files = fs → Ends (next s) fs post) : Ends (get >>= next) fs post :=
  ⟨fun s hs => (h s hs).out s hs⟩

theorem ends_ofExcept {halt : ε → Halt} {x : Except ε α} {next : α → Run β}
    {post : Except Halt β → FileSystem → Prop} (hok : ∀ a, x = .ok a → Ends (next a) fs post)
    (herr : ∀ e, x = .error e → post (.error (halt e)) fs) :
    Ends (ofExcept halt x >>= next) fs post := by
  constructor
  intro s hs
  cases hx : x with
  | ok a => exact (hok a hx).out s hs
  | error e => exact hs ▸ herr e hx

/-- The documents that a generation puts into its output, where it comes so far. -/
def prepared? (now : String) (g : Generation) (fs : FileSystem) : Option Bundle.Documents := do
  let config ← (settings fs now g).toOption
  let files ← (RouteFiles.find fs g.project g.pattern).toOption
  let result ← (Extraction.survey fs (files.map (·.toString))).result.toOption
  let documents := (Bundle.renderFormats result.descriptors config g.formats).1
  let _ ← (Check.documents documents).toOption
  return documents

theorem prepared?_eq_some {config : RenderConfig} {files : List Path}
    {result : Extraction.Result} {reports : Check.Files} (hc : settings fs now g = .ok config)
    (hf : RouteFiles.find fs g.project g.pattern = .ok files)
    (hr : (Extraction.survey fs (files.map (·.toString))).result = .ok result)
    (hk : Check.documents (Bundle.renderFormats result.descriptors config g.formats).1 =
      .ok reports) :
    prepared? now g fs = some (Bundle.renderFormats result.descriptors config g.formats).1 := by
  simp [prepared?, hc, hf, hr, hk, Except.toOption]

def Halt.IsEarly (e : Halt) : Prop := e.exitCode ≠ 0 ∧ e ≠ .file .isDirectory

inductive Extracted (project : Path) (pattern : String) (fs : FileSystem) :
    Except Halt (List Path × List Descriptor) → FileSystem → Prop where
  | unfound (e : GlobError) : RouteFiles.find fs project pattern = .error e →
      Extracted project pattern fs (.error (.glob e)) fs
  | failed (files : List Path) (e : Extraction.Failure) :
      RouteFiles.find fs project pattern = .ok files →
      (Extraction.survey fs (files.map (·.toString))).result = .error e →
      Extracted project pattern fs (.error (.extraction e)) fs
  | done (files : List Path) (result : Extraction.Result) :
      RouteFiles.find fs project pattern = .ok files →
      (Extraction.survey fs (files.map (·.toString))).result = .ok result →
      Extracted project pattern fs (.ok (files, result.descriptors)) fs

theorem extract_ends (level : LogLevel) (project : Path) (pattern : String) (fs : FileSystem) :
    Ends (extract level project pattern) fs (Extracted project pattern fs) := by
  apply ends_get
  rintro s rfl
  apply ends_ofExcept
  · intro files hf
    apply (tells_log level _).bind
    apply ends_ofExcept
    · intro result hr
      apply (tells_forM (fun w => tells_printError _) _).bind
      constructor
      intro s' hs'
      rw [← hs'] at hf hr ⊢
      exact .done files result hf hr
    · intro e he
      exact .failed files e hf he
  · intro e he
    exact .unfound e he

/-- How a generation may end: with nothing done, or as the publication of its documents does. -/
inductive Generated (now : String) (g : Generation) (fs : FileSystem) :
    Except Halt Unit → FileSystem → Prop where
  | early (e : Halt) : prepared? now g fs = none → e.IsEarly → Generated now g fs (.error e) fs
  | failed (documents : Bundle.Documents) (e : FileError) (fs' : FileSystem) :
      prepared? now g fs = some documents →
      Publication.publish documents g.output fs = (.error e, fs') →
      Generated now g fs (.error (.file e)) fs'
  | done (documents : Bundle.Documents) (fs' : FileSystem) :
      prepared? now g fs = some documents →
      Publication.publish documents g.output fs = (.ok (), fs') →
      Generated now g fs (.ok ()) fs'

theorem publish_ends {documents : Bundle.Documents} (hd : prepared? now g fs = some documents) :
    Ends (publish documents g.output) fs (Generated now g fs) := by
  apply ends_get
  rintro s rfl
  cases hp : Publication.publish documents g.output s.files with
  | mk p fs' =>
    have hrun : (Publication.publish documents g.output).run s.files = (p, fs') := hp
    rw [hrun]
    constructor
    intro s' hs'
    cases p with
    | error e => exact .failed documents e fs' hd hp
    | ok u =>
      obtain ⟨hr, hf⟩ := (tells_forM (fun p : Path => tells_print ("  Created " ++ p.toString))
        (Publication.paths documents g.output) fs').out { s' with files := fs' } rfl
      change Generated now g s.files
        ((Publication.paths documents g.output).forM (fun p => print ("  Created " ++ p.toString))
          { s' with files := fs' }).1
        ((Publication.paths documents g.output).forM (fun p => print ("  Created " ++ p.toString))
          { s' with files := fs' }).2.files
      rw [hr, hf]
      exact .done documents fs' hd hp

theorem generate_ends (level : LogLevel) (now : String) (g : Generation) (fs : FileSystem) :
    Ends (generate level now g) fs (Generated now g fs) := by
  apply ends_get
  rintro s rfl
  apply ends_ofExcept
  · intro config hc
    apply (tells_print _).bind
    apply (extract_ends level g.project g.pattern s.files).bind
    · intro found fs' hx
      cases hx with
      | done files result hf hr =>
        apply (tells_print _).bind
        apply (tells_print _).bind
        apply (tells_log level _).bind
        apply ends_ofExcept
        · intro reports hreports
          have hdocs := prepared?_eq_some hc hf hr hreports
          apply (tells_forM (fun w => tells_printError _) _).bind
          apply (publish_ends hdocs).bind
          · intro u fs' hp
            have htell := (tells_print "").then ((tells_print "Summary:").then
              ((tells_print ("  Routes found: " ++ toString result.descriptors.length)).then
              ((tells_print ("  Files processed: " ++ toString files.length)).then
              ((tells_print
                ("  Output formats: " ++ ", ".intercalate (g.formats.map (·.name)))).then
              (tells_print ("  Output directory: " ++ g.output.toString))))))
            constructor
            intro s' hs'
            obtain ⟨hr', hf'⟩ := (htell fs').out s' hs'
            rw [← hr', ← hf'] at hp
            exact hp
          · exact fun e fs' hp => hp
        · intro e he
          replace he : Check.documents
            (Bundle.renderFormats result.descriptors config g.formats).1 = .error e := he
          refine .early _ ?_ ⟨by simp [Halt.exitCode], by simp⟩
          simp [prepared?, hc, hf, hr, he, Except.toOption]
    · intro e fs' hx
      cases hx with
      | unfound e he =>
        refine .early _ ?_ ⟨by simp [Halt.exitCode], by simp⟩
        simp [prepared?, hc, he, Except.toOption]
      | failed files e hf he =>
        refine .early _ ?_ ⟨by simp [Halt.exitCode], by simp⟩
        simp [prepared?, hc, hf, he, Except.toOption]
  · intro e he
    refine .early _ ?_ ⟨by simp [Halt.exitCode], by simp⟩
    simp [prepared?, he, Except.toOption]

theorem proper_renderFormats (ds : List Descriptor) (config : RenderConfig)
    (formats : List Bundle.Format) : Proper (Bundle.renderFormats ds config formats).1 := by
  refine ⟨?_, ?_⟩
  · induction formats using List.reverseRecOn with
    | nil => exact List.nodup_nil
    | append_singleton formats f ih =>
      rw [Bundle.renderFormats_concat]
      exact Pairs.nodup_keys_update ih _
  · intro t ht
    obtain ⟨f, -, hm⟩ := (Bundle.holds_renderFormats formats).sound t ht
    cases f <;> simp only [Bundle.documents, List.mem_cons, List.not_mem_nil, or_false] at hm
    · rcases hm with rfl | rfl <;> simp
    · rw [hm]
      simp
    · rw [hm]
      simp

theorem proper_of_prepared {documents : Bundle.Documents}
    (h : prepared? now g fs = some documents) : Proper documents := by
  simp only [prepared?, Option.bind_eq_bind, Option.bind_eq_some_iff] at h
  obtain ⟨config, -, files, -, result, -, reports, -, h⟩ := h
  rw [← Option.some.inj h]
  exact proper_renderFormats result.descriptors config g.formats

def haltOf : Except Halt Unit → Option Halt
  | .ok _ => none
  | .error e => some e

theorem files_close (s : Session) (h : Halt) : (s.close h).files = s.files := by
  unfold Session.close
  split
  · rfl
  · split <;> rfl

theorem run_ends {post : Except Halt Unit → FileSystem → Prop}
    (h : Ends (do perform now (← ofExcept .refused (readRequest fs args))) fs post) :
    ∃ r, post r (run now args fs).session.files ∧ (run now args fs).halt? = haltOf r := by
  have hout := h.out { files := fs } rfl
  rw [run]
  simp only [ExceptT.run]
  generalize (do perform now (← ofExcept .refused (readRequest fs args)) : Run Unit)
    { files := fs } = ending at hout ⊢
  obtain ⟨r, s⟩ := ending
  cases r with
  | ok u => exact ⟨.ok u, hout, rfl⟩
  | error e => exact ⟨.error e, (files_close s e).symm ▸ hout, rfl⟩

theorem listRoutes_ends (level : LogLevel) (project : Path) (pattern : String)
    (fs : FileSystem) : Ends (listRoutes level project pattern) fs fun _ fs' => fs' = fs := by
  apply (extract_ends level project pattern fs).bind
  · intro found fs' hx
    cases hx with
    | done files result hf hr =>
      have htell := tells_forM (fun d : Descriptor =>
        tells_print (padRight 7 d.method.name ++ " " ++ d.path ++ "  " ++ d.file))
        result.descriptors
      exact ⟨fun s hs => ((htell fs).out s hs).2⟩
  · intro e fs' hx
    cases hx with
    | unfound e he => rfl
    | failed files e hf he => rfl

theorem check_openapi {ds : List Descriptor} {config : RenderConfig} (hd : ∀ d ∈ ds, d.Valid)
    (hf : Yaml.fits (OpenApi.build ds config).1 = true) :
    Check.documents (Bundle.renderFormats ds config [.openapi]).1 = .ok [] := by
  obtain ⟨v, hload⟩ := (OpenApi.yaml_loads_iff hd config).mpr hf
  have hfiles : (Bundle.renderFormats ds config [.openapi]).1 =
      [("openapi.json", Json.print (OpenApi.build ds config).1),
        ("openapi.yaml", Yaml.print (OpenApi.build ds config).1)] := rfl
  rw [hfiles]
  have hother : [".json"].any (Check.hasEnding · "openapi.yaml") ≠ true := by decide
  have hjson : Check.json [("openapi.json", Json.print (OpenApi.build ds config).1),
      ("openapi.yaml", Yaml.print (OpenApi.build ds config).1)] = .ok [] := by
    apply Check.reports_eq_nil
    intro p hp he
    simp only [List.mem_cons, List.not_mem_nil, or_false] at hp
    rcases hp with rfl | rfl
    · exact Check.jsonReport?_print (OpenApi.plain_build hd config)
    · exact absurd he hother
  have hjson' : [".yaml", ".yml"].any (Check.hasEnding · "openapi.json") ≠ true := by decide
  have hyaml : Check.yaml [("openapi.json", Json.print (OpenApi.build ds config).1),
      ("openapi.yaml", Yaml.print (OpenApi.build ds config).1)] = .ok [] := by
    apply Check.reports_eq_nil
    intro p hp he
    simp only [List.mem_cons, List.not_mem_nil, or_false] at hp
    rcases hp with rfl | rfl
    · exact absurd he hjson'
    · rw [Check.yamlReport?, hload]
  rw [Check.documents, hjson, hyaml]
  rfl

def generation? (fs : FileSystem) (args : List String) : Option Generation :=
  match readRequest fs args with
  | .ok ⟨_, .generate g⟩ => some g
  | _ => none

theorem run_generates (now : String) (h : generation? fs args = some g) :
    ∃ r, Generated now g fs r (run now args fs).session.files ∧
      (run now args fs).halt? = haltOf r := by
  unfold generation? at h
  split at h
  · next level g' hreq =>
    cases h
    apply run_ends
    rw [hreq]
    exact generate_ends level now g fs
  · cases h

/-- Once its documents are there, a generation ends as their publication does. -/
theorem publish_of_generated {documents : Bundle.Documents} {r : Except Halt Unit}
    (h : Generated now g fs r fs') (hd : prepared? now g fs = some documents) :
    ∃ p, Publication.publish documents g.output fs = (p, fs') ∧ r = p.mapError .file := by
  cases h with
  | early e hd' he =>
    rw [hd] at hd'
    cases hd'
  | failed documents' e fs' hd' hp =>
    rw [hd] at hd'
    cases hd'
    exact ⟨.error e, hp, rfl⟩
  | done documents' fs' hd' hp =>
    rw [hd] at hd'
    cases hd'
    exact ⟨.ok (), hp, rfl⟩

theorem run_publishes (now : String) {documents : Bundle.Documents}
    {p : Except FileError Unit} (hg : generation? fs args = some g)
    (hd : prepared? now g fs = some documents)
    (hp : Publication.publish documents g.output fs = (p, fs')) :
    (run now args fs).session.files = fs' ∧
      (run now args fs).halt? = haltOf (p.mapError .file) := by
  obtain ⟨r, hend, hhalt⟩ := run_generates now hg
  obtain ⟨p', hp', rfl⟩ := publish_of_generated hend hd
  rw [hp] at hp'
  obtain ⟨rfl, hfiles⟩ := Prod.ext_iff.mp hp'
  exact ⟨hfiles.symm, hhalt⟩

theorem run_keeps (now : String) (h : generation? fs args = none) :
    (run now args fs).session.files = fs := by
  have hact : Ends (do perform now (← ofExcept .refused (readRequest fs args))) fs
      fun _ fs' => fs' = fs := by
    apply ends_ofExcept
    · rintro ⟨level, task⟩ hreq
      cases task with
      | list project pattern => exact listRoutes_ends level project pattern fs
      | generate g => simp [generation?, hreq] at h
    · intro e he
      rfl
  obtain ⟨r, hf, -⟩ := run_ends hact
  exact hf

/-- The documents before the first one whose name a directory in the output has. -/
def unblocked (fs : FileSystem) (here : List String) (documents : Bundle.Documents) :
    Bundle.Documents :=
  documents.takeWhile fun t => fs.kind? (here ++ [t.1]) ≠ some .dir

/-- A directory in the output has stopped the moves, and a document that was moved before is not
what was there. -/
def Torn (now : String) (args : List String) (fs : FileSystem) : Prop :=
  (run now args fs).halt? = some (.file .isDirectory) ∧
  ∃ g documents here, generation? fs args = some g ∧ prepared? now g fs = some documents ∧
    (run now args fs).session.files.resolve g.output = .ok here ∧
    ∃ t ∈ unblocked (run now args fs).session.files here documents,
      fs.data? (here ++ [t.1]) ≠ some (dataOf t.2)

theorem unblocked_of_reached {here : List String} {documents moved : Bundle.Documents}
    {mid : List String → Option Kind} (hm : Moved here moved mid fs.kind?)
    (hr : Reached fs.kind? here documents moved (.error .isDirectory)) :
    unblocked fs here documents = moved := by
  cases hr with
  | blocked t left he hk =>
    have hpos : ∀ u ∈ moved, decide (fs.kind? (here ++ [u.1]) ≠ some .dir) = true := by
      intro u hu
      rw [hm.placed u hu]
      simp
    rw [unblocked, he, List.takeWhile_append_of_pos hpos,
      List.takeWhile_cons_of_neg (by simp [hk]), List.append_nil]

/-- A run that fails leaves every file as it was, and adds none, unless it is torn. Failures are
those that follow from the tree and the arguments. -/
theorem failed_run_keeps_files_iff (now : String) (args : List String) (fs : FileSystem)
    (h : (run now args fs).exitCode ≠ 0) :
    (∀ ns, (run now args fs).session.files.data? ns = fs.data? ns) ↔ ¬ Torn now args fs := by
  cases hg : generation? fs args with
  | none =>
    have hf := run_keeps now hg
    refine iff_of_true (fun ns => by rw [hf]) ?_
    rintro ⟨-, g, documents, here, hg', -⟩
    rw [hg] at hg'
    cases hg'
  | some g =>
    obtain ⟨r, hend, hhalt⟩ := run_generates now hg
    generalize hrun : run now args fs = o at hend hhalt h
    cases hend with
    | done documents fs' hd hp => simp [Outcome.exitCode, hhalt, haltOf] at h
    | early e hd he =>
      refine iff_of_true (fun ns => rfl) ?_
      rintro ⟨hh, -⟩
      rw [hrun, hhalt] at hh
      exact he.2 (Option.some.inj hh)
    | failed documents e fs' hd hp =>
      obtain ⟨r, fs'', hp', hcases⟩ := publish_spec (proper_of_prepared hd) g.output fs
      rw [hp] at hp'
      cases hp'
      rcases hcases with ⟨hstop, hgrow⟩ | ⟨here, moved, mid, hgrow, hmoved, ho, -, hreach⟩
      · refine iff_of_true (fun ns => hgrow.data?) ?_
        rintro ⟨hh, -⟩
        rw [hrun, hhalt] at hh
        cases hh
        exact hstop.2 rfl
      · have he : e = .isDirectory := by
          cases hreach
          rfl
        subst he
        have hmoves := unblocked_of_reached hmoved hreach
        constructor
        · rintro hsame ⟨-, g', documents', here', hg', hd', ho', t, ht, hne⟩
          rw [hg] at hg'
          cases hg'
          rw [hd] at hd'
          cases hd'
          rw [hrun, ho] at ho'
          cases ho'
          rw [hrun, hmoves] at ht
          apply hne
          rw [← hsame, FileSystem.data?, hmoved.placed t ht]
        · intro hnot ns
          by_cases hns : ∃ t ∈ moved, ns = here ++ [t.1]
          · obtain ⟨t, ht, rfl⟩ := hns
            rw [FileSystem.data?, hmoved.placed t ht]
            by_contra hne
            refine hnot ⟨by rw [hrun, hhalt]; rfl, g, documents, here, hg, hd, by rw [hrun, ho], t,
              ?_, Ne.symm hne⟩
            rwa [hrun, hmoves]
          · exact hmoved.data? hgrow fun t ht he => hns ⟨t, ht, he⟩

/-- A project without route files, and a document of an earlier run. -/
def idleFiles : FileSystem :=
  ⟨.dir [("p", .dir []), ("api-docs", .dir [("API.md", .file [65])])], []⟩

theorem failed_run_keeps_files_iff_idle :
    (run "" ["generate", "p"] idleFiles).exitCode ≠ 0 ∧
    ∀ ns, (run "" ["generate", "p"] idleFiles).session.files.data? ns = idleFiles.data? ns := by
  have hhalt : (run "" ["generate", "p"] idleFiles).halt? = some (.extraction .noFiles) := by
    decide +kernel
  have hexit : (run "" ["generate", "p"] idleFiles).exitCode ≠ 0 := by
    rw [Outcome.exitCode, hhalt]
    decide
  refine ⟨hexit, (failed_run_keeps_files_iff "" ["generate", "p"] idleFiles hexit).mpr ?_⟩
  rintro ⟨hh, -⟩
  rw [hhalt] at hh
  cases hh

/-- The bytes of `a.get('/')`. -/
def routeText : List UInt8 := [97, 46, 103, 101, 116, 40, 39, 47, 39, 41]

/-- A project with one route, and a directory in the way of its second document. -/
def blockedFiles : FileSystem :=
  ⟨.dir [("p", .dir [("a.js", .file routeText)]),
    ("api-docs", .dir [("openapi.yaml", .dir [])])], []⟩

def blockedArgs : List String := ["generate", "p", "--pattern", "a.js", "-f", "openapi"]

def blockedGeneration : Generation :=
  { project := ⟨"", ["p"]⟩, pattern := "a.js", formats := [.openapi] }

theorem generation?_blocked : generation? blockedFiles blockedArgs = some blockedGeneration := by
  decide +kernel

def rootRoute : Descriptor :=
  { method := .get, path := "/", summary := "GET /", responses := Endpoint.defaultResponses,
    operationId := "get_", file := "p/a.js", position := 0 }

theorem fromSource_routeText :
    Extraction.fromSource routeText "p/a.js" = .ok [rootRoute] := by
  have hp : ((Extraction.parse routeText "p/a.js").toOption.map fun t =>
      ((RouteCalls.find "p/a.js" t).toOption, RouteCalls.docs t)) =
      some (some [⟨.get, "/", [], 0, "p/a.js"⟩], []) := by decide +kernel
  cases ht : Extraction.parse routeText "p/a.js" with
  | error e => simp [ht, Except.toOption] at hp
  | ok t =>
    cases hf : RouteCalls.find "p/a.js" t with
    | error e => simp [ht, hf, Except.toOption] at hp
    | ok routes =>
      obtain ⟨rfl, hd⟩ : routes = [⟨.get, "/", [], 0, "p/a.js"⟩] ∧ RouteCalls.docs t = [] := by
        simpa [ht, hf, Except.toOption] using hp
      rw [Extraction.fromSource_of_find ht hf, hd]
      decide +kernel

theorem rootRoute_valid : rootRoute.Valid := ⟨by decide, by decide, by decide⟩

theorem prepared?_rootRoute (hset : settings fs now g = .ok {})
    (hfind : RouteFiles.find fs g.project g.pattern = .ok [⟨"", ["p", "a.js"]⟩])
    (hread : fs.read (Path.ofString "p/a.js") = .ok routeText) (hf : g.formats = [.openapi]) :
    prepared? now g fs = some (Bundle.renderFormats [rootRoute] {} [.openapi]).1 := by
  have hpath : ([⟨"", ["p", "a.js"]⟩] : List Path).map (·.toString) = ["p/a.js"] := by
    decide +kernel
  have hassign : OperationId.assign [rootRoute] = [rootRoute] := by decide
  have hsurvey : (Extraction.survey fs (([⟨"", ["p", "a.js"]⟩] : List Path).map
      (·.toString))).result = .ok ⟨[rootRoute], []⟩ := by
    rw [hpath, Extraction.result_of_read hread fromSource_routeText (List.cons_ne_nil _ _),
      hassign]
  have hcheck : Check.documents (Bundle.renderFormats [rootRoute] {} g.formats).1 = .ok [] := by
    rw [hf]
    exact check_openapi (by simp [rootRoute_valid]) (by decide +kernel)
  rw [prepared?_eq_some hset hfind hsurvey hcheck, hf]

theorem prepared?_blocked (now : String) : prepared? now blockedGeneration blockedFiles =
    some (Bundle.renderFormats [rootRoute] {} [.openapi]).1 :=
  prepared?_rootRoute rfl (by decide +kernel) (by decide +kernel) rfl

/-- A run that fails with a directory in the way has put the document before it into the output. -/
theorem blocked_run_adds_file :
    (run "" blockedArgs blockedFiles).exitCode = 1 ∧
    blockedFiles.data? ["api-docs", "openapi.json"] = none ∧
    (run "" blockedArgs blockedFiles).session.files.data? ["api-docs", "openapi.json"] ≠ none := by
  have hblocked : (Publication.publish (Bundle.renderFormats [rootRoute] {} [.openapi]).1
      ⟨"", ["api-docs"]⟩ blockedFiles).1 = .error .isDirectory := by decide +kernel
  have hadded : ((Publication.publish (Bundle.renderFormats [rootRoute] {} [.openapi]).1
      ⟨"", ["api-docs"]⟩ blockedFiles).2.data? ["api-docs", "openapi.json"]).isSome = true := by
    decide +kernel
  obtain ⟨hfiles, hhalt⟩ := run_publishes "" generation?_blocked (prepared?_blocked "")
    (Prod.ext hblocked rfl)
  refine ⟨?_, by decide +kernel, ?_⟩
  · rw [Outcome.exitCode, hhalt]
    rfl
  · rw [hfiles]
    exact Option.isSome_iff_ne_none.mp hadded

end RouteBook.Command

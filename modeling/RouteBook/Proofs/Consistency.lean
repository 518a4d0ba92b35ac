import RouteBook.Proofs.Encoding
import RouteBook.Proofs.Markdown

/-! The headings of a bundle's Markdown document, compared with the operations of its API
document: only a line feed in a path separates them. -/
namespace RouteBook.Check

/-- A method and a path as headings and reports show them. -/
def title (method path : String) : String := method ++ " " ++ path

theorem upper_key (m : Method) : Text.upper m.key = m.name := by
  cases m <;> rfl

theorem name_not_blank (m : Method) : ∀ c ∈ m.name.toList, Text.isBlank c = false := by
  have h : m.name.toList.all (!Text.isBlank ·) = true := by cases m <;> decide
  simpa using h

theorem name_ne_empty (m : Method) : m.name ≠ "" := by
  cases m <;> decide

theorem heading?_heading {d : Descriptor} (hp : d.path ≠ "") :
    heading? (Markdown.heading d).toList = some (title d.method.name d.path) := by
  have htext : (title d.method.name d.path).toList =
      d.method.name.toList ++ ' ' :: d.path.toList := by
    simp [title]
  have hline : (Markdown.heading d).toList =
      '#' :: '#' :: '#' :: '#' :: ' ' :: (title d.method.name d.path).toList := by
    simp [Markdown.heading, title]
  have hword : (title d.method.name d.path).toList.takeWhile (!Text.isBlank ·) =
      d.method.name.toList := by
    rw [htext, List.takeWhile_append_of_pos (by simpa using name_not_blank d.method)]
    simp [Text.isBlank, Text.inRanges, Text.blankRanges]
  have hne : d.path.toList ≠ [] := fun h => hp (String.toList_eq_nil_iff.mp h)
  obtain ⟨c, rest, hc⟩ := List.exists_cons_of_ne_nil hne
  have hdrop : (title d.method.name d.path).toList.drop d.method.name.toList.length =
      ' ' :: c :: rest := by
    rw [htext, List.drop_left, hc]
  simp only [hline, heading?, hword, hdrop]
  simp [name_ne_empty]

theorem suffix_of_heading? {line : List Char} {text : String} (h : heading? line = some text) :
    text.toList <:+ line := by
  unfold heading? at h
  split at h
  · rename_i rest
    dsimp only at h
    split at h
    · split at h
      · cases h
      · rw [← Option.some.inj h, String.toList_ofList]
        exact ⟨['#', '#', '#', '#', ' '], rfl⟩
    · cases h
  · cases h

theorem no_line_feed_in_headings {page text : String} (h : text ∈ headings page) :
    '\n' ∉ text.toList := by
  obtain ⟨line, hl, ht⟩ := List.mem_filterMap.mp h
  intro hn
  exact Markdown.not_mem_of_mem_splitOn hl ((suffix_of_heading? ht).subset hn)

/-- A route has its heading exactly if its path has no line feed. -/
theorem title_mem_headings_iff {ds : List Descriptor} {d : Descriptor} (hd : d ∈ ds)
    (hp : d.path ≠ "") (config : RenderConfig) :
    title d.method.name d.path ∈ headings (Markdown.render ds config) ↔
      '\n' ∉ d.path.toList := by
  constructor
  · -- A heading lies in one line, so it can show no line feed, whatever the other texts hold.
    intro h hn
    refine no_line_feed_in_headings h ?_
    simp [title, hn]
  · intro hn
    have hname : '\n' ∉ d.method.name.toList := fun h =>
      absurd (name_not_blank d.method _ h) (by decide)
    have hline : '\n' ∉ (Markdown.heading d).toList := by
      simp [Markdown.heading, hn, hname]
    exact List.mem_filterMap.mpr ⟨_, Markdown.mem_lines_of_mem_items
      (Markdown.heading_mem_items config hd) hline, heading?_heading hp⟩

theorem key_mem_methodKeys (m : Method) : m.key ∈ methodKeys := by
  cases m <;> decide

theorem operationNames_object {fields : List (String × Value)} :
    operationNames (OpenApi.object fields) = .ok (Pairs.keys fields) := by
  simp only [operationNames, OpenApi.object, List.filterMap_map]
  exact congrArg _ (congrFun List.filterMap_eq_map' fields)

theorem operations_rows {rows : List (String × List (String × Value))}
    (h : ∀ row ∈ rows, ∀ key ∈ Pairs.keys row.2, key ∈ methodKeys) :
    operations (rows.map fun row => (.str row.1, OpenApi.object row.2)) =
      .ok (rows.flatMap fun row => (Pairs.keys row.2).map fun key =>
        title (Text.upper key) row.1) := by
  induction rows with
  | nil => rfl
  | cons row rows ih =>
    have hmore := ih fun r hr => h r (List.mem_cons_of_mem row hr)
    have hkeys : (Pairs.keys row.2).filter methodKeys.contains = Pairs.keys row.2 :=
      List.filter_eq_self.mpr fun key hk => by simpa using h row (by simp) key hk
    simp only [List.map_cons, operations, operationNames_object, hmore, bind, Except.bind, hkeys]
    rfl

theorem pathsOf_of_field? {fields paths : List (Value × Value)}
    (h : OpenApi.field? "paths" (.map fields) = some (.map paths)) :
    pathsOf (.map fields) = .ok paths := by
  rw [OpenApi.field?, OpenApi.members] at h
  rw [pathsOf, h]

def rowsOf (paths : OpenApi.Paths) : List (String × List (String × Value)) :=
  paths.map fun p => (p.1, p.2.map fun m => (m.1, OpenApi.operation m.2))

theorem pathsOf_build (ds : List Descriptor) (config : RenderConfig) :
    pathsOf (OpenApi.build ds config).1 =
      .ok ((rowsOf (OpenApi.fill ds).paths).map fun row => (.str row.1, OpenApi.object row.2)) := by
  refine (pathsOf_of_field? (OpenApi.field?_paths_build ds config)).trans ?_
  simp [rowsOf]

/-- The operations that are checked are all those of the document. -/
theorem operations_build (ds : List Descriptor) (config : RenderConfig) :
    (pathsOf (OpenApi.build ds config).1 >>= operations) =
      .ok ((OpenApi.operations (OpenApi.build ds config).1).map fun o =>
        title (Text.upper o.method) o.path) := by
  have hkeys : ∀ row ∈ rowsOf (OpenApi.fill ds).paths, ∀ key ∈ Pairs.keys row.2,
      key ∈ methodKeys := by
    intro row hrow key hk
    obtain ⟨p, hp, rfl⟩ := List.mem_map.mp hrow
    simp only [Pairs.keys, List.map_map] at hk
    obtain ⟨m, hm, rfl⟩ := List.mem_map.mp hk
    rw [Function.comp_apply, ← (OpenApi.mem_of_mem_row hp hm).2.2]
    exact key_mem_methodKeys m.2.method
  rw [pathsOf_build, OpenApi.operations_build]
  refine (operations_rows hkeys).trans ?_
  simp [rowsOf, Pairs.keys, List.map_flatMap, List.flatMap_map, Function.comp_def]

/-- The titles of the operations that a Markdown document cannot have headings for. -/
def brokenTitles (doc : Value) : List String :=
  ((OpenApi.operations doc).filter fun o => o.path.toList.contains '\n').map fun o =>
    title (Text.upper o.method) o.path

theorem missing_eq {ds : List Descriptor} (hd : ∀ d ∈ ds, d.Valid) (config : RenderConfig) :
    ((OpenApi.operations (OpenApi.build ds config).1).map fun o =>
        title (Text.upper o.method) o.path).filter
      (!(headings (Markdown.render ds config)).contains ·) =
      brokenTitles (OpenApi.build ds config).1 := by
  rw [List.filter_map, brokenTitles]
  refine congrArg _ (List.filter_congr fun o ho => ?_)
  obtain ⟨d, hds, hp, hm⟩ := (OpenApi.exists_operation_iff ds config o.path o.method).mp
    ⟨o, ho, rfl, rfl⟩
  have h := title_mem_headings_iff hds (hd d hds).path config
  rw [Function.comp_apply, ← hp, ← hm, upper_key]
  by_cases hn : '\n' ∈ d.path.toList
  · simp [hn, h]
  · simp [hn, h]

theorem consistency_eq {ds : List Descriptor} (hd : ∀ d ∈ ds, d.Valid) {config : RenderConfig}
    {files : Files}
    (hapi : Pairs.get? "openapi.json" files = some (Json.print (OpenApi.build ds config).1))
    (hpage : Pairs.get? "API.md" files = some (Markdown.render ds config)) :
    consistency files = .ok (if (brokenTitles (OpenApi.build ds config).1).isEmpty then []
      else [("API.md", "missing sections for " ++
        ", ".intercalate (brokenTitles (OpenApi.build ds config).1))]) := by
  have hops := operations_build ds config
  rw [pathsOf_build] at hops
  simp only [consistency, hapi, hpage, Json.parse_print (OpenApi.plain_build hd config),
    pathsOf_build, bind, Except.bind] at hops ⊢
  rw [hops]
  simp only [missing_eq hd config]
  rfl

theorem brokenTitles_eq_nil_iff (ds : List Descriptor) (config : RenderConfig) :
    brokenTitles (OpenApi.build ds config).1 = [] ↔ ∀ d ∈ ds, '\n' ∉ d.path.toList := by
  have hops := OpenApi.exists_operation_iff ds config
  simp only [brokenTitles, List.map_eq_nil_iff, List.filter_eq_nil_iff, List.contains_iff_mem]
  constructor
  · intro h d hd
    obtain ⟨o, ho, hp, -⟩ := (hops d.path d.method.key).mpr ⟨d, hd, rfl, rfl⟩
    exact hp ▸ h o ho
  · intro h o ho
    obtain ⟨d, hd, hp, -⟩ := (hops o.path o.method).mp ⟨o, ho, rfl, rfl⟩
    exact hp ▸ h d hd

/-- A bundle with an API document and a Markdown document is found consistent exactly if no path
has a line feed; else the operations with such paths, and no others, are reported in their
order. -/
theorem cross_check_is_exact (ds : List Descriptor) (hne : ds ≠ []) (hd : ∀ d ∈ ds, d.Valid)
    (config : RenderConfig) (names : List String)
    (hn : ∀ n ∈ names, n ∈ Bundle.Format.all.map Bundle.Format.name)
    (hopenapi : "openapi" ∈ names) (hmarkdown : "markdown" ∈ names) :
    ∃ files logs, Bundle.render ds config names = .ok (files, logs) ∧
      ((∀ d ∈ ds, '\n' ∉ d.path.toList) → consistency files = .ok []) ∧
      ((∃ d ∈ ds, '\n' ∈ d.path.toList) → consistency files =
        .ok [("API.md", "missing sections for " ++
          ", ".intercalate (brokenTitles (OpenApi.build ds config).1))]) := by
  obtain ⟨files, logs, hrender, hfiles⟩ := Bundle.exists_bundle hne config hn
  have hapi : Pairs.get? "openapi.json" files = some (Json.print (OpenApi.build ds config).1) :=
    hfiles.get? (f := .openapi) (Bundle.mem_formatsOf hopenapi) List.mem_cons_self
  have hpage : Pairs.get? "API.md" files = some (Markdown.render ds config) :=
    hfiles.get? (f := .markdown) (Bundle.mem_formatsOf hmarkdown) List.mem_cons_self
  have hnil := brokenTitles_eq_nil_iff ds config
  refine ⟨files, logs, hrender, ?_, ?_⟩
  · intro hnone
    rw [consistency_eq hd hapi hpage, hnil.mpr hnone]
    rfl
  · rintro ⟨d, hds, hlf⟩
    have hsome : brokenTitles (OpenApi.build ds config).1 ≠ [] := fun h => hnil.mp h d hds hlf
    rw [consistency_eq hd hapi hpage, if_neg (by simpa using hsome)]

/-- A route whose path has a line feed. -/
def brokenRoute : Descriptor :=
  { method := .get, path := "/a\nb", summary := "s", responses := [("200", "")],
    operationId := "a" }

/-- A route whose texts look like headings, also like the one of the route before. -/
def disguisedRoute : Descriptor :=
  { method := .put, path := "/c|#### d", summary := "#### GET /a\nb", description := "#### PUT",
    responses := [("200", "")], tags := ["x\n#### GET /a"], operationId := "c" }

theorem cross_check_is_exact_broken :
    (∃ files logs,
      Bundle.render [brokenRoute, disguisedRoute] {} ["markdown", "openapi"] = .ok (files, logs) ∧
      consistency files = .ok [("API.md", "missing sections for GET /a\nb")]) ∧
    ∃ files logs,
      Bundle.render [disguisedRoute] {} ["markdown", "openapi"] = .ok (files, logs) ∧
      consistency files = .ok [] := by
  have hb : brokenRoute.Valid := ⟨by decide, by decide, by decide⟩
  have hc : disguisedRoute.Valid := ⟨by decide, by decide, by decide⟩
  have htitles : brokenTitles (OpenApi.build [brokenRoute, disguisedRoute] {}).1 =
      ["GET /a\nb"] := by
    decide +kernel
  constructor
  · obtain ⟨files, logs, hr, -, hreport⟩ := cross_check_is_exact [brokenRoute, disguisedRoute]
      (by simp) (by simp [hb, hc]) {} ["markdown", "openapi"] (by decide) (by decide) (by decide)
    refine ⟨files, logs, hr, ?_⟩
    rw [hreport ⟨brokenRoute, by simp, by decide⟩, htitles]
    rfl
  · obtain ⟨files, logs, hr, hnone, -⟩ := cross_check_is_exact [disguisedRoute]
      (by simp) (by simp [hc]) {} ["markdown", "openapi"] (by decide) (by decide) (by decide)
    exact ⟨files, logs, hr, hnone (by decide)⟩

end RouteBook.Check

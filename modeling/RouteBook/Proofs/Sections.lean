import Mathlib.Data.List.Perm.Basic
import RouteBook.Proofs.Consistency
import RouteBook.Proofs.Html.Headings

/-! The endpoints that the documents of one list of routes show, and the sections they show them
in: the hypertext page against the API document, and against the Markdown document. -/
namespace RouteBook

namespace Html

def endpointOf (title : String) : String × String :=
  (String.ofList (title.toList.takeWhile (· != ' ')),
   String.ofList ((title.toList.dropWhile (· != ' ')).drop 1))

def endpoints (page : String) : List (String × String) :=
  ((headings page).filter (·.1 = .route)).map fun h => endpointOf h.2

theorem endpointOf_titleOf (d : Descriptor) :
    endpointOf (titleOf d) = (d.method.name, d.path) := by
  have hname : ∀ c ∈ d.method.name.toList, (c != ' ') = true := by
    have h : d.method.name.toList.all (· != ' ') = true := by cases d.method <;> decide
    exact List.all_eq_true.mp h
  have htitle : (titleOf d).toList = d.method.name.toList ++ ' ' :: d.path.toList := by
    simp [titleOf]
  rw [endpointOf, htitle, List.takeWhile_append_of_pos hname, List.dropWhile_append_of_pos hname]
  simp

theorem endpoints_render (ds : List Descriptor) (config : RenderConfig) :
    endpoints (render ds config) =
      ((Grouping.byTag ds).flatMap Prod.snd).map fun d => (d.method.name, d.path) := by
  have hgroup : ∀ g : String × List Descriptor,
      ((groupHeadings g).filter (·.1 = .route)).map (fun h => endpointOf h.2) =
        g.2.map fun d => (d.method.name, d.path) := by
    intro g
    simp [groupHeadings, endpointOf_titleOf, Function.comp_def, List.filter_map]
  rw [endpoints, headings_render, List.filter_flatMap, List.map_flatMap, List.map_flatMap]
  simp [hgroup]

end Html

namespace OpenApi

def endpoints (doc : Value) : List (String × String) :=
  (operations doc).map fun o => (Text.upper o.method, o.path)

theorem mem_endpoints_build {ds : List Descriptor} {config : RenderConfig}
    {e : String × String} :
    e ∈ endpoints (build ds config).1 ↔ e ∈ ds.map fun d => (d.method.name, d.path) := by
  have h := exists_operation_iff ds config
  simp only [endpoints, List.mem_map]
  constructor
  · rintro ⟨o, ho, rfl⟩
    obtain ⟨d, hd, hp, hm⟩ := (h o.path o.method).mp ⟨o, ho, rfl, rfl⟩
    exact ⟨d, hd, by rw [← hm, Check.upper_key, hp]⟩
  · rintro ⟨d, hd, rfl⟩
    obtain ⟨o, ho, hp, hm⟩ := (h d.path d.method.key).mpr ⟨d, hd, rfl, rfl⟩
    exact ⟨o, ho, by rw [hm, Check.upper_key, hp]⟩

end OpenApi

namespace Grouping

theorem length_tagsOf (d : Descriptor) : (tagsOf d).length = max 1 d.tags.length := by
  unfold tagsOf
  cases d.tags with
  | nil => rfl
  | cons tag tags => simp

theorem length_listed (ds : List Descriptor) :
    ((byTag ds).flatMap Prod.snd).length = (ds.map fun d => max 1 d.tags.length).sum := by
  rw [(byTag_perm ds).length_eq, List.length_flatMap]
  simp [listings, length_tagsOf]

theorem mem_listed {ds : List Descriptor} {d : Descriptor} :
    d ∈ (byTag ds).flatMap Prod.snd ↔ d ∈ ds := by
  rw [(byTag_perm ds).mem_iff, List.mem_flatMap]
  constructor
  · rintro ⟨x, hx, hd⟩
    obtain ⟨_, -, rfl⟩ := List.mem_map.mp hd
    exact hx
  · exact fun hd => ⟨d, hd, mem_listings d⟩

theorem exists_tag {ds : List Descriptor} {g : String × List Descriptor} (h : g ∈ byTag ds) :
    ∃ d ∈ ds, g.1 ∈ tagsOf d := by
  obtain ⟨e, he, htag⟩ := List.mem_map.mp (mem_keys_byTag.mp (List.mem_map_of_mem h))
  rw [taggings_eq, List.mem_flatMap] at he
  obtain ⟨d, hd, he⟩ := he
  obtain ⟨tag, ht, rfl⟩ := List.mem_map.mp he
  exact ⟨d, hd, htag ▸ ht⟩

end Grouping

/-- The API document and the page show the methods and paths of the descriptors and no others, the
page each descriptor once for every tag under which it is listed. -/
theorem documents_show_same_endpoints (ds : List Descriptor) (config : RenderConfig) :
    {e | e ∈ OpenApi.endpoints (OpenApi.build ds config).1} =
      {e | ∃ d ∈ ds, (d.method.name, d.path) = e} ∧
    {e | e ∈ Html.endpoints (Html.render ds config)} =
      {e | ∃ d ∈ ds, (d.method.name, d.path) = e} ∧
    (Html.endpoints (Html.render ds config)).length =
      (ds.map fun d => max 1 d.tags.length).sum := by
  refine ⟨?_, ?_, ?_⟩
  · ext e
    exact OpenApi.mem_endpoints_build.trans List.mem_map
  · ext e
    rw [Set.mem_ofPred_eq, Html.endpoints_render, List.mem_map]
    simp only [Grouping.mem_listed, Set.mem_ofPred_eq]
  · rw [Html.endpoints_render, List.length_map, Grouping.length_listed]

namespace Markdown

/-- Whether a line is a heading of the third or fourth level. -/
def isSection (line : List Char) : Bool :=
  "### ".toList.isPrefixOf line || "#### ".toList.isPrefixOf line

def sectionLines (doc : String) : List (List Char) :=
  (doc.toList.splitOn '\n').filter isSection

/-- The texts of a route that are written as they are. -/
def rawTexts (d : Descriptor) : List String :=
  [d.path, d.summary, d.description] ++ d.tags ++ d.security ++ Pairs.keys d.responses

/-- The texts of the settings that are written as they are. -/
def configTexts (config : RenderConfig) : List String :=
  [config.title, config.version, config.description] ++ config.stamp?.toList ++
  config.servers.flatMap fun s => s.url :: s.description.toList

def sectionLine : Html.Level × String → List Char
  | (.group, s) => "### ".toList ++ s.toList
  | (.route, s) => "#### ".toList ++ s.toList

theorem sectionLine_group (s : String) : sectionLine (.group, s) = "### ".toList ++ s.toList := rfl

theorem sectionLine_route (s : String) : sectionLine (.route, s) = "#### ".toList ++ s.toList := rfl

/-- A text on a line of its own, if the line looks like a heading. -/
def disguised (s : String) : List (List Char) := [s.toList].filter isSection

def sectionItems (items : List String) : List (List Char) :=
  (items.map String.toList).filter isSection

theorem sectionItems_append (xs ys : List String) :
    sectionItems (xs ++ ys) = sectionItems xs ++ sectionItems ys := by
  simp [sectionItems]

theorem sectionItems_flatMap {α : Type} (f : α → List String) (xs : List α) :
    sectionItems (xs.flatMap f) = xs.flatMap fun x => sectionItems (f x) := by
  simp [sectionItems, List.map_flatMap, List.filter_flatMap]

theorem sectionItems_of_first {items : List String}
    (h : ∀ s ∈ items, ∀ rest, s.toList ≠ '#' :: '#' :: '#' :: rest) : sectionItems items = [] := by
  refine List.filter_eq_nil_iff.mpr fun line hl hsec => ?_
  obtain ⟨s, hs, rfl⟩ := List.mem_map.mp hl
  rcases Bool.or_eq_true_iff.mp hsec with hp | hp
  · obtain ⟨rest, hr⟩ := List.isPrefixOf_iff_prefix.mp hp
    exact h s hs (' ' :: rest) hr.symm
  · obtain ⟨rest, hr⟩ := List.isPrefixOf_iff_prefix.mp hp
    exact h s hs ('#' :: ' ' :: rest) hr.symm

theorem sectionItems_paragraph (s : String) : sectionItems (paragraph s) = disguised s := by
  by_cases hs : s = ""
  · subst hs; decide
  · have hnone : [([] : List Char)].filter isSection = [] := by decide
    rw [paragraph, if_neg hs]
    change ([s.toList] ++ [[]]).filter isSection = _
    rw [List.filter_append, hnone, List.append_nil]
    rfl

theorem sectionItems_preamble (config : RenderConfig) :
    sectionItems (preamble config) = disguised config.description := by
  have hfirst : sectionItems ["# " ++ config.title, "", config.description, "",
      "**Version:** " ++ config.version, ""] = disguised config.description := by
    have hbefore : sectionItems ["# " ++ config.title, ""] = [] := sectionItems_of_first (by simp)
    have hafter : sectionItems ["", "**Version:** " ++ config.version, ""] = [] :=
      sectionItems_of_first (by simp)
    change sectionItems (["# " ++ config.title, ""] ++
      ([config.description] ++ ["", "**Version:** " ++ config.version, ""])) = _
    rw [sectionItems_append, sectionItems_append, hbefore, hafter, List.append_nil]
    rfl
  have hservers : sectionItems (if config.servers.isEmpty then []
      else ["## Servers", ""] ++ config.servers.map serverLine ++ [""]) = [] := by
    refine sectionItems_of_first fun s hs rest => ?_
    split at hs
    · simp at hs
    · simp only [List.mem_append, List.mem_cons, List.mem_map, List.not_mem_nil, or_false] at hs
      rcases hs with ((rfl | rfl) | ⟨server, -, rfl⟩) | rfl
      · simp
      · simp
      · simp [serverLine]
      · simp
  have hlast : sectionItems ["## Endpoints", ""] = [] := sectionItems_of_first (by simp)
  simp only [preamble, sectionItems_append, hfirst, hservers, hlast, List.append_nil]
  cases config.stamp? with
  | none => exact List.append_nil _
  | some t =>
    have hstamp : sectionItems ["_Generated: " ++ t ++ "_", ""] = [] :=
      sectionItems_of_first (by simp)
    rw [hstamp, List.append_nil]

def disguisedIn (d : Descriptor) : List (List Char) :=
  disguised d.summary ++ disguised d.description

theorem isSection_sectionLine (h : Html.Level × String) : isSection (sectionLine h) = true := by
  obtain ⟨l, s⟩ := h
  cases l with
  | group => simp [isSection, sectionLine_group]
  | route => simp [isSection, sectionLine_route]

theorem sectionItems_heading {s : String} {h : Html.Level × String}
    (hs : s.toList = sectionLine h) : sectionItems [s, ""] = [sectionLine h] := by
  have hnone : [([] : List Char)].filter isSection = [] := by decide
  change ([s.toList] ++ [[]]).filter isSection = _
  rw [List.filter_append, hnone, List.append_nil, hs, List.filter_singleton,
    isSection_sectionLine]
  rfl

theorem sectionItems_route (d : Descriptor) :
    sectionItems (route d) = sectionLine (.route, Html.titleOf d) :: disguisedIn d := by
  have hheading : sectionItems [heading d, ""] = [sectionLine (.route, Html.titleOf d)] :=
    sectionItems_heading (by simp [heading, sectionLine_route, Html.titleOf])
  have hparams : sectionItems (if d.parameters.isEmpty then []
      else ["**Parameters:**", "", "| Name | Type | Required | Description |",
        "|------|------|----------|-------------|"] ++ d.parameters.map paramRow ++ [""]) = [] := by
    refine sectionItems_of_first fun s hs rest => ?_
    split at hs
    · simp at hs
    · simp only [List.mem_append, List.mem_cons, List.mem_map, List.not_mem_nil, or_false] at hs
      rcases hs with ((rfl | rfl | rfl | rfl) | ⟨p, -, rfl⟩) | rfl
      · simp
      · simp
      · simp
      · simp
      · simp [paramRow]
      · simp
  have hresponses : sectionItems (d.responses.map responseRow) = [] := by
    refine sectionItems_of_first fun s hs rest => ?_
    obtain ⟨r, -, rfl⟩ := List.mem_map.mp hs
    simp [responseRow]
  have hlabel : sectionItems ["**Responses:**", "", "| Status | Description |",
      "|--------|-------------|"] = [] := sectionItems_of_first (by simp)
  have hempty : sectionItems [""] = [] := sectionItems_of_first (by simp)
  have hsecurity : sectionItems (if d.security.isEmpty then []
      else ["**Security:** " ++ ", ".intercalate d.security, ""]) = [] := by
    split
    · rfl
    · exact sectionItems_of_first (by simp)
  have hrule : sectionItems ["---", ""] = [] := sectionItems_of_first (by simp)
  simp only [route, sectionItems_append, hheading, sectionItems_paragraph, hparams, hresponses,
    hlabel, hempty, hsecurity, hrule, List.append_nil]
  rfl

theorem sectionItems_group (g : String × List Descriptor) :
    sectionItems (group g) = sectionLine (.group, g.1) ::
      g.2.flatMap fun d => sectionLine (.route, Html.titleOf d) :: disguisedIn d := by
  have htitle : sectionItems ["### " ++ g.1, ""] = [sectionLine (.group, g.1)] :=
    sectionItems_heading (by simp [sectionLine_group])
  rw [group, sectionItems_append, htitle, sectionItems_flatMap]
  simp only [sectionItems_route]
  rfl

def allDisguised (ds : List Descriptor) (config : RenderConfig) : List (List Char) :=
  disguised config.description ++ ((Grouping.byTag ds).flatMap Prod.snd).flatMap disguisedIn

/-- The headings of the groups and of their routes. -/
def properSections (ds : List Descriptor) : List (List Char) :=
  (Grouping.byTag ds).flatMap fun g =>
    sectionLine (.group, g.1) :: g.2.map fun d => sectionLine (.route, Html.titleOf d)

theorem sectionItems_group_perm (g : String × List Descriptor) :
    (sectionItems (group g)).Perm (g.2.flatMap disguisedIn ++
      (sectionLine (.group, g.1) :: g.2.map fun d => sectionLine (.route, Html.titleOf d))) := by
  have hroutes := List.map_append_flatMap_perm g.2 (fun d => sectionLine (.route, Html.titleOf d))
    disguisedIn
  rw [sectionItems_group]
  exact ((hroutes.symm.trans List.perm_append_comm).cons _).trans List.perm_middle.symm

theorem sectionItems_perm (ds : List Descriptor) (config : RenderConfig) :
    (sectionItems (items ds config)).Perm (allDisguised ds config ++ properSections ds) := by
  rw [items, sectionItems_append, sectionItems_preamble, sectionItems_flatMap, allDisguised,
    List.append_assoc]
  refine List.Perm.append_left _ ?_
  refine (List.Perm.flatMap_left _ fun g _ => sectionItems_group_perm g).trans ?_
  rw [List.flatMap_assoc]
  exact (List.flatMap_append_perm _ _ _).symm

theorem sectionItems_of_undisguised {ds : List Descriptor} {config : RenderConfig}
    (h : allDisguised ds config = []) : sectionItems (items ds config) = properSections ds := by
  obtain ⟨hdescription, hroutes⟩ := List.append_eq_nil_iff.mp h
  rw [items, sectionItems_append, sectionItems_preamble, hdescription, List.nil_append,
    sectionItems_flatMap, properSections]
  refine List.flatMap_congr fun g hg => ?_
  have hnone : ∀ d ∈ g.2, disguisedIn d = [] := fun d hd =>
    List.flatMap_eq_nil_iff.mp hroutes d (List.mem_flatMap.mpr ⟨g, hg, hd⟩)
  rw [sectionItems_group, List.map_eq_flatMap]
  refine congrArg _ (List.flatMap_congr fun d hd => ?_)
  rw [hnone d hd]

theorem not_mem_intercalate {c : Char} {sep : List Char} {xs : List (List Char)} (hsep : c ∉ sep)
    (h : ∀ x ∈ xs, c ∉ x) : c ∉ sep.intercalate xs := by
  induction xs with
  | nil => simp
  | cons x xs ih =>
    cases xs with
    | nil => simpa using h x (by simp)
    | cons y ys =>
      have hmore := ih fun z hz => h z (List.mem_cons_of_mem x hz)
      rw [List.intercalate_cons_cons, List.append_assoc]
      simp [h x (by simp), hsep, hmore]

/-- Texts without a line feed. -/
def OneLine (texts : List String) : Prop := ∀ t ∈ texts, '\n' ∉ t.toList

theorem OneLine.append {xs ys : List String} (hx : OneLine xs) (hy : OneLine ys) :
    OneLine (xs ++ ys) := fun t h => (List.mem_append.mp h).elim (hx t) (hy t)

theorem oneLine_paragraph {s : String} (h : '\n' ∉ s.toList) : OneLine (paragraph s) := by
  unfold paragraph
  split
  · simp [OneLine]
  · simpa [OneLine] using h

theorem oneLine_parameters (ps : List Param) : OneLine (if ps.isEmpty then []
    else ["**Parameters:**", "", "| Name | Type | Required | Description |",
      "|------|------|----------|-------------|"] ++ ps.map paramRow ++ [""]) := by
  intro t ht
  split at ht
  · simp at ht
  · simp only [List.mem_append, List.mem_cons, List.mem_map, List.not_mem_nil, or_false] at ht
    rcases ht with ((rfl | rfl | rfl | rfl) | ⟨p, -, rfl⟩) | rfl
    · decide
    · decide
    · decide
    · decide
    · exact oneLine_paramRow p
    · decide

theorem oneLine_security {schemes : List String} (h : OneLine schemes) :
    OneLine (if schemes.isEmpty then []
      else ["**Security:** " ++ ", ".intercalate schemes, ""]) := by
  have hjoined : '\n' ∉ (", ".intercalate schemes).toList := by
    rw [String.toList_intercalate]
    refine not_mem_intercalate (by decide) fun x hx => ?_
    obtain ⟨s, hs, rfl⟩ := List.mem_map.mp hx
    exact h s hs
  split
  · simp [OneLine]
  · intro t ht
    rcases List.mem_pair.mp ht with rfl | rfl
    · rw [String.toList_append, List.mem_append]
      exact not_or.mpr ⟨by decide, hjoined⟩
    · decide

theorem oneLine_route {d : Descriptor} (h : OneLine (rawTexts d)) : OneLine (route d) := by
  have hname : '\n' ∉ d.method.name.toList := by cases d.method <;> decide
  have hpath : '\n' ∉ d.path.toList := h _ (by simp [rawTexts])
  have hheading : OneLine [heading d, ""] := by simp [OneLine, heading, hname, hpath]
  have hsummary := oneLine_paragraph (h d.summary (by simp [rawTexts]))
  have hdescription := oneLine_paragraph (h d.description (by simp [rawTexts]))
  have hresponses : OneLine (d.responses.map responseRow) := by
    intro t ht
    obtain ⟨r, hr, rfl⟩ := List.mem_map.mp ht
    have hcode : '\n' ∉ r.1.toList :=
      h r.1 (List.mem_append_right _ (List.mem_map_of_mem hr))
    simp [responseRow, hcode, not_mem_cellOrDash]
  have hlabel : OneLine ["**Responses:**", "", "| Status | Description |",
      "|--------|-------------|"] := by simp [OneLine]
  have hschemes : OneLine d.security := fun s hs => h s (by simp [rawTexts, hs])
  have hempty : OneLine [""] := by simp [OneLine]
  have hrule : OneLine ["---", ""] := by simp [OneLine]
  exact (((((((hheading.append hsummary).append hdescription).append
    (oneLine_parameters d.parameters)).append hlabel).append hresponses).append hempty).append
    (oneLine_security hschemes)).append hrule

theorem oneLine_preamble {config : RenderConfig} (h : OneLine (configTexts config)) :
    OneLine (preamble config) := by
  have htitle := h config.title (by simp [configTexts])
  have hversion := h config.version (by simp [configTexts])
  have hdescription := h config.description (by simp [configTexts])
  have hfirst : OneLine ["# " ++ config.title, "", config.description, "",
      "**Version:** " ++ config.version, ""] := by
    simp [OneLine, htitle, hdescription, hversion]
  have hserver : ∀ s ∈ config.servers, '\n' ∉ (serverLine s).toList := by
    intro s hs
    have htexts : OneLine (s.url :: s.description.toList) := fun t ht =>
      h t (List.mem_append_right _ (List.mem_flatMap.mpr ⟨s, hs, ht⟩))
    have hurl := htexts s.url (by simp)
    unfold serverLine
    cases hd : s.description with
    | none => simp [hurl]
    | some d =>
      have hd := htexts d (by simp [hd])
      by_cases he : d = ""
      · simp [he, hurl]
      · simp [he, hurl, hd]
  have hservers : OneLine (if config.servers.isEmpty then []
      else ["## Servers", ""] ++ config.servers.map serverLine ++ [""]) := by
    intro t ht
    split at ht
    · simp at ht
    · simp only [List.mem_append, List.mem_cons, List.mem_map, List.not_mem_nil, or_false] at ht
      rcases ht with ((rfl | rfl) | ⟨s, hs, rfl⟩) | rfl
      · decide
      · decide
      · exact hserver s hs
      · decide
  have hlast : OneLine ["## Endpoints", ""] := by simp [OneLine]
  unfold preamble
  cases hstamp : config.stamp? with
  | none => exact ((hfirst.append (by simp [OneLine])).append hservers).append hlast
  | some t =>
    have ht := h t (by simp [configTexts, hstamp])
    exact ((hfirst.append (by simp [OneLine, ht])).append hservers).append hlast

theorem oneLine_items {ds : List Descriptor} {config : RenderConfig}
    (hc : OneLine (configTexts config)) (hd : ∀ d ∈ ds, OneLine (rawTexts d)) :
    OneLine (items ds config) := by
  refine (oneLine_preamble hc).append fun t ht => ?_
  obtain ⟨g, hg, ht⟩ := List.mem_flatMap.mp ht
  rcases List.mem_append.mp ht with ht | ht
  · obtain ⟨d, hds, htag⟩ := Grouping.exists_tag hg
    have hname : '\n' ∉ g.1.toList := by
      unfold Grouping.tagsOf at htag
      split at htag
      · rw [List.mem_singleton.mp htag]
        decide
      · exact hd d hds g.1 (by simp [rawTexts, htag])
    rcases List.mem_pair.mp ht with rfl | rfl
    · simp [hname]
    · simp
  · obtain ⟨d, hdg, ht⟩ := List.mem_flatMap.mp ht
    have hds : d ∈ ds := Grouping.mem_listed.mp (List.mem_flatMap.mpr ⟨g, hg, hdg⟩)
    exact oneLine_route (hd d hds) t ht

theorem sectionLines_render {ds : List Descriptor} {config : RenderConfig}
    (hc : OneLine (configTexts config)) (hd : ∀ d ∈ ds, OneLine (rawTexts d)) :
    sectionLines (render ds config) = sectionItems (items ds config) := by
  have hlines : (items ds config).flatMap (fun item => item.toList.splitOn '\n') =
      (items ds config).map String.toList := by
    rw [List.map_eq_flatMap]
    refine List.flatMap_congr fun t ht => ?_
    exact List.splitOn_eq_singleton (oneLine_items hc hd t ht)
  rw [sectionLines, lines_render, hlines, sectionItems]

theorem disguised_eq_nil {s : String} : disguised s = [] ↔ isSection s.toList = false := by
  simp [disguised]

theorem allDisguised_eq_nil (ds : List Descriptor) (config : RenderConfig) :
    allDisguised ds config = [] ↔ isSection config.description.toList = false ∧
      ∀ d ∈ ds, isSection d.summary.toList = false ∧ isSection d.description.toList = false := by
  simp only [allDisguised, List.append_eq_nil_iff, disguised_eq_nil, List.flatMap_eq_nil_iff,
    Grouping.mem_listed, disguisedIn]

end Markdown

/-- The headings of the page are those of its groups and routes. When no text has a line feed, the
Markdown document has just these headings if and only if neither the description of the settings
nor a summary or description of a route, which all stand on lines of their own, looks like one. -/
theorem sections_agree_unless_disguised (ds : List Descriptor) (config : RenderConfig)
    (hc : Markdown.OneLine (Markdown.configTexts config))
    (hd : ∀ d ∈ ds, Markdown.OneLine (Markdown.rawTexts d)) :
    (Html.headings (Html.render ds config)).map Markdown.sectionLine =
      Markdown.properSections ds ∧
    (Markdown.sectionLines (Markdown.render ds config) =
        (Html.headings (Html.render ds config)).map Markdown.sectionLine ↔
      Markdown.isSection config.description.toList = false ∧
      ∀ d ∈ ds, Markdown.isSection d.summary.toList = false ∧
        Markdown.isSection d.description.toList = false) := by
  have hpage : (Html.headings (Html.render ds config)).map Markdown.sectionLine =
      Markdown.properSections ds := by
    rw [Html.headings_render, List.map_flatMap]
    simp [Markdown.properSections, Html.groupHeadings, Function.comp_def]
  refine ⟨hpage, ?_⟩
  rw [hpage, Markdown.sectionLines_render hc hd, ← Markdown.allDisguised_eq_nil]
  constructor
  · intro h
    have hlength := (Markdown.sectionItems_perm ds config).length_eq
    rw [h, List.length_append] at hlength
    exact List.eq_nil_of_length_eq_zero (by omega)
  · exact Markdown.sectionItems_of_undisguised

/-- A route whose summary looks like the heading of a group. -/
def disguisedRoute : Descriptor :=
  { method := .get, path := "/a", summary := "### b", responses := [("200", "")],
    operationId := "a" }

/-- A route whose summary has number signs, but not in front. -/
def numberedRoute : Descriptor :=
  { method := .put, path := "/###", summary := "#1", responses := [("200", "### c")],
    tags := ["### d"], operationId := "a" }

theorem sections_agree_unless_disguised_numbered :
    Markdown.OneLine (Markdown.configTexts {}) ∧
    Markdown.OneLine (Markdown.rawTexts numberedRoute) ∧
    Markdown.sectionLines (Markdown.render [numberedRoute] {}) =
      (Html.headings (Html.render [numberedRoute] {})).map Markdown.sectionLine := by
  have hc : Markdown.OneLine (Markdown.configTexts {}) := by
    simp [Markdown.OneLine, Markdown.configTexts, RenderConfig.stamp?]
  have hd : Markdown.OneLine (Markdown.rawTexts numberedRoute) := by
    simp [Markdown.OneLine, Markdown.rawTexts, numberedRoute, Pairs.keys]
  refine ⟨hc, hd, ?_⟩
  rw [(sections_agree_unless_disguised [numberedRoute] {} hc (by simpa using hd)).2]
  simp [numberedRoute, Markdown.isSection, List.isPrefixOf]

/-- A summary can pass for a heading that the page does not have. -/
theorem summary_passes_for_heading :
    Markdown.OneLine (Markdown.configTexts {}) ∧
    Markdown.OneLine (Markdown.rawTexts disguisedRoute) ∧
    Markdown.sectionLines (Markdown.render [disguisedRoute] {}) =
      ["### untagged".toList, "#### GET /a".toList, "### b".toList] ∧
    (Html.headings (Html.render [disguisedRoute] {})).map Markdown.sectionLine =
      ["### untagged".toList, "#### GET /a".toList] := by
  have hc : Markdown.OneLine (Markdown.configTexts {}) := by
    simp [Markdown.OneLine, Markdown.configTexts, RenderConfig.stamp?]
  have hd : Markdown.OneLine (Markdown.rawTexts disguisedRoute) := by
    simp [Markdown.OneLine, Markdown.rawTexts, disguisedRoute, Pairs.keys]
  refine ⟨hc, hd, ?_, ?_⟩
  · rw [Markdown.sectionLines_render hc (by simpa using hd)]
    decide +kernel
  · rw [Html.headings_render]
    decide

end RouteBook

import RouteBook.Proofs.Html.Outline

/-! The shape of a page's input, from which its tags follow: no text of a route or of the settings
can add, change or remove one. -/
namespace RouteBook.Html

/-- What decides on the tags of a route. -/
structure RouteShape where
  method : Method
  summary : Bool
  description : Bool
  parameters : Nat
  responses : Nat
  security : Bool
deriving Repr, DecidableEq

/-- What decides on the tags of a page. -/
structure Shape where
  stamped : Bool
  /-- For each server, whether it has a description. -/
  servers : List Bool
  groups : List (List RouteShape)
deriving Repr, DecidableEq

def routeShape (d : Descriptor) : RouteShape where
  method := d.method
  summary := d.summary != ""
  description := d.description != ""
  parameters := d.parameters.length
  responses := d.responses.length
  security := !d.security.isEmpty

def shape (ds : List Descriptor) (config : RenderConfig) : Shape where
  stamped := config.stamp?.isSome
  servers := config.servers.map fun s => (s.description.getD "") != ""
  groups := (Grouping.byTag ds).map fun g => g.2.map routeShape

def enclose (name : String) (inner : List String) : List String :=
  ("<" ++ name ++ ">") :: inner ++ ["</" ++ name ++ ">"]

def rowTags (cell : String) (columns : Nat) : List String :=
  enclose "tr" (List.replicate columns (enclose cell [])).flatten

def tableTags (columns rows : Nat) : List String :=
  enclose "table" (enclose "thead" (rowTags "th" columns) ++
    enclose "tbody" (List.replicate rows (rowTags "td" columns)).flatten)

def labelTags : List String := enclose "p" (enclose "strong" [])

def RouteShape.contentTags (r : RouteShape) : List String :=
  (if r.summary then enclose "p" [] else []) ++ (if r.description then enclose "p" [] else []) ++
  (if r.parameters = 0 then [] else labelTags ++ tableTags 4 r.parameters) ++
  labelTags ++ tableTags 2 r.responses ++ (if r.security then labelTags else []) ++ ["<hr>"]

def RouteShape.tags (r : RouteShape) : List String :=
  enclose "h4" [badgeTag r.method, "</span>"] ++ r.contentTags

def groupTags (rs : List RouteShape) : List String := enclose "h3" [] ++ rs.flatMap RouteShape.tags

/-- The tag for the time of generation, without the time. -/
def bareStamp : String := "<meta name=\"generated-at\">"

/-- The tags before the time of generation. -/
def tagsBefore : List String :=
  ["<!DOCTYPE html>", "<html lang=\"en\">", "<head>", "<meta charset=\"UTF-8\">",
   "<meta name=\"viewport\" content=\"width=device-width, initial-scale=1.0\">"]

def headEndTags : List String := enclose "title" [] ++ enclose "style" [] ++ ["</head>"]

def Shape.openingTags (s : Shape) : List String :=
  ["<body>"] ++ enclose "h1" [] ++ enclose "p" [] ++ labelTags ++
  (if s.servers.isEmpty then []
   else enclose "h2" [] ++ enclose "ul" (s.servers.flatMap fun _ => enclose "li" [])) ++
  enclose "h2" []

/-- The tags after the time of generation. -/
def Shape.tagsAfter (s : Shape) : List String :=
  headEndTags ++ s.openingTags ++ s.groups.flatMap groupTags ++ ["</body>", "</html>"]

/-- The tags of a page, without the time of generation. -/
def Shape.tags (s : Shape) : List String :=
  tagsBefore ++ (if s.stamped then [bareStamp] else []) ++ s.tagsAfter

/-- The text of the attribute of a tag that shows the time of generation. -/
def stampText? (tag : String) : Option String :=
  if stampStart.toList.isPrefixOf tag.toList then
    some (shown (read none ((tag.toList.drop stampStart.toList.length).takeWhile (· != '"'))))
  else none

/-- A tag without the time of generation. -/
def withoutStamp (tag : String) : String := if (stampText? tag).isSome then bareStamp else tag

@[simp] theorem tags_element (name : String) (body : List Piece) :
    tags (element name body) = enclose name (tags body) := by
  simp [element, enclose]

@[simp] theorem tags_ended (ps : List Piece) : tags (ended ps) = tags ps := by
  rw [ended, tags_append]
  exact List.append_nil _

@[simp] theorem tags_inset (ps : List Piece) : tags (inset ps) = tags ps := by
  simp [inset]

@[simp] theorem tags_labelled (label s : String) : tags (labelled label s) = labelTags := by
  simp [labelled, labelTags]

@[simp] theorem tags_cells (cell : String) (texts : List String) :
    tags (cells cell texts) = rowTags cell texts.length := by
  rw [cells, tags_element, tags_flatMap, List.flatMap_def]
  simp [rowTags]

theorem tags_tableOutline {c : List String} {r : List (List String)}
    (h : ∀ row ∈ r, row.length = c.length) :
    tags (tableOutline c r) = tableTags c.length r.length := by
  have hrows : r.map (fun row => rowTags "td" row.length) =
      List.replicate r.length (rowTags "td" c.length) := by
    rw [← List.map_const', List.map_congr_left fun row hrow => by rw [h row hrow]]
  have hbody : tags (r.flatMap fun row => ended (cells "td" row)) =
      (List.replicate r.length (rowTags "td" c.length)).flatten := by
    rw [tags_flatMap, List.flatMap_def]
    simp [hrows]
  simp [tableOutline, tableTags, hbody, enclose]

theorem tags_paragraphOutline (s : String) :
    tags (paragraphOutline s) = if s != "" then enclose "p" [] else [] := by
  by_cases hs : s = "" <;> simp [paragraphOutline, hs]

theorem tags_contentOutline (d : Descriptor) :
    tags (contentOutline d) = (routeShape d).contentTags := by
  have hparams := tags_tableOutline (c := ["Name", "Type", "Required", "Description"])
    (r := d.parameters.map paramCells) (by simp [paramCells])
  have hresponses := tags_tableOutline (c := ["Status", "Description"])
    (r := d.responses.map responseCells) fun row hrow => by
      obtain ⟨_, -, rfl⟩ := List.mem_map.mp hrow
      rfl
  have hsecurity : tags (if d.security.isEmpty then []
      else labelled "Security:" (" " ++ ", ".intercalate d.security)) =
      if !d.security.isEmpty then labelTags else [] := by
    cases d.security <;> simp
  rw [List.length_map] at hparams hresponses
  have hoptional : tags (if d.parameters.isEmpty then [] else labelled "Parameters:" "" ++
      tableOutline ["Name", "Type", "Required", "Description"] (d.parameters.map paramCells)) =
      if d.parameters.length = 0 then [] else labelTags ++ tableTags 4 d.parameters.length := by
    by_cases hp : d.parameters = []
    · simp [hp]
    · simp [hp, hparams]
  simp only [contentOutline, tags_append, tags_paragraphOutline, hoptional, hresponses,
    hsecurity, tags_labelled, tags_ended, tags_cons_tag, tags_nil, RouteShape.contentTags,
    routeShape]
  rfl

theorem tags_routeOutline (d : Descriptor) : tags (routeOutline d) = (routeShape d).tags := by
  have hheading : tags (headingOutline d) = enclose "h4" [badgeTag d.method, "</span>"] := by
    simp [headingOutline]
  rw [routeOutline, tags_append, hheading, tags_contentOutline]
  rfl

theorem tags_groupOutline (g : String × List Descriptor) :
    tags (groupOutline g) = groupTags (g.2.map routeShape) := by
  simp [groupOutline, groupTags, tags_flatMap, tags_routeOutline, List.flatMap_map]

def elementNames : List String :=
  ["title", "style", "h1", "h2", "p", "strong", "ul", "li", "table", "thead", "tbody", "tr", "th",
   "td"]

def bodyTags : List String :=
  elementNames.flatMap (fun n => enclose n []) ++
  ["</head>", "<body>", "<hr>", "</body>", "</html>"]

def headingTags : List String :=
  enclose "h3" [] ++ enclose "h4" [] ++ Method.all.map badgeTag ++ ["</span>"]

theorem enclose_subset {n : String} {inner ts : List String} (hn : enclose n [] ⊆ ts)
    (h : inner ⊆ ts) : enclose n inner ⊆ ts := by
  simp only [enclose, List.cons_append, List.nil_append, List.cons_subset,
    List.append_subset] at hn ⊢
  exact ⟨hn.1, h, hn.2⟩

theorem enclose_body {n : String} {inner : List String} (hn : n ∈ elementNames)
    (h : inner ⊆ bodyTags) : enclose n inner ⊆ bodyTags :=
  enclose_subset (fun _ ht => List.mem_append_left _ (List.mem_flatMap.mpr ⟨n, hn, ht⟩)) h

theorem flatten_replicate_subset {ts us : List String} (h : ts ⊆ us) (n : Nat) :
    (List.replicate n ts).flatten ⊆ us := by
  intro t ht
  obtain ⟨vs, hvs, htv⟩ := List.mem_flatten.mp ht
  exact h (List.eq_of_mem_replicate hvs ▸ htv)

theorem ite_subset {ts us vs : List String} (ht : ts ⊆ vs) (hu : us ⊆ vs) (p : Prop)
    [Decidable p] : (if p then ts else us) ⊆ vs := by
  split
  · exact ht
  · exact hu

theorem labelTags_body : labelTags ⊆ bodyTags :=
  enclose_body (by decide) (enclose_body (by decide) (List.nil_subset _))

theorem rowTags_body {c : String} (h : c ∈ elementNames) (columns : Nat) :
    rowTags c columns ⊆ bodyTags :=
  enclose_body (by decide)
    (flatten_replicate_subset (enclose_body h (List.nil_subset _)) columns)

theorem tableTags_body (columns rows : Nat) : tableTags columns rows ⊆ bodyTags := by
  have hhead := enclose_body (n := "thead") (by decide)
    (rowTags_body (c := "th") (by decide) columns)
  have hbody := enclose_body (n := "tbody") (by decide)
    (flatten_replicate_subset (rowTags_body (c := "td") (by decide) columns) rows)
  exact enclose_body (by decide) (List.append_subset.mpr ⟨hhead, hbody⟩)

theorem contentTags_body (r : RouteShape) : r.contentTags ⊆ bodyTags := by
  have hparagraph : enclose "p" [] ⊆ bodyTags := enclose_body (by decide) (List.nil_subset _)
  have hrule : ["<hr>"] ⊆ bodyTags := by decide
  have htable : labelTags ++ tableTags 4 r.parameters ⊆ bodyTags :=
    List.append_subset.mpr ⟨labelTags_body, tableTags_body 4 _⟩
  simp only [RouteShape.contentTags, List.append_subset]
  exact ⟨⟨⟨⟨⟨⟨ite_subset hparagraph (List.nil_subset _) _,
    ite_subset hparagraph (List.nil_subset _) _⟩, ite_subset (List.nil_subset _) htable _⟩,
    labelTags_body⟩, tableTags_body 2 _⟩, ite_subset labelTags_body (List.nil_subset _) _⟩, hrule⟩

theorem badgeTag_mem (m : Method) : badgeTag m ∈ headingTags := by
  have hm : m ∈ Method.all := by cases m <;> decide
  exact List.mem_append_left _ (List.mem_append_right _ (List.mem_map_of_mem hm))

theorem groupTags_subset (rs : List RouteShape) : groupTags rs ⊆ bodyTags ++ headingTags := by
  have hgroup : enclose "h3" [] ⊆ headingTags := by
    simp only [headingTags, List.append_assoc]
    exact List.subset_append_left _ _
  have hroute : enclose "h4" [] ⊆ headingTags := by
    simp only [headingTags, List.append_assoc]
    exact List.Subset.trans (List.subset_append_left _ _) (List.subset_append_right _ _)
  refine List.append_subset.mpr ⟨List.Subset.trans hgroup (List.subset_append_right _ _), ?_⟩
  intro t ht
  obtain ⟨r, -, hr⟩ := List.mem_flatMap.mp ht
  rcases List.mem_append.mp hr with hr | hr
  · have hspan : [badgeTag r.method, "</span>"] ⊆ headingTags :=
      List.cons_subset.mpr ⟨badgeTag_mem r.method, by simp [headingTags]⟩
    exact List.mem_append_right _ (enclose_subset hroute hspan hr)
  · exact List.mem_append_left _ (contentTags_body r hr)

theorem openingTags_body (s : Shape) : s.openingTags ⊆ bodyTags := by
  have hsection : enclose "h2" [] ⊆ bodyTags := enclose_body (by decide) (List.nil_subset _)
  have hlist : enclose "ul" (s.servers.flatMap fun _ => enclose "li" []) ⊆ bodyTags := by
    refine enclose_body (by decide) fun t ht => ?_
    obtain ⟨_, -, hli⟩ := List.mem_flatMap.mp ht
    exact enclose_body (n := "li") (by decide) (List.nil_subset _) hli
  have hservers := ite_subset (List.nil_subset _) (List.append_subset.mpr ⟨hsection, hlist⟩)
    (s.servers.isEmpty = true)
  have hfixed : ["<body>"] ++ enclose "h1" [] ++ enclose "p" [] ++ labelTags ⊆ bodyTags := by
    decide
  exact List.append_subset.mpr ⟨List.append_subset.mpr ⟨hfixed, hservers⟩, hsection⟩

theorem tagsAfter_subset (s : Shape) : s.tagsAfter ⊆ bodyTags ++ headingTags := by
  have hgroups : s.groups.flatMap groupTags ⊆ bodyTags ++ headingTags := by
    intro t ht
    obtain ⟨rs, -, hrs⟩ := List.mem_flatMap.mp ht
    exact groupTags_subset rs hrs
  have hhead : headEndTags ⊆ bodyTags := by decide
  have hend : ["</body>", "</html>"] ⊆ bodyTags := by decide
  have hbody := List.subset_append_left bodyTags headingTags
  have hstart := List.append_subset.mpr
    ⟨List.Subset.trans hhead hbody, List.Subset.trans (openingTags_body s) hbody⟩
  have hpage := List.append_subset.mpr ⟨hstart, hgroups⟩
  exact List.append_subset.mpr ⟨hpage, List.Subset.trans hend hbody⟩

theorem stampText?_tagsBefore {t : String} (h : t ∈ tagsBefore) : stampText? t = none := by
  have hall : tagsBefore.all (fun t => (stampText? t).isNone) = true := rfl
  simpa using List.all_eq_true.mp hall t h

theorem stampText?_tagsAfter {s : Shape} {t : String} (h : t ∈ s.tagsAfter) :
    stampText? t = none := by
  have hall : (bodyTags ++ headingTags).all (fun t => (stampText? t).isNone) = true := rfl
  simpa using List.all_eq_true.mp hall t (tagsAfter_subset s h)

theorem stampText?_stampTag (t : String) : stampText? (stampTag t) = some t := by
  have htag : (stampTag t).toList = stampStart.toList ++ ((escape t).toList ++ ['"', '>']) := by
    simp [stampTag]
  have hvalue : ((escape t).toList ++ ['"', '>']).takeWhile (· != '"') = (escape t).toList := by
    rw [List.takeWhile_append_of_pos]
    · simp
    · intro c hc
      have hne : c ≠ '"' := fun h => not_mem_escape (.inr rfl) t (h ▸ hc)
      simpa using hne
  have htext : shown (read none (escape t).toList) = t := by
    rw [← pieces, pieces_escape, shown_chars]
  rw [stampText?, htag, if_pos (List.isPrefixOf_iff_prefix.mpr (List.prefix_append _ _)),
    List.drop_left, hvalue, htext]

theorem tags_headOutline (config : RenderConfig) :
    tags (headOutline config) = tagsBefore ++ config.stamp?.toList.map stampTag ++ headEndTags := by
  have hstamp : tags (config.stamp?.elim [] fun t => inset [.tag (stampTag t)]) =
      config.stamp?.toList.map stampTag := by
    cases config.stamp? <;> simp
  have hsheet : tags (styleSheet.flatMap fun s => ended (chars s)) = [] := by
    simp [tags_flatMap]
  simp only [headOutline, tags_append, hstamp, tags_ended, tags_inset, tags_element, tags_cons_tag,
    tags_nil, tags_chars, hsheet, tagsBefore, headEndTags]
  simp

theorem tags_openingOutline (ds : List Descriptor) (config : RenderConfig) :
    tags (openingOutline config) = (shape ds config).openingTags := by
  have hservers : tags (if config.servers.isEmpty then []
      else ended (element "h2" (chars "Servers")) ++ ended [.tag "<ul>"] ++
        config.servers.flatMap (fun s => ended (element "li" (chars (serverText s)))) ++
        ended [.tag "</ul>"]) =
      if (shape ds config).servers.isEmpty then []
      else enclose "h2" [] ++ enclose "ul" ((shape ds config).servers.flatMap fun _ =>
        enclose "li" []) := by
    by_cases hs : config.servers = []
    · simp [shape, hs]
    · simp [shape, hs, tags_flatMap, List.flatMap_map, enclose]
  simp only [openingOutline, tags_append, hservers, tags_ended, tags_element, tags_cons_tag,
    tags_nil, tags_chars, tags_labelled, Shape.openingTags]

theorem tags_outline (ds : List Descriptor) (config : RenderConfig) :
    tags (outline ds config) = tagsBefore ++ config.stamp?.toList.map stampTag ++
      (shape ds config).tagsAfter := by
  have hgroups : tags ((Grouping.byTag ds).flatMap groupOutline) =
      (shape ds config).groups.flatMap groupTags := by
    simp [shape, tags_flatMap, tags_groupOutline, List.flatMap_map]
  simp only [outline, tags_append, tags_headOutline, tags_openingOutline ds, hgroups, tags_ended,
    tags_cons_tag, tags_nil, Shape.tagsAfter]
  simp

/-- The tags of a page in their order, without the time of generation. -/
def skeleton (page : String) : List String := (tags (pieces page)).map withoutStamp

theorem map_withoutStamp {ts : List String} (h : ∀ t ∈ ts, stampText? t = none) :
    ts.map withoutStamp = ts := by
  refine (List.map_congr_left fun t ht => ?_).trans (List.map_id ts)
  simp [withoutStamp, h t ht]

theorem withoutStamp_stampTag (t : String) : withoutStamp (stampTag t) = bareStamp := by
  simp [withoutStamp, stampText?_stampTag]

theorem skeleton_render (ds : List Descriptor) (config : RenderConfig) :
    skeleton (render ds config) = (shape ds config).tags := by
  have hstamp : (config.stamp?.toList.map stampTag).map withoutStamp =
      if (shape ds config).stamped then [bareStamp] else [] := by
    cases h : config.stamp? <;> simp [shape, h, withoutStamp_stampTag]
  rw [skeleton, pieces_render, tags_outline, List.map_append, List.map_append, hstamp,
    map_withoutStamp fun _ => stampText?_tagsBefore, map_withoutStamp fun _ => stampText?_tagsAfter,
    Shape.tags]

/-- The page shows just the texts that it was given, each in its place, and the time of generation
in its tag; its other tags follow from the shape of what was given. -/
theorem text_is_never_markup (ds : List Descriptor) (config : RenderConfig) :
    pieces (render ds config) = outline ds config ∧
    (tags (pieces (render ds config))).filterMap stampText? = config.stamp?.toList ∧
    skeleton (render ds config) = (shape ds config).tags ∧
    ∀ ds' config', shape ds' config' = shape ds config →
      skeleton (render ds' config') = skeleton (render ds config) := by
  have hstamp : (config.stamp?.toList.map stampTag).filterMap stampText? =
      config.stamp?.toList := by
    cases config.stamp? <;> simp [stampText?_stampTag]
  refine ⟨pieces_render ds config, ?_, skeleton_render ds config, ?_⟩
  · rw [pieces_render, tags_outline, List.filterMap_append, List.filterMap_append, hstamp,
      List.filterMap_eq_nil_iff.mpr fun _ => stampText?_tagsBefore,
      List.filterMap_eq_nil_iff.mpr fun _ => stampText?_tagsAfter, List.nil_append,
      List.append_nil]
  · intro ds' config' hshape
    rw [skeleton_render, skeleton_render, hshape]

/-- A route whose texts try to be markup. -/
def hostileRoute : Descriptor :=
  { method := .get, path := "/<h4>&amp;", summary := "</p><script>alert(1)</script>",
    responses := [("200", "\"><td>")], tags := ["</h3>"], security := ["<b", "'>"],
    operationId := "a" }

def tameRoute : Descriptor :=
  { method := .get, path := "/a", summary := "s", responses := [("200", "")], tags := ["t"],
    security := ["key"], operationId := "a" }

theorem text_is_never_markup_hostile :
    shape [hostileRoute] { generatedAt := some "\"><hr" } =
      shape [tameRoute] { generatedAt := some "now" } ∧
    skeleton (render [hostileRoute] { generatedAt := some "\"><hr" }) =
      skeleton (render [tameRoute] { generatedAt := some "now" }) := by
  have hshape : shape [hostileRoute] { generatedAt := some "\"><hr" } =
      shape [tameRoute] { generatedAt := some "now" } := by decide
  exact ⟨hshape, (text_is_never_markup [tameRoute] { generatedAt := some "now" }).2.2.2 _ _ hshape⟩

end RouteBook.Html

import RouteBook.Proofs.Html.Shape

/-! The headings of the page: one for each group, and after it one for each route of the group. -/
namespace RouteBook.Html

/-- What a heading stands over. -/
inductive Level where
  | group | route
deriving Repr, DecidableEq

def Level.closing : Level → String
  | group => "</h3>"
  | route => "</h4>"

def Level.ofTag? (t : String) : Option Level :=
  if t = "<h3>" then some group else if t = "<h4>" then some route else none

/-- The headings among pieces, their tags removed, with what is read of one that is open. -/
def headingsFrom : Option (Level × List Char) → List Piece → List (Level × String)
  | _, [] => []
  | none, .tag t :: ps => headingsFrom ((Level.ofTag? t).map (·, [])) ps
  | none, _ :: ps => headingsFrom none ps
  | some (l, s), .tag t :: ps =>
    if t = l.closing then (l, String.ofList s) :: headingsFrom none ps
    else headingsFrom (some (l, s)) ps
  | some (l, s), .char c :: ps => headingsFrom (some (l, s ++ [c])) ps
  | some h, .torn _ :: ps => headingsFrom (some h) ps

/-- The headings of a page, in order. -/
def headings (page : String) : List (Level × String) := headingsFrom none (pieces page)

/-- Pieces without a heading's tag add no heading. -/
theorem headingsFrom_of_none {ps : List Piece} (h : ∀ t ∈ tags ps, Level.ofTag? t = none)
    (qs : List Piece) : headingsFrom none (ps ++ qs) = headingsFrom none qs := by
  induction ps with
  | nil => rfl
  | cons p ps ih =>
    cases p with
    | tag t =>
      rw [List.cons_append, headingsFrom, h t (by simp)]
      exact ih fun u hu => h u (List.mem_cons_of_mem t hu)
    | char c => exact ih h
    | torn s => exact ih h

theorem ofTag?_body {t : String} (h : t ∈ bodyTags) : Level.ofTag? t = none := by
  have hall : bodyTags.all (fun t => (Level.ofTag? t).isNone) = true := by decide
  simpa using List.all_eq_true.mp hall t h

theorem ofTag?_stampTag (t : String) : Level.ofTag? (stampTag t) = none := by
  have hne : ∀ u, stampText? u = none → stampTag t ≠ u := by
    rintro _ hu rfl
    rw [stampText?_stampTag] at hu
    cases hu
  rw [Level.ofTag?, if_neg (hne "<h3>" rfl), if_neg (hne "<h4>" rfl)]

theorem ofTag?_head {config : RenderConfig} {t : String} (h : t ∈ tags (headOutline config)) :
    Level.ofTag? t = none := by
  have hbefore : tagsBefore.all (fun t => (Level.ofTag? t).isNone) = true := by decide
  have hend : headEndTags ⊆ bodyTags := by decide
  rw [tags_headOutline] at h
  rcases List.mem_append.mp h with h | h
  · rcases List.mem_append.mp h with h | h
    · simpa using List.all_eq_true.mp hbefore t h
    · obtain ⟨s, -, rfl⟩ := List.mem_map.mp h
      exact ofTag?_stampTag s
  · exact ofTag?_body (hend h)

theorem headingsFrom_chars (l : Level) (s : List Char) (t : String) (qs : List Piece) :
    headingsFrom (some (l, s)) (chars t ++ qs) = headingsFrom (some (l, s ++ t.toList)) qs := by
  rw [chars]
  induction t.toList generalizing s with
  | nil => simp
  | cons c cs ih =>
    rw [List.map_cons, List.cons_append, headingsFrom, ih, List.append_assoc, List.singleton_append]

/-- The text of a route's heading. -/
def titleOf (d : Descriptor) : String := d.method.name ++ " " ++ d.path

theorem headingsFrom_groupTitle (g : String) (qs : List Piece) :
    headingsFrom none (ended (element "h3" (chars g)) ++ qs) =
      (.group, g) :: headingsFrom none qs := by
  have hopen : headingsFrom none (ended (element "h3" (chars g)) ++ qs) =
      headingsFrom (some (.group, [])) (chars g ++ .tag "</h3>" :: .char '\n' :: qs) := by
    simp [ended, element, headingsFrom, Level.ofTag?]
  rw [hopen, headingsFrom_chars, headingsFrom, if_pos (show "</h3>" = Level.group.closing from rfl)]
  simp [headingsFrom]

theorem headingsFrom_heading (d : Descriptor) (qs : List Piece) :
    headingsFrom none (headingOutline d ++ qs) =
      (.route, titleOf d) :: headingsFrom none qs := by
  have hbadge : badgeTag d.method ≠ Level.route.closing := by cases d.method <;> decide
  have hspan : "</span>" ≠ Level.route.closing := by decide
  have hopen : headingsFrom none (headingOutline d ++ qs) =
      headingsFrom (some (.route, [])) (.tag (badgeTag d.method) :: (chars d.method.name ++
        .tag "</span>" :: (chars (" " ++ d.path) ++ .tag "</h4>" :: .char '\n' :: qs))) := by
    simp [headingOutline, ended, element, headingsFrom, Level.ofTag?]
  rw [hopen, headingsFrom, if_neg hbadge, headingsFrom_chars, headingsFrom, if_neg hspan,
    headingsFrom_chars, headingsFrom, if_pos (show "</h4>" = Level.route.closing from rfl)]
  simp [headingsFrom, titleOf, String.append_assoc]

def groupHeadings (g : String × List Descriptor) : List (Level × String) :=
  (.group, g.1) :: g.2.map fun d => (.route, titleOf d)

theorem headingsFrom_routes (routes : List Descriptor) (qs : List Piece) :
    headingsFrom none (routes.flatMap routeOutline ++ qs) =
      routes.map (fun d => (.route, titleOf d)) ++ headingsFrom none qs := by
  induction routes with
  | nil => rfl
  | cons d routes ih =>
    have hcontent : ∀ t ∈ tags (contentOutline d), Level.ofTag? t = none := fun t ht =>
      ofTag?_body (contentTags_body (routeShape d) (tags_contentOutline d ▸ ht))
    simp only [List.flatMap_cons, routeOutline, List.append_assoc]
    rw [headingsFrom_heading, headingsFrom_of_none hcontent, ih]
    rfl

theorem headingsFrom_groups (groups : List (String × List Descriptor)) (qs : List Piece) :
    headingsFrom none (groups.flatMap groupOutline ++ qs) =
      groups.flatMap groupHeadings ++ headingsFrom none qs := by
  induction groups with
  | nil => rfl
  | cons g groups ih =>
    simp only [List.flatMap_cons, groupOutline, List.append_assoc]
    rw [headingsFrom_groupTitle, headingsFrom_routes, ih]
    simp [groupHeadings]

/-- Whatever its texts, the page has the headings of its groups and routes and no others. -/
theorem headings_render (ds : List Descriptor) (config : RenderConfig) :
    headings (render ds config) = (Grouping.byTag ds).flatMap groupHeadings := by
  have hopening : ∀ t ∈ tags (openingOutline config), Level.ofTag? t = none := fun t ht =>
    ofTag?_body (openingTags_body (shape ds config) (tags_openingOutline ds config ▸ ht))
  have hend : headingsFrom none (ended [.tag "</body>"] ++ ended [.tag "</html>"]) = [] := by
    decide
  rw [headings, pieces_render, outline]
  simp only [List.append_assoc]
  rw [headingsFrom_of_none fun _ => ofTag?_head, headingsFrom_of_none hopening,
    headingsFrom_groups, hend, List.append_nil]

end RouteBook.Html

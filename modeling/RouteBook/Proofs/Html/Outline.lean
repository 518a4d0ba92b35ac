import RouteBook.Html.Page
import RouteBook.Proofs.Html.Reading

/-! What the page shows: its tags with the texts of the settings and routes between them, just as
they were given; and that the tags follow from the shape of these alone. -/
namespace RouteBook.Html

def element (name : String) (body : List Piece) : List Piece :=
  .tag ("<" ++ name ++ ">") :: body ++ [.tag ("</" ++ name ++ ">")]

def ended (ps : List Piece) : List Piece := ps ++ [.char '\n']

def inset (ps : List Piece) : List Piece := chars "    " ++ ended ps

def labelled (label s : String) : List Piece :=
  ended (element "p" (element "strong" (chars label) ++ chars s))

/-- The lines of the style sheet, without its tags. -/
def styleSheet : List String := styleLines.tail.dropLast.dropLast

def stampStart : String := "<meta name=\"generated-at\" content=\""

def stampTag (t : String) : String := stampStart ++ escape t ++ "\">"

def headOutline (config : RenderConfig) : List Piece :=
  ended [.tag "<!DOCTYPE html>"] ++ ended [.tag "<html lang=\"en\">"] ++ ended [.tag "<head>"] ++
  inset [.tag "<meta charset=\"UTF-8\">"] ++
  inset [.tag "<meta name=\"viewport\" content=\"width=device-width, initial-scale=1.0\">"] ++
  config.stamp?.elim [] (fun t => inset [.tag (stampTag t)]) ++
  inset (element "title" (chars config.title)) ++
  inset (element "style" (chars "\n" ++ styleSheet.flatMap (fun s => ended (chars s)) ++
    chars "    ")) ++
  ended [.tag "</head>"]

/-- A server's address, with its description if it has one. -/
def serverText (s : Server) : String :=
  s.url ++ match s.description with
    | some d => if d = "" then "" else " - " ++ d
    | none => ""

def openingOutline (config : RenderConfig) : List Piece :=
  ended [.tag "<body>"] ++ ended (element "h1" (chars config.title)) ++
  ended (element "p" (chars config.description)) ++
  labelled "Version:" (" " ++ config.version) ++
  (if config.servers.isEmpty then []
   else ended (element "h2" (chars "Servers")) ++ ended [.tag "<ul>"] ++
     config.servers.flatMap (fun s => ended (element "li" (chars (serverText s)))) ++
     ended [.tag "</ul>"]) ++
  ended (element "h2" (chars "Endpoints"))

def cells (name : String) (texts : List String) : List Piece :=
  element "tr" (texts.flatMap fun s => element name (chars s))

def tableOutline (columns : List String) (rows : List (List String)) : List Piece :=
  ended [.tag "<table>"] ++ ended (element "thead" (cells "th" columns)) ++
  ended [.tag "<tbody>"] ++ rows.flatMap (fun row => ended (cells "td" row)) ++
  ended [.tag "</tbody>"] ++ ended [.tag "</table>"]

def paramCells (p : Param) : List String :=
  [p.name, p.type, if p.required then "Yes" else "No", orDash p.description]

def responseCells (r : String × String) : List String := [r.1, orDash r.2]

def badgeTag (m : Method) : String :=
  "<span class=\"method method-" ++ m.name ++ " " ++ Method.badge m.name ++ "\">"

def headingOutline (d : Descriptor) : List Piece :=
  ended (element "h4" (.tag (badgeTag d.method) :: chars d.method.name ++
    .tag "</span>" :: chars (" " ++ d.path)))

def paragraphOutline (s : String) : List Piece :=
  if s = "" then [] else ended (element "p" (chars s))

def contentOutline (d : Descriptor) : List Piece :=
  paragraphOutline d.summary ++ paragraphOutline d.description ++
  (if d.parameters.isEmpty then []
   else labelled "Parameters:" "" ++
     tableOutline ["Name", "Type", "Required", "Description"] (d.parameters.map paramCells)) ++
  labelled "Responses:" "" ++
  tableOutline ["Status", "Description"] (d.responses.map responseCells) ++
  (if d.security.isEmpty then []
   else labelled "Security:" (" " ++ ", ".intercalate d.security)) ++
  ended [.tag "<hr>"]

def routeOutline (d : Descriptor) : List Piece := headingOutline d ++ contentOutline d

def groupOutline (g : String × List Descriptor) : List Piece :=
  ended (element "h3" (chars g.1)) ++ g.2.flatMap routeOutline

def outline (ds : List Descriptor) (config : RenderConfig) : List Piece :=
  headOutline config ++ openingOutline config ++ (Grouping.byTag ds).flatMap groupOutline ++
  ended [.tag "</body>"] ++ ended [.tag "</html>"]

theorem chars_append (s t : String) : chars (s ++ t) = chars s ++ chars t := by
  simp [chars]

theorem reads_line {s : String} {p : List Piece}
    (h : ∀ rest, read none (s.toList ++ rest) = p ++ read none rest) :
    Reads [line s] (ended p) := by
  refine Reads.markup fun rest => ?_
  rw [String.toList_append, List.append_assoc, h, ended, List.append_assoc]
  rfl

theorem reads_around {b s a : String} {p q : List Piece}
    (hb : ∀ rest, read none (b.toList ++ rest) = p ++ read none rest)
    (ha : ∀ rest, read none (a.toList ++ rest) = q ++ read none rest) :
    Reads (around b s a) (ended (p ++ chars s ++ q)) := by
  have h := ((Reads.markup hb).append (.text s)).append (reads_line ha)
  simpa [around, ended] using h

theorem reads_lines {lines : List String}
    (h : ∀ s ∈ lines, '&' ∉ s.toList ∧ '<' ∉ s.toList) :
    Reads (lines.map line) (lines.flatMap fun s => ended (chars s)) := by
  induction lines with
  | nil => exact .nil
  | cons s lines ih =>
    have hs := h s (by simp)
    have hmore := ih fun t ht => h t (List.mem_cons_of_mem s ht)
    exact (reads_line (read_text hs.1 hs.2)).append hmore

theorem reads_styleSheet :
    Reads (styleSheet.map line) (styleSheet.flatMap fun s => ended (chars s)) := by
  refine reads_lines ?_
  simp only [styleSheet, styleLines, List.tail_cons, List.dropLast, List.forall_mem_cons]
  repeat' constructor
  all_goals first | (rw [String.toList_ofList]; decide) | simp

theorem isTag_stampTag (t : String) : isTag (stampTag t) = true := by
  have hstart : stampStart.toList = '<' :: stampStart.toList.tail := by decide
  have hin : '>' ∉ stampStart.toList.tail ++ (escape t).toList ++ ['"'] := by
    have hescape := not_mem_escape (.inl rfl) t
    have hstart : '>' ∉ stampStart.toList.tail := by decide
    simp [hstart, hescape]
  have htag : (stampTag t).toList =
      '<' :: ((stampStart.toList.tail ++ (escape t).toList ++ ['"']) ++ ['>']) := by
    rw [stampTag, String.toList_append, String.toList_append, hstart]
    simp
  rw [isTag, htag, List.tail_cons, List.dropLast_concat]
  simpa using hin

theorem reads_tagLine {s : String} (h : isTag s = true) : Reads [line s] (ended [.tag s]) :=
  reads_line (read_isTag h)

theorem read_blanks (s : List Char) (rest : List Char) :
    read none (("    ".toList ++ s) ++ rest) = chars "    " ++ read none (s ++ rest) := by
  rw [List.append_assoc]
  exact read_text (by decide) (by decide) (s ++ rest)

theorem reads_insetTag {s : String} (h : isTag s = true) :
    Reads [line ("    " ++ s)] (inset [.tag s]) := by
  have hline := reads_line (s := "    " ++ s) (p := chars "    " ++ [.tag s]) fun rest => by
    rw [String.toList_append, read_blanks, read_isTag h, List.append_assoc]
    rfl
  rwa [ended, List.append_assoc] at hline

theorem reads_stamp (t : String) :
    Reads (around "    <meta name=\"generated-at\" content=\"" t "\">")
      (inset [.tag (stampTag t)]) := by
  have hw : written (around "    <meta name=\"generated-at\" content=\"" t "\">") =
      written [line ("    " ++ stampTag t)] := by
    simp [written, around, Part.render, line, stampTag, stampStart]
  have h := reads_insetTag (isTag_stampTag t)
  rwa [Reads, ← hw] at h

theorem reads_title (title : String) :
    Reads (around "    <title>" title "</title>") (inset (element "title" (chars title))) := by
  have h := reads_around (b := "    <title>") (a := "</title>") (s := title)
    (p := chars "    " ++ [.tag "<title>"]) (q := [.tag "</title>"])
    (fun rest => by
      have h := read_blanks "<title>".toList rest
      rwa [read_isTag (by decide)] at h)
    (read_isTag (by decide))
  simpa [inset, element, ended] using h

theorem reads_style :
    Reads (styleLines.map line) (inset (element "style" (chars "\n" ++
      styleSheet.flatMap (fun s => ended (chars s)) ++ chars "    ")) ++
      ended [.tag "</head>"]) := by
  have hstyle : styleLines =
      ("    " ++ "<style>") :: styleSheet ++ ["    " ++ "</style>", "</head>"] := rfl
  have h := ((reads_insetTag (s := "<style>") (by decide)).append reads_styleSheet).append
    ((reads_insetTag (s := "</style>") (by decide)).append
      (reads_tagLine (s := "</head>") (by decide)))
  rw [hstyle]
  simpa [inset, element, ended, chars] using h

theorem reads_head (config : RenderConfig) : Reads (head config) (headOutline config) := by
  have hopen := (reads_tagLine (s := "<!DOCTYPE html>") (by decide)).append <|
    (reads_tagLine (s := "<html lang=\"en\">") (by decide)).append <|
    (reads_tagLine (s := "<head>") (by decide)).append <|
    (reads_insetTag (s := "<meta charset=\"UTF-8\">") (by decide)).append <|
    reads_insetTag
      (s := "<meta name=\"viewport\" content=\"width=device-width, initial-scale=1.0\">")
      (by decide)
  unfold head headOutline
  cases config.stamp? with
  | none =>
    simpa using (hopen.append (reads_title config.title)).append reads_style
  | some t =>
    simpa using
      ((hopen.append (reads_stamp t)).append (reads_title config.title)).append reads_style

theorem reads_element {n s : String} (hopen : isTag ("<" ++ n ++ ">") = true)
    (hclose : isTag ("</" ++ n ++ ">") = true) :
    Reads (around ("<" ++ n ++ ">") s ("</" ++ n ++ ">")) (ended (element n (chars s))) := by
  have h := reads_around (s := s) (p := [.tag _]) (q := [.tag _]) (read_isTag hopen)
    (read_isTag hclose)
  simpa [element] using h

theorem reads_labelled {l b s : String}
    (h : ∀ rest, read none (b.toList ++ rest) =
      (.tag "<p>" :: element "strong" (chars l) ++ chars " ") ++ read none rest) :
    Reads (around b s "</p>") (labelled l (" " ++ s)) := by
  have hp := reads_around (s := s) (q := [.tag "</p>"]) h (read_isTag (by decide))
  simpa [labelled, element, ended, chars_append] using hp

theorem reads_label {l t : String}
    (h : ∀ rest, read none (t.toList ++ rest) =
      element "p" (element "strong" (chars l)) ++ read none rest) :
    Reads [line t] (labelled l "") := by
  have hline := reads_line h
  simpa [labelled, chars] using hline

theorem reads_server (s : Server) :
    Reads (server s) (ended (element "li" (chars (serverText s)))) := by
  have hopen : Reads [.markup "<li>"] [.tag "<li>"] := .markup (read_isTag (by decide))
  have hclose := reads_tagLine (s := "</li>") (by decide)
  have hdash : Reads [.markup " - "] (chars " - ") := .markup (read_text (by decide) (by decide))
  have hurl := hopen.append (.text s.url)
  unfold server serverText
  cases s.description with
  | none =>
    simpa [element, ended, chars_append] using hurl.append hclose
  | some d =>
    by_cases hd : d = ""
    · simpa [hd, element, ended, chars_append] using hurl.append hclose
    · simpa [hd, element, ended, chars_append] using
        (hurl.append (hdash.append (.text d))).append hclose

theorem reads_opening (config : RenderConfig) :
    Reads (opening config) (openingOutline config) := by
  have hbody := reads_tagLine (s := "<body>") (by decide)
  have htitle := reads_element (n := "h1") (s := config.title) (by decide) (by decide)
  have hdescription := reads_element (n := "p") (s := config.description) (by decide) (by decide)
  have hversion := reads_labelled (l := "Version:") (s := config.version)
    (b := "<p><strong>Version:</strong> ") fun rest => by simp [read, element, chars]
  have hendpoints := reads_line (s := "<h2>Endpoints</h2>")
    (p := element "h2" (chars "Endpoints")) fun rest => by simp [read, element, chars]
  have hservers := reads_line (s := "<h2>Servers</h2>") (p := element "h2" (chars "Servers"))
    fun rest => by simp [read, element, chars]
  have hlist := (reads_tagLine (s := "<ul>") (by decide)).append
    ((Reads.flatMap reads_server config.servers).append (reads_tagLine (s := "</ul>") (by decide)))
  have hfirst := ((hbody.append htitle).append hdescription).append hversion
  unfold opening openingOutline
  split
  · simpa using hfirst.append hendpoints
  · simpa using (hfirst.append (hservers.append hlist)).append hendpoints

theorem reads_rowStart : Reads [.markup "<tr><td>"] [.tag "<tr>", .tag "<td>"] :=
  .markup fun _ => rfl

theorem reads_rowEnd : Reads [line "</td></tr>"] (ended [.tag "</td>", .tag "</tr>"]) :=
  reads_line fun _ => rfl

theorem reads_nextCell (s : String) :
    Reads [.markup "</td><td>", .text s] (.tag "</td>" :: .tag "<td>" :: chars s) := by
  have hbetween : Reads [.markup "</td><td>"] [.tag "</td>", .tag "<td>"] := .markup fun _ => rfl
  exact hbetween.append (.text s)

theorem reads_paramRow (p : Param) : Reads (paramRow p) (ended (cells "td" (paramCells p))) := by
  have h := (((((reads_rowStart.append (.text p.name)).append (reads_nextCell p.type)).append
    (reads_nextCell (if p.required then "Yes" else "No"))).append
    (reads_nextCell (orDash p.description))).append reads_rowEnd)
  simpa [paramRow, cells, paramCells, element, ended] using h

theorem reads_responseRow (r : String × String) :
    Reads (responseRow r) (ended (cells "td" (responseCells r))) := by
  have h := ((reads_rowStart.append (.text r.1)).append (reads_nextCell (orDash r.2))).append
    reads_rowEnd
  simpa [responseRow, cells, responseCells, element, ended] using h

theorem reads_table {t : String} {c : List String} {rows : List (List String)} {body : List Part}
    (hhead : ∀ rest, read none (t.toList ++ rest) =
      element "thead" (cells "th" c) ++ read none rest)
    (hbody : Reads body (rows.flatMap fun row => ended (cells "td" row))) :
    Reads ([line "<table>", line t, line "<tbody>"] ++ body ++
      [line "</tbody>", line "</table>"]) (tableOutline c rows) := by
  have h := ((((reads_tagLine (s := "<table>") (by decide)).append (reads_line hhead)).append
    (reads_tagLine (s := "<tbody>") (by decide))).append hbody).append
    ((reads_tagLine (s := "</tbody>") (by decide)).append
      (reads_tagLine (s := "</table>") (by decide)))
  simpa [tableOutline] using h

theorem reads_parameters (ps : List Param) :
    Reads (parameters ps) (if ps.isEmpty then [] else labelled "Parameters:" "" ++
      tableOutline ["Name", "Type", "Required", "Description"] (ps.map paramCells)) := by
  have hlabel := reads_label (l := "Parameters:")
    (t := "<p><strong>Parameters:</strong></p>") fun rest => by simp [read, element, chars]
  have hrows : Reads (ps.flatMap paramRow)
      ((ps.map paramCells).flatMap fun row => ended (cells "td" row)) := by
    rw [List.flatMap_map]
    exact .flatMap reads_paramRow ps
  have htable := reads_table (c := ["Name", "Type", "Required", "Description"])
    (t := "<thead><tr><th>Name</th><th>Type</th><th>Required</th><th>Description</th></tr></thead>")
    (fun rest => by rw [String.toList_ofList]; simp [read, cells, element, chars]) hrows
  unfold parameters
  split
  · exact .nil
  · simpa using hlabel.append htable

theorem reads_responses (rs : List (String × String)) :
    Reads (responses rs) (labelled "Responses:" "" ++
      tableOutline ["Status", "Description"] (rs.map responseCells)) := by
  have hlabel := reads_label (l := "Responses:")
    (t := "<p><strong>Responses:</strong></p>") fun rest => by simp [read, element, chars]
  have hrows : Reads (rs.flatMap responseRow)
      ((rs.map responseCells).flatMap fun row => ended (cells "td" row)) := by
    rw [List.flatMap_map]
    exact .flatMap reads_responseRow rs
  have htable := reads_table (c := ["Status", "Description"])
    (t := "<thead><tr><th>Status</th><th>Description</th></tr></thead>")
    (fun rest => by rw [String.toList_ofList]; simp [read, cells, element, chars]) hrows
  simpa [responses] using hlabel.append htable

theorem reads_security (schemes : List String) :
    Reads (security schemes) (if schemes.isEmpty then []
      else labelled "Security:" (" " ++ ", ".intercalate schemes)) := by
  unfold security
  split
  · exact .nil
  · exact reads_labelled fun rest => by simp [read, element, chars]

theorem reads_paragraph (s : String) : Reads (paragraph s) (paragraphOutline s) := by
  unfold paragraph paragraphOutline
  split
  · exact .nil
  · exact reads_element (n := "p") (by decide) (by decide)

theorem reads_heading (d : Descriptor) : Reads (heading d) (headingOutline d) := by
  -- The names of the methods and colours need no escapes.
  have htag : Reads [.markup "<h4><span class=\"method method-", .text d.method.name, .markup " ",
      .text (Method.badge d.method.name), .markup "\">"]
      [.tag "<h4>", .tag (badgeTag d.method)] := by
    intro rest
    cases d.method <;> rfl
  have hclose : Reads [.markup "</span> "] (.tag "</span>" :: chars " ") := .markup fun _ => rfl
  have hend := reads_tagLine (s := "</h4>") (by decide)
  have h := (((htag.append (.text d.method.name)).append hclose).append (.text d.path)).append hend
  simpa [heading, headingOutline, element, ended, chars_append] using h

theorem reads_route (d : Descriptor) : Reads (route d) (routeOutline d) := by
  have h := ((((((reads_heading d).append (reads_paragraph d.summary)).append
    (reads_paragraph d.description)).append (reads_parameters d.parameters)).append
    (reads_responses d.responses)).append (reads_security d.security)).append
    (reads_tagLine (s := "<hr>") (by decide))
  simpa [route, routeOutline, contentOutline] using h

theorem reads_group (g : String × List Descriptor) : Reads (group g) (groupOutline g) :=
  (reads_element (n := "h3") (by decide) (by decide)).append (.flatMap reads_route g.2)

/-- The page shows its outline and nothing else. -/
theorem pieces_render (ds : List Descriptor) (config : RenderConfig) :
    pieces (render ds config) = outline ds config := by
  have h := (((reads_head config).append (reads_opening config)).append
    (.flatMap reads_group (Grouping.byTag ds))).append
    ((reads_tagLine (s := "</body>") (by decide)).append
      (reads_tagLine (s := "</html>") (by decide)))
  refine Reads.pieces ?_
  simpa [page, outline] using h

end RouteBook.Html

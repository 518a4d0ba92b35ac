import RouteBook.Config
import RouteBook.Grouping

/-! The Markdown document: one section a tag, one subsection a route. -/
namespace RouteBook.Markdown

/-- Text in a table cell: bars are escaped and line feeds become blanks. -/
def cell (s : String) : String :=
  String.ofList (s.toList.flatMap fun c =>
    if c = '|' then ['\\', '|'] else if c = '\n' then [' '] else [c])

def cellOrDash (s : String) : String := if cell s = "" then "-" else cell s

def paramRow (p : Param) : String :=
  "| " ++ cell p.name ++ " | " ++ cell p.type ++ " | " ++ (if p.required then "Yes" else "No") ++
    " | " ++ cellOrDash p.description ++ " |"

def responseRow (r : String × String) : String :=
  "| " ++ r.1 ++ " | " ++ cellOrDash r.2 ++ " |"

def paragraph (s : String) : List String := if s = "" then [] else [s, ""]

def heading (d : Descriptor) : String := "#### " ++ d.method.name ++ " " ++ d.path

def route (d : Descriptor) : List String :=
  [heading d, ""] ++ paragraph d.summary ++ paragraph d.description ++
  (if d.parameters.isEmpty then []
   else ["**Parameters:**", "", "| Name | Type | Required | Description |",
     "|------|------|----------|-------------|"] ++ d.parameters.map paramRow ++ [""]) ++
  ["**Responses:**", "", "| Status | Description |", "|--------|-------------|"] ++
  d.responses.map responseRow ++ [""] ++
  (if d.security.isEmpty then []
   else ["**Security:** " ++ ", ".intercalate d.security, ""]) ++
  ["---", ""]

def serverLine (s : Server) : String :=
  "- " ++ s.url ++ match s.description with
    | some d => if d = "" then "" else " - " ++ d
    | none => ""

def preamble (config : RenderConfig) : List String :=
  ["# " ++ config.title, "", config.description, "", "**Version:** " ++ config.version, ""] ++
  (match config.stamp? with
    | some t => ["_Generated: " ++ t ++ "_", ""]
    | none => []) ++
  (if config.servers.isEmpty then []
   else ["## Servers", ""] ++ config.servers.map serverLine ++ [""]) ++
  ["## Endpoints", ""]

def group (g : String × List Descriptor) : List String :=
  ["### " ++ g.1, ""] ++ g.2.flatMap route

def render (ds : List Descriptor) (config : RenderConfig) : String :=
  "\n".intercalate (preamble config ++ (Grouping.byTag ds).flatMap group)

end RouteBook.Markdown

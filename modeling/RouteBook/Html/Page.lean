import RouteBook.Config
import RouteBook.Grouping
import RouteBook.Html.Basic
import RouteBook.Html.Style

/-! The hypertext page: the same sections as the Markdown document, self-contained. -/
namespace RouteBook.Html

def line (s : String) : Part := .markup (s ++ "\n")

def around (before : String) (s : String) (after : String) : List Part :=
  [.markup before, .text s, line after]

def orDash (s : String) : String := if s = "" then "-" else s

def paragraph (s : String) : List Part := if s = "" then [] else around "<p>" s "</p>"

def head (config : RenderConfig) : List Part :=
  [line "<!DOCTYPE html>", line "<html lang=\"en\">", line "<head>",
   line "    <meta charset=\"UTF-8\">",
   line "    <meta name=\"viewport\" content=\"width=device-width, initial-scale=1.0\">"] ++
  (match config.stamp? with
    | some t => around "    <meta name=\"generated-at\" content=\"" t "\">"
    | none => []) ++
  around "    <title>" config.title "</title>" ++ styleLines.map line

def server (s : Server) : List Part :=
  [.markup "<li>", .text s.url] ++
  (match s.description with
    | some d => if d = "" then [] else [.markup " - ", .text d]
    | none => []) ++
  [line "</li>"]

def opening (config : RenderConfig) : List Part :=
  [line "<body>"] ++ around "<h1>" config.title "</h1>" ++
  around "<p>" config.description "</p>" ++
  around "<p><strong>Version:</strong> " config.version "</p>" ++
  (if config.servers.isEmpty then []
   else [line "<h2>Servers</h2>", line "<ul>"] ++ config.servers.flatMap server ++
     [line "</ul>"]) ++
  [line "<h2>Endpoints</h2>"]

def heading (d : Descriptor) : List Part :=
  [.markup "<h4><span class=\"method method-", .text d.method.name, .markup " ",
   .text (Method.badge d.method.name), .markup "\">", .text d.method.name, .markup "</span> ",
   .text d.path, line "</h4>"]

def paramRow (p : Param) : List Part :=
  [.markup "<tr><td>", .text p.name, .markup "</td><td>", .text p.type, .markup "</td><td>",
   .text (if p.required then "Yes" else "No"), .markup "</td><td>", .text (orDash p.description),
   line "</td></tr>"]

def responseRow (r : String × String) : List Part :=
  [.markup "<tr><td>", .text r.1, .markup "</td><td>", .text (orDash r.2), line "</td></tr>"]

def parameters (ps : List Param) : List Part :=
  if ps.isEmpty then []
  else
    [line "<p><strong>Parameters:</strong></p>", line "<table>",
     line "<thead><tr><th>Name</th><th>Type</th><th>Required</th><th>Description</th></tr></thead>",
     line "<tbody>"] ++ ps.flatMap paramRow ++ [line "</tbody>", line "</table>"]

def responses (rs : List (String × String)) : List Part :=
  [line "<p><strong>Responses:</strong></p>", line "<table>",
   line "<thead><tr><th>Status</th><th>Description</th></tr></thead>", line "<tbody>"] ++
  rs.flatMap responseRow ++ [line "</tbody>", line "</table>"]

def security (schemes : List String) : List Part :=
  if schemes.isEmpty then []
  else around "<p><strong>Security:</strong> " (", ".intercalate schemes) "</p>"

def route (d : Descriptor) : List Part :=
  heading d ++ paragraph d.summary ++ paragraph d.description ++ parameters d.parameters ++
  responses d.responses ++ security d.security ++ [line "<hr>"]

def group (g : String × List Descriptor) : List Part :=
  around "<h3>" g.1 "</h3>" ++ g.2.flatMap route

def page (ds : List Descriptor) (config : RenderConfig) : List Part :=
  head config ++ opening config ++ (Grouping.byTag ds).flatMap group ++
  [line "</body>", line "</html>"]

def render (ds : List Descriptor) (config : RenderConfig) : String :=
  renderParts (page ds config)

end RouteBook.Html

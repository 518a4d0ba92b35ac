import RouteBook.Html.Page
import RouteBook.Markdown
import RouteBook.OpenApi

/-! The time of generation in the documents. Each document is cut where the time may stand; what
comes before and after the cut does not depend on it. Main statement: the time adds one member, one
paragraph or one line there and changes nothing else. -/
namespace RouteBook

namespace RenderConfig
variable {config : RenderConfig} {t : String}

def stampedAt (config : RenderConfig) (t : String) : RenderConfig :=
  { config with generatedAt := some t }

theorem stamp?_of_none (h : config.generatedAt = none) : config.stamp? = none := by
  rw [stamp?, h]
  rfl

theorem stamp?_stampedAt (ht : t ≠ "") : (config.stampedAt t).stamp? = some t := by
  simp [stamp?, stampedAt, ht]

end RenderConfig

namespace OpenApi

def timelessInfo (config : RenderConfig) : List (String × Value) :=
  [("title", .str config.title), ("version", .str config.version),
   ("description", .str config.description)]

def afterInfo (ds : List Descriptor) (config : RenderConfig) : List (String × Value) :=
  [("servers", .list (config.servers.map server)), ("paths", pathsValue (fill ds).paths),
   ("components", object [("schemas", object []), ("securitySchemes", object [])])]

def stampMember : Option String → List (String × Value)
  | some t => [("x-generated-at", .str t)]
  | none => []

theorem build_eq (ds : List Descriptor) (config : RenderConfig) :
    build ds config =
      (object (("openapi", .str specVersion) ::
        ("info", object (timelessInfo config ++ stampMember config.stamp?)) :: afterInfo ds config),
      (fill ds).skipped.reverse.map skippedRecord) := by
  rw [build, info]
  cases config.stamp? <;> rfl

end OpenApi

namespace Markdown

def top (config : RenderConfig) : List String :=
  ["# " ++ config.title, "", config.description, "", "**Version:** " ++ config.version, ""]

def bottom (ds : List Descriptor) (config : RenderConfig) : List String :=
  (if config.servers.isEmpty then []
   else ["## Servers", ""] ++ config.servers.map serverLine ++ [""]) ++
  (["## Endpoints", ""] ++ (Grouping.byTag ds).flatMap group)

def stampItems : Option String → List String
  | some t => ["_Generated: " ++ t ++ "_", ""]
  | none => []

def stampText (t : String) : String := "_Generated: " ++ t ++ "_\n\n"

theorem items_cut (ds : List Descriptor) (config : RenderConfig) :
    preamble config ++ (Grouping.byTag ds).flatMap group =
      top config ++ (stampItems config.stamp? ++ bottom ds config) := by
  rw [preamble]
  cases config.stamp? <;> simp [top, stampItems, bottom]

theorem render_cut (ds : List Descriptor) (config : RenderConfig) :
    render ds config = ("\n".intercalate (top config) ++ "\n") ++
      ((config.stamp?.map stampText).getD "" ++ "\n".intercalate (bottom ds config)) := by
  have htop : top config ≠ [] := by simp [top]
  have hbottom : bottom ds config ≠ [] := by simp [bottom]
  rw [render, items_cut]
  cases config.stamp? with
  | none =>
    rw [stampItems, List.nil_append, String.intercalate_append_of_ne_nil htop hbottom]
    simp
  | some t =>
    have hline : "\n".intercalate (stampItems (some t)) ++ "\n" = stampText t := by
      simp [stampItems, stampText, String.append_assoc]
    rw [String.intercalate_append_of_ne_nil htop (by simp [stampItems]),
      String.intercalate_append_of_ne_nil (by simp [stampItems]) hbottom, hline]
    rfl

end Markdown

namespace Html

theorem renderParts_append (ps qs : List Part) :
    renderParts (ps ++ qs) = renderParts ps ++ renderParts qs := by
  rw [renderParts, List.map_append, String.join_append]
  rfl

theorem renderParts_line (ps : List Part) (s : String) :
    renderParts (ps ++ [line s]) = (renderParts ps ++ s) ++ "\n" := by
  rw [renderParts_append]
  simp [renderParts, line, Part.render, String.append_assoc]

def top : List Part :=
  [line "<!DOCTYPE html>", line "<html lang=\"en\">", line "<head>",
   line "    <meta charset=\"UTF-8\">"]

/-- The last line before the time. -/
def viewport : String :=
  "    <meta name=\"viewport\" content=\"width=device-width, initial-scale=1.0\">"

def bottom (ds : List Descriptor) (config : RenderConfig) : List Part :=
  around "    <title>" config.title "</title>" ++ styleLines.map line ++ opening config ++
  (Grouping.byTag ds).flatMap group ++ [line "</body>", line "</html>"]

def stampParts : Option String → List Part
  | some t => around "    <meta name=\"generated-at\" content=\"" t "\">"
  | none => []

def stampLine (t : String) : String :=
  "    <meta name=\"generated-at\" content=\"" ++ escape t ++ "\">\n"

theorem renderParts_around (before s after : String) :
    renderParts (around before s after) = before ++ escape s ++ (after ++ "\n") := by
  simp [renderParts, around, line, Part.render, String.append_assoc]

theorem renderParts_stampParts (stamp : Option String) :
    renderParts (stampParts stamp) = (stamp.map stampLine).getD "" := by
  cases stamp with
  | none => simp [renderParts, stampParts]
  | some t =>
    rw [stampParts, renderParts_around]
    rfl

theorem page_cut (ds : List Descriptor) (config : RenderConfig) :
    page ds config =
      (top ++ [line viewport]) ++ (stampParts config.stamp? ++ bottom ds config) := by
  rw [page, head]
  cases config.stamp? <;> simp [top, viewport, stampParts, bottom]

theorem render_cut (ds : List Descriptor) (config : RenderConfig) :
    render ds config = ((renderParts top ++ viewport) ++ "\n") ++
      ((config.stamp?.map stampLine).getD "" ++ renderParts (bottom ds config)) := by
  rw [render, page_cut, renderParts_append, renderParts_line, renderParts_append,
    renderParts_stampParts]

end Html

/-- A time of generation adds a last member to the information of the API document, a paragraph to
the Markdown document and a line to the page, and leaves all else as it is. -/
theorem time_stands_in_one_place (ds : List Descriptor) (config : RenderConfig)
    (h : config.generatedAt = none) :
    (∃ info after records,
      OpenApi.build ds config = (OpenApi.object (("openapi", .str OpenApi.specVersion) ::
        ("info", OpenApi.object info) :: after), records) ∧
      "x-generated-at" ∉ info.map Prod.fst ∧
      ∀ t, t ≠ "" → OpenApi.build ds (config.stampedAt t) =
        (OpenApi.object (("openapi", .str OpenApi.specVersion) ::
          ("info", OpenApi.object (info ++ [("x-generated-at", .str t)])) :: after), records)) ∧
    (∃ before after, Markdown.render ds config = (before ++ "\n") ++ after ∧
      ∀ t, t ≠ "" → Markdown.render ds (config.stampedAt t) =
        (before ++ "\n") ++ ("_Generated: " ++ t ++ "_\n\n") ++ after) ∧
    (∃ before after, Html.render ds config = (before ++ "\n") ++ after ∧
      ∀ t, t ≠ "" → Html.render ds (config.stampedAt t) = (before ++ "\n") ++
        ("    <meta name=\"generated-at\" content=\"" ++ Html.escape t ++ "\">\n") ++ after) := by
  have hnone := RenderConfig.stamp?_of_none h
  refine ⟨?_, ?_, ?_⟩
  · refine ⟨OpenApi.timelessInfo config, OpenApi.afterInfo ds config,
      (OpenApi.fill ds).skipped.reverse.map OpenApi.skippedRecord, ?_,
      by simp [OpenApi.timelessInfo], ?_⟩
    · rw [OpenApi.build_eq, hnone, OpenApi.stampMember, List.append_nil]
    · intro t ht
      rw [OpenApi.build_eq, RenderConfig.stamp?_stampedAt ht]
      rfl
  · refine ⟨"\n".intercalate (Markdown.top config), "\n".intercalate (Markdown.bottom ds config),
      ?_, ?_⟩
    · rw [Markdown.render_cut, hnone]
      simp
    · intro t ht
      rw [Markdown.render_cut, RenderConfig.stamp?_stampedAt ht, ← String.append_assoc]
      rfl
  · refine ⟨Html.renderParts Html.top ++ Html.viewport, Html.renderParts (Html.bottom ds config),
      ?_, ?_⟩
    · rw [Html.render_cut, hnone]
      simp
    · intro t ht
      rw [Html.render_cut, RenderConfig.stamp?_stampedAt ht, ← String.append_assoc]
      rfl

/-- Settings and a route whose texts look like a time of generation. -/
def lookalike : RenderConfig :=
  { title := "<meta name=\"generated-at\" content=\"\">", description := "_Generated: t_" }

def lookalikeRoute : Descriptor :=
  { method := .get, path := "/", summary := "_Generated: t_", responses := [("200", "")],
    operationId := "a" }

theorem time_stands_in_one_place_lookalike :
    lookalike.generatedAt = none ∧ "<t>" ≠ "" ∧
    ∃ before after, Html.render [lookalikeRoute] lookalike = (before ++ "\n") ++ after ∧
      Html.render [lookalikeRoute] (lookalike.stampedAt "<t>") = (before ++ "\n") ++
        ("    <meta name=\"generated-at\" content=\"" ++ Html.escape "<t>" ++ "\">\n") ++
          after := by
  have ht : "<t>" ≠ "" := by decide
  obtain ⟨-, -, before, after, hplain, hstamped⟩ :=
    time_stands_in_one_place [lookalikeRoute] lookalike rfl
  exact ⟨rfl, ht, before, after, hplain, hstamped "<t>" ht⟩

end RouteBook

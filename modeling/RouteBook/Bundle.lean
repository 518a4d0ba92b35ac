import RouteBook.Html.Page
import RouteBook.Json.Printer
import RouteBook.Markdown
import RouteBook.OpenApi
import RouteBook.Yaml.Printer

/-! All documents of an API by file name. -/
namespace RouteBook.Bundle

inductive Format where
  | openapi | markdown | html
deriving Repr, DecidableEq

def Format.all : List Format := [.openapi, .markdown, .html]

def Format.name : Format → String
  | openapi => "openapi"
  | markdown => "markdown"
  | html => "html"

def Format.ofName? (s : String) : Option Format := Format.all.find? (·.name == s)

inductive RenderError where
  | noRoutes
  | unknownFormat (name : String)
deriving Repr, DecidableEq

def RenderError.message : RenderError → String
  | noRoutes => "No routes to document"
  | unknownFormat name => "Unknown output format: " ++ name

abbrev Documents := List (String × String)

def documents (ds : List Descriptor) (config : RenderConfig) :
    Format → Documents × List LogRecord
  | .openapi =>
    let (doc, records) := OpenApi.build ds config
    ([("openapi.json", Json.print doc), ("openapi.yaml", Yaml.print doc)], records)
  | .markdown => ([("API.md", Markdown.render ds config)], [])
  | .html => ([("index.html", Html.render ds config)], [])

def renderFormats (ds : List Descriptor) (config : RenderConfig) (formats : List Format) :
    Documents × List LogRecord :=
  formats.foldl
    (fun (files, logs) f =>
      let (more, records) := documents ds config f
      (Pairs.update files more, logs ++ records))
    ([], [])

def render (ds : List Descriptor) (config : RenderConfig) (names : List String) :
    Except RenderError (Documents × List LogRecord) :=
  if ds.isEmpty then .error .noRoutes
  else do
    let formats ← names.mapM fun n => match Format.ofName? n with
      | some f => .ok f
      | none => .error (.unknownFormat n)
    return renderFormats ds config formats

end RouteBook.Bundle

import RouteBook.Config
import RouteBook.Descriptor
import RouteBook.LogRecord

/-! The OpenAPI document of a list of descriptors. The first descriptor for a path and method
wins; each later one is reported. -/
namespace RouteBook.OpenApi

def specVersion : String := "3.0.0"

def object (fields : List (String × Value)) : Value :=
  .map (fields.map fun p => (.str p.1, p.2))

def parameter (p : Param) : Value := object [
  ("name", .str p.name), ("in", .str p.location), ("required", .bool p.required),
  ("description", .str p.description),
  ("schema", object [("type", .str (Text.lower p.type))])]

def operation (d : Descriptor) : Value := object ([
  ("summary", .str d.summary), ("description", .str d.description),
  ("operationId", .str d.operationId), ("tags", Field.ofTexts d.tags),
  ("parameters", .list (d.parameters.map parameter)),
  ("responses", object (d.responses.map fun r => (r.1, object [("description", .str r.2)])))] ++
  if d.security.isEmpty then []
  else [("security", .list (d.security.map fun s => object [(s, .list [])]))])

abbrev Paths := List (String × List (String × Descriptor))

structure Board where
  paths : Paths := []
  skipped : List Descriptor := []

/-- Enters a descriptor unless its path and method are taken. -/
def Board.add (b : Board) (d : Descriptor) : Board :=
  let methods := (Pairs.get? d.path b.paths).getD []
  if Pairs.contains d.method.key methods then { b with skipped := d :: b.skipped }
  else { b with paths := Pairs.put d.path (methods ++ [(d.method.key, d)]) b.paths }

def fill (ds : List Descriptor) : Board := ds.foldl Board.add {}

def skippedRecord (d : Descriptor) : LogRecord :=
  { level := .warning, source := .apiDocument,
    message := "Duplicate route " ++ d.method.name ++ " " ++ d.path ++ " in " ++ d.file ++
      " ignored in OpenAPI output" }

def server (s : Server) : Value := object (("url", .str s.url) ::
  match s.description with
  | some d => [("description", .str d)]
  | none => [])

def info (config : RenderConfig) : Value := object ([
  ("title", .str config.title), ("version", .str config.version),
  ("description", .str config.description)] ++
  match config.stamp? with
  | some t => [("x-generated-at", .str t)]
  | none => [])

def pathsValue (paths : Paths) : Value :=
  object (paths.map fun p => (p.1, object (p.2.map fun m => (m.1, operation m.2))))

/-- The document and the reports, in list order. -/
def build (ds : List Descriptor) (config : RenderConfig) : Value × List LogRecord :=
  let board := fill ds
  (object [
    ("openapi", .str specVersion), ("info", info config),
    ("servers", .list (config.servers.map server)), ("paths", pathsValue board.paths),
    ("components", object [("schemas", object []), ("securitySchemes", object [])])],
   board.skipped.reverse.map skippedRecord)

end RouteBook.OpenApi

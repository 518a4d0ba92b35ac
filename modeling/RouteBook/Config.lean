import RouteBook.Field

/-! Document-level settings shared by all renderers. -/
namespace RouteBook

structure Server where
  url : String
  description : Option String := none
deriving Repr, DecidableEq

structure RenderConfig where
  title : String := "API Documentation"
  version : String := "1.0.0"
  description : String := "Auto-generated API documentation"
  servers : List Server := []
  /-- The time of generation, the only time that a document may show. -/
  generatedAt : Option String := none
deriving Repr, DecidableEq

open RouteBook.Field

def Server.ofFields (fields : Fields) : Checked Server :=
  Server.mk <$> needed "url" text fields <*> orElse "description" optionalText none fields

def RenderConfig.ofFields (fields : Fields) : Checked RenderConfig :=
  let std : RenderConfig := {}
  RenderConfig.mk <$> orElse "title" text std.title fields <*>
    orElse "version" text std.version fields <*>
    orElse "description" text std.description fields <*>
    orElse "servers" (listOf (record "Server" Server.ofFields)) std.servers fields <*>
    orElse "generated_at" optionalText std.generatedAt fields

def Server.toFields (s : Server) : Fields :=
  [(.str "url", .str s.url), (.str "description", match s.description with
    | some d => .str d
    | none => .null)]

def RenderConfig.toFields (c : RenderConfig) : Fields :=
  [(.str "title", .str c.title), (.str "version", .str c.version),
   (.str "description", .str c.description),
   (.str "servers", .list (c.servers.map fun s => .map s.toFields)),
   (.str "generated_at", match c.generatedAt with
    | some t => .str t
    | none => .null)]

/-- The time to be shown: an empty one is not. -/
def RenderConfig.stamp? (c : RenderConfig) : Option String :=
  c.generatedAt.filter (· != "")

end RouteBook

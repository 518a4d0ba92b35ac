import RouteBook.OperationId

/-! Endpoints: a route and its comment become one descriptor. -/
namespace RouteBook.Endpoint

def isNameChar (c : Char) : Bool := c.isAlphanum || c == '_' || c == '$'

/-- The names after colons, from left to right; each name is as long as it can be. -/
def placeholdersIn : List Char → List String
  | [] => []
  | ':' :: rest =>
    match rest.takeWhile isNameChar with
    | [] => placeholdersIn rest
    | name => String.ofList name :: placeholdersIn (rest.drop name.length)
  | _ :: rest => placeholdersIn rest
termination_by s => s.length
decreasing_by all_goals (simp only [List.length_cons, List.length_drop]; omega)

def placeholders (path : String) : List String := (placeholdersIn path.toList).eraseDups

def defaultResponses : List (String × String) :=
  [("200", "Successful response"), ("400", "Bad request"), ("500", "Internal server error")]

def paramOf (names : List String) (p : DocParam) : Param :=
  { name := p.name
    location := if names.contains p.name then "path" else "query"
    required := p.required
    type := p.type
    description := p.description
    default := p.default }

/-- The path of an endpoint: the one its comment states, else the one registered. -/
def pathOf (route : RouteFact) (doc : Option DocFact) : String :=
  match doc.bind (·.explicitPath) with
  | some p => if p = "" then route.path else p
  | none => route.path

def draft (route : RouteFact) (doc : Option DocFact) : Descriptor :=
  let path := pathOf route doc
  let base : Descriptor :=
    { method := route.method
      path
      handlers := route.handlers
      position := route.position
      file := route.file
      summary := route.method.name ++ " " ++ path
      responses := defaultResponses
      operationId := OperationId.make route.method.name path }
  match doc with
  | none => base
  | some d =>
    { base with
      summary := if d.summary = "" then base.summary else d.summary
      description := d.description
      parameters := d.parameters.map (paramOf (placeholders path))
      responses := if d.responses.isEmpty then defaultResponses else d.responses
      tags := d.tags
      security := d.security
      documented := true }

def normalize (route : RouteFact) (doc : Option DocFact) : Checked Descriptor :=
  (draft route doc).check

end RouteBook.Endpoint

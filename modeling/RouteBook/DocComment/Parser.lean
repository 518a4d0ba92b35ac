import RouteBook.DocComment.Entry
import RouteBook.Pairs

/-! Reading a documentation comment. The lines are taken in order: the last summary and the last
well-formed route line win, a description line starts the description anew, responses keep the
place of their first line, and tags are listed once. -/
namespace RouteBook.DocComment

structure Draft where
  hasRoute : Bool := false
  summary : String := ""
  routeSummary : String := ""
  explicitPath : Option String := none
  /-- The parts of the description, last first. -/
  parts : List String := []
  /-- Whether free text belongs to the description. -/
  collecting : Bool := true
  parameters : List DocParam := []
  responses : List (String × String) := []
  tags : List String := []
  security : List String := []
deriving Repr, DecidableEq

def Draft.add (d : Draft) (e : Entry) : Draft :=
  match e with
  | .text s => if d.collecting && s != "" then { d with parts := s :: d.parts } else d
  | .route rest path =>
    match path with
    | some p =>
      { d with hasRoute := true, collecting := false, routeSummary := rest, explicitPath := some p }
    | none => { d with hasRoute := true, collecting := false }
  | .summary s => { d with collecting := false, summary := s }
  | .description s => { d with collecting := true, parts := if s = "" then [] else [s] }
  | .param p => { d with collecting := false, parameters := d.parameters ++ [p] }
  | .response code s => { d with collecting := false, responses := Pairs.put code s d.responses }
  | .tag s =>
    if s = "" ∨ s ∈ d.tags then { d with collecting := false }
    else { d with collecting := false, tags := d.tags ++ [s] }
  | .security s =>
    if s = "" then { d with collecting := false }
    else { d with collecting := false, security := d.security ++ [s] }
  | .other => { d with collecting := false }

/-- The fact that a draft amounts to, if a route line was among the lines. -/
def Draft.toFact? (d : Draft) (endPosition : Int) : Option DocFact :=
  if d.hasRoute then
    some {
      summary := if d.summary = "" then d.routeSummary else d.summary
      description := " ".intercalate d.parts.reverse
      explicitPath := d.explicitPath
      parameters := d.parameters
      responses := d.responses
      tags := d.tags
      security := d.security
      endPosition }
  else none

def parse? (text : String) (endPosition : Int) : Option DocFact :=
  ((lines text).foldl (fun (d : Draft) line => d.add (Entry.ofLine line)) {}).toFact? endPosition

end RouteBook.DocComment

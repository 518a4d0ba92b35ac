import RouteBook.DocComment.Basic
import RouteBook.RouteFact
import RouteBook.Field

/-! The description of an endpoint, which every renderer takes; and the records that lead to it,
read from loose field values and shown as fields. -/
namespace RouteBook

/-- A documented parameter with its place, `path` or `query`. -/
structure Param where
  name : String
  location : String
  required : Bool
  type : String
  description : String := ""
  default : Option String := none
deriving Repr, DecidableEq

structure Descriptor where
  method : Method
  path : String
  handlers : List String := []
  position : Int := 0
  file : String := ""
  summary : String
  description : String := ""
  parameters : List Param := []
  responses : List (String × String)
  tags : List String := []
  security : List String := []
  operationId : String
  documented : Bool := false
deriving Repr, DecidableEq

/-- A status code: three decimal digits, with at most a line feed after them. -/
def isStatusCode (code : String) : Bool :=
  match code.toList with
  | a :: b :: c :: rest =>
    Text.isDigit a && Text.isDigit b && Text.isDigit c && (rest == [] || rest == ['\n'])
  | _ => false

namespace Descriptor

def pathFault (path : String) : Option String :=
  if path = "" then some "route path must not be empty" else none

/-- What is wrong with a list of responses: its first key that is no status code. -/
def responsesFault (responses : List (String × String)) : Option String :=
  (responses.find? fun r => !isStatusCode r.1).map fun r =>
    "response key " ++ Text.quoted r.1 ++ " is not a 3-digit status code"

def check (d : Descriptor) : Checked Descriptor :=
  (fun _ _ => d) <$> ((Checked.ok d.path).ensure pathFault).under "path" <*>
    ((Checked.ok d.responses).ensure responsesFault).under "responses"

end Descriptor

namespace Field

def methodText (s : String) : Checked Method :=
  match Method.ofName? s with
  | some m => .ok m
  | none => .issue .notMethod

def methodName : Reader Method
  | .str s => methodText s
  | .bytes b => match Text.decode? b with
    | some s => methodText (String.ofList s)
    | none => .issue .notMethod
  | .halves _ => .issue .notUnicode
  | _ => .issue .notMethod

end Field

open RouteBook.Field

def RouteFact.ofFields (fields : Fields) : Checked RouteFact :=
  RouteFact.mk <$> needed "method" methodName fields <*> needed "path" text fields <*>
    orElse "handler_names" (tupleOf text) [] fields <*>
    needed "source_position" integer fields <*> orElse "file" text "" fields

def DocParam.ofFields (fields : Fields) : Checked DocParam :=
  DocParam.mk <$> needed "name" text fields <*> needed "type" text fields <*>
    orElse "required" flag true fields <*> orElse "description" text "" fields <*>
    orElse "default" optionalText none fields

def DocFact.ofFields (fields : Fields) : Checked DocFact :=
  DocFact.mk <$> orElse "summary" text "" fields <*> orElse "description" text "" fields <*>
    orElse "explicit_path" optionalText none fields <*>
    orElse "parameters" (tupleOf (record "DocParam" DocParam.ofFields)) [] fields <*>
    orElse "responses" textMapping [] fields <*> orElse "tags" (tupleOf text) [] fields <*>
    orElse "security" (tupleOf text) [] fields <*>
    needed "comment_end_position" integer fields

def Param.ofFields (fields : Fields) : Checked Param :=
  Param.mk <$> needed "name" text fields <*> needed "location" text fields <*>
    needed "required" flag fields <*> needed "param_type" text fields <*>
    orElse "description" text "" fields <*> orElse "default" optionalText none fields

def Descriptor.ofFields (fields : Fields) : Checked Descriptor :=
  Descriptor.mk <$> needed "method" methodName fields <*>
    needed "path" (fun v => (text v).ensure pathFault) fields <*>
    orElse "handler_names" (listOf text) [] fields <*>
    orElse "source_position" integer 0 fields <*> orElse "file" text "" fields <*>
    needed "summary" text fields <*> orElse "description" text "" fields <*>
    orElse "parameters" (listOf (record "Param" Param.ofFields)) [] fields <*>
    needed "responses" (fun v => (textMapping v).ensure responsesFault) fields <*>
    orElse "tags" (listOf text) [] fields <*> orElse "security" (listOf text) [] fields <*>
    needed "operation_id" text fields <*> orElse "documented" flag false fields

namespace Field

def ofTexts (texts : List String) : Value := .list (texts.map .str)
def ofOptional : Option String → Value
  | some s => .str s
  | none => .null
def ofMapping (m : List (String × String)) : Value := .map (m.map fun p => (.str p.1, .str p.2))
def ofNamed (fields : List (String × Value)) : Fields := fields.map fun p => (.str p.1, p.2)

end Field

def RouteFact.toFields (f : RouteFact) : Fields := ofNamed [
  ("method", .str f.method.name), ("path", .str f.path), ("handler_names", ofTexts f.handlers),
  ("source_position", .int f.position), ("file", .str f.file)]

def DocParam.toFields (p : DocParam) : Fields := ofNamed [
  ("name", .str p.name), ("type", .str p.type), ("required", .bool p.required),
  ("description", .str p.description), ("default", ofOptional p.default)]

def DocFact.toFields (f : DocFact) : Fields := ofNamed [
  ("summary", .str f.summary), ("description", .str f.description),
  ("explicit_path", ofOptional f.explicitPath),
  ("parameters", .list (f.parameters.map fun p => .map p.toFields)),
  ("responses", ofMapping f.responses), ("tags", ofTexts f.tags),
  ("security", ofTexts f.security), ("comment_end_position", .int f.endPosition)]

def Param.toFields (p : Param) : Fields := ofNamed [
  ("name", .str p.name), ("location", .str p.location), ("required", .bool p.required),
  ("param_type", .str p.type), ("description", .str p.description),
  ("default", ofOptional p.default)]

def Descriptor.toFields (d : Descriptor) : Fields := ofNamed [
  ("method", .str d.method.name), ("path", .str d.path), ("handler_names", ofTexts d.handlers),
  ("source_position", .int d.position), ("file", .str d.file), ("summary", .str d.summary),
  ("description", .str d.description),
  ("parameters", .list (d.parameters.map fun p => .map p.toFields)),
  ("responses", ofMapping d.responses), ("tags", ofTexts d.tags),
  ("security", ofTexts d.security), ("operation_id", .str d.operationId),
  ("documented", .bool d.documented)]

end RouteBook

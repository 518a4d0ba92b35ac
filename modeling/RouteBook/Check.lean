import RouteBook.Json.Reader
import RouteBook.Method
import RouteBook.Text.Blank
import RouteBook.Yaml.Load

/-! Checks on finished documents: each encoding is read again, and every operation of the API
document must have a heading in the Markdown document. -/
namespace RouteBook.Check

inductive Fault where
  | json (message : String)
  /-- A whole number has too many digits. -/
  | bigNumber
  | yaml (e : Yaml.LoadError)
  /-- The document, or its paths, are no mapping. -/
  | notMapping
  /-- The operations of a path cannot be listed, or one of them has no name. -/
  | notListed
deriving Repr, DecidableEq

/-- Texts by file name; reports have the same shape. -/
abbrev Files := List (String × String)

def hasEnding (ending name : String) : Bool :=
  ending.toList.isSuffixOf name.toList

def jsonReport? (text : String) : Except Fault (Option String) :=
  match Json.parse text.toList with
  | .ok _ => .ok none
  | .error f =>
    if f.issue = .tooManyDigits then .error .bigNumber
    else .ok (some ("JSONDecodeError: " ++ f.issue.message ++ " (line " ++
      toString (f.line text.toList) ++ ")"))

def yamlReport? (text : String) : Except Fault (Option String) :=
  match Yaml.load text.toList with
  | .ok _ => .ok none
  | .error .malformed => .ok (some ("YAMLError: " ++ Yaml.LoadError.malformed.message))
  | .error e => .error (.yaml e)

def reports (endings : List String) (report? : String → Except Fault (Option String)) :
    Files → Except Fault Files
  | [] => .ok []
  | (name, text) :: rest => do
    let here ← if endings.any (hasEnding · name) then report? text else pure none
    let more ← reports endings report? rest
    return (here.map fun r => (name, r)).toList ++ more

def json (files : Files) : Except Fault Files := reports [".json"] jsonReport? files

def yaml (files : Files) : Except Fault Files := reports [".yaml", ".yml"] yamlReport? files

/-- The text of a heading of the fourth level that has at least two words. -/
def heading? (line : List Char) : Option String :=
  match line with
  | '#' :: '#' :: '#' :: '#' :: ' ' :: text =>
    let word := text.takeWhile (!Text.isBlank ·)
    match text.drop word.length with
    | ' ' :: _ :: _ => if word.isEmpty then none else some (String.ofList text)
    | _ => none
  | _ => none

def headings (text : String) : List String :=
  (text.toList.splitOn '\n').filterMap heading?

def operationNames : Value → Except Fault (List String)
  | .map entries => .ok (entries.filterMap fun e => nameOf e.1)
  | .list items =>
    if items.all Value.isKey then .ok (items.filterMap nameOf) else .error .notListed
  | .str _ | .halves _ => .ok []
  | _ => .error .notListed
where
  nameOf : Value → Option String
    | .str s => some s
    | _ => none

def methodKeys : List String := Method.all.map Method.key

def pathText : Value → String
  | .str s => s
  | _ => ""

/-- The operations of a document as method and path, in order. -/
def operations : List (Value × Value) → Except Fault (List String)
  | [] => .ok []
  | (path, item) :: rest => do
    let names ← operationNames item
    let more ← operations rest
    return (names.filter methodKeys.contains).map
      (fun n => Text.upper n ++ " " ++ pathText path) ++ more

def pathsOf : Value → Except Fault (List (Value × Value))
  | .map fields => match Pairs.get? (.str "paths") fields with
    | none => .ok []
    | some (.map paths) => .ok paths
    | some _ => .error .notMapping
  | _ => .error .notMapping

/-- The report on operations without a heading. -/
def consistency (files : Files) : Except Fault Files := do
  match Pairs.get? "openapi.json" files, Pairs.get? "API.md" files with
  | some api, some page =>
    match Json.parse api.toList with
    | .error f =>
      if f.issue = .tooManyDigits then throw .bigNumber else throw (.json (f.message api.toList))
    | .ok doc =>
      let known := headings page
      let missing := (← operations (← pathsOf doc)).filter (!known.contains ·)
      return if missing.isEmpty then []
        else [("API.md", "missing sections for " ++ ", ".intercalate missing)]
  | _, _ => return []

/-- All reports; headings are compared only if the encodings are fine. -/
def documents (files : Files) : Except Fault Files := do
  let errors := Pairs.update (← json files) (← yaml files)
  if errors.isEmpty then consistency files else return errors

end RouteBook.Check

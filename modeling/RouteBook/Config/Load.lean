import RouteBook.Config
import RouteBook.FileTree
import RouteBook.Yaml.Load

/-! Reading the settings from a file, and putting the ones from the command line over them. -/
namespace RouteBook.Config

inductive LoadFault where
  | file (e : FileError)
  /-- The file is not UTF-8. -/
  | notUnicode
  | yaml (path : Path) (e : Yaml.LoadError)
  | notMapping (path : Path) (kind : String)
  /-- A name of a setting is no text. -/
  | nameNotText
  | invalid (errors : List FieldError)
deriving Repr, DecidableEq

def LoadFault.message : LoadFault → String
  | file e => e.message
  | notUnicode => "not UTF-8"
  | yaml path e => path.toString ++ ": " ++ e.message
  | notMapping path kind => path.toString ++ ": expected a mapping, got " ++ kind
  | nameNotText => "keywords must be strings"
  | invalid _ => "invalid configuration"

def unifyLineEnds : List Char → List Char
  | '\r' :: '\n' :: s => '\n' :: unifyLineEnds s
  | '\r' :: s => '\n' :: unifyLineEnds s
  | c :: s => c :: unifyLineEnds s
  | [] => []

def ofText (path : Path) (text : List Char) : Except LoadFault Field.Fields :=
  match Yaml.load text with
  | .error e => .error (.yaml path e)
  | .ok .null => .ok []
  | .ok (.map fields) => .ok fields
  | .ok v => .error (.notMapping path v.kindName)

/-- The settings in a file; without a file there are none. -/
def load (fs : FileSystem) (path : Option Path) : Except LoadFault Field.Fields :=
  match path with
  | none => .ok []
  | some p =>
    match fs.exists? p with
    | .error e => .error (.file e)
    | .ok false => .ok []
    | .ok true => match fs.read p with
      | .error e => .error (.file e)
      | .ok bytes => match Text.decode? bytes with
        | none => .error .notUnicode
        | some s => ofText p (unifyLineEnds s)

/-- Settings from the command line; an empty one counts as not given. -/
structure Overrides where
  title : Option String := none
  version : Option String := none
  server : Option String := none
  generatedAt : Option String := none

def Overrides.toFields (o : Overrides) : Field.Fields :=
  let given (s : Option String) : Option String := s.filter (· != "")
  (given o.title).toList.map (fun s => (Value.str "title", Value.str s)) ++
  (given o.version).toList.map (fun s => (Value.str "version", Value.str s)) ++
  (given o.server).toList.map (fun s =>
    (Value.str "servers", Value.list [.map [(.str "url", .str s)]])) ++
  (given o.generatedAt).toList.map (fun s => (Value.str "generated_at", Value.str s))

def isName : Value → Bool
  | .str _ | .halves _ => true
  | _ => false

def build (fields : Field.Fields) (o : Overrides) : Except LoadFault RenderConfig :=
  let fields := Pairs.update fields o.toFields
  if fields.all fun f => isName f.1 then
    match RenderConfig.ofFields fields with
    | .ok c => .ok c
    | .fail errors => .error (.invalid errors)
  else .error .nameNotText

end RouteBook.Config

import RouteBook.Endpoint
import RouteBook.FileTree
import RouteBook.LogRecord
import RouteBook.Pairing
import RouteBook.RouteCalls
import RouteBook.Source.Parser

/-! From source texts to descriptors. A file that cannot be read or parsed costs a warning and
contributes nothing. -/
namespace RouteBook.Extraction

inductive SourceError where
  | notParsed
  /-- A path literal names a character beyond the last one. -/
  | badEscape (line column : Nat)
  /-- A path literal names a number that is too large for a character. -/
  | hugeEscape
  | invalid (errors : List FieldError)
deriving Repr, DecidableEq

def fileLabel (file : String) : String := if file == "" then "<source>" else file

/-- What is wrong with a text, where a reader can do something about it. The place of a syntax
error, which depends on how the parser would go on after it, is left out. -/
def SourceError.report? (file : String) : SourceError → Option String
  | notParsed => some (fileLabel file ++ ": syntax error")
  | badEscape line column =>
    some (fileLabel file ++ ": invalid escape in string at line " ++ toString line ++
      ", column " ++ toString column ++ ": chr() arg not in range(0x110000)")
  | _ => none

def parse (source : List UInt8) (file : String) : Except SourceError Source.Tree :=
  match Source.parse? (Source.Dialect.ofFile (fileLabel file)) source with
  | some t => .ok t
  | none => .error .notParsed

def lineColumn (source : List UInt8) (offset : Nat) : Nat × Nat :=
  let before := source.take offset
  (before.count 10 + 1, (before.reverse.takeWhile (· != 10)).length + 1)

def routesIn (source : List UInt8) (file : String) (t : Source.Tree) :
    Except SourceError (List RouteFact) :=
  match RouteCalls.find file t with
  | .ok routes => .ok routes
  | .error ⟨start, .outOfRange⟩ =>
    let (line, column) := lineColumn source start
    .error (.badEscape line column)
  | .error ⟨_, .tooLarge⟩ => .error .hugeEscape

def routes (source : List UInt8) (file : String) : Except SourceError (List RouteFact) := do
  routesIn source file (← parse source file)

def docs (source : List UInt8) (file : String) : Except SourceError (List DocFact) := do
  return RouteCalls.docs (← parse source file)

def fromSource (source : List UInt8) (file : String) : Except SourceError (List Descriptor) := do
  let tree ← parse source file
  let found ← routesIn source file tree
  (Pairing.pair found (RouteCalls.docs tree)).mapM fun (route, doc) =>
    match Endpoint.normalize route doc with
    | .ok d => .ok d
    | .fail errors => .error (.invalid errors)

inductive Failure where
  | noFiles
  | noRoutes
  /-- A path that cannot be handed on. -/
  | badName
  | source (e : SourceError)
deriving Repr, DecidableEq

def Failure.message? : Failure → Option String
  | noFiles => some "No route files found"
  | noRoutes => some "No routes found"
  | _ => none

abbrev Outcome := Except String (List Descriptor)

def fromFile (fs : FileSystem) (file : String) : Except Failure Outcome :=
  match fs.read (Path.ofString file) with
  | .error .badName => .error .badName
  | .error e => .ok (.error (file ++ ": " ++ e.message))
  | .ok source =>
    match fromSource source file with
    | .ok ds => .ok (.ok ds)
    | .error e => match e.report? file with
      | some report => .ok (.error report)
      | none => .error (.source e)

def record (file : String) : Outcome → LogRecord
  | .ok ds =>
    ⟨.debug, .extraction, file ++ ": " ++ toString ds.length ++ " routes"⟩
  | .error warning => ⟨.warning, .extraction, "Failed to parse " ++ warning⟩

structure Result where
  descriptors : List Descriptor
  warnings : List String

structure Survey where
  outcomes : List (String × Outcome) := []
  failure? : Option Failure := none

def survey (fs : FileSystem) : List String → Survey
  | [] => {}
  | file :: rest =>
    match fromFile fs file with
    | .error e => { failure? := some e }
    | .ok o =>
      let more := survey fs rest
      { more with outcomes := (file, o) :: more.outcomes }

namespace Survey

def logs (s : Survey) : List LogRecord := s.outcomes.map fun (file, o) => record file o

def found (s : Survey) : List Descriptor := s.outcomes.flatMap fun (_, o) => o.toOption.getD []

def warnings (s : Survey) : List String := s.outcomes.filterMap fun
  | (_, .ok _) => none
  | (_, .error w) => some w

/-- The descriptors of all files, in the order of the files. -/
def result (s : Survey) : Except Failure Result :=
  match s.failure? with
  | some e => .error e
  | none =>
    if s.outcomes.isEmpty then .error .noFiles
    else if s.found.isEmpty then .error .noRoutes
    else .ok ⟨OperationId.assign s.found, s.warnings⟩

end Survey

end RouteBook.Extraction

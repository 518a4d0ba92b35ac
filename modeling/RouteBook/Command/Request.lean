import RouteBook.Bundle
import RouteBook.Command.Usage
import RouteBook.FileTree
import RouteBook.LogRecord
import RouteBook.Number.Numeral
import RouteBook.RouteFiles

/-! What a command line asks for. -/
namespace RouteBook.Command

inductive Refusal where
  | usage (e : UsageError)
  /-- No argument at all, which is answered with an overview. -/
  | overview
  | help (text : String)
  /-- A path that cannot be handed on. -/
  | badName
deriving Repr, DecidableEq

structure Generation where
  project : Path
  output : Path := ⟨"", ["api-docs"]⟩
  formats : List Bundle.Format := Bundle.Format.all
  config : Option Path := none
  pattern : String := RouteFiles.defaultPattern
  title : Option String := none
  version : Option String := none
  server : Option String := none
  /-- How many files may be read at the same time; the result does not depend on it. -/
  workers : Nat := 1
  stamped : Bool := false
deriving Repr, DecidableEq

inductive Task where
  | generate (g : Generation)
  | list (project : Path) (pattern : String)

structure Request where
  level : LogLevel := .warning
  task : Task

inductive TopKey where
  | logLevel | help
deriving Repr, DecidableEq

def topOptions : List (OptionName TopKey) :=
  [{ key := .logLevel, name := "--log-level" },
   { key := .help, name := "--help", fixed? := some "" }]

inductive TaskKey where
  | output | format | config | pattern | title | version | server | workers | timestamp | help
deriving Repr, DecidableEq

def helpOption : OptionName TaskKey := { key := .help, name := "--help", fixed? := some "" }

def listOptions : List (OptionName TaskKey) :=
  [{ key := .pattern, name := "--pattern" }, helpOption]

def stampOn : String := "on"

def generateOptions : List (OptionName TaskKey) :=
  [{ key := .output, name := "-o" }, { key := .output, name := "--output" },
   { key := .format, name := "-f" }, { key := .format, name := "--format" },
   { key := .config, name := "-c" }, { key := .config, name := "--config" },
   { key := .pattern, name := "--pattern" },
   { key := .title, name := "--title" },
   { key := .version, name := "--version" },
   { key := .server, name := "--server" },
   { key := .workers, name := "--workers" },
   { key := .timestamp, name := "--timestamp", fixed? := some stampOn },
   { key := .timestamp, name := "--no-timestamp", fixed? := some "" },
   helpOption]

def projectLabel : String := "'PROJECT'"

def listSummary : String := "List the routes found in a project without rendering anything."

def generateSummary : String := "Generate OpenAPI, Markdown and HTML documentation."

def overviewText : String :=
  "Usage: [OPTIONS] COMMAND [ARGS]...\n\nOptions:\n  --log-level LEVEL\n  --help\n\nCommands:\n" ++
  "  generate  " ++ generateSummary ++ "\n  routes    " ++ listSummary

def helpText (command summary : String) (options : List (OptionName TaskKey)) : String :=
  "Usage: " ++ command ++ " [OPTIONS] PROJECT\n\n  " ++ summary ++ "\n\nOptions:" ++
    String.join (options.map fun o => "\n  " ++ o.name)

def readPath (value : String) : Except Refusal Path :=
  if value.toList.contains '\x00' then .error .badName else .ok (Path.ofString value)

def asksForDir (value : String) : Bool :=
  match value.toList.reverse with
  | '/' :: _ | '.' :: '/' :: _ => true
  | _ => false

def readProject (fs : FileSystem) (value : String) : Except Refusal Path := do
  let p ← readPath value
  if value == "" then throw (.usage (.noDirectory projectLabel value))
  match fs.find p with
  | .error _ => throw (.usage (.noDirectory projectLabel value))
  | .ok (.dir _) => return p
  | .ok (.file _) =>
    if asksForDir value then throw (.usage (.noDirectory projectLabel value))
    else throw (.usage (.isFile projectLabel value))

def formatChoices : List (String × List Bundle.Format) :=
  ("all", Bundle.Format.all) :: Bundle.Format.all.map fun f => (f.name, [f])

def readChoice {α : Type} (label : String) (choices : List (String × α)) (value : String) :
    Except Refusal α :=
  match Pairs.get? value choices with
  | some a => .ok a
  | none => .error (.usage (.notAmong label value (Pairs.keys choices)))

def readCount (label value : String) : Except Refusal Nat :=
  match Number.readInt? 10 value.toList with
  | none => .error (.usage (.notNumber label value))
  | some n => if n < 1 then .error (.usage (.belowOne label n)) else .ok n.toNat

def Generation.set (g : Generation) (option : TaskKey × String) : Except Refusal Generation :=
  let (key, value) := option
  match key with
  | .output => return { g with output := ← readPath value }
  | .format =>
    return { g with formats := ← readChoice (label generateOptions key) formatChoices value }
  | .config => return { g with config := some (← readPath value) }
  | .pattern => return { g with pattern := value }
  | .title => return { g with title := some value }
  | .version => return { g with version := some value }
  | .server => return { g with server := some value }
  | .workers => return { g with workers := ← readCount (label generateOptions key) value }
  | .timestamp => return { g with stamped := value == stampOn }
  | .help => return g

/-- The one operand of a task; options are looked at before it and left-over operands after it. -/
def withProject {α : Type} (fs : FileSystem) (operands : List String) (task : Path → α) :
    Except Refusal α :=
  match operands with
  | [] => .error (.usage (.operandMissing projectLabel))
  | value :: rest => do
    let project ← readProject fs value
    if rest.isEmpty then return task project
    else throw (.usage (.operandsLeft rest))

def orRefuse {α : Type} (r : Except UsageError α) : Except Refusal α :=
  match r with
  | .ok a => .ok a
  | .error e => .error (.usage e)

def readGenerate (fs : FileSystem) (args : List String) : Except Refusal Task := do
  let given ← orRefuse (readArguments generateOptions true args)
  if (Pairs.get? .help given.options).isSome then
    throw (.help (helpText "generate" generateSummary generateOptions))
  let g ← given.settled.foldlM Generation.set { project := {} }
  withProject fs given.operands fun project => .generate { g with project }

def readList (fs : FileSystem) (args : List String) : Except Refusal Task := do
  let given ← orRefuse (readArguments listOptions true args)
  if (Pairs.get? .help given.options).isSome then
    throw (.help (helpText "routes" listSummary listOptions))
  let pattern := (Pairs.get? .pattern given.settled).getD RouteFiles.defaultPattern
  withProject fs given.operands fun project => .list project pattern

def levelChoices : List (String × LogLevel) := LogLevel.all.map fun l => (l.name, l)

def readTop (args : List String) : Except Refusal (LogLevel × List String) := do
  let given ← orRefuse (readArguments topOptions false args)
  if (Pairs.get? .help given.options).isSome then throw (.help overviewText)
  let level ← match Pairs.get? .logLevel given.settled with
    | none => pure LogLevel.warning
    | some value => readChoice (label topOptions .logLevel) levelChoices value
  return (level, given.operands)

def commands : List (String × (FileSystem → List String → Except Refusal Task)) :=
  [("generate", readGenerate), ("routes", readList)]

/-- What a whole command line asks for. What stands in the place of the command and looks like an
option is first read as one. -/
def readRequest (fs : FileSystem) (args : List String) : Except Refusal Request := do
  if args.isEmpty then throw .overview
  let (level, rest) ← readTop args
  match rest with
  | [] => throw (.usage .commandMissing)
  | name :: rest => match Pairs.get? name commands with
    | some read => return { level, task := ← read fs rest }
    | none => do
      if isOption name then discard (readTop (name :: rest))
      throw (.usage (.noSuchCommand name (Text.nearest name (Pairs.keys commands))))

end RouteBook.Command

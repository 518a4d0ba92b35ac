import RouteBook.Command.Session
import RouteBook.Publication

/-! The program as a function of its command line, the files and the time. -/
namespace RouteBook.Command
open Run

def extract (level : LogLevel) (project : Path) (pattern : String) :
    Run (List Path × List Descriptor) := do
  let fs := (← get).files
  let files ← ofExcept .glob (RouteFiles.find fs project pattern)
  let survey := Extraction.survey fs (files.map (·.toString))
  log level survey.logs
  let result ← ofExcept .extraction survey.result
  result.warnings.forM fun w => printError ("Warning: failed to parse " ++ w)
  return (files, result.descriptors)

def settings (fs : FileSystem) (now : String) (g : Generation) :
    Except Config.LoadFault RenderConfig := do
  Config.build (← Config.load fs g.config)
    { title := g.title, version := g.version, server := g.server,
      generatedAt := if g.stamped then some now else none }

def publish (documents : Bundle.Documents) (output : Path) : Run Unit := do
  let (r, fs) := (Publication.publish documents output).run (← get).files
  modify fun s => { s with files := fs }
  ofExcept .file r
  (Publication.paths documents output).forM fun p => print ("  Created " ++ p.toString)

def generate (level : LogLevel) (now : String) (g : Generation) : Run Unit := do
  let config ← ofExcept .config (settings (← get).files now g)
  print ("Scanning " ++ g.project.toString ++ " for " ++ g.pattern ++ "...")
  let (files, descriptors) ← extract level g.project g.pattern
  print ("Found " ++ toString descriptors.length ++ " routes in " ++ toString files.length ++
    " files.")
  let formats := ", ".intercalate (g.formats.map (·.name))
  print ("Generating " ++ formats ++ " documentation...")
  let (documents, records) := Bundle.renderFormats descriptors config g.formats
  log level records
  let reports ← ofExcept .check (Check.documents documents)
  reports.forM fun (file, error) =>
    printError ("  Validation error in " ++ file ++ ": " ++ error)
  publish documents g.output
  print ""
  print "Summary:"
  print ("  Routes found: " ++ toString descriptors.length)
  print ("  Files processed: " ++ toString files.length)
  print ("  Output formats: " ++ formats)
  print ("  Output directory: " ++ g.output.toString)

def padRight (width : Nat) (s : String) : String :=
  s ++ String.ofList (List.replicate (width - s.length) ' ')

def listRoutes (level : LogLevel) (project : Path) (pattern : String) : Run Unit := do
  let (_, descriptors) ← extract level project pattern
  descriptors.forM fun d =>
    print (padRight 7 d.method.name ++ " " ++ d.path ++ "  " ++ d.file)

def perform (now : String) (r : Request) : Run Unit :=
  match r.task with
  | .generate g => generate r.level now g
  | .list project pattern => listRoutes r.level project pattern

structure Outcome where
  session : Session
  halt? : Option Halt

def Outcome.exitCode (o : Outcome) : Nat := (o.halt?.map Halt.exitCode).getD 0

def Session.close (s : Session) : Halt → Session
  | .refused (.help text) => { s with output := s.output ++ printed text }
  | h => match h.report? with
    | some text => { s with errors := s.errors ++ printed text }
    | none => s

def run (now : String) (args : List String) (fs : FileSystem) : Outcome :=
  let act : Run Unit := do perform now (← ofExcept .refused (readRequest fs args))
  match act.run { files := fs } with
  | (.ok _, s) => ⟨s, none⟩
  | (.error h, s) => ⟨s.close h, some h⟩

end RouteBook.Command
